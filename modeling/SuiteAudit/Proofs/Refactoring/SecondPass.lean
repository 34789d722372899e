import SuiteAudit.Proofs.Literal.TextLines
import SuiteAudit.Proofs.Refactoring.CommentLines
import SuiteAudit.Proofs.Refactoring.WaitsLeft

/-! # A second pass

The new text of a file is a file again.  Its fixed waits are the ones that got no name, and those
that stand in a declared value (`wait_cases`), so that all their numerals are readable and the second
pass never fails.  Its comments are complete.  So a second pass changes nothing exactly when it finds
no name to give.  It finds one as soon as the first pass declared any test data, since the
declaration holds that data as a literal; what else it finds are the texts that read like test data
once the waits of the first pass are named (`second_pass_eq_iff`). -/

namespace SuiteAudit
namespace Extraction

open Literal

variable {content : Text} {e : Extraction} {d w : Text}

theorem isNameText_of_mem (he : ofText content {} = .ok e) {n : Text}
    (hn : n ∈ e.timeouts.values ++ e.data.values) : IsNameText n := by
  rcases name_cases he hn with hn | hn
  · cases hn
  · exact hn.isNameText

/-! ### Waits in the new text -/

/-- Comments make no wait. -/
theorem wait_of_commented (hw : IsWait d w) {all rest out : List Text} {index : Nat}
    (hc : Comments.Commented all index rest out) : ∀ done : List Text,
      w <:+: Text.joinLines (done ++ out) → w <:+: Text.joinLines (done ++ rest) := by
  induction hc with
  | nil => exact fun _ h => h
  | @keep index line rest out _ _ ih =>
      intro done h
      rw [List.append_cons] at h ⊢
      exact ih _ h
  | @comment index line new rest out hnew _ ih =>
      intro done h
      obtain ⟨indent, text, hi, ht, rfl⟩ := hnew
      have hindent : ')' ∉ indent := fun hm => by
        have := (hi _ hm).1
        revert this
        decide
      have htext : '(' ∉ '/' :: ' ' :: text := by
        simp only [List.mem_cons, not_or]
        refine ⟨by decide, by decide, fun hm => ?_⟩
        rcases ht _ hm with h | h <;> revert h <;> decide
      have h : w <:+: Text.joinLines (done ++ ([] ++ (indent ++ '/' :: '/' :: ' ' :: text) :: []) ++
          line :: out) := by
        simpa using h
      have hno : ∀ l ∈ ([] : List Text), IsClosed l := fun l hl => by cases hl
      rcases hw.of_insert (fun l hl => by cases hl) hindent htext hno h with ⟨l, hl, -⟩ | h
      · cases hl
      · rw [List.append_cons] at h ⊢
        exact ih _ h

/-- The same for the new text with its comments. -/
theorem wait_cases (he : ofText content {} = .ok e) (hw : IsWait d w)
    (h : w <:+: (Comments.add (e.newText content)).1) : (∃ p ∈ e.data, w <:+: p.1) ∨
      e.timeouts.get? d = none ∧ ∃ hit ∈ timeoutCall.findAll content, hit.group 1 = d := by
  obtain ⟨out, hout, hc⟩ := Comments.exists_commented (e.newText content)
  rw [hout] at h
  have := wait_of_commented hw hc [] h
  rw [List.nil_append, Text.joinLines_lines] at this
  exact wait_of_newText he (fun _ => isNameText_of_mem he) hw this

/-- Every numeral of a wait in the new text is readable. -/
theorem readable_of_wait (he : ofText content {} = .ok e) (hw : IsWait d w)
    (h : w <:+: (Comments.add (e.newText content)).1) : ∃ ms, readNumeral d = .ok ms := by
  have hread : (∃ hit ∈ timeoutCall.findAll content, hit.group 1 = d) →
      ∃ ms, readNumeral d = .ok ms := by
    rintro ⟨hit, hm, rfl⟩
    exact (holds_of_ofText he).readable hit hm
  rcases wait_cases he hw h with ⟨p, hp, hin⟩ | ⟨-, hhit⟩
  · obtain ⟨-, q, -, hq⟩ := exists_quote_of_mem he hp
    have hv : p.1 <:+: quote q p.1 := ⟨[q], [q], by simp [quote]⟩
    obtain ⟨hit, hm, hd, -⟩ := exists_hit_of_infix hw (hin.trans (hv.trans hq))
    exact hread ⟨hit, hm, hd⟩
  · exact hread hhit

/-- A long wait in the new text stands in a declared value. -/
theorem exists_data_of_longWait (he : ofText content {} = .ok e) (hw : IsWait d w)
    (h : w <:+: (Comments.add (e.newText content)).1) (hlong : IsLongWait d) :
    ∃ p ∈ e.data, w <:+: p.1 := by
  refine (wait_cases he hw h).resolve_right ?_
  rintro ⟨hnone, hhit⟩
  have hhas := ((holds_of_ofText he).timeouts_iff d).mpr ⟨hhit, hlong⟩
  rw [Table.has, hnone] at hhas
  cases hhas

/-! ### The second pass succeeds -/

theorem exists_foldlM (content : Text) : ∀ (hits : List Hit) (e : Extraction),
    (∀ hit ∈ hits, ∃ ms, readNumeral (hit.group 1) = .ok ms) →
    ∃ e', hits.foldlM (addTimeout content) e = .ok e'
  | [], e, _ => ⟨e, rfl⟩
  | hit :: hits, e, h => by
      obtain ⟨ms, hr⟩ := h hit List.mem_cons_self
      obtain ⟨e', he'⟩ : ∃ e', addTimeout content e hit = .ok e' := by
        simp only [addTimeout, hr]
        split
        · exact ⟨_, rfl⟩
        · exact ⟨_, rfl⟩
      rw [List.foldlM_cons, he']
      exact exists_foldlM content hits e' fun g hg => h g (List.mem_cons_of_mem hit hg)

/-- Names are found whenever all numerals of waits are readable. -/
theorem exists_ofText (context : Context)
    (h : ∀ hit ∈ timeoutCall.findAll content, ∃ ms, readNumeral (hit.group 1) = .ok ms) :
    ∃ e, ofText content context = .ok e := by
  obtain ⟨e, he⟩ := exists_foldlM content _ (start context) h
  unfold ofText
  rw [he]
  exact ⟨_, rfl⟩

theorem exists_second (he : ofText content {} = .ok e) :
    ∃ e', ofText (Comments.add (e.newText content)).1 {} = .ok e' := by
  refine exists_ofText {} fun hit hm => ?_
  obtain ⟨d, w, o, hw, hin, rfl⟩ := exists_of_mem_timeoutCall hm
  exact readable_of_wait he hw hin

/-! ### Quoted texts in the new text -/

theorem found_add (content : Text) : found (Comments.add content).1 = found content := by
  obtain ⟨out, hout, hc⟩ := Comments.exists_commented content
  have key : ∀ {all rest out : List Text} {index : Nat}, Comments.Commented all index rest out →
      out.flatMap found = rest.flatMap found := by
    intro all rest out index h
    induction h with
    | nil => rfl
    | keep _ _ ih => rw [List.flatMap_cons, List.flatMap_cons, ih]
    | comment hnew _ ih =>
        have hmark : found _ = [] := found_of_not_mark fun c hc => by
          refine Bool.eq_false_iff.mpr fun hm => ?_
          rcases isMark_iff.mp hm with rfl | rfl <;>
            exact hnew.not_mem (by decide) (by decide) (by decide) (by decide) hc
        rw [List.flatMap_cons, List.flatMap_cons, List.flatMap_cons, ih, hmark, List.nil_append]
  rw [hout, found_joinLines, key hc, ← found_joinLines, Text.joinLines_lines]

/-- The declarations of waits hold no marks. -/
theorem found_of_definition (he : ofText content {} = .ok e) (hd : e.data = []) {q : Quotes}
    {l : Text} (hl : IsDefinition e q l) : found l = [] := by
  have hmark : '\'' ∉ l ∧ '"' ∉ l := by
    cases hl with
    | blank => exact ⟨List.not_mem_nil, List.not_mem_nil⟩
    | timeouts => decide
    | data => decide
    | datum hp => rw [hd] at hp; cases hp
    | @timeout p hp =>
        have hname := isNameText_of_mem he (mem_names_of_mem_timeouts hp)
        obtain ⟨-, u, hu, -⟩ := exists_wait_of_mem he hp
        exact ⟨not_mem_declaration (by decide) (hname.not_mem (by decide))
            (hu.not_mem_numeral (by decide)),
          not_mem_declaration (by decide) (hname.not_mem (by decide))
            (hu.not_mem_numeral (by decide))⟩
  refine found_of_not_mark fun c hc => Bool.eq_false_iff.mpr fun hm => ?_
  rcases isMark_iff.mp hm with rfl | rfl
  · exact hmark.1 hc
  · exact hmark.2 hc

/-- Without test data, what is found in the new text is what is found once the waits are named. -/
theorem found_newText_of_data_nil (he : ofText content {} = .ok e) (hd : e.data = []) :
    found (e.newText content) = found (e.waitsNamed content) := by
  cases hne : e.timeouts.isEmpty && e.data.isEmpty with
  | true =>
      rw [newText_of_isEmpty content hne]
      rw [Bool.and_eq_true, List.isEmpty_iff] at hne
      rw [waitsNamed_of_timeouts_nil hne.1]
  | false =>
      obtain ⟨pre, blank, post, hlines, hblank, hnew⟩ := exists_newText content hne
      have hblock : (blank ++ e.declarations (CodeStyle.quotesOf content)).flatMap found = [] := by
        refine List.flatMap_eq_nil_iff.mpr fun l hl => ?_
        rcases List.mem_append.mp hl with hl | hl
        · rw [hblank l hl]
          rfl
        · exact found_of_definition he hd (isDefinition_of_mem hl)
      rw [hnew, found_joinLines, List.flatMap_append, List.flatMap_append, hblock, List.append_nil,
        ← List.flatMap_append, ← hlines, ← found_joinLines, Text.joinLines_lines,
        replaceValues_of_data_nil hd]

/-- Declared test data is found again in the new text. -/
theorem exists_found_of_mem_data (he : ofText content {} = .ok e) {p : Text × Text}
    (hp : p ∈ e.data) : ∃ x ∈ found (e.newText content),
      looksLikeTestData ((x.2.lookup 2).getD []) = true := by
  have hne : (e.timeouts.isEmpty && e.data.isEmpty) = false := by
    cases hd : e.data with
    | nil => rw [hd] at hp; cases hp
    | cons _ _ => rw [List.isEmpty_cons, Bool.and_false]
  obtain ⟨pre, blank, post, -, -, hnew⟩ := exists_newText content hne
  obtain ⟨hdata, q', hlong, -⟩ := exists_quote_of_mem he hp
  have hname := isNameText_of_mem he (mem_names_of_mem_data hp)
  have hmark : ∀ c ∈ ("const " ++ p.2 ++ " = " : Text), isMark c = false := by
    have hfront : ∀ c ∈ ("const " : Text), isMark c = false := Text.forall_mem_of_all (by decide)
    have hback : ∀ c ∈ (" = " : Text), isMark c = false := Text.forall_mem_of_all (by decide)
    intro c hc
    simp only [List.mem_append] at hc
    rcases hc with (hc | hc) | hc
    · exact hfront c hc
    · refine Bool.eq_false_iff.mpr fun hm => ?_
      rcases isMark_iff.mp hm with rfl | rfl <;> exact hname.not_mem (by decide) hc
    · exact hback c hc
  let q := CodeStyle.quotesOf content
  have hlong' : IsLong q.mark (doubled p.1) :=
    ⟨by cases q <;> rfl, hlong.doubled.plain, hlong.doubled.long⟩
  have hfound : (quote q.mark (doubled p.1), [(2, doubled p.1), (1, [q.mark])]) ∈
      found (declaration p.2 (q.literal p.1)) := by
    rw [literal_eq_quote q fun c hc => hlong.not_mark_mem hc, declaration_quote,
      found_append_of_not_mark _ hmark]
    have := found_quote hlong' (";" : Text)
    rw [quote, List.cons_append, List.append_assoc] at this
    rw [List.singleton_append] at this
    rw [this]
    exact List.mem_cons_self
  refine ⟨(quote q.mark (doubled p.1), [(2, doubled p.1), (1, [q.mark])]), ?_,
    looksLikeTestData_doubled hdata⟩
  rw [hnew, found_joinLines]
  refine List.mem_flatMap.mpr ⟨_, ?_, hfound⟩
  exact List.mem_append_left _ (List.mem_append_right _ (List.mem_append_right _
    (mem_declarations_of_mem_data q hp)))

/-- What holds of the values of all hits, told of what is found. -/
theorem forall_hit_iff {t : Text} {P : Text → Prop} :
    (∀ hit ∈ longText.findAll t, P (hit.group 2)) ↔
      ∀ x ∈ found t, P ((x.2.lookup 2).getD []) := by
  simp only [found, List.forall_mem_map]
  rfl

/-- No test data has a name exactly when none was found. -/
theorem data_eq_nil_iff {context : Context} (he : ofText content context = .ok e) :
    e.data = [] ↔ ∀ hit ∈ longText.findAll content, looksLikeTestData (hit.group 2) = false := by
  have h := (holds_of_ofText he).data_iff
  constructor
  · intro hd hit hm
    refine Bool.eq_false_iff.mpr fun hl => ?_
    have := (h (hit.group 2)).mpr ⟨⟨hit, hm, rfl⟩, hl⟩
    rw [hd] at this
    cases this
  · intro hall
    cases hd : e.data with
    | nil => rfl
    | cons p data =>
        have hp : p ∈ e.data := by rw [hd]; exact List.mem_cons_self
        obtain ⟨⟨hit, hm, hv⟩, hl⟩ :=
          (h p.1).mp (Table.has_iff.mpr (Table.exists_get?_of_mem hp))
        rw [← hv, hall hit hm] at hl
        cases hl

/-! ### What a second pass changes -/

/-- A named wait of the second pass is on one line, as the declared value that it stands in. -/
theorem count_newline_replaceValues {e' : Extraction} (he : ofText content {} = .ok e)
    (he' : ofText (Comments.add (e.newText content)).1 {} = .ok e') :
    (e'.replaceValues (Comments.add (e.newText content)).1).count '\n' =
      (Comments.add (e.newText content)).1.count '\n' := by
  have hcount : ∀ {t : Text}, '\n' ∉ t → t.count '\n' = 0 := List.count_eq_zero.mpr
  have hname : ∀ {n : Text}, n ∈ e'.timeouts.values ++ e'.data.values → '\n' ∉ n := fun hn =>
    (isNameText_of_mem he' hn).not_mem (by decide)
  unfold replaceValues
  rw [Pattern.count_replaceAll longText_advances, Pattern.count_replaceAll timeoutCall_advances]
  · intro hit hm
    obtain ⟨d, w, o, hw, hin, rfl⟩ := exists_of_mem_timeoutCall hm
    cases hg : e'.timeouts.get? d with
    | none => rw [replaceTimeout_of_none hg, waitHit_text]
    | some name =>
        have hmem := Table.mem_of_get? hg
        obtain ⟨p, hp, hwp⟩ := exists_data_of_longWait he hw hin (exists_wait_of_mem he' hmem).1
        obtain ⟨-, q, hlong, -⟩ := exists_quote_of_mem he hp
        have hline : '\n' ∉ w := fun hn => hlong.newline_not_mem_value (hwp.subset hn)
        have hn := hname (mem_names_of_mem_timeouts hmem)
        rw [replaceTimeout_of_some hg, waitHit_text, hcount hline, hcount]
        simp only [List.mem_append, List.mem_singleton, not_or]
        exact ⟨by decide, hn, by decide⟩
  · intro hit hm
    obtain ⟨a, q, v, r, hv, -, rfl⟩ := exists_of_mem_longText hm
    rw [replaceData, quoteHit_value, quoteHit_text]
    cases hg : e'.data.get? v with
    | none => rfl
    | some name =>
        have hmem := Table.mem_of_get? hg
        rw [Option.getD_some, hcount hv.newline_not_mem]
        exact hcount (hname (mem_names_of_mem_data hmem))

/-- A second pass that gives names adds lines. -/
theorem length_lines_lt {e' : Extraction} (he : ofText content {} = .ok e)
    (he' : ofText (Comments.add (e.newText content)).1 {} = .ok e')
    (hne : (e'.timeouts.isEmpty && e'.data.isEmpty) = false) :
    (Text.lines (Comments.add (e.newText content)).1).length <
      (Text.lines (Comments.add (e'.newText (Comments.add (e.newText content)).1)).1).length := by
  obtain ⟨pre, blank, post, hlines, -, hnew⟩ := exists_newText _ hne
  obtain ⟨head, rest, -, hdecl⟩ := exists_declarations_cons
    (CodeStyle.quotesOf (Comments.add (e.newText content)).1) hne
  obtain ⟨out, hout, hc⟩ :=
    Comments.exists_commented (e'.newText (Comments.add (e.newText content)).1)
  have h₁ := hc.sublist.length_le
  have h₂ := Text.length_le_length_lines_joinLines out
  have h₃ := Text.length_le_length_lines_joinLines (pre ++ (blank ++
    e'.declarations (CodeStyle.quotesOf (Comments.add (e.newText content)).1)) ++ post)
  have h₄ := congrArg List.length hlines
  rw [Text.length_lines, count_newline_replaceValues he he', ← Text.length_lines] at h₄
  rw [← hnew, hdecl] at h₃
  simp only [List.length_append, List.length_cons] at h₃ h₄
  rw [hout]
  omega

/-- Without a name there is nothing to do in a second pass but to add comments, and none lacks. -/
theorem second_newText_eq {e' : Extraction}
    (hne : (e'.timeouts.isEmpty && e'.data.isEmpty) = true) :
    (Comments.add (e'.newText (Comments.add (e.newText content)).1)).1 =
      (Comments.add (e.newText content)).1 := by
  rw [newText_of_isEmpty _ hne, Comments.add_add]

/-- The second pass finds no name to give exactly when there is no test data, before or once the
waits are named. -/
theorem second_isEmpty_iff {e' : Extraction} (he : ofText content {} = .ok e)
    (he' : ofText (Comments.add (e.newText content)).1 {} = .ok e') :
    (e'.timeouts.isEmpty && e'.data.isEmpty) = true ↔
      (∀ hit ∈ longText.findAll content, looksLikeTestData (hit.group 2) = false) ∧
      ∀ hit ∈ longText.findAll (e.waitsNamed content), looksLikeTestData (hit.group 2) = false := by
  rw [Bool.and_eq_true, List.isEmpty_iff, List.isEmpty_iff, ← data_eq_nil_iff he,
    data_eq_nil_iff he', forall_hit_iff (P := fun v => looksLikeTestData v = false), found_add,
    forall_hit_iff (P := fun v => looksLikeTestData v = false)]
  constructor
  · rintro ⟨-, hall⟩
    have hd : e.data = [] := by
      cases hd : e.data with
      | nil => rfl
      | cons p data =>
          have hp : p ∈ e.data := by rw [hd]; exact List.mem_cons_self
          obtain ⟨x, hx, hl⟩ := exists_found_of_mem_data he hp
          rw [hall x hx] at hl
          cases hl
    exact ⟨hd, found_newText_of_data_nil he hd ▸ hall⟩
  · rintro ⟨hd, hall⟩
    refine ⟨?_, (found_newText_of_data_nil he hd).symm ▸ hall⟩
    cases ht : e'.timeouts with
    | nil => rfl
    | cons p timeouts =>
        -- a long wait would stand in a declared value, and there is none
        have hp : p ∈ e'.timeouts := by rw [ht]; exact List.mem_cons_self
        obtain ⟨hlong, w, hw, hin⟩ := exists_wait_of_mem he' hp
        obtain ⟨r, hr, -⟩ := exists_data_of_longWait he hw hin hlong
        rw [hd] at hr
        cases hr

end Extraction

namespace Proposal

/-- A second pass over the new text of a file never fails, and it changes nothing exactly when no
long quoted text reads like test data, neither in the file nor in the file with its waits named. -/
theorem second_pass_eq_iff {content path : Text} {p : Proposal}
    (h : ofText content path {} = .ok p) (path' : Text) :
    ∃ e p', Extraction.ofText content {} = .ok e ∧ ofText p.after path' {} = .ok p' ∧
      (p'.after = p.after ↔
        (∀ hit ∈ Literal.longText.findAll content,
          Literal.looksLikeTestData (hit.group 2) = false) ∧
        ∀ hit ∈ Literal.longText.findAll (e.waitsNamed content),
          Literal.looksLikeTestData (hit.group 2) = false) := by
  obtain ⟨e, he, hafter⟩ := after_of_ofText h
  obtain ⟨e', he'⟩ := Extraction.exists_second he
  obtain ⟨p', hp', hafter'⟩ := exists_ofText he' path'
  refine ⟨e, p', he, by rw [hafter, hp'], ?_⟩
  rw [hafter', hafter, ← Extraction.second_isEmpty_iff he he']
  constructor
  · intro heq
    cases hne : e'.timeouts.isEmpty && e'.data.isEmpty with
    | true => rfl
    | false =>
        have := Extraction.length_lines_lt he he' hne
        rw [heq] at this
        exact absurd this (Nat.lt_irrefl _)
  · exact Extraction.second_newText_eq

def waitContent : Text :=
  "test('a', async () => \x7b\n  await page.waitForTimeout(5000);\n\x7d);"

theorem wait_second_pass : ∃ p, ofText waitContent [] {} = .ok p ∧
    ∃ e p', Extraction.ofText waitContent {} = .ok e ∧ ofText p.after [] {} = .ok p' ∧
      (p'.after = p.after ↔
        (∀ hit ∈ Literal.longText.findAll waitContent,
          Literal.looksLikeTestData (hit.group 2) = false) ∧
        ∀ hit ∈ Literal.longText.findAll (e.waitsNamed waitContent),
          Literal.looksLikeTestData (hit.group 2) = false) := by
  have h : (ofText waitContent [] {}).toOption.isSome = true := by decide +kernel
  cases hp : ofText waitContent [] {} with
  | error i => rw [hp] at h; cases h
  | ok p => exact ⟨p, rfl, second_pass_eq_iff hp []⟩

/-- Test data, which is declared as a literal, and a wait over a line end within a quoted text, which
is one line once the wait is named. -/
def changingContents : List Text :=
  ["await page.fill('#field', 'owner password of the shop');",
    "log('waitForTimeout(\n5000) and a password');"]

/-- A second pass changes what the first one wrote. -/
theorem second_pass_changes : changingContents.Forall fun content => ∃ p p',
    ofText content [] {} = .ok p ∧ ofText p.after [] {} = .ok p' ∧ p'.after ≠ p.after := by
  have h : changingContents.all (fun content => (ofText content [] {}).toOption.any fun p =>
      (ofText p.after [] {}).toOption.any fun p' => p'.after ≠ p.after) = true := by
    decide +kernel
  refine List.forall_iff_forall_mem.mpr fun content hc => ?_
  obtain ⟨p, hp, h⟩ := Extraction.exists_ok_of_any (List.all_eq_true.mp h content hc)
  obtain ⟨p', hp', h⟩ := Extraction.exists_ok_of_any h
  exact ⟨p, p', hp, hp', of_decide_eq_true h⟩

end Proposal
end SuiteAudit
