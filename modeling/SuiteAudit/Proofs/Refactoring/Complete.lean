import Mathlib.Data.List.Infix
import SuiteAudit.Proofs.Literal.OtherWaits
import SuiteAudit.Proofs.Refactoring.NamedInStep
import SuiteAudit.Proofs.Refactoring.SharedNames
import SuiteAudit.Proofs.Refactoring.WaitsLeft

/-! # Whether all values are named

The names of a file are given to values of its text, and then its waits are named before its quoted
texts.  A piece of test data with a long wait in it is then no longer the text that got a name: it
stays, its declaration holds the wait, and the change that was recorded for it does not take place.
This is the only way in which a file can be left incomplete (`Extraction.complete_iff`), up to waits
that run over the end of a line with a mark before them. -/

namespace SuiteAudit

/-- A context with names as they are given: made of capitals, and those of waits without a password
in them. -/
structure Context.HasPlainNames (context : Context) : Prop where
  names : ∀ n ∈ context.timeouts.values ++ context.data.values, IsNameText n
  waits : ∀ n ∈ context.timeouts.values, (Literal.anyCase "password").occursIn n = false

theorem Context.hasPlainNames_nil : ({} : Context).HasPlainNames :=
  ⟨fun _ h => by (cases h), fun _ h => by (cases h)⟩

namespace Extraction

open Literal

variable {content : Text} {context : Context} {e : Extraction}

/-! ### What has taken place -/

/-- The characters of a text with names in place of its values; those that were put in carry the text
that they take the place of. -/
def replacedCells (e : Extraction) (content : Text) : List (Char × Option Text) :=
  Pattern.inscribe (some ·.text) (e.nameEdits content) 0
    (Pattern.inscribe (some ·.text) (Pattern.edits e.waitEdit (timeoutCall.findAll content)) 0
      (content.map (·, none)))

theorem map_fst_replacedCells (e : Extraction) (content : Text) :
    (e.replacedCells content).map Prod.fst = e.replaceValues content := by
  rw [replacedCells, Pattern.map_fst_inscribe, Pattern.map_fst_inscribe, Pattern.map_fst_map_mark,
    ← waitsNamed_eq_splice, ← replaceValues_eq_splice]

/-- All values of a file are named: no long wait is left in its new text, what each recorded change
puts in stands in the text in place of what it was put in for, and so does each declared name. -/
structure IsComplete (e : Extraction) (content : Text) : Prop where
  no_longWait : ∀ hit ∈ timeoutCall.findAll (e.newText content), ¬IsLongWait (hit.group 1)
  replaced : ∀ c ∈ e.changes, c.after.map (·, some c.before) <:+: e.replacedCells content
  referenced : ∀ n ∈ e.timeouts.values ++ e.data.values,
    ∃ before, n.map (·, some before) <:+: e.replacedCells content

/-! ### Names of a file -/

theorem isNameText_of_hasPlainNames (hc : context.HasPlainNames)
    (he : ofText content context = .ok e) :
    ∀ n ∈ e.timeouts.values ++ e.data.values, IsNameText n := fun n hn =>
  (name_cases he hn).elim (hc.names n) IsGivenName.isNameText

/-- No name of a wait reads like a password. -/
theorem password_not_in_waitName (hc : context.HasPlainNames)
    (he : ofText content context = .ok e) {n : Text} (hn : n ∈ e.timeouts.values) :
    (anyCase "password").occursIn n = false := by
  rcases waitName_cases he hn with hn | hn
  · exact hc.waits n hn
  · refine Bool.eq_false_iff.mpr fun ho => ?_
    obtain ⟨s, hs, hin⟩ := (anyCase_plain "password").occursIn_iff.mp ho
    obtain ⟨s₁, s₂, g, ⟨c, t, -, hc, rfl, -⟩, -, rfl⟩ := hs
    have hmem : c ∈ n := hin.subset List.mem_cons_self
    have hletter : isLetter 'p' c = true := hc
    have hp : c = 'p' ∨ c = 'P' := by simpa [isLetter] using hletter
    rcases hp with rfl | rfl
    · exact hn.not_mem (by decide) hmem
    · exact hn.not_mem (by decide) hmem

/-! ### A quoted text once its waits are named -/

/-- What a wait holds: its numeral and blanks. -/
def IsGap (x : Text) : Prop := ∀ c ∈ x, Text.isBlank c = true ∨ Text.isDigit c = true

/-- Naming the waits of a text changes what they hold. -/
theorem Named.differs {timeouts : Table Text Text} {v : Text} {u : List (Char × Option Text)}
    (h : Named timeouts v u) : Differs IsGap (· ∈ timeouts.values) v (u.map Prod.fst) := by
  induction h with
  | nil => exact .nil
  | keep _ ih => exact ih.keep
  | @name d w n v u hw hg _ ih =>
      obtain ⟨hd, -, b₁, b₂, hb₁, hb₂, rfl⟩ := hw
      have hgap : IsGap (b₁ ++ (d ++ b₂)) := by
        intro c hc
        simp only [List.mem_append] at hc
        rcases hc with hc | hc | hc
        · exact .inl (hb₁ c hc)
        · exact .inr (hd c hc)
        · exact .inl (hb₂ c hc)
      have hwait := Differs.wait hgap (Table.mem_values_of_get? hg) ih
      rw [List.map_append, Pattern.map_fst_map_mark, namedWait]
      simpa only [List.append_assoc, List.cons_append, List.nil_append] using hwait

/-- A quoted text that is found has no line feed, and it has a name when it reads like test data. -/
theorem value_of_found (he : ofText content context = .ok e) {q : Char} {v : Text}
    (hv : (quote q v, [(2, v), (1, [q])]) ∈ found content) :
    '\n' ∉ v ∧ (looksLikeTestData v = true → e.data.has v = true) := by
  obtain ⟨hit, hm, heq⟩ := List.mem_map.mp hv
  obtain ⟨a, q', v', r, hlong, -, rfl⟩ := exists_of_mem_longText hm
  obtain ⟨rfl, rfl⟩ : v' = v ∧ q' = q := by simpa [Hit.content, quoteHit] using (Prod.mk.inj heq).2
  exact ⟨hlong.newline_not_mem_value,
    fun hl => ((holds_of_ofText he).data_iff v').mpr ⟨⟨_, hm, rfl⟩, hl⟩⟩

/-- Without a long wait in test data, no wait of it is named. -/
theorem eq_of_named (he : ofText content context = .ok e)
    (hno : ∀ p ∈ e.data, ¬HoldsLongWait p.1) {v : Text} {u : List (Char × Option Text)}
    (hv : e.data.has v = true) (hu : Named e.timeouts v u) : u = v.map (·, none) := by
  obtain ⟨name, hg⟩ := Table.has_iff.mp hv
  refine hu.eq_of_not_infix fun d w hw hd hin => hno _ (Table.mem_of_get? hg) ?_
  exact ⟨d, w, hw, (((holds_of_ofText he).timeouts_iff d).mp hd).2, hin⟩

/-- A text that has a name once its waits are named had it before, and no wait in it is named. -/
theorem eq_of_named_key (he : ofText content context = .ok e) (hc : context.HasPlainNames)
    (hno : ∀ p ∈ e.data, ¬HoldsLongWait p.1) {q : Char} {v : Text} {u : List (Char × Option Text)}
    (hv : (quote q v, [(2, v), (1, [q])]) ∈ found content) (hu : Named e.timeouts v u)
    (hname : (e.data.get? (u.map Prod.fst)).isSome) : u = v.map (·, none) := by
  obtain ⟨hline, hkey⟩ := value_of_found he hv
  obtain ⟨name, hg⟩ := Option.isSome_iff_exists.mp hname
  obtain ⟨hdata, q', hlong, -⟩ := exists_quote_of_mem he (Table.mem_of_get? hg)
  have hnames := isNameText_of_hasPlainNames hc he
  refine eq_of_named he hno (hkey (looksLikeTestData_of_differs ?_ ?_ hu.differs hline
    hlong.newline_not_mem_value hdata)) hu
  · intro x hx hm
    rcases hx _ hm with h | h <;> revert h <;> decide
  · intro n hn
    exact ⟨(hnames n (List.mem_append_left _ hn)).not_mem (by decide),
      password_not_in_waitName hc he hn⟩

/-! ### The changes take place -/

/-- The characters with the waits named and then the quoted texts. -/
theorem replacedCells_eq (e : Extraction) (content : Text) : e.replacedCells content =
    quotesNamed e.data none 0 (Pattern.inscribe (some ·.text)
      (Pattern.edits e.waitEdit (timeoutCall.findAll content)) 0 (content.map (·, none))) := by
  rw [replacedCells, quotesNamed, Pattern.map_fst_inscribe, Pattern.map_fst_map_mark,
    ← waitsNamed_eq_splice]
  rfl

/-- Without a long wait in test data, what is recorded takes place. -/
theorem replaced_of_recorded (he : ofText content context = .ok e) (hc : context.HasPlainNames)
    (hu : Unbroken content) (hno : ∀ p ∈ e.data, ¬HoldsLongWait p.1)
    {waits texts : List (Hit × Text)} (hr : Recorded content context (timeoutCall.findAll content)
      (longText.findAll content) waits texts e) :
    (∀ w ∈ waits, (namedWait w.2).map (·, some w.1.text) <:+: e.replacedCells content) ∧
      ∀ t ∈ texts, t.2.map (·, some t.1.text) <:+: e.replacedCells content := by
  have hnames := isNameText_of_hasPlainNames hc he
  have hwaits : ∀ n ∈ e.timeouts.values, IsNameText n := fun n hn =>
    hnames n (List.mem_append_left _ hn)
  have hlong : ∀ d, (e.timeouts.get? d).isSome → IsLongWait d := fun d hd =>
    (((holds_of_ofText he).timeouts_iff d).mp hd).2
  have hstep := (named_findAllFrom e none 0 content).inStep hwaits hlong hu
  rw [replacedCells_eq]
  refine ⟨fun w hw => ?_, fun t ht => ?_⟩
  · have hget : e.timeouts.get? (w.1.group 1) = some w.2 := by
      refine Table.get?_of_mem ?_ (by rw [hr.timeouts_eq]; exact List.mem_map.mpr ⟨w, hw, rfl⟩)
      rw [hr.timeouts_eq, Table.keys, List.map_map]
      exact hr.waits_nodup
    have hedit : (w.1, namedWait w.2) ∈ Pattern.edits e.waitEdit (timeoutCall.findAll content) := by
      refine List.mem_filterMap.mpr ⟨w.1, hr.waits_seen.subset (List.mem_map.mpr ⟨w, hw, rfl⟩), ?_⟩
      rw [waitEdit, hget]
      rfl
    have hput : (namedWait w.2).map (·, some w.1.text) <:+: Pattern.inscribe (some ·.text)
        (Pattern.edits e.waitEdit (timeoutCall.findAll content)) 0 (content.map (·, none)) :=
      Pattern.infix_inscribe_of_mem (some ·.text) hedit
    exact hstep.keeps hwaits (fun q v hv u => eq_of_named_key he hc hno hv)
      (List.forall_mem_map.mpr fun _ _ => rfl) [] none 0 hput
  · have hget : e.data.get? (t.1.group 2) = some t.2 := by
      refine Table.get?_of_mem ?_ (by rw [hr.data_eq]; exact List.mem_map.mpr ⟨t, ht, rfl⟩)
      rw [hr.data_eq, Table.keys, List.map_map]
      exact hr.texts_nodup
    have hm : t.1 ∈ longText.findAll content :=
      hr.texts_seen.subset (List.mem_map.mpr ⟨t, ht, rfl⟩)
    have hfound : t.1.content ∈ found content := List.mem_map.mpr ⟨t.1, hm, rfl⟩
    obtain ⟨a, q, v, r, -, -, hq⟩ := exists_of_mem_longText hm
    rw [hq, quoteHit_value] at hget
    rw [hq] at hfound
    rw [hq, quoteHit_text]
    exact hstep.puts_in hwaits hfound hget
      (fun u hvu => eq_of_named he hno (by rw [Table.has, hget]; rfl) hvu) none 0

/-! ### Complete files -/

/-- The new text of a file are the lines of the replaced one, which the replaced characters spell,
with lines that declare its names between two of them.  A long wait is left in it exactly when one
stands in test data that has a name; and when no mark stands before a long wait on a line that this
runs over, all values of the file are named exactly when no such wait stands there. -/
theorem complete_iff (he : ofText content context = .ok e) (hc : context.HasPlainNames) :
    (∃ pre block post, Text.lines (e.replaceValues content) = pre ++ post ∧
      Declares (e.declared (CodeStyle.quotesOf content)) block ∧
      e.newText content = Text.joinLines (pre ++ block ++ post)) ∧
    (e.replacedCells content).map Prod.fst = e.replaceValues content ∧
    ((∃ hit ∈ timeoutCall.findAll (e.newText content), IsLongWait (hit.group 1)) ↔
      ∃ p ∈ e.data, HoldsLongWait p.1) ∧
    (Unbroken content → (e.IsComplete content ↔ ∀ p ∈ e.data, ¬HoldsLongWait p.1)) := by
  have hleft := exists_longWait_iff he (isNameText_of_hasPlainNames hc he)
  refine ⟨exists_declares e content, map_fst_replacedCells e content, hleft, fun hu => ?_⟩
  constructor
  · intro h p hp hholds
    obtain ⟨hit, hm, hlong⟩ := hleft.mpr ⟨p, hp, hholds⟩
    exact h.no_longWait hit hm hlong
  · intro hno
    obtain ⟨waits, texts, hr⟩ := recorded_of_ofText he
    obtain ⟨hwaits, htexts⟩ := replaced_of_recorded he hc hu hno hr
    refine ⟨fun hit hm hlong => ?_, fun c hm => ?_, fun n hn => ?_⟩
    · obtain ⟨p, hp, hholds⟩ := hleft.mp ⟨hit, hm, hlong⟩
      exact hno p hp hholds
    · rw [hr.changes_eq] at hm
      rcases List.mem_append.mp hm with hm | hm
      · obtain ⟨w, hw, rfl⟩ := List.mem_map.mp hm
        have hafter : (timeoutChange content w.1 w.2).after = namedWait w.2 :=
          List.append_assoc _ _ _
        rw [hafter]
        exact hwaits w hw
      · obtain ⟨t, ht, rfl⟩ := List.mem_map.mp hm
        exact htexts t ht
    · rcases List.mem_append.mp hn with hn | hn
      · rw [hr.timeouts_eq, Table.values, List.map_map] at hn
        obtain ⟨w, hw, rfl⟩ := List.mem_map.mp hn
        refine ⟨w.1.text, List.IsInfix.trans ?_ (hwaits w hw)⟩
        exact ⟨waitStart.map (·, some w.1.text), [(')', some w.1.text)], by simp [namedWait]⟩
      · rw [hr.data_eq, Table.values, List.map_map] at hn
        obtain ⟨t, ht, rfl⟩ := List.mem_map.mp hn
        exact ⟨t.1.text, htexts t ht⟩

/-- A file in which no wait runs over the end of a line is unbroken. -/
theorem unbroken_of_lines (h : ∀ hit ∈ timeoutCall.findAll content, '\n' ∉ hit.text) :
    Unbroken content := by
  intro q s d w _ _ hw _ hn hin
  have hin : w <:+: content := List.IsInfix.trans ⟨q :: s, [], by simp⟩ hin
  obtain ⟨hit, hm, -, rfl⟩ := exists_hit_of_infix hw hin
  exact h hit hm hn

/-- A file with a wait and with test data. -/
def bothContent : Text :=
  "await page.waitForTimeout(5000);\nawait page.fill('#field', 'first password of two');"

theorem both_are_named : ({} : Context).HasPlainNames ∧ Unbroken bothContent ∧
    ∃ e, ofText bothContent {} = .ok e ∧ e.changes.length = 2 ∧
      (∀ p ∈ e.data, ¬HoldsLongWait p.1) ∧ e.IsComplete bothContent := by
  have hu : Unbroken bothContent := unbroken_of_lines (by decide +kernel)
  have h : (ofText bothContent {}).toOption.any (fun e =>
      e.changes.length = 2 ∧ ∀ p ∈ e.data, '(' ∉ p.1) = true := by
    decide +kernel
  obtain ⟨e, he, h⟩ := exists_ok_of_any h
  obtain ⟨hlength, hparen⟩ := of_decide_eq_true h
  have hno : ∀ p ∈ e.data, ¬HoldsLongWait p.1 := fun p hp ⟨d, w, hw, _, hin⟩ =>
    hw.not_infix_of_paren_not_mem (hparen p hp) hin
  exact ⟨Context.hasPlainNames_nil, hu, e, he, hlength, hno,
    ((complete_iff he Context.hasPlainNames_nil).2.2.2 hu).mpr hno⟩

/-- Test data with a long wait in it. -/
def nestedContent : Text := "log('waitForTimeout(5000) password');"

/-- Test data behind the mark that closes a quoted text, which a wait breaks into two lines. -/
def brokenContent : Text := "'x waitForTimeout(\n5000) y'password of the owner'"

/-- The wait is left in the declaration of the test data that holds it.  In both files the change for
the test data is recorded, but its name stands nowhere outside of its declaration. -/
theorem names_are_unused :
    (∃ e, ofText nestedContent {} = .ok e ∧ ¬e.IsComplete nestedContent ∧
      ∃ hit ∈ timeoutCall.findAll (e.newText nestedContent), IsLongWait (hit.group 1)) ∧
    ∀ content ∈ [nestedContent, brokenContent], ∃ e, ofText content {} = .ok e ∧
      ¬e.IsComplete content ∧ ("TEST_PASSWORD" : Text) ∈ e.data.values ∧
      ∃ c ∈ e.changes, c.after = ("TEST_PASSWORD" : Text) ∧ ¬c.after <:+: e.replaceValues content := by
  have hall : ∀ content ∈ [nestedContent, brokenContent], ∃ e, ofText content {} = .ok e ∧
      ("TEST_PASSWORD" : Text) ∈ e.data.values ∧
      ∃ c ∈ e.changes, c.after = ("TEST_PASSWORD" : Text) ∧ ¬c.after <:+: e.replaceValues content := by
    have h : [nestedContent, brokenContent].all (fun content =>
        (ofText content {}).toOption.any fun e => ("TEST_PASSWORD" : Text) ∈ e.data.values ∧
          ∃ c ∈ e.changes, c.after = ("TEST_PASSWORD" : Text) ∧ ¬c.after <:+: e.replaceValues content) =
        true := by
      decide +kernel
    intro content hc
    obtain ⟨e, he, h⟩ := exists_ok_of_any (List.all_eq_true.mp h content hc)
    exact ⟨e, he, of_decide_eq_true h⟩
  have hincomplete : ∀ {content : Text} {e : Extraction},
      (∃ c ∈ e.changes, c.after = ("TEST_PASSWORD" : Text) ∧ ¬c.after <:+: e.replaceValues content) →
      ¬e.IsComplete content := by
    rintro content e ⟨c, hc, -, hnot⟩ h
    refine hnot ?_
    rw [← map_fst_replacedCells]
    have hin := (h.replaced c hc).map Prod.fst
    rwa [Pattern.map_fst_map_mark] at hin
  refine ⟨?_, fun content hc => ?_⟩
  · have h : (ofText nestedContent {}).toOption.any (fun e =>
        (timeoutCall.findAll (e.newText nestedContent)).any fun hit => hit.group 1 = "5000") =
        true := by
      decide +kernel
    obtain ⟨e, he, h⟩ := exists_ok_of_any h
    obtain ⟨hit, hm, hd⟩ := List.any_eq_true.mp h
    have hlong : IsLongWait (hit.group 1) := by
      rw [of_decide_eq_true hd]
      exact ⟨5000, by decide +kernel, by decide⟩
    obtain ⟨e', he', -, hc⟩ := hall nestedContent List.mem_cons_self
    obtain rfl := Except.ok.inj (he.symm.trans he')
    exact ⟨e, he, hincomplete hc, hit, hm, hlong⟩
  · obtain ⟨e, he, hmem, hc⟩ := hall content hc
    exact ⟨e, he, hincomplete hc, hmem, hc⟩

end Extraction
end SuiteAudit
