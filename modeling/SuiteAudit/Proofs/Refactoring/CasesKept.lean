import SuiteAudit.Proofs.Refactoring.CommentLines
import SuiteAudit.Proofs.Refactoring.NamedValues
import SuiteAudit.Proofs.Refactoring.Replaced
import SuiteAudit.Proofs.Source.QuietLines
import SuiteAudit.Proofs.Source.RenamedSplice

/-! # Test cases are kept

Two texts have the same cases when the same calls are read in them, each within a line, and a scan of
their lines finds blocks of the same names (`SameCases`).  Words in place of stretches keep the cases
(`Renamed.sameCases`), and so do quiet lines between the others (`SameCases.padded`).

A file is rewritten in four steps: names for its waits, names for its test data, the lines that
declare the names, and comments.  When no replaced stretch meets a call (`Extraction.SparesCalls`),
the first two put words in place of stretches apart from the calls (`renamed_waitsNamed`,
`renamed_replaceValues`) and the others put quiet lines between the lines (`sameCases_newText`,
`sameCases_add`).  So the cases have the same names as before, and there are as many calls
(`Proposal.casesOf_after_eq`). -/

namespace SuiteAudit

/-! ### Texts with the same test cases -/

namespace Opening

/-- Two texts with the same calls and cases of the same names. -/
structure SameCases (t t' : Text) : Prop where
  reads : ∃ calls, Reads false t calls ∧ Reads false t' calls ∧ ∀ c ∈ calls, '\n' ∉ c.2.2
  names : namesFrom none ((Text.lines t').map case.sign) =
    namesFrom none ((Text.lines t).map case.sign)

theorem newline_not_mem_of_reads {t : Text} {calls : List (Char × Text × Text)}
    (h : Reads false t calls) :
    (∀ c ∈ calls, '\n' ∉ c.2.2) ↔ ∀ hit ∈ case.pattern.findAll t, '\n' ∉ hit.text := by
  have hmap : (case.pattern.findAll t).map Hit.text = calls.map fun c => c.2.2 := by
    have := congrArg (List.map Prod.fst) h.findAll
    rwa [List.map_map, List.map_map] at this
  constructor
  · intro hc hit hm
    have : hit.text ∈ calls.map fun c => c.2.2 := hmap ▸ List.mem_map.mpr ⟨hit, hm, rfl⟩
    obtain ⟨c, hc', e⟩ := List.mem_map.mp this
    rw [← e]
    exact hc c hc'
  · intro hc c hm
    have : c.2.2 ∈ (case.pattern.findAll t).map Hit.text := hmap ▸ List.mem_map.mpr ⟨c, hm, rfl⟩
    obtain ⟨hit, hm', e⟩ := List.mem_map.mp this
    rw [← e]
    exact hc hit hm'

namespace SameCases

variable {t u v : Text}

theorem refl (h : ∀ hit ∈ case.pattern.findAll t, '\n' ∉ hit.text) : SameCases t t := by
  obtain ⟨calls, hr⟩ := Reads.exists_calls false t
  exact ⟨⟨calls, hr, hr, (newline_not_mem_of_reads hr).mpr h⟩, rfl⟩

theorem trans (h : SameCases t u) (h' : SameCases u v) : SameCases t v := by
  obtain ⟨calls, ht, hu, hline⟩ := h.reads
  obtain ⟨calls', hu', hv, -⟩ := h'.reads
  obtain rfl := hu.unique hu'
  exact ⟨⟨calls, ht, hv, hline⟩, h'.names.trans h.names⟩

theorem newline_not_mem (h : SameCases t u) : ∀ hit ∈ case.pattern.findAll u, '\n' ∉ hit.text := by
  obtain ⟨calls, -, hu, hline⟩ := h.reads
  exact (newline_not_mem_of_reads hu).mp hline

end SameCases

theorem Renamed.sameCases {t t' : Text} (h : Renamed false false t t') : SameCases t t' :=
  ⟨h.exists_reads id, by rw [h.map_sign_eq]⟩

theorem Padded.forall_newline {ls ls' : List Text} (hp : Padded ls ls') (h : ∀ l ∈ ls, '\n' ∉ l) :
    ∀ l ∈ ls', '\n' ∉ l := by
  induction hp with
  | refl => exact h
  | @insert pre post x hx _ ih =>
      intro l hl
      rcases List.mem_append.mp hl with hl | hl
      · exact ih l (List.mem_append_left _ hl)
      · rcases List.mem_cons.mp hl with rfl | hl
        · exact hx.line
        · exact ih l (List.mem_append_right _ hl)

theorem Padded.ne_nil {ls ls' : List Text} (hp : Padded ls ls') (h : ls ≠ []) : ls' ≠ [] := by
  cases hp with
  | refl => exact h
  | insert => simp

/-- Quiet lines between the lines of a text. -/
theorem SameCases.padded {t u : Text} {ls : List Text} (h : SameCases t u)
    (hp : Padded (Text.lines u) ls) : SameCases t (Text.joinLines ls) := by
  obtain ⟨calls, ht, hu, hline⟩ := h.reads
  rw [← Text.joinLines_lines u] at hu
  refine ⟨⟨calls, ht, hp.reads hu hline, hline⟩, ?_⟩
  rw [Text.lines_joinLines (hp.ne_nil (Text.lines_ne_nil u))
    (hp.forall_newline fun l hl => Text.newline_not_mem_of_mem_lines u hl), hp.namesFrom_eq, h.names]

/-- The names of the cases are the same. -/
theorem SameCases.casesOf_eq {t u : Text} (h : SameCases t u) :
    (casesOf u).map Block.name = (casesOf t).map Block.name := by
  rw [names_casesOf, names_casesOf, h.names]

/-- There are as many calls. -/
theorem SameCases.countCaseCalls_eq {t u : Text} (h : SameCases t u) :
    countCaseCalls u = countCaseCalls t := by
  obtain ⟨calls, ht, hu, -⟩ := h.reads
  have := congrArg List.length (hu.findAll.trans ht.findAll.symm)
  rwa [List.length_map, List.length_map] at this

end Opening

/-! ### What is replaced meets no call -/

open Opening

/-- Nothing that is replaced or declared in a text meets a call. -/
structure Extraction.SparesCalls (e : Extraction) (content : Text) : Prop where
  /-- Each call lies within a line. -/
  calls : ∀ c ∈ case.pattern.findAll content, '\n' ∉ c.text
  /-- A named wait lies within a line and meets no call. -/
  waits : ∀ h ∈ Literal.timeoutCall.findAll content, e.timeouts.has (h.group 1) = true →
    '\n' ∉ h.text ∧ ∀ c ∈ case.pattern.findAll content, c.stop ≤ h.offset ∨ h.stop ≤ c.offset
  /-- A replaced text meets no call and does not stand directly before one. -/
  texts : ∀ h ∈ e.replacedTexts content, ∀ c ∈ case.pattern.findAll (e.waitsNamed content),
    c.stop ≤ h.offset ∨ h.stop < c.offset
  /-- Declared test data holds no brace, and its literal no call. -/
  literals : ∀ p ∈ e.data, '\x7b' ∉ p.1 ∧ '\x7d' ∉ p.1 ∧
    case.pattern.occursIn ((CodeStyle.quotesOf content).literal p.1) = false

instance (e : Extraction) (content : Text) : Decidable (e.SparesCalls content) :=
  decidable_of_iff
    ((∀ c ∈ case.pattern.findAll content, '\n' ∉ c.text) ∧
      (∀ h ∈ Literal.timeoutCall.findAll content, e.timeouts.has (h.group 1) = true →
        '\n' ∉ h.text ∧
          ∀ c ∈ case.pattern.findAll content, c.stop ≤ h.offset ∨ h.stop ≤ c.offset) ∧
      (∀ h ∈ e.replacedTexts content, ∀ c ∈ case.pattern.findAll (e.waitsNamed content),
        c.stop ≤ h.offset ∨ h.stop < c.offset) ∧
      ∀ p ∈ e.data, '\x7b' ∉ p.1 ∧ '\x7d' ∉ p.1 ∧
        case.pattern.occursIn ((CodeStyle.quotesOf content).literal p.1) = false)
    ⟨fun h => ⟨h.1, h.2.1, h.2.2.1, h.2.2.2⟩, fun h => ⟨h.calls, h.waits, h.texts, h.literals⟩⟩

/-! ### Names -/

theorem IsGivenName.isForeign {n : Text} (h : IsGivenName n) : IsForeign n where
  word := fun c hc => isWordChar_of_isNameChar (h.isNameText.chars c hc)
  nonempty := List.ne_nil_of_mem h.isNameText.underscore
  apart := fun head hhead hin =>
    not_mem_head (by decide) hhead (hin.subset h.isNameText.underscore)

namespace Extraction

variable {content : Text} {context : Context} {e : Extraction}

/-- The names of a file are words that are no part of the start of a call. -/
theorem isForeign_of_mem (he : ofText content context = .ok e)
    (hc : ∀ n ∈ context.timeouts.values ++ context.data.values, IsForeign n) {n : Text}
    (hn : n ∈ e.timeouts.values ++ e.data.values) : IsForeign n :=
  (name_cases he hn).elim (hc n) IsGivenName.isForeign

/-! ### Names in place of values -/

theorem exists_of_mem_edits {f : Hit → Option Text} {hits : List Hit} {g : Hit × Text}
    (hg : g ∈ Pattern.edits f hits) : g.1 ∈ hits ∧ f g.1 = some g.2 := by
  obtain ⟨h, hh, e'⟩ := List.mem_filterMap.mp hg
  obtain ⟨new, hf, rfl⟩ := Option.map_eq_some_iff.mp e'
  exact ⟨hh, hf⟩

/-- Names for waits are put in place of stretches apart from the calls. -/
theorem renamed_waitsNamed (hs : e.SparesCalls content)
    (hn : ∀ n ∈ e.timeouts.values ++ e.data.values, IsForeign n) :
    Renamed false false content (e.waitsNamed content) := by
  rw [waitsNamed_eq_splice]
  refine renamed_splice content none 0 false _ ⟨Or.inl rfl, hs.calls,
    Pattern.fits_edits Literal.timeoutCall_advances _ none 0 content, ?_, ?_⟩
  · intro g hg
    obtain ⟨hh, hf⟩ := exists_of_mem_edits hg
    obtain ⟨n, hget, hnew⟩ := Option.map_eq_some_iff.mp hf
    obtain ⟨hline, -⟩ := hs.waits _ hh (Table.has_iff.mpr ⟨n, hget⟩)
    obtain ⟨d, w, o, hw, -, e'⟩ := Literal.exists_of_mem_timeoutCall hh
    rw [e', Literal.waitHit_text] at hline ⊢
    have hopen : '\x7b' ∉ w := hw.not_mem (by decide) (by decide) (by decide) (by decide +kernel)
    have hclose : '\x7d' ∉ w := hw.not_mem (by decide) (by decide) (by decide) (by decide +kernel)
    have hne : w ≠ [] := by
      obtain ⟨s, rfl, -⟩ := hw.exists_cons
      exact List.cons_ne_nil 'w' s
    obtain ⟨-, hd, b₁, b₂, -, -, rfl⟩ := hw
    refine ⟨hne, Literal.waitStart, b₁ ++ (d ++ b₂), n, [')'], by simp, hnew.symm,
      fun c hc => forall_isInner hline hopen hclose c ?_,
      hn n (mem_names_of_mem_timeouts (Table.mem_of_get? hget))⟩
    simp only [List.mem_append] at hc ⊢
    tauto
  · intro g hg c hc
    obtain ⟨hh, hf⟩ := exists_of_mem_edits hg
    obtain ⟨n, hget, hnew⟩ := Option.map_eq_some_iff.mp hf
    obtain ⟨-, hapart⟩ := hs.waits _ hh (Table.has_iff.mpr ⟨n, hget⟩)
    refine (hapart c hc).imp_right fun hle => ⟨hle, fun _ => ?_⟩
    rw [← hnew, wordAfter_append, wordAfter_append]
    exact (by decide : Text.isWordChar ')' = false)

theorem exists_of_mem_nameEdits {g : Hit × Text} (hg : g ∈ e.nameEdits content) :
    g.1 ∈ e.replacedTexts content ∧ e.data.get? (g.1.group 2) = some g.2 := by
  obtain ⟨-, hf⟩ := exists_of_mem_edits hg
  refine ⟨?_, hf⟩
  rw [← map_fst_nameEdits]
  exact List.mem_map.mpr ⟨g, hg, rfl⟩

/-- Names for test data are put in place of stretches apart from the calls. -/
theorem renamed_replaceValues (hs : e.SparesCalls content)
    (hn : ∀ n ∈ e.timeouts.values ++ e.data.values, IsForeign n)
    (hline : ∀ c ∈ case.pattern.findAll (e.waitsNamed content), '\n' ∉ c.text) :
    Renamed false false (e.waitsNamed content) (e.replaceValues content) := by
  rw [replaceValues_eq_splice]
  refine renamed_splice _ none 0 false _ ⟨Or.inl rfl, hline,
    Pattern.fits_edits Literal.longText_advances _ none 0 _, ?_, ?_⟩
  · intro g hg
    obtain ⟨hrep, hget⟩ := exists_of_mem_nameEdits hg
    obtain ⟨a, q, v, r, hl, -, e'⟩ :=
      Literal.exists_of_mem_longText (List.mem_of_mem_filter hrep)
    rw [e', Literal.quoteHit_value] at hget
    rw [e', Literal.quoteHit_text]
    obtain ⟨hopen, hclose, -⟩ := hs.literals _ (Table.mem_of_get? hget)
    exact ⟨Literal.quote_ne_nil q v, [], Literal.quote q v, g.2, [], by simp, by simp,
      forall_isInner hl.newline_not_mem (Literal.not_mem_quote hl.mark (by decide) hopen)
        (Literal.not_mem_quote hl.mark (by decide) hclose),
      hn _ (mem_names_of_mem_data (Table.mem_of_get? hget))⟩
  · intro g hg c hc
    obtain ⟨hrep, -⟩ := exists_of_mem_nameEdits hg
    refine (hs.texts _ hrep c hc).imp_right fun hlt => ⟨Nat.le_of_lt hlt, fun heq => ?_⟩
    exact absurd heq (Nat.ne_of_lt hlt)

/-! ### Lines put between the others -/

theorem declaration_eq_cons (name value : Text) :
    declaration name value = [] ++ 'c' :: (("onst " : Text) ++ name ++ " = " ++ value ++ ";") := rfl

/-- A declaration is quiet when its name is a word and its value holds no call and no brace. -/
theorem isQuiet_declaration {n v : Text} (hn : IsForeign n) (hv : Reads false v [])
    (hinner : ∀ c ∈ v, isInner c = true) : IsQuiet (declaration n v) := by
  have hparen : '(' ∉ ("const " : Text) ++ n ++ " =" ++ [' '] := by
    simp only [List.mem_append, not_or]
    exact ⟨⟨⟨by decide, hn.not_mem (by decide)⟩, by decide⟩, by decide⟩
  have hreads : Reads false (declaration n v) [] := by
    have hw : wordAfter false (("const " : Text) ++ n ++ " =" ++ [' ']) = false := by
      rw [wordAfter_append]
      exact (by decide : Text.isWordChar ' ' = false)
    have h : Reads false (("const " : Text) ++ n ++ " =" ++ [' '] ++ (v ++ [';'])) [] := by
      refine Reads.pass_append (passes_of_space hparen) ?_
      rw [hw]
      exact hv.concat (by decide) (by decide)
    have e : declaration n v = ("const " : Text) ++ n ++ " =" ++ [' '] ++ (v ++ [';']) := by
      have hs : (" = " : Text) = (" =" : Text) ++ [' '] := rfl
      unfold declaration
      rw [hs]
      simp only [List.append_assoc]
      rfl
    rwa [e]
  have hnot : ∀ c, isInner c = false → Text.isWordChar c = false → c ∉ ("const =;" : Text) →
      c ∉ declaration n v := fun c hc hw hf => not_mem_declaration hf (hn.not_mem hw) fun hm => by
    rw [hinner c hm] at hc
    cases hc
  have hclosed : ¬ EndsOpen false (("const " : Text) ++ n ++ " = " ++ v ++ [';']) :=
    not_endsOpen_concat (by decide) (by decide)
  have hclosed : ¬ EndsOpen false (declaration n v) := hclosed
  rw [declaration_eq_cons] at hreads hclosed hnot ⊢
  exact .of_start (fun c hc => by cases hc) (by decide) (by decide) hreads hclosed
    (hnot _ (by decide) (by decide) (by decide)) (hnot _ (by decide) (by decide) (by decide))
    (hnot _ (by decide) (by decide) (by decide))

theorem isQuiet_heading {t : Text} (hparen : '(' ∉ '/' :: t) (hline : '\n' ∉ '/' :: t)
    (hopen : '\x7b' ∉ '/' :: t) (hclose : '\x7d' ∉ '/' :: t) : IsQuiet ('/' :: t) :=
  IsQuiet.comment (fun c (hc : c ∈ ([] : Text)) => by cases hc) hparen hline hopen hclose

/-- The declarations of a file are quiet lines. -/
theorem isQuiet_of_isDefinition (he : ofText content context = .ok e) (hs : e.SparesCalls content)
    (hn : ∀ n ∈ e.timeouts.values ++ e.data.values, IsForeign n) {l : Text}
    (hl : e.IsDefinition (CodeStyle.quotesOf content) l) : IsQuiet l := by
  cases hl with
  | blank => exact isQuiet_nil
  | timeouts => exact isQuiet_heading (by decide) (by decide) (by decide) (by decide)
  | data => exact isQuiet_heading (by decide) (by decide) (by decide) (by decide)
  | @timeout p hp =>
      obtain ⟨-, w, hw, -⟩ := exists_wait_of_mem he hp
      have hd : ∀ {c : Char}, Text.isDigit c = false → c ∉ p.1 := hw.not_mem_numeral
      exact isQuiet_declaration (hn _ (mem_names_of_mem_timeouts hp))
        (reads_of_not_mem (hd (by decide +kernel)))
        (forall_isInner (hd (by decide +kernel)) (hd (by decide +kernel)) (hd (by decide +kernel)))
  | @datum p hp =>
      obtain ⟨hopen, hclose, hcalls⟩ := hs.literals p hp
      obtain ⟨-, q, hlong, -⟩ := exists_quote_of_mem he hp
      exact isQuiet_declaration (hn _ (mem_names_of_mem_data hp)) (reads_of_occursIn hcalls)
        (forall_isInner (not_mem_literal hlong.newline_not_mem_value (by decide) (by decide))
          (not_mem_literal hopen (by decide) (by decide))
          (not_mem_literal hclose (by decide) (by decide)))

/-- The new text of a file has the same cases. -/
theorem sameCases_newText (he : ofText content context = .ok e) (hs : e.SparesCalls content)
    (hc : ∀ n ∈ context.timeouts.values ++ context.data.values, IsForeign n) :
    SameCases content (e.newText content) := by
  have hn : ∀ n ∈ e.timeouts.values ++ e.data.values, IsForeign n :=
    fun n hm => isForeign_of_mem he hc hm
  cases hne : e.timeouts.isEmpty && e.data.isEmpty with
  | true =>
      rw [newText_of_isEmpty content hne]
      exact .refl hs.calls
  | false =>
      have hwaits := (renamed_waitsNamed hs hn).sameCases
      have hvalues := (renamed_replaceValues hs hn hwaits.newline_not_mem).sameCases
      obtain ⟨pre, blank, post, hlines, hblank, hnew⟩ := exists_newText content hne
      rw [hnew]
      refine (hwaits.trans hvalues).padded (Padded.insert_append (fun x hx => ?_) ?_)
      · rcases List.mem_append.mp hx with hx | hx
        · rw [hblank x hx]
          exact isQuiet_nil
        · exact isQuiet_of_isDefinition he hs hn (isDefinition_of_mem hx)
      · rw [hlines]
        exact .refl

end Extraction

namespace Comments

theorem IsCommentLine.isQuiet {line : Text} (h : IsCommentLine line) : IsQuiet line := by
  have hparen : '(' ∉ line := h.not_mem (by decide) (by decide +kernel) (by decide) (by decide)
  have hline : '\n' ∉ line := h.not_mem (by decide) (by decide +kernel) (by decide) (by decide)
  have hopen : '\x7b' ∉ line := h.not_mem (by decide) (by decide +kernel) (by decide) (by decide)
  have hclose : '\x7d' ∉ line := h.not_mem (by decide) (by decide +kernel) (by decide) (by decide)
  obtain ⟨indent, text, hi, -, rfl⟩ := h
  exact .comment (fun c hc => (hi c hc).1) hparen hline hopen hclose

/-- The comments are quiet lines. -/
theorem Commented.padded {all rest out ls : List Text} {index : Nat}
    (h : Commented all index rest out) : ∀ done : List Text, Padded ls (done ++ rest) →
      Padded ls (done ++ out) := by
  induction h with
  | nil => exact fun _ h => h
  | @keep index line rest out _ _ ih =>
      intro done h
      rw [List.append_cons] at h ⊢
      exact ih _ h
  | @comment index line new rest out hnew _ ih =>
      intro done h
      rw [List.append_cons] at h
      have := ih _ h
      rw [← List.append_cons] at this
      exact this.insert hnew.isQuiet

/-- Comments keep the cases. -/
theorem sameCases_add {t u : Text} (h : SameCases t u) : SameCases t (add u).1 := by
  obtain ⟨out, hout, hc⟩ := exists_commented u
  rw [hout]
  exact h.padded (hc.padded [] .refl)

end Comments

namespace Proposal

/-- The cases of a file keep their names and the calls their number, when nothing that is replaced or
declared meets a call and the names of the context are words that are no part of the start of one. -/
theorem casesOf_after_eq {content path : Text} {context : Context} {e : Extraction} {p : Proposal}
    (he : Extraction.ofText content context = .ok e) (hp : ofText content path context = .ok p)
    (hs : e.SparesCalls content)
    (hc : ∀ n ∈ context.timeouts.values ++ context.data.values, IsForeign n) :
    (casesOf p.after).map Block.name = (casesOf content).map Block.name ∧
      countCaseCalls p.after = countCaseCalls content := by
  obtain ⟨e', he', hafter⟩ := after_of_ofText hp
  obtain rfl : e = e' := Except.ok.inj (he.symm.trans he')
  have h := Comments.sameCases_add (Extraction.sameCases_newText he hs hc)
  rw [hafter]
  exact ⟨h.casesOf_eq, h.countCaseCalls_eq⟩

/-- A case with a wait and test data, both of which get names. -/
def keptContent : Text :=
  "test('logs in', async () => \x7b\n  fill('secret password 12');\n  waitForTimeout(5000);\n\x7d);"

/-- The test data has a name already. -/
def keptContext : Context := { data := [("secret password 12", "LOGIN_SECRET")] }

theorem kept_case : ∃ e p, Extraction.ofText keptContent keptContext = .ok e ∧
    ofText keptContent [] keptContext = .ok p ∧ e.timeouts.length = 1 ∧ e.data = keptContext.data ∧
    (casesOf keptContent).map Block.name = ["logs in"] ∧
    (casesOf p.after).map Block.name = (casesOf keptContent).map Block.name ∧
      countCaseCalls p.after = countCaseCalls keptContent := by
  have h : (Extraction.ofText keptContent keptContext).toOption.any (fun e =>
      decide (e.SparesCalls keptContent ∧ e.timeouts.length = 1 ∧ e.data = keptContext.data)) =
        true := by
    decide +kernel
  have hname : IsForeign "LOGIN_SECRET" :=
    ⟨Text.forall_mem_of_all (by decide), by decide, by decide⟩
  obtain ⟨e, he, h⟩ := Extraction.exists_ok_of_any h
  obtain ⟨hs, ht, hd⟩ := of_decide_eq_true h
  obtain ⟨p, hp, -⟩ := exists_ofText he []
  refine ⟨e, p, he, hp, ht, hd, by decide +kernel, casesOf_after_eq he hp hs fun n hn => ?_⟩
  obtain rfl : n = "LOGIN_SECRET" := List.mem_singleton.mp hn
  exact hname

/-- Files whose cases are not kept, each for another reason: a title that is test data, a wait in a
title, a wait over a line end within quotes, braces in test data, a comment within a call, a name
directly before a call, a declared call, and names that are no words or begin a call. -/
def lossyFiles : List (Text × Context) :=
  [("test('password reset works', \x7b\x7d);", {}),
    ("test('waitForTimeout(5000)', \x7b\x7d);", {}),
    ("test('waitForTimeout(\n5000)', \x7b\x7d);", {}),
    ("test('a', \x7b '\x7d\x7d password 12345' \x7d);", {}),
    ("test(\n  'Promise.all( x', \x7b\x7d);", {}),
    ("'password of them all'test('x', \x7b\x7d);", {}),
    ("log(\"test(\x60a\x60) waitForTimeout(5000) password\");", {}),
    ("test('a', \x7b\n  waitForTimeout(5000);\n\x7d);", { timeouts := [("5000", "\x7b")] }),
    ("log('some long password'('x'));", { data := [("some long password", "test")] })]

/-- The cases of a file need not be kept. -/
theorem cases_change : lossyFiles.Forall fun f => ∃ p, ofText f.1 [] f.2 = .ok p ∧
    ¬ ((casesOf p.after).map Block.name = (casesOf f.1).map Block.name ∧
      countCaseCalls p.after = countCaseCalls f.1) := by
  have h : lossyFiles.all (fun f => (ofText f.1 [] f.2).toOption.any fun p =>
      ¬ ((casesOf p.after).map Block.name = (casesOf f.1).map Block.name ∧
        countCaseCalls p.after = countCaseCalls f.1)) = true := by
    decide +kernel
  refine List.forall_iff_forall_mem.mpr fun f hf => ?_
  obtain ⟨p, hp, h⟩ := Extraction.exists_ok_of_any (List.all_eq_true.mp h f hf)
  exact ⟨p, hp, of_decide_eq_true h⟩

end Proposal
end SuiteAudit
