import Mathlib.Data.List.Forall2
import SuiteAudit.Proofs.Source.CaseNames

/-! # Words in place of stretches of a text

`Opening.Renamed w w' t t'` says that `t'` is the text `t` with words in place of some stretches in
which no call opens.  When no such word is part of the start of a call (`IsForeign`), a call that
opens in `t'` opens in `t` at the same place (`Edited.opensCall`), so both texts have the same calls
(`Renamed.exists_reads`).  The stretches lie within lines and hold no braces, so the lines of `t'`
are those of `t` with words in place of stretches (`Renamed.exists_lines`) and as many braces
(`Edited.count_eq`). -/

namespace SuiteAudit
namespace Opening

/-- A word that is no part of the start of a call. -/
structure IsForeign (n : Text) : Prop where
  word : ∀ c ∈ n, Text.isWordChar c = true
  nonempty : n ≠ []
  apart : ∀ head ∈ caseHeads, ¬ n <:+: head

theorem IsForeign.not_mem {n : Text} (h : IsForeign n) {c : Char}
    (hc : Text.isWordChar c = false) : c ∉ n := fun hm => by
  rw [h.word c hm] at hc
  cases hc

theorem IsForeign.exists_cons {n : Text} (h : IsForeign n) :
    ∃ c s, n = c :: s ∧ Text.isWordChar c = true := by
  obtain ⟨hw, hn, -⟩ := h
  cases n with
  | nil => exact absurd rfl hn
  | cons c s => exact ⟨c, s, rfl, hw c List.mem_cons_self⟩

/-- No word in place of a stretch begins within a text. -/
def Untouched (s : Text) : Prop :=
  ∀ n, IsForeign n → ∀ a b u v, s = a ++ b → b ≠ [] → n ++ u ≠ b ++ v

theorem Untouched.tail {c : Char} {s : Text} (h : Untouched (c :: s)) : Untouched s :=
  fun n hn a b u v e hb => h n hn (c :: a) b u v (by rw [e]; rfl) hb

/-- No word begins where the text begins with no word. -/
theorem IsForeign.append_ne {n : Text} (hn : IsForeign n) {c : Char} (hc : Text.isWordChar c = false)
    (u v : Text) : n ++ u ≠ c :: v := by
  obtain ⟨d, s, rfl, hd⟩ := hn.exists_cons
  intro e
  obtain ⟨rfl, -⟩ := List.cons.inj e
  rw [hc] at hd
  cases hd

/-- A call is left alone up to its title. -/
theorem untouched_start {head ws : Text} {q : Char} (hhead : head ∈ caseHeads)
    (hws : ∀ c ∈ ws, Text.isBlank c = true) (hq : isTitleMark q = true) :
    Untouched (head ++ (ws ++ [q])) := by
  intro n hn a b u v e hb en
  have hrest : ∀ c ∈ ws ++ [q], Text.isWordChar c = false := by
    intro c hc
    rcases List.mem_append.mp hc with hc | hc
    · exact Text.not_isWordChar_of_isBlank (hws c hc)
    · rw [List.mem_singleton.mp hc]
      exact not_isWordChar_mark hq
  obtain ⟨m, rfl, em⟩ | ⟨m, rfl, rfl⟩ := List.append_eq_append_iff.mp e
  · cases b with
    | nil => exact hb rfl
    | cons c b =>
        refine hn.append_ne (hrest c ?_) u (b ++ v) en
        rw [em]
        exact List.mem_append_right m List.mem_cons_self
  · -- the head ends with its parenthesis, which no word goes over
    obtain ⟨m', rfl⟩ | rfl : (∃ m', m = m' ++ ['(']) ∨ m = [] := by
      rcases List.eq_nil_or_concat m with rfl | ⟨m', c, rfl⟩
      · exact Or.inr rfl
      · have := getLast?_of_mem_head hhead
        rw [List.concat_eq_append, ← List.append_assoc, List.getLast?_concat] at this
        rw [Option.some.inj this, List.concat_eq_append]
        exact Or.inl ⟨m', rfl⟩
    · obtain ⟨s, rfl, -⟩ := Text.exists_of_append_eq (hn.not_mem (by decide))
        (show n ++ u = m' ++ '(' :: (ws ++ [q] ++ v) by simpa using en)
      exact hn.apart _ hhead ⟨a, s ++ ['('], by simp⟩
    · cases e' : ws ++ [q] with
      | nil => simp at e'
      | cons c t =>
          refine hn.append_ne (hrest c (by rw [e']; exact List.mem_cons_self)) u (t ++ v) ?_
          rw [en, List.nil_append, e']
          rfl

/-! ### Texts with words in place of stretches -/

/-- What a stretch that a word takes the place of may hold. -/
def isInner (c : Char) : Bool := c != '\n' && c != '\x7b' && c != '\x7d'

theorem isInner_iff {c : Char} : isInner c = true ↔ c ≠ '\n' ∧ c ≠ '\x7b' ∧ c ≠ '\x7d' := by
  simp [isInner, and_assoc]

theorem forall_isInner {x : Text} (hl : '\n' ∉ x) (ho : '\x7b' ∉ x) (hc : '\x7d' ∉ x) :
    ∀ c ∈ x, isInner c = true := by
  intro c hm
  refine isInner_iff.mpr ⟨?_, ?_, ?_⟩ <;> rintro rfl
  · exact hl hm
  · exact ho hm
  · exact hc hm

/-- A text with words in place of some of its stretches. -/
inductive Edited : Text → Text → Prop
  | nil : Edited [] []
  | keep {c : Char} {t t' : Text} : Edited t t' → Edited (c :: t) (c :: t')
  | swap {old n t t' : Text} : (∀ c ∈ old, isInner c = true) → IsForeign n → Edited t t' →
      Edited (old ++ t) (n ++ t')

namespace Edited

theorem keep_append {t t' : Text} (h : Edited t t') : ∀ s : Text, Edited (s ++ t) (s ++ t')
  | [] => h
  | _ :: s => (h.keep_append s).keep

/-- What no word touches stood there before. -/
theorem exists_of_untouched {t t' : Text} (h : Edited t t') : ∀ {s r' : Text}, t' = s ++ r' →
    Untouched s → ∃ r, t = s ++ r ∧ Edited r r' := by
  induction h with
  | nil =>
      intro s r' e _
      obtain ⟨rfl, rfl⟩ := List.append_eq_nil_iff.mp e.symm
      exact ⟨[], rfl, nil⟩
  | @keep c t t' h ih =>
      intro s r' e hs
      cases s with
      | nil =>
          obtain rfl : c :: t' = r' := e
          exact ⟨c :: t, rfl, h.keep⟩
      | cons d s =>
          obtain ⟨rfl, rfl⟩ := List.cons.inj e
          obtain ⟨r, rfl, hr⟩ := ih rfl hs.tail
          exact ⟨r, rfl, hr⟩
  | @swap old n t t' hold hn h ih =>
      intro s r' e hs
      cases s with
      | nil =>
          obtain rfl : n ++ t' = r' := e
          exact ⟨old ++ t, rfl, swap hold hn h⟩
      | cons d s => exact absurd e (hs n hn [] (d :: s) _ _ rfl (List.cons_ne_nil d s))

/-- A title may hold words that were put in, and then held something else of the line. -/
theorem exists_title {t t' : Text} (h : Edited t t') {q : Char} (hq : isTitleMark q = true) :
    ∀ {s' r' : Text}, t' = s' ++ q :: r' → '\n' ∉ s' → ∃ s r, t = s ++ q :: r ∧ '\n' ∉ s := by
  induction h with
  | nil =>
      intro s' r' e _
      cases s' <;> cases e
  | @keep c t t' h ih =>
      intro s' r' e hs
      cases s' with
      | nil =>
          obtain ⟨rfl, rfl⟩ := List.cons.inj e
          exact ⟨[], t, rfl, List.not_mem_nil⟩
      | cons d s' =>
          obtain ⟨rfl, rfl⟩ := List.cons.inj e
          obtain ⟨hd, hs'⟩ := not_or.mp fun e => hs (List.mem_cons.mpr e)
          obtain ⟨s, r, rfl, hs⟩ := ih rfl hs'
          refine ⟨c :: s, r, rfl, fun hm => ?_⟩
          exact (List.mem_cons.mp hm).elim hd hs
  | @swap old n t t' hold hn h ih =>
      intro s' r' e hs
      obtain ⟨u, rfl, e'⟩ := Text.exists_of_append_eq (hn.not_mem (not_isWordChar_mark hq)) e
      obtain ⟨s, r, rfl, hs'⟩ := ih e' fun hm => hs (List.mem_append_right n hm)
      refine ⟨old ++ s, r, by rw [List.append_assoc], fun hm => ?_⟩
      rcases List.mem_append.mp hm with hm | hm
      · exact (isInner_iff.mp (hold _ hm)).1 rfl
      · exact hs' hm

/-- A call that opens behind the words was one before. -/
theorem opensCall {t t' : Text} (h : Edited t t') (ho : OpensCall t') : OpensCall t := by
  obtain ⟨q, title, k, ⟨hq, -, hl, head, ws, hhead, hws, rfl⟩, r', e⟩ := ho
  have e₁ : t' = (head ++ (ws ++ [q])) ++ (title ++ q :: r') := by
    rw [← e]
    simp
  obtain ⟨u, rfl, hu⟩ := h.exists_of_untouched e₁ (untouched_start hhead hws hq)
  obtain ⟨s, r, rfl, hs⟩ := hu.exists_title hq rfl hl
  obtain ⟨title', r₁, hfresh, hp, e'⟩ := exists_upTo (q := q) s r
  refine ⟨q, title', head ++ (ws ++ q :: (title' ++ [q])),
    ⟨hq, hfresh, fun hm => hs (hp.subset hm), head, ws, hhead, hws, rfl⟩, r₁, ?_⟩
  rw [e']
  simp

/-- Braces stay. -/
theorem count_eq {t t' : Text} (h : Edited t t') {x : Char} (hx : isInner x = false)
    (hw : Text.isWordChar x = false) : t'.count x = t.count x := by
  induction h with
  | nil => rfl
  | keep _ ih => rw [List.count_cons, List.count_cons, ih]
  | swap hold hn _ ih =>
      have hx' := List.count_eq_zero.mpr fun hm => by
        rw [hold x hm] at hx
        cases hx
      rw [List.count_append, List.count_append, ih, List.count_eq_zero.mpr (hn.not_mem hw), hx']

end Edited

/-- In a word no call opens, and none behind the word where it ends. -/
theorem IsForeign.passes {n : Text} (hn : IsForeign n) (w : Bool) (t : Text) : Passes w n t := by
  have hrest : ∀ {s : Text}, (∀ c ∈ s, Text.isWordChar c = true) → Passes true s t := by
    intro s hs
    induction s with
    | nil => exact trivial
    | cons c s ih =>
        refine ⟨fun h => (by cases h), ?_⟩
        rw [hs c List.mem_cons_self]
        exact ih fun d hd => hs d (List.mem_cons_of_mem c hd)
  obtain ⟨c, s, rfl, hc⟩ := hn.exists_cons
  refine ⟨fun _ ho => ?_, ?_⟩
  · obtain ⟨q, title, k, ⟨hq, -, -, head, ws, hhead, hws, rfl⟩, r, e⟩ := ho
    refine untouched_start hhead hws hq _ hn [] (head ++ (ws ++ [q])) t (title ++ q :: r) rfl ?_ ?_
    · simp
    · rw [List.cons_append, ← e]
      simp
  · rw [hc]
    exact hrest fun d hd => hn.word d (List.mem_cons_of_mem c hd)

theorem IsForeign.wordAfter {n : Text} (hn : IsForeign n) (w : Bool) : wordAfter w n = true := by
  cases hl : n.getLast? with
  | none => exact absurd (List.getLast?_eq_none_iff.mp hl) hn.nonempty
  | some c =>
      rw [Opening.wordAfter, hl]
      exact hn.word c (List.mem_of_getLast? hl)

/-- A text `t` in which words are put in place of stretches, when `w` and `w'` say whether a word
goes on before it and before its new form.  Its calls stay as they are; each of them lies within a
line. -/
inductive Renamed : Bool → Bool → Text → Text → Prop
  | nil {w w' : Bool} : Renamed w w' [] []
  | keep {w w' : Bool} {c : Char} {t t' : Text} : (w = false → ¬ OpensCall (c :: t)) →
      Renamed (Text.isWordChar c) (Text.isWordChar c) t t' → Renamed w w' (c :: t) (c :: t')
  | call {q : Char} {title k t t' : Text} : IsCall q title k → '\n' ∉ k →
      Renamed false false t t' → Renamed false false (k ++ t) (k ++ t')
  | swap {w w' : Bool} {old n t t' : Text} : (∀ c ∈ old, isInner c = true) → IsForeign n →
      Passes w old t → Renamed (wordAfter w old) true t t' → Renamed w w' (old ++ t) (n ++ t')

namespace Renamed

variable {w w' : Bool} {t t' : Text}

theorem edited (h : Renamed w w' t t') : Edited t t' := by
  induction h with
  | nil => exact .nil
  | keep _ _ ih => exact ih.keep
  | call _ _ _ ih => exact ih.keep_append _
  | swap hold hn _ _ ih => exact ih.swap hold hn

/-- Both texts have the same calls. -/
theorem exists_reads (h : Renamed w w' t t') : (w' = false → w = false) →
    ∃ calls, Reads w t calls ∧ Reads w' t' calls ∧ ∀ c ∈ calls, '\n' ∉ c.2.2 := by
  induction h with
  | nil => exact fun _ => ⟨[], .nil, .nil, fun c hc => by cases hc⟩
  | @keep w w' c t t' hno h ih =>
      intro hw
      obtain ⟨calls, hr, hr', hline⟩ := ih id
      refine ⟨calls, .pass hno hr, .pass (fun hw' ho => ?_) hr', hline⟩
      exact hno (hw hw') (h.edited.keep.opensCall ho)
  | @call q title k t t' hk hl _ ih =>
      intro _
      obtain ⟨calls, hr, hr', hline⟩ := ih id
      refine ⟨_, hr.call hk, hr'.call hk, fun c hc => ?_⟩
      rcases List.mem_cons.mp hc with rfl | hc
      · exact hl
      · exact hline c hc
  | @swap w w' old n t t' hold hn hp _ ih =>
      intro _
      obtain ⟨calls, hr, hr', hline⟩ := ih fun h => by cases h
      refine ⟨calls, hr.pass_append hp, .pass_append (hn.passes w' t') ?_, hline⟩
      rwa [hn.wordAfter]

/-- The lines of both texts go together. -/
theorem exists_lines (h : Renamed w w' t t') : ∃ l ls l' ls', Text.lines t = l :: ls ∧
    Text.lines t' = l' :: ls' ∧ Renamed w w' l l' ∧ l <+: t ∧
    List.Forall₂ (Renamed false false) ls ls' := by
  induction h with
  | nil => exact ⟨[], [], [], [], rfl, rfl, nil, List.nil_prefix, .nil⟩
  | @keep w w' c t t' hno _ ih =>
      obtain ⟨l, ls, l', ls', e, e', hl, hp, hls⟩ := ih
      by_cases hc : c = '\n'
      · subst hc
        refine ⟨[], l :: ls, [], l' :: ls', ?_, ?_, nil, List.nil_prefix, .cons ?_ hls⟩
        · rw [Text.lines_newline_cons, e]
        · rw [Text.lines_newline_cons, e']
        · rwa [not_isWordChar_newline] at hl
      · have hp' : c :: l <+: c :: t := List.cons_prefix_cons.mpr ⟨rfl, hp⟩
        refine ⟨c :: l, ls, c :: l', ls', ?_, ?_, ?_, hp', hls⟩
        · rw [Text.lines_cons hc, e]
          rfl
        · rw [Text.lines_cons hc, e']
          rfl
        · exact hl.keep fun hw ho => hno hw (ho.mono hp')
  | @call q title k t t' hk hn _ ih =>
      obtain ⟨l, ls, l', ls', e, e', hl, hp, hls⟩ := ih
      refine ⟨k ++ l, ls, k ++ l', ls', Text.lines_append_of_not_mem hn e,
        Text.lines_append_of_not_mem hn e', hl.call hk hn, ?_, hls⟩
      exact (List.prefix_append_right_inj k).mpr hp
  | @swap w w' old n t t' hold hn hps _ ih =>
      obtain ⟨l, ls, l', ls', e, e', hl, hp, hls⟩ := ih
      have hold' : '\n' ∉ old := fun hm => (isInner_iff.mp (hold _ hm)).1 rfl
      refine ⟨old ++ l, ls, n ++ l', ls', Text.lines_append_of_not_mem hold' e,
        Text.lines_append_of_not_mem (hn.not_mem not_isWordChar_newline) e',
        hl.swap hold hn (hps.mono hp), ?_, hls⟩
      exact (List.prefix_append_right_inj old).mpr hp

/-- A line is scanned like the one that it takes the place of. -/
theorem sign_eq (h : Renamed false false t t') : case.sign t' = case.sign t := by
  obtain ⟨calls, hr, hr', -⟩ := h.exists_reads id
  exact Opening.sign_eq hr hr' (h.edited.count_eq (by decide) (by decide))
    (h.edited.count_eq (by decide) (by decide))

/-- The lines of both texts are scanned alike. -/
theorem map_sign_eq (h : Renamed false false t t') :
    (Text.lines t').map case.sign = (Text.lines t).map case.sign := by
  obtain ⟨l, ls, l', ls', e, e', hl, -, hls⟩ := h.exists_lines
  rw [e, e', List.map_cons, List.map_cons, hl.sign_eq]
  congr 1
  clear e e'
  induction hls with
  | nil => rfl
  | cons h _ ih => rw [List.map_cons, List.map_cons, h.sign_eq, ih]

end Renamed
end Opening
end SuiteAudit
