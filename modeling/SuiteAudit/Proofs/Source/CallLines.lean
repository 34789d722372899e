import SuiteAudit.Proofs.Source.CallsRead

/-! # Lines with calls

A test case may open on a line exactly when a call lies within it (`isOn_case_iff`).  A call that goes
over a line end has no mark before its last line, so that no two lines with calls share a call of the
text: there are at most as many such lines as calls (`countP_isOn_le`). -/

namespace SuiteAudit
namespace Opening

/-- A call lies within a line, where `w` says whether a word goes on before the line. -/
def HasCall (w : Bool) (line : Text) : Prop :=
  ∃ a q title k r, line = a ++ (k ++ r) ∧ IsCall q title k ∧ wordAfter w a = false

theorem wordAfter_false (a : Text) : wordAfter false a = a.getLast?.any Text.isWordChar := by
  unfold wordAfter
  cases a.getLast? <;> rfl

/-- A test case may open on a line exactly when a call lies within it. -/
theorem isOn_case_iff {line : Text} : case.isOn line = true ↔ HasCall false line := by
  constructor
  · intro h
    obtain ⟨hit, hf⟩ := Option.isSome_iff_exists.mp h
    obtain ⟨a, u, rfl, hm⟩ := Pattern.exists_of_find? hf
    obtain ⟨hb, q, title, k, r, hk, rfl, -⟩ := exists_of_case_matchAt hm
    exact ⟨a, q, title, k, r, rfl, hk, (wordAfter_false a).trans hb⟩
  · rintro ⟨a, q, title, k, r, rfl, hk, ha⟩
    rw [wordAfter_false] at ha
    obtain ⟨s, groups, ht⟩ := case_takes hk ha r a.length
    exact Pattern.occursIn_of_takes ht

theorem IsCall.mark_mem {q : Char} {title k : Text} (h : IsCall q title k) : q ∈ k :=
  List.mem_of_getLast? h.getLast?

/-- Without a mark no call lies within a line. -/
theorem not_hasCall_of_not_mark {w : Bool} {line : Text} (h : ∀ c ∈ line, isTitleMark c = false) :
    ¬ HasCall w line := by
  rintro ⟨a, q, title, k, r, rfl, hk, -⟩
  have hq := h q (List.mem_append_right a (List.mem_append_left r hk.mark_mem))
  rw [hk.mark] at hq
  cases hq

/-- A call within a line begins with the line or lies within the rest of it. -/
theorem HasCall.of_cons {w : Bool} {c : Char} {line : Text} (h : HasCall w (c :: line)) :
    w = false ∧ OpensCall (c :: line) ∨ HasCall (Text.isWordChar c) line := by
  obtain ⟨a, q, title, k, r, e, hk, ha⟩ := h
  cases a with
  | nil => exact Or.inl ⟨ha, q, title, k, hk, r, e.symm⟩
  | cons d a =>
      obtain ⟨rfl, rfl⟩ := List.cons.inj e
      rw [wordAfter_cons] at ha
      exact Or.inr ⟨a, q, title, k, r, rfl, hk, ha⟩

/-- Before its last line a call has no mark. -/
theorem IsCall.not_mark_of_split {q : Char} {title x y : Text} (h : IsCall q title (x ++ '\n' :: y)) :
    ∀ c ∈ x, isTitleMark c = false := by
  obtain ⟨head, ws, -, rfl, -, hhead, hws, -⟩ := h.split
  intro c hc
  rcases List.mem_append.mp hc with hc | hc
  · exact not_mark_of_mem_head hhead hc
  · exact not_mark_of_isBlank (hws c hc)

/-- A text with a line feed in it is cut at the last one. -/
theorem exists_last_newline {t : Text} (h : '\n' ∈ t) : ∃ x y, t = x ++ '\n' :: y ∧ '\n' ∉ y := by
  obtain ⟨y, x, e, hy⟩ := List.eq_append_cons_of_mem (List.mem_reverse.mpr h)
  refine ⟨x.reverse, y.reverse, ?_, fun hm => hy (List.mem_reverse.mp hm)⟩
  rw [← List.reverse_reverse t, e]
  simp

/-- A call lies within one line, or no call lies within any of its lines before the last one. -/
theorem IsCall.lines_append {q : Char} {title k : Text} (hk : IsCall q title k) {t l : Text}
    {ls : List Text} (hlines : Text.lines t = l :: ls) :
    Text.lines (k ++ t) = (k ++ l) :: ls ∨
      ∃ first inner last, Text.lines (k ++ t) = first :: (inner ++ last :: ls) ∧
        ∀ line ∈ first :: inner, ∀ w, ¬ HasCall w line := by
  by_cases hn : '\n' ∈ k
  · obtain ⟨x, y, rfl, hy⟩ := exists_last_newline hn
    obtain ⟨first, inner, hx⟩ := List.exists_cons_of_ne_nil (Text.lines_ne_nil x)
    refine Or.inr ⟨first, inner, y ++ l, ?_, fun line hl w => ?_⟩
    · rw [List.append_assoc, List.cons_append, Text.lines_append_newline,
        Text.lines_append_of_not_mem hy hlines, hx]
      rfl
    · rw [← hx] at hl
      refine not_hasCall_of_not_mark fun c hc => ?_
      exact hk.not_mark_of_split c ((Text.infix_of_mem_lines hl).subset hc)
  · exact Or.inl (Text.lines_append_of_not_mem hn hlines)

/-- A call within the first line of a text that does not open one lies within the rest of the line. -/
theorem HasCall.first_of_cons {w : Bool} {c : Char} {t l : Text} {ls : List Text}
    (hlines : Text.lines t = l :: ls) (hno : w = false → ¬ OpensCall (c :: t))
    (h : HasCall w (c :: l)) : HasCall (Text.isWordChar c) l := by
  rcases h.of_cons with ⟨hw, ho⟩ | h
  · have hp : l <+: t := by
      have := Text.joinLines_prefix_append [l] ls
      rwa [Text.joinLines_singleton, List.singleton_append, ← hlines, Text.joinLines_lines] at this
    exact absurd (ho.mono (List.cons_prefix_cons.mpr ⟨rfl, hp⟩)) (hno hw)
  · exact h

/-- At most as many lines have a call as calls are read; the first line counts where one lies within
what is left of it. -/
theorem Reads.countP_lines_le {w : Bool} {t : Text} {calls : List (Char × Text × Text)}
    (h : Reads w t calls) : ∀ {l : Text} {ls : List Text}, Text.lines t = l :: ls →
      ls.countP case.isOn ≤ calls.length ∧
        (HasCall w l → ls.countP case.isOn + 1 ≤ calls.length) := by
  have hempty : ∀ w, ¬ HasCall w [] := fun w => not_hasCall_of_not_mark fun c hc => by cases hc
  induction h with
  | nil =>
      intro l ls e
      obtain ⟨rfl, rfl⟩ := List.cons.inj e
      exact ⟨Nat.le_refl 0, fun hcall => absurd hcall (hempty _)⟩
  | @pass w c t calls hno _ ih =>
      intro l ls e
      obtain ⟨l', ls', hlines⟩ := List.exists_cons_of_ne_nil (Text.lines_ne_nil t)
      obtain ⟨hrest, hfirst⟩ := ih hlines
      by_cases hc : c = '\n'
      · subst hc
        rw [Text.lines_newline_cons, hlines] at e
        obtain ⟨rfl, rfl⟩ := List.cons.inj e
        rw [not_isWordChar_newline, ← isOn_case_iff] at hfirst
        refine ⟨?_, fun hcall => absurd hcall (hempty _)⟩
        rw [List.countP_cons]
        split
        · next hon => exact hfirst hon
        · exact hrest
      · rw [Text.lines_cons hc, hlines] at e
        obtain ⟨rfl, rfl⟩ := List.cons.inj e
        exact ⟨hrest, fun hcall => hfirst (hcall.first_of_cons hlines hno)⟩
  | @call q title k t calls hk _ ih =>
      intro l ls e
      obtain ⟨l', ls', hlines⟩ := List.exists_cons_of_ne_nil (Text.lines_ne_nil t)
      obtain ⟨hrest, -⟩ := ih hlines
      rw [List.length_cons]
      rcases hk.lines_append hlines with hone | ⟨first, inner, last, hsplit, hoff⟩
      · rw [hone] at e
        obtain ⟨-, rfl⟩ := List.cons.inj e
        exact ⟨by omega, fun _ => by omega⟩
      · -- only the last line of the call may have one
        rw [hsplit] at e
        obtain ⟨rfl, rfl⟩ := List.cons.inj e
        have hinner : inner.countP case.isOn = 0 := by
          rw [List.countP_eq_zero]
          intro line hl hon
          exact hoff line (List.mem_cons_of_mem _ hl) _ (isOn_case_iff.mp hon)
        have hlast : (last :: ls').countP case.isOn ≤ ls'.countP case.isOn + 1 := by
          rw [List.countP_cons]
          split <;> omega
        refine ⟨?_, fun hcall => absurd hcall (hoff _ List.mem_cons_self _)⟩
        rw [List.countP_append]
        omega

/-- At most as many lines have a call as there are calls in the text. -/
theorem countP_isOn_le (t : Text) : (Text.lines t).countP case.isOn ≤ countCaseCalls t := by
  obtain ⟨calls, hr⟩ := Reads.exists_calls false t
  obtain ⟨l, ls, hlines⟩ := List.exists_cons_of_ne_nil (Text.lines_ne_nil t)
  obtain ⟨hrest, hfirst⟩ := hr.countP_lines_le hlines
  have hcount : countCaseCalls t = calls.length := by
    have := congrArg List.length hr.findAll
    rwa [List.length_map, List.length_map] at this
  rw [hcount, hlines, List.countP_cons]
  split
  · next hon => exact hfirst (isOn_case_iff.mp hon)
  · exact hrest

end Opening
end SuiteAudit
