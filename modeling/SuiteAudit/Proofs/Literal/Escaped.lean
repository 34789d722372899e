import Mathlib.Algebra.Ring.Parity
import Mathlib.Data.List.DropRight
import SuiteAudit.Proofs.Literal.Doubled

/-! # Values between quotes

A value stands between two quotes with each backslash written twice and a backslash before each quote
(`escaped`).  What is written is read as the value, and no other text is (`unescape?_eq_some_iff`).

Whether a quote is escaped shows in the backslashes before it.  A quote that was written for one of the
value stands behind an odd number of them (`odd_endBackslashes`), the closing quote behind an even
number (`even_endBackslashes`).  A literal therefore ends at the same place whatever follows it
(`literal_append_inj`).  `literal_encodes` puts these together. -/

namespace SuiteAudit
namespace Literal

variable {q : Quotes} {a b r s t v w : Text} {c : Char}

/-! ### Reading what was written -/

/-- The value of the text between two quotes: a backslash begins a pair of which the second character
counts, a backslash or a quote, and neither of these stands outside of a pair. -/
def unescape? (q : Quotes) : Text → Option Text
  | [] => some []
  | '\\' :: c :: t =>
    if c = '\\' ∨ c = q.mark then (unescape? q t).map (c :: ·) else none
  | c :: t => if c = '\\' ∨ c = q.mark then none else (unescape? q t).map (c :: ·)

theorem unescape?_plain (h : ¬(c = '\\' ∨ c = q.mark)) (t : Text) :
    unescape? q (c :: t) = (unescape? q t).map (c :: ·) := by
  rw [unescape?, if_neg h]
  intro d s hc
  exact absurd hc (not_or.mp h).1

theorem unescape?_escaped (q : Quotes) (v : Text) : unescape? q (escaped q v) = some v := by
  induction v with
  | nil => rfl
  | cons c v ih =>
      by_cases h : c = '\\' ∨ c = q.mark
      · rw [escaped_special h, unescape?, if_pos h, ih]
        rfl
      · rw [escaped_plain h, unescape?_plain h, ih]
        rfl

theorem eq_escaped_of_unescape? (h : unescape? q t = some v) : t = escaped q v := by
  fun_induction unescape? q t generalizing v with
  | case1 =>
      obtain rfl := Option.some.inj h
      rfl
  | case2 c t hc ih =>
      obtain ⟨v, hv, rfl⟩ := Option.map_eq_some_iff.mp h
      rw [escaped_special hc, ← ih hv]
  | case3 => cases h
  | case4 => cases h
  | case5 c t _ hc ih =>
      obtain ⟨v, hv, rfl⟩ := Option.map_eq_some_iff.mp h
      rw [escaped_plain hc, ← ih hv]

/-- A text between quotes is read as a value exactly when it is what writing the value gives. -/
theorem unescape?_eq_some_iff : unescape? q t = some v ↔ t = escaped q v := by
  constructor
  · exact eq_escaped_of_unescape?
  · rintro rfl
    exact unescape?_escaped q v

/-! ### Backslashes before a quote -/

/-- The number of backslashes that a text ends with. -/
def endBackslashes (t : Text) : Nat := (t.rtakeWhile (· = '\\')).length

theorem endBackslashes_backslash (t : Text) : endBackslashes (t ++ ['\\']) = endBackslashes t + 1 := by
  simp [endBackslashes]

theorem endBackslashes_other (hc : c ≠ '\\') (t : Text) : endBackslashes (t ++ [c]) = 0 := by
  simp [endBackslashes, hc]

theorem escaped_concat (q : Quotes) (v : Text) (c : Char) :
    escaped q (v ++ [c]) = escaped q v ++ q.escapeChar c := by
  simp [← flatMap_escapeChar]

/-- What is written for a character ends with it. -/
theorem exists_escapeChar (q : Quotes) (c : Char) : ∃ u, q.escapeChar c = u ++ [c] := by
  by_cases h : c = '\\' ∨ c = q.mark
  · exact ⟨['\\'], Quotes.escapeChar_of_special h⟩
  · exact ⟨[], Quotes.escapeChar_of_plain h⟩

/-- The closing quote is not escaped: the backslashes before it stand in pairs. -/
theorem even_endBackslashes (q : Quotes) (v : Text) : Even (endBackslashes (escaped q v)) := by
  induction v using List.reverseRecOn with
  | nil => exact Even.zero
  | append_singleton v c ih =>
      rw [escaped_concat]
      by_cases hb : c = '\\'
      · rw [Quotes.escapeChar_of_special (Or.inl hb), hb, List.append_cons, endBackslashes_backslash,
          endBackslashes_backslash]
        exact ih.add even_two
      · obtain ⟨u, hu⟩ := exists_escapeChar q c
        rw [hu, ← List.append_assoc, endBackslashes_other hb]
        exact Even.zero

/-- A quote between the quotes was written for one of the value. -/
theorem exists_of_escaped_eq (h : escaped q v = a ++ q.mark :: b) :
    ∃ x y, v = x ++ q.mark :: y ∧ a = escaped q x ++ ['\\'] ∧ b = escaped q y := by
  induction v generalizing a with
  | nil => cases a <;> cases h
  | cons c v ih =>
      by_cases hc : c = '\\' ∨ c = q.mark
      · rw [escaped_special hc] at h
        rcases a with _ | ⟨d, _ | ⟨e, a⟩⟩
        · exact absurd (List.cons.inj h).1.symm q.mark_ne_backslash
        · -- the quote is the second character of the pair for `c`
          simp only [List.cons_append, List.nil_append, List.cons.injEq] at h
          obtain ⟨rfl, rfl, rfl⟩ := h
          exact ⟨[], v, rfl, rfl, rfl⟩
        · simp only [List.cons_append, List.cons.injEq] at h
          obtain ⟨rfl, rfl, h⟩ := h
          obtain ⟨x, y, rfl, rfl, rfl⟩ := ih h
          exact ⟨c :: x, y, rfl, by rw [escaped_special hc]; rfl, rfl⟩
      · rw [escaped_plain hc] at h
        rcases a with _ | ⟨d, a⟩
        · exact absurd (List.cons.inj h).1 (not_or.mp hc).2
        · simp only [List.cons_append, List.cons.injEq] at h
          obtain ⟨rfl, h⟩ := h
          obtain ⟨x, y, rfl, rfl, rfl⟩ := ih h
          exact ⟨c :: x, y, rfl, by rw [escaped_plain hc]; rfl, rfl⟩

/-- A quote between the quotes is escaped. -/
theorem odd_endBackslashes (h : escaped q v = a ++ q.mark :: b) : Odd (endBackslashes a) := by
  obtain ⟨x, y, -, rfl, -⟩ := exists_of_escaped_eq h
  rw [endBackslashes_backslash]
  exact (even_endBackslashes q x).add_one

/-! ### Where a literal ends -/

/-- The closing quote of a literal is no quote inside of a longer one. -/
theorem eq_nil_of_escaped_append (hw : escaped q w = escaped q v ++ t)
    (h : q.mark :: r = t ++ q.mark :: s) : t = [] := by
  cases t with
  | nil => rfl
  | cons d t =>
      obtain ⟨rfl, -⟩ := List.cons.inj h
      exact absurd (even_endBackslashes q v) (Nat.not_even_iff_odd.mpr (odd_endBackslashes hw))

theorem escaped_inj (h : escaped q v = escaped q w) : v = w := by
  have := unescape?_escaped q v
  rw [h, unescape?_escaped] at this
  exact (Option.some.inj this).symm

/-- A literal ends at its last quote, whatever follows it. -/
theorem literal_append_inj : q.literal v ++ r = q.literal w ++ s ↔ v = w ∧ r = s := by
  constructor
  · intro h
    have h' : escaped q v ++ q.mark :: r = escaped q w ++ q.mark :: s := by
      simpa [literal_eq_quote_escaped, quote] using h
    obtain ⟨t, hw, hr⟩ | ⟨t, hv, hs⟩ := List.append_eq_append_iff.mp h'
    · obtain rfl := eq_nil_of_escaped_append hw hr
      rw [List.append_nil] at hw
      exact ⟨(escaped_inj hw).symm, (List.cons.inj hr).2⟩
    · obtain rfl := eq_nil_of_escaped_append hv hs
      rw [List.append_nil] at hv
      exact ⟨escaped_inj hv, (List.cons.inj hs).2.symm⟩
  · rintro ⟨rfl, rfl⟩
    rfl

/-! ### The result -/

/-- What the text `inner` between two quotes has to be for the value `v`. -/
structure Encodes (q : Quotes) (v inner : Text) : Prop where
  /-- Each quote in it stands behind an odd number of backslashes. -/
  inner_odd : ∀ a b, inner = a ++ q.mark :: b → Odd (endBackslashes a)
  /-- The closing quote stands behind an even number. -/
  closing_even : Even (endBackslashes inner)
  /-- It is read as the value, and is the only text that is. -/
  reads : ∀ t, unescape? q t = some v ↔ t = inner

/-- A literal begins and ends with its quote, and what stands between the quotes encodes the value.  A
text begins with no more than one literal of a style, and no two values have the same one. -/
theorem literal_encodes (q : Quotes) :
    (∀ v, q.literal v = q.mark :: (escaped q v ++ [q.mark]) ∧ Encodes q v (escaped q v)) ∧
    (∀ v w r s, q.literal v ++ r = q.literal w ++ s ↔ v = w ∧ r = s) ∧
    Function.Injective q.literal := by
  refine ⟨fun v => ⟨literal_eq_quote_escaped q v, ?_⟩, fun v w r s => literal_append_inj, ?_⟩
  · constructor
    · intro a b h
      exact odd_endBackslashes h
    · exact even_endBackslashes q v
    · intro t
      exact unescape?_eq_some_iff
  · intro v w h
    have happend : q.literal v ++ [] = q.literal w ++ [] := by rw [h]
    exact (literal_append_inj.mp happend).1

/-- A value with a backslash before a quote and at its end. -/
theorem backslashes_encoded : Quotes.single.literal "\\'\\" = "'\\\\\\'\\\\'" ∧
    Odd (endBackslashes "\\\\\\") ∧ unescape? .single "\\\\\\'\\\\" = some "\\'\\" := by
  obtain ⟨h, hinner⟩ := (literal_encodes .single).1 "\\'\\"
  have hescaped : escaped .single "\\'\\" = "\\\\\\'\\\\" := by decide
  rw [hescaped] at h hinner
  exact ⟨h, hinner.inner_odd _ "\\\\" rfl, (hinner.reads _).mpr rfl⟩

end Literal
end SuiteAudit
