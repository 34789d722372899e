import SuiteAudit.Text.Basic

/-! # Where a text stands in others

A text that stands in two texts written one after the other stands in one of them or runs over the
seam (`infix_append`).  What cannot be part of it keeps it to one side (`infix_of_barrier`).  A
run of a class up to a character outside of it is found again (`run_append_inj`). -/

namespace SuiteAudit.Text

/-! ### Runs -/

section Runs

variable {p : Char → Bool} {a b x y : Text}

theorem takeWhile_run (ha : ∀ c ∈ a, p c = true) (hx : x.head?.any p = false) :
    (a ++ x).takeWhile p = a := by
  rw [List.takeWhile_append_of_pos ha]
  cases x with
  | nil => simp
  | cons d x =>
      have hd : p d = false := hx
      simp [hd]

/-- A run of a class that ends before a character outside of it is known by the whole. -/
theorem run_append_inj (ha : ∀ c ∈ a, p c = true) (hb : ∀ c ∈ b, p c = true)
    (hx : x.head?.any p = false) (hy : y.head?.any p = false) (e : a ++ x = b ++ y) :
    a = b ∧ x = y := by
  have hab : a = b := by rw [← takeWhile_run ha hx, e, takeWhile_run hb hy]
  subst hab
  exact ⟨rfl, List.append_cancel_left e⟩

end Runs

/-! ### Over a seam -/

section Seam

variable {α : Type} {a b s t w x y : List α} {c : α}

/-- A text without `c` ends before the `c`. -/
theorem exists_of_append_eq (hc : c ∉ a) (e : a ++ b = x ++ c :: y) :
    ∃ s, x = a ++ s ∧ b = s ++ c :: y := by
  obtain ⟨s, rfl, e'⟩ | ⟨s, rfl, e'⟩ := List.append_eq_append_iff.mp e
  · exact ⟨s, rfl, e'⟩
  · cases s with
    | nil => exact ⟨[], by simp, e'.symm⟩
    | cons d s =>
        obtain ⟨rfl, -⟩ := List.cons.inj e'
        exact absurd (List.mem_append_right x List.mem_cons_self) hc

/-- A text without `c` begins behind the `c`. -/
theorem exists_of_append_eq' (hc : c ∉ b) (e : a ++ b = x ++ c :: y) :
    ∃ s, a = x ++ c :: s ∧ y = s ++ b := by
  obtain ⟨s, rfl, rfl⟩ | ⟨s, rfl, e'⟩ := List.append_eq_append_iff.mp e
  · exact absurd (List.mem_append_right s List.mem_cons_self) hc
  · cases s with
    | nil =>
        obtain rfl : c :: y = b := e'
        exact absurd List.mem_cons_self hc
    | cons d s =>
        obtain ⟨rfl, rfl⟩ := List.cons.inj e'
        exact ⟨s, rfl, rfl⟩

/-- What stands before some `c` stands before the last one. -/
theorem prefix_before_last (hc : c ∉ b) (e : a ++ c :: b = s ++ t) (ht : c ∈ t) : s <+: a := by
  obtain ⟨t₁, t₂, rfl⟩ := List.append_of_mem ht
  have e' : (a ++ [c]) ++ b = (s ++ t₁) ++ c :: t₂ := by simpa using e
  obtain ⟨z, hz, -⟩ := exists_of_append_eq' hc e'
  have hlength : s.length ≤ a.length := by
    have := congrArg List.length hz
    simp only [List.length_append, List.length_cons, List.length_nil] at this
    omega
  refine List.prefix_of_prefix_length_le ⟨t₁ ++ c :: z, ?_⟩ (List.prefix_append a [c]) hlength
  rw [hz, List.append_assoc]

theorem prefix_append (h : w <+: a ++ b) : w <+: a ∨ ∃ s, s ≠ [] ∧ w = a ++ s ∧ s <+: b := by
  obtain ⟨r, e⟩ := h
  obtain ⟨s, rfl, hs⟩ | ⟨s, rfl, hs⟩ := List.append_eq_append_iff.mp e
  · exact Or.inl ⟨s, rfl⟩
  · cases s with
    | nil => exact Or.inl ⟨[], by simp⟩
    | cons c s => exact Or.inr ⟨c :: s, List.cons_ne_nil c s, rfl, r, hs.symm⟩

theorem infix_append : ∀ {a : List α}, w <:+: a ++ b →
    w <:+: a ∨ w <:+: b ∨ ∃ s t, s ≠ [] ∧ t ≠ [] ∧ w = s ++ t ∧ s <:+ a ∧ t <+: b
  | [], h => Or.inr (Or.inl h)
  | c :: a, h => by
      rcases List.infix_cons_iff.mp h with h | h
      · rcases prefix_append (a := c :: a) h with h | ⟨t, ht, rfl, htb⟩
        · exact Or.inl h.isInfix
        · exact Or.inr (Or.inr ⟨c :: a, t, List.cons_ne_nil c a, ht, rfl, List.suffix_refl _, htb⟩)
      · rcases infix_append h with h | h | ⟨s, t, hs, ht, e, hsa, htb⟩
        · exact Or.inl (h.trans (List.suffix_cons c a).isInfix)
        · exact Or.inr (Or.inl h)
        · exact Or.inr (Or.inr ⟨s, t, hs, ht, e, hsa.trans (List.suffix_cons c a), htb⟩)

/-- What does not end like anything in `b` begins and what does not begin like anything in `a` stays
on one side. -/
theorem infix_of_barrier (hc : c ∉ w) (h : w <:+: a ++ c :: b) : w <:+: a ∨ w <:+: b := by
  rcases infix_append h with h | h | ⟨s, t, -, ht, rfl, -, htb⟩
  · exact Or.inl h
  · rcases List.infix_cons_iff.mp h with h | h
    · cases w with
      | nil => exact Or.inl List.nil_infix
      | cons d w =>
          obtain ⟨rfl, -⟩ := List.cons_prefix_cons.mp h
          exact absurd List.mem_cons_self hc
    · exact Or.inr h
  · cases t with
    | nil => exact absurd rfl ht
    | cons d t =>
        obtain ⟨rfl, -⟩ := List.cons_prefix_cons.mp htb
        exact absurd (List.mem_append_right s List.mem_cons_self) hc

/-- A text whose first character does not occur in `a` stands behind it. -/
theorem infix_of_head_not_mem (hc : c ∉ a) (h : c :: w <:+: a ++ b) : c :: w <:+: b := by
  have hn : ∀ {s : List α}, s ≠ [] → s <+: c :: w → s <:+: a → False := by
    intro s hs hp ha
    cases s with
    | nil => exact hs rfl
    | cons d s =>
        obtain ⟨rfl, -⟩ := List.cons_prefix_cons.mp hp
        exact hc (ha.subset List.mem_cons_self)
  rcases infix_append h with h | h | ⟨s, t, hs, -, e, hsa, -⟩
  · exact (hn (List.cons_ne_nil c w) (List.prefix_refl _) h).elim
  · exact h
  · exact (hn hs ⟨t, e.symm⟩ hsa.isInfix).elim

/-- A text whose last character does not occur in `b` stands before it. -/
theorem infix_of_last_not_mem (hc : c ∉ b) (h : w ++ [c] <:+: a ++ b) : w ++ [c] <:+: a := by
  have hn : ∀ {t : List α}, t ≠ [] → t <:+ w ++ [c] → t <:+: b → False := by
    intro t ht hp hb
    obtain ⟨r, e⟩ := hp
    have hl := congrArg List.getLast? e
    rw [List.getLast?_append, List.getLast?_concat] at hl
    cases hg : t.getLast? with
    | none => exact ht (List.getLast?_eq_none_iff.mp hg)
    | some d =>
        rw [hg] at hl
        obtain rfl : d = c := Option.some.inj hl
        exact hc (hb.subset (List.mem_of_getLast? hg))
  rcases infix_append h with h | h | ⟨s, t, -, ht, e, -, htb⟩
  · exact h
  · exact (hn (by simp) (List.suffix_refl _) h).elim
  · exact (hn ht ⟨s, e.symm⟩ htb.isInfix).elim

/-- What holds nothing of a gap stays on one side of it. -/
theorem infix_of_gap (hg : s ≠ []) (hs : ∀ x ∈ s, x ∉ w) (h : w <:+: a ++ (s ++ b)) :
    w <:+: a ∨ w <:+: b := by
  induction s generalizing a with
  | nil => exact absurd rfl hg
  | cons x s ih =>
      obtain ⟨hx, hs⟩ := List.forall_mem_cons.mp hs
      refine (infix_of_barrier hx h).elim .inl fun h => ?_
      by_cases hnil : s = []
      · rw [hnil] at h
        exact .inr h
      · refine (ih (a := []) hnil hs h).imp_left fun h => ?_
        rw [List.infix_nil.mp h]
        exact List.nil_infix

end Seam

/-! ### Search -/

section Search

variable {t w : Text}

/-- A fixed text is found exactly where it stands. -/
theorem isSome_find?_iff : ∀ {t : Text}, (find? w t).isSome = true ↔ w <:+: t
  | [] => by
      rw [find?]
      cases w with
      | nil => simp
      | cons c w => simp
  | c :: t => by
      rw [find?, List.infix_cons_iff, ← isSome_find?_iff (t := t), ← List.isPrefixOf_iff_prefix]
      split
      · next h => simp [h]
      · next h => simp [h]

theorem contains_iff : contains t w = true ↔ w <:+: t := isSome_find?_iff

end Search

end SuiteAudit.Text
