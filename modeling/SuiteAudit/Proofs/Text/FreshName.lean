import Mathlib.Data.List.Nodup
import Mathlib.Data.List.Perm.Subperm
import SuiteAudit.Refactoring.Context

/-! # Fresh names are fresh

`freshName` gives the base itself or the first free one of its numbered forms (`freshName_cases`), and
never a taken name when different numbers give different names (`freshName_not_mem`): if the bounded
search ran through all its numbers, more names than there are taken ones would be among them. -/

namespace SuiteAudit

variable {taken : List Text} {numbered : Nat → Text}

/-- The search goes over taken names and stops at a free one or at its bound. -/
theorem exists_freshFrom (taken : List Text) (numbered : Nat → Text) : ∀ (limit n : Nat),
    ∃ m, n ≤ m ∧ freshFrom taken numbered limit n = numbered m ∧
      (∀ i, n ≤ i → i < m → numbered i ∈ taken) ∧ (numbered m ∉ taken ∨ m = n + limit)
  | 0, n => ⟨n, Nat.le_refl n, rfl, fun i h₁ h₂ => by omega, Or.inr rfl⟩
  | limit + 1, n => by
      unfold freshFrom
      by_cases hn : numbered n ∈ taken
      · rw [if_pos (List.elem_iff.mpr hn)]
        obtain ⟨m, hm, e, hall, h⟩ := exists_freshFrom taken numbered limit (n + 1)
        refine ⟨m, by omega, e, fun i h₁ h₂ => ?_, h.imp_right fun hml => by omega⟩
        rcases Nat.eq_or_lt_of_le h₁ with rfl | h₁
        · exact hn
        · exact hall i h₁ h₂
      · rw [if_neg (fun h => hn (List.elem_iff.mp h))]
        exact ⟨n, Nat.le_refl n, rfl, fun i h₁ h₂ => by omega, Or.inl hn⟩

/-- The base is given as it is when it is free, and else with the least number from two on that gives a
free name. -/
theorem freshName_cases (numbered : Nat → Text) (taken : List Text) (base : Text) :
    freshName taken base numbered = base ∧ base ∉ taken ∨
    base ∈ taken ∧ ∃ n, 2 ≤ n ∧ freshName taken base numbered = numbered n ∧
      ∀ i, 2 ≤ i → i < n → numbered i ∈ taken := by
  unfold freshName
  split
  · next h =>
      obtain ⟨n, hn, e, hall, -⟩ := exists_freshFrom taken numbered taken.length 2
      exact .inr ⟨List.elem_iff.mp h, n, hn, e, hall⟩
  · next h => exact .inl ⟨rfl, fun hm => h (List.elem_iff.mpr hm)⟩

theorem freshName_eq (taken : List Text) (base : Text) (numbered : Nat → Text) :
    freshName taken base numbered = base ∨ ∃ m, freshName taken base numbered = numbered m := by
  obtain ⟨e, -⟩ | ⟨-, n, -, e, -⟩ := freshName_cases numbered taken base
  · exact .inl e
  · exact .inr ⟨n, e⟩

theorem freshName_not_mem (hinj : Function.Injective numbered) (base : Text) :
    freshName taken base numbered ∉ taken := by
  unfold freshName
  split
  · obtain ⟨m, hm, e, hall, hfree | hlimit⟩ := exists_freshFrom taken numbered taken.length 2
    · rw [e]
      exact hfree
    · intro hmem
      rw [e] at hmem
      -- the numbers from two to the bound give one name more than there are taken ones
      have hnodup : ((List.range' 2 (taken.length + 1)).map numbered).Nodup :=
        List.Nodup.map hinj List.nodup_range'
      have hsub : (List.range' 2 (taken.length + 1)).map numbered ⊆ taken := by
        intro name hname
        obtain ⟨i, hi, rfl⟩ := List.mem_map.mp hname
        obtain ⟨hi₁, hi₂⟩ := List.mem_range'_1.mp hi
        by_cases him : i < m
        · exact hall i hi₁ him
        · obtain rfl : i = m := by omega
          exact hmem
      have := (hnodup.subperm hsub).length_le
      rw [List.length_map, List.length_range'] at this
      omega
  · next h => exact fun hmem => h (List.elem_iff.mpr hmem)

/-! ### Names with numbers -/

theorem ofNat_injective : Function.Injective Text.ofNat := by
  intro a b h
  have := congrArg (Nat.ofDigitChars 10 · 0) h
  simpa [Text.ofNat] using this

theorem numberedName_injective (base : Text) : Function.Injective (numberedName base) := by
  intro a b h
  exact ofNat_injective (List.append_cancel_left h)

theorem unusedName_not_mem (base : Text) (taken : List Text) : unusedName base taken ∉ taken :=
  freshName_not_mem (numberedName_injective base) base

theorem unusedName_eq (base : Text) (taken : List Text) :
    unusedName base taken = base ∨ ∃ n, unusedName base taken = numberedName base n :=
  freshName_eq taken base (numberedName base)

end SuiteAudit
