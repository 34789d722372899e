import Mathlib.Tactic.SplitIfs
import SuiteAudit.Proofs.Text.Blanks
import SuiteAudit.Proofs.Text.FreshName
import SuiteAudit.Refactoring.Constants

/-! # Names that are made up

A made-up name is the name that a value asks for, perhaps with a number behind it (`IsGivenName`).
Such a name is a capital followed by capitals, digits and underscores
(`IsGivenName.isNameText`). -/

namespace SuiteAudit

/-- A name that is made up for a wait or for test data. -/
def IsGivenName (name : Text) : Prop :=
  ∃ base taken, name = unusedName base taken ∧
    ((∃ ms : Nat, base = Literal.timeoutName ms) ∨ ∃ value, base = Literal.dataName value)

def isNameChar (c : Char) : Bool := c.isUpper || c.isDigit || c == '_'

theorem toNat_lt_of_isNameChar {c : Char} (h : isNameChar c = true) : c.toNat < 128 := by
  rw [isNameChar, Bool.or_eq_true, Bool.or_eq_true, beq_iff_eq] at h
  rcases h with (h | h) | rfl
  · have hrange : c.val ≥ 'A'.val ∧ c.val ≤ 'Z'.val := of_decide_eq_true h
    exact Nat.lt_of_le_of_lt (UInt32.le_iff_toNat_le.mp hrange.2) (by decide)
  · exact Nat.lt_of_le_of_lt (Char.isDigit_iff_toNat.mp h).2 (by decide)
  · decide

/-- What holds of the name characters among the first 128 holds of all. -/
theorem forall_nameChar {P : Char → Prop}
    (h : ∀ n ∈ List.range 128, isNameChar (Char.ofNat n) = true → P (Char.ofNat n)) {c : Char}
    (hc : isNameChar c = true) : P c := by
  have := h c.toNat (List.mem_range.mpr (toNat_lt_of_isNameChar hc))
  rw [Char.ofNat_toNat] at this
  exact this hc

theorem isWordChar_of_isNameChar {c : Char} (h : isNameChar c = true) :
    Text.isWordChar c = true :=
  forall_nameChar (P := fun c => Text.isWordChar c = true) (by decide +kernel) h

theorem not_isDigit_of_isUpper {c : Char} (hc : isNameChar c = true) (h : c.isUpper = true) :
    Text.isDigit c = false := by
  revert h
  exact forall_nameChar (P := fun c => c.isUpper = true → Text.isDigit c = false)
    (by decide +kernel) hc

/-- A text of name characters that begins with a capital and holds an underscore. -/
structure IsNameText (n : Text) : Prop where
  chars : ∀ c ∈ n, isNameChar c = true
  capital : n.head?.any Char.isUpper = true
  underscore : '_' ∈ n

theorem IsNameText.of_decide {n : Text}
    (h : (n.all isNameChar && n.head?.any Char.isUpper && n.elem '_') = true) : IsNameText n := by
  simp only [Bool.and_eq_true, List.all_eq_true, List.elem_eq_mem, decide_eq_true_eq] at h
  exact ⟨h.1.1, h.1.2, h.2⟩

theorem IsNameText.not_mem {n : Text} (h : IsNameText n) {c : Char} (hc : isNameChar c = false) :
    c ∉ n := fun hm => by
  rw [h.chars c hm] at hc
  cases hc

theorem isNameChar_of_mem_ofNat {m : Nat} {c : Char} (h : c ∈ Text.ofNat m) :
    isNameChar c = true := by
  simp [isNameChar, Nat.isDigit_of_mem_toDigits (by decide) (by decide) h]

theorem IsNameText.append {n r : Text} (h : IsNameText n) (hr : ∀ c ∈ r, isNameChar c = true) :
    IsNameText (n ++ r) := by
  refine ⟨fun c hc => ?_, ?_, List.mem_append_left r h.underscore⟩
  · exact (List.mem_append.mp hc).elim (h.chars c) (hr c)
  · have := h.capital
    cases n with
    | nil => cases this
    | cons d n => exact this

theorem isNameText_timeoutName (ms : Nat) : IsNameText (Literal.timeoutName ms) := by
  unfold Literal.timeoutName Literal.timeoutNameAs
  cases hf : Literal.timeoutNames.find? fun p => (p.1 : Rat) = ((ms : Int) : Rat) with
  | none =>
      have hp : IsNameText "TIMEOUT_" := .of_decide (by decide)
      have h := (hp.append (r := Text.ofNat ms) fun c hc => isNameChar_of_mem_ofNat hc).append
        (r := "MS") (Text.forall_mem_of_all (by decide))
      exact h
  | some p =>
      have hall : ∀ p ∈ Literal.timeoutNames, IsNameText p.2 := by
        intro p hp
        refine .of_decide ?_
        revert p
        decide
      exact hall p (List.mem_of_find?_eq_some hf)

theorem isNameText_dataName (value : Text) : IsNameText (Literal.dataName value) := by
  unfold Literal.dataName
  refine .of_decide ?_
  simp only
  split_ifs <;> decide

theorem IsGivenName.isNameText {n : Text} (h : IsGivenName n) : IsNameText n := by
  obtain ⟨base, taken, rfl, hb⟩ := h
  have hbase : IsNameText base := by
    rcases hb with ⟨ms, rfl⟩ | ⟨value, rfl⟩
    · exact isNameText_timeoutName ms
    · exact isNameText_dataName value
  obtain e | ⟨m, e⟩ := unusedName_eq base taken <;> rw [e]
  · exact hbase
  · refine (hbase.append (r := "_") (Text.forall_mem_of_all (by decide))).append fun c hc => isNameChar_of_mem_ofNat hc

end SuiteAudit
