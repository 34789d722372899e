import SuiteAudit.Text.Basic

/-! # Ranges of code points

A property of characters that a standard lists is kept as the ranges of code points that have it,
both ends included.  `inRanges` looks a code point up.
-/

namespace SuiteAudit.Text

/-- Ranges of code points, both ends included. -/
abbrev Ranges := List (Nat × Nat)

/-- Whether a code point lies in one of the ranges. -/
def inRanges (ranges : Ranges) (code : Nat) : Bool :=
  ranges.any fun r => r.1 ≤ code && code ≤ r.2

theorem inRanges_iff (ranges : Ranges) (code : Nat) :
    inRanges ranges code = true ↔ ∃ r ∈ ranges, r.1 ≤ code ∧ code ≤ r.2 := by
  simp [inRanges]

end SuiteAudit.Text
