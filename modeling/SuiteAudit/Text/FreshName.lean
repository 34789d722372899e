import SuiteAudit.Text.Basic

/-! # Names that are not taken

Where a name is taken, the same name with a number is tried, from two on.  Among as many numbers as
there are taken names and one more, some number is free, so that the search ends.
-/

namespace SuiteAudit

/-- The first of `limit` numbered names from `n` on that is not taken. -/
def freshFrom (taken : List Text) (numbered : Nat → Text) : Nat → Nat → Text
  | 0, n => numbered n
  | limit + 1, n =>
    if taken.elem (numbered n) then freshFrom taken numbered limit (n + 1) else numbered n

/-- The name `base` itself, or the numbered name with the least number from two on that makes it
differ from all taken names. -/
def freshName (taken : List Text) (base : Text) (numbered : Nat → Text) : Text :=
  if taken.elem base then freshFrom taken numbered taken.length 2 else base

end SuiteAudit
