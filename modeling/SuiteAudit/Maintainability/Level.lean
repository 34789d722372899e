import SuiteAudit.Text.Basic

/-! # Levels

How severe a finding is, how much work it asks for and how much it would gain.
-/

namespace SuiteAudit

inductive Level where
  | high
  | medium
  | low
  deriving DecidableEq, Repr

namespace Level

def all : List Level := [high, medium, low]

def name : Level → Text
  | high => "high"
  | medium => "medium"
  | low => "low"

/-- The place of a level in a ranking, the highest level first. -/
def rank : Level → Nat
  | high => 3
  | medium => 2
  | low => 1

end Level
end SuiteAudit
