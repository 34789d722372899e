import SuiteAudit.Disk.Discovery
import SuiteAudit.Maintainability.Metrics

/-! # Options of a run

Which phases a run has, how many files it works on at once, how long it may take, and the limits of
its analyses.
-/

namespace SuiteAudit

/-- How many calls may be in flight. -/
structure WorkerLimit where
  size : Nat
  size_pos : 0 < size
  deriving DecidableEq

namespace WorkerLimit

def default : WorkerLimit := ⟨4, by decide⟩

/-- The limit of a number that is at least one. -/
def ofInt? (n : Int) : Option WorkerLimit :=
  if h : 0 < n.toNat then some ⟨n.toNat, h⟩ else none

/-- What is said about a smaller number. -/
def refusal : Text := "max_workers must be at least 1"

end WorkerLimit

structure Options where
  testDirectory : Text
  outputDirectory : Text
  refactoring : Bool := true
  quality : Bool := true
  documentation : Bool := true
  reports : Bool := true
  applying : Bool := false
  maxWorkers : WorkerLimit := .default
  /-- Seconds after which no more files are taken on. -/
  timeBudget? : Option Extended := none
  endings : List Text := FileFilter.defaultEndings
  excluded : List Text := ["node_modules", ".git", "test-results", "playwright-report"]
  thresholds : Thresholds := {}

/-- The phases of a run after the discovery of its files. -/
inductive Phase where
  | refactor
  | apply
  | maintainability
  | quality
  | documentation
  | report
  deriving DecidableEq, Repr

namespace Phase

/-- The phases in their order. -/
def all : List Phase := [refactor, apply, maintainability, quality, documentation, report]

def name : Phase → Text
  | refactor => "refactor"
  | apply => "apply"
  | maintainability => "maintainability"
  | quality => "quality"
  | documentation => "documentation"
  | report => "report"

/-- Whether a run has the phase. -/
def isEnabled (o : Options) : Phase → Bool
  | refactor => o.refactoring
  | apply => o.refactoring && o.applying
  | maintainability => true
  | quality => o.quality
  | documentation => o.documentation
  | report => o.reports

end Phase

/-- The phases of a run in order. -/
def Options.route (o : Options) : List Phase := Phase.all.filter (·.isEnabled o)

end SuiteAudit
