import SuiteAudit.Failure
import SuiteAudit.Maintainability.Opportunity
import SuiteAudit.Table

/-! # Maintainability of a whole suite

The metrics of all files together: how many files fall in each class of the index, which smells are
the most frequent, and what would pay off first.
-/

namespace SuiteAudit

inductive IndexClass where
  | excellent
  | good
  | fair
  | poor
  deriving DecidableEq, Repr

namespace IndexClass

def all : List IndexClass := [excellent, good, fair, poor]

def name : IndexClass → Text
  | excellent => "excellent"
  | good => "good"
  | fair => "fair"
  | poor => "poor"

/-- The class of an index: from 90, from 70, from 50, and below. -/
def ofIndex (index : Extended) : IndexClass :=
  if .ofWhole 90 ≤ index then excellent
  else if .ofWhole 70 ≤ index then good
  else if .ofWhole 50 ≤ index then fair else poor

end IndexClass

structure MaintainabilitySummary where
  totalFiles : Int := 0
  averageIndex : Int := 0
  filesNeedingAttention : Int := 0
  totalSmells : Int := 0
  deriving DecidableEq

structure MaintainabilityReport where
  summary : MaintainabilitySummary
  files : List Metrics := []
  opportunities : List Opportunity := []
  /-- How many files fall in each class, in the order of the classes. -/
  distribution : List (IndexClass × Int) := IndexClass.all.map fun c => (c, 0)
  topIssues : List (SmellKind × Int) := []
  failures : List FileFailure := []

namespace MaintainabilityReport

/-- How many kinds of smell are listed. -/
def topIssuesLimit : Nat := 10

/-- Whether the index of a file is below the limit for attention. -/
def needsAttention (thresholds : Thresholds) (m : Metrics) : Bool :=
  m.maintainabilityIndex < .ofWhole thresholds.attentionIndex

/-- The mean index of some files; zero for none. -/
def meanIndex (files : List Metrics) : Extended :=
  if files.isEmpty then .zero else Extended.mean (files.map (·.maintainabilityIndex))

/-- The mean index of some files, rounded. -/
def averageIndex (files : List Metrics) : Int := roundEven (meanIndex files).value

def ofFiles (thresholds : Thresholds) (files : List Metrics) (failures : List FileFailure) :
    MaintainabilityReport where
  summary := {
    totalFiles := files.length
    averageIndex := averageIndex files
    filesNeedingAttention := files.countP (needsAttention thresholds)
    totalSmells := (files.flatMap (·.smells)).length }
  files := files
  opportunities := Opportunity.ranked files thresholds
  distribution := IndexClass.all.map fun c =>
    (c, files.countP fun m => IndexClass.ofIndex m.maintainabilityIndex = c)
  topIssues := (Table.mostFrequent topIssuesLimit
    (Table.tally (files.flatMap fun m => m.smells.map (·.kind)))).map fun p => (p.1, (p.2 : Int))
  failures := failures

/-- The report on some files, whose mean index has to be a number. -/
def ofGivenFiles (thresholds : Thresholds) (files : List Metrics) (failures : List FileFailure) :
    Except NumberFault MaintainabilityReport :=
  (meanIndex files).round.map fun _ => ofFiles thresholds files failures

end MaintainabilityReport
end SuiteAudit
