import SuiteAudit.Failure
import SuiteAudit.Number.Extended
import SuiteAudit.Quality.Default
import SuiteAudit.Quality.Registry

/-! # Quality reports

A file is checked by every standard of a registry; what it costs decides its score and its grade.  A
standard whose check fails adds nothing and is noted as a fault.
-/

namespace SuiteAudit

inductive Grade where
  | A
  | B
  | C
  | D
  | F
  deriving DecidableEq, Repr

namespace Grade

def all : List Grade := [A, B, C, D, F]

def name : Grade → Text
  | A => "A"
  | B => "B"
  | C => "C"
  | D => "D"
  | F => "F"

/-- The grade of a score: from 90, 80, 70, 60, and below. -/
def ofScore (score : Extended) : Grade :=
  if .ofWhole 90 ≤ score then A
  else if .ofWhole 80 ≤ score then B
  else if .ofWhole 70 ≤ score then C
  else if .ofWhole 60 ≤ score then D else F

end Grade

/-- How many violations have each severity. -/
structure SeverityCounts where
  errors : Int := 0
  warnings : Int := 0
  infos : Int := 0
  deriving DecidableEq

def SeverityCounts.ofViolations (violations : List Violation) : SeverityCounts where
  errors := violations.countP fun v => v.severity = .error
  warnings := violations.countP fun v => v.severity = .warning
  infos := violations.countP fun v => v.severity = .info

/-- The points that some violations cost. -/
def penaltyOf (violations : List Violation) : Nat :=
  (violations.map (·.severity.weight)).foldr (· + ·) 0

/-- What is left of 100 points. -/
def scoreOf (violations : List Violation) : Int := 100 - penaltyOf violations |> max 0

structure QualityReport where
  filePath : Text
  violations : List Violation := []
  score : Int
  grade : Grade
  summary : SeverityCounts
  deriving DecidableEq

/-- A standard whose check failed on a file. -/
structure StandardFault where
  standardId : Text
  filePath : Text
  fault : CheckFault

def StandardFault.message (f : StandardFault) : Text :=
  "Standard " ++ f.standardId ++ " failed on " ++ f.filePath ++ ": " ++ f.fault.message

namespace Registry

/-- The violations of a file in the order of the standards. -/
def violationsOf (r : Registry) (content path : Text) : List Violation :=
  r.standards.flatMap fun s => ((s.run content path).toOption).getD []

/-- The standards that fail on a file. -/
def faultsOf (r : Registry) (content path : Text) : List StandardFault :=
  r.standards.filterMap fun s =>
    match s.run content path with
    | .ok _ => none
    | .error fault => some ⟨s.id, path, fault⟩

/-- The report on a file. -/
def check (r : Registry) (content path : Text) : QualityReport :=
  let violations := r.violationsOf content path
  let score := scoreOf violations
  ⟨path, violations, score, Grade.ofScore (.ofWhole score), SeverityCounts.ofViolations violations⟩

end Registry

/-- The registry of the default standards. -/
def Registry.default : Registry := ⟨Standard.defaults⟩

/-! ### A whole suite -/

/-- A standard with the number of its violations. -/
structure ViolationCount where
  standardId : Text
  count : Int
  description : Text
  deriving DecidableEq

structure QualitySummary where
  totalFiles : Int := 0
  averageScore : Int := 0
  gradeDistribution : Table Text Int := []
  topViolations : List ViolationCount := []

structure QualitySuiteReport where
  summary : QualitySummary
  reports : List QualityReport := []
  failures : List FileFailure := []

namespace QualitySuiteReport

/-- How many standards are listed. -/
def topViolationsLimit : Nat := 10

def totalScore (reports : List QualityReport) : Int := (reports.map (·.score)).foldr (· + ·) 0

/-- The mean of some scores, rounded; zero for none. -/
def averageScore (reports : List QualityReport) : Int :=
  if reports.isEmpty then 0
  else roundEven (Binary64.ofRatio (totalScore reports) reports.length).value

/-- What a standard is about, as far as a registry knows. -/
def describe (r : Registry) (id : Text) : Text :=
  ((r.get id).toOption.map (·.description)).getD id

def ofReports (r : Registry) (reports : List QualityReport) (failures : List FileFailure) :
    QualitySuiteReport where
  summary := {
    totalFiles := reports.length
    averageScore := averageScore reports
    gradeDistribution := Grade.all.map fun g =>
      (g.name, (reports.countP fun report => report.grade = g : Int))
    topViolations := (Table.mostFrequent topViolationsLimit
      (Table.tally (reports.flatMap fun report => report.violations.map (·.standardId)))).map
        fun p => ⟨p.1, p.2, describe r p.1⟩ }
  reports := reports
  failures := failures

/-- The report on some files, whose mean score has to be near a floating-point number. -/
def ofGivenReports (r : Registry) (reports : List QualityReport) (failures : List FileFailure) :
    Except NumberFault QualitySuiteReport :=
  (Extended.roundedQuotient (totalScore reports) reports.length).map fun _ =>
    ofReports r reports failures

end QualitySuiteReport
end SuiteAudit
