import SuiteAudit.Quality.Report
import SuiteAudit.Text.Markdown

/-! # Quality improvement guide

The Markdown page on the quality of a suite: its grades, the standards that are broken most often,
the files with poor grades, and what good tests do.
-/

namespace SuiteAudit

open Markdown

/-- The lines on a violation. -/
def Violation.guideLines (v : Violation) : List Text :=
  let hint : List Text :=
    match v.suggestion? with
    | none | some [] => []
    | some suggestion => ["  Suggestion: " ++ suggestion]
  item ("Line " ++ Text.ofInt v.line ++ ": " ++ v.message ++ " (" ++ v.severity.name ++ ")") :: hint

namespace QualityReport

/-- How many violations of a file are listed. -/
def guideViolations : Nat := 5

/-- The lines on a file with a poor grade. -/
def guideLines (r : QualityReport) : List Text :=
  ["### " ++ r.filePath, [],
    entry "Score" (Text.ofInt r.score ++ "/100 (grade " ++ r.grade.name ++ ")"),
    entry "Errors" (Text.ofInt r.summary.errors),
    entry "Warnings" (Text.ofInt r.summary.warnings),
    entry "Infos" (Text.ofInt r.summary.infos), []] ++
  labelled "Main issues" ((r.violations.take guideViolations).flatMap Violation.guideLines) ++ rule

end QualityReport

/-- The lines on a standard that is broken often, with its place. -/
def ViolationCount.guideLines (number : Nat) (c : ViolationCount) : List Text :=
  ["### " ++ Text.ofNat number ++ ". " ++ c.description, [],
    entry "Occurrences" (Text.ofInt c.count), entry "Standard" c.standardId, []]

namespace QualitySuiteReport

/-- What good tests do, by topic. -/
def bestPractices : List (Text × List Text) :=
  [("Test structure",
     ["Group related tests with \x60describe\x60",
      "Keep every test independent of the others",
      "Use \x60beforeEach\x60 and \x60afterEach\x60 for setup and cleanup"]),
   ("Naming",
     ["Test titles should state what is being verified",
      "Variable names should be meaningful",
      "Page object variables should match their class names"]),
   ("Code quality",
     ["Replace hard-coded values with constants or configuration",
      "Move repeated steps into shared helpers",
      "Comment non-obvious waits and loops"]),
   ("Selectors",
     ["Prefer \x60data-testid\x60 attributes",
      "Avoid long descendant CSS selectors",
      "Use role and label based locators where possible"]),
   ("Waiting",
     ["Wait for conditions instead of fixed delays",
      "Keep timeouts reasonable",
      "Explain long-running operations in a comment"])]

def practiceLines (number : Nat) (topic : Text × List Text) : List Text :=
  above ("### " ++ Text.ofNat number ++ ". " ++ topic.1) (topic.2.map item) ++ [[]]

/-- The line of a grade with the number of files that have it. -/
def gradeLine (p : Text × Int) : Text := "**" ++ p.1 ++ "**: " ++ Text.ofInt p.2 ++ " file(s)"

def overviewLines (s : QualitySummary) : List Text :=
  sectionLines "## Overview"
    [item (entry "Files checked" (Text.ofInt s.totalFiles)),
      item (entry "Average score" (Text.ofInt s.averageScore ++ "/100"))] ++
  sectionLines "### Grade distribution" (s.gradeDistribution.map fun p => item (gradeLine p))

/-- The files with a grade of D or F, the lowest score first. -/
def poorFiles (reports : List QualityReport) : List QualityReport :=
  (reports.filter fun r => r.grade = .D || r.grade = .F).mergeSort fun a b => a.score ≤ b.score

/-- The Markdown page on quality. -/
def guide (r : QualitySuiteReport) : Text :=
  Text.joinLines (titled "# Quality Improvement Guide" (overviewLines r.summary) ++
    underHeading "## Most frequent issues"
      (numbered ViolationCount.guideLines r.summary.topViolations) ++
    underHeading "## Files to improve" ((poorFiles r.reports).flatMap QualityReport.guideLines) ++
    titled "## Best practices" (numbered practiceLines bestPractices))

end QualitySuiteReport
end SuiteAudit
