import SuiteAudit.Maintainability.Report
import SuiteAudit.Number.Decimal
import SuiteAudit.Text.Markdown

/-! # Maintainability improvements

The Markdown page on the maintainability of a suite: the files that need attention at once, and the
opportunities that pay off first.
-/

namespace SuiteAudit

open Markdown

/-- The lines on a file that needs attention. -/
def Metrics.guideLines (m : Metrics) : List Text :=
  ["### " ++ m.testFile, [],
    entry "Maintainability index" (m.maintainabilityIndex.text ++ "/100"),
    entry "Lines of code" (Text.ofInt m.linesOfCode),
    entry "Average test length" (Text.ofInt m.averageTestLength ++ " lines"),
    entry "Complexity" (m.complexityScore.text ++ "/10"),
    entry "Code smells" (Text.ofNat m.smells.length), []] ++
  labelled "Suggestions" (m.suggestions.map item) ++ rule

/-- Code before and after a change, in blocks. -/
def BeforeAfter.guideLines (e : BeforeAfter) : List Text :=
  above "Before:" (fenced [e.before]) ++ [[]] ++ above "After:" (fenced [e.after]) ++ [[]]

/-- The lines on an opportunity with its number. -/
def Opportunity.guideLines (number : Nat) (o : Opportunity) : List Text :=
  ["### " ++ Text.ofNat number ++ ". " ++ o.description, [],
    entry "File" o.testFile,
    entry "Type" o.kind.name,
    entry "Estimated effort" o.estimatedEffort,
    entry "Impact" o.impact.name, []] ++
  ((o.example?.map BeforeAfter.guideLines).getD []) ++ rule

namespace MaintainabilityReport

/-- A file with a lower index is listed. -/
def urgentIndex : Extended := .ofWhole 50

/-- How many opportunities are listed. -/
def opportunitiesLimit : Nat := 10

/-- Some files with the lowest index first. -/
def byIndex (files : List Metrics) : List Metrics :=
  files.mergeSort fun a b => a.maintainabilityIndex ≤ b.maintainabilityIndex

def summaryLines (s : MaintainabilitySummary) : List Text :=
  sectionLines "## Summary"
    [item (entry "Files analyzed" (Text.ofInt s.totalFiles)),
      item (entry "Average maintainability index" (Text.ofInt s.averageIndex)),
      item (entry "Files needing attention" (Text.ofInt s.filesNeedingAttention)),
      item (entry "Code smells" (Text.ofInt s.totalSmells))]

/-- The Markdown page on maintainability. -/
def guide (r : MaintainabilityReport) : Text :=
  let urgent := byIndex (r.files.filter fun m => m.maintainabilityIndex < urgentIndex)
  Text.joinLines (titled "# Maintainability Improvements" (summaryLines r.summary) ++
    underHeading "## Files needing urgent attention" (urgent.flatMap Metrics.guideLines) ++
    underHeading "## Refactoring opportunities"
      (numbered Opportunity.guideLines (r.opportunities.take opportunitiesLimit)))

end MaintainabilityReport
end SuiteAudit
