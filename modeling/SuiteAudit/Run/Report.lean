import SuiteAudit.Disk.Path
import SuiteAudit.Maintainability.Guide
import SuiteAudit.Run.Summary

/-! # The comprehensive report

One Markdown page on a whole run: the summary of each phase, the files that need work most, what was
applied or skipped, what failed, and the files that were made.
-/

namespace SuiteAudit

open Markdown

/-- The facts of a phase under a heading. -/
def phaseLines (heading : Text) (facts : List (Text × Text)) : List Text :=
  above ("### " ++ heading) (facts.map fun p => item (p.1 ++ ": " ++ p.2)) ++ [[]]

def ProposalSummary.reportLines (s : ProposalSummary) : List Text :=
  phaseLines "Refactoring"
    [("Files analyzed", Text.ofInt s.totalFiles), ("Files with changes", Text.ofInt s.changedFiles),
      ("Total changes", Text.ofInt s.totalChanges),
      ("Average improvement score", s.averageScore.text)]

def MaintainabilitySummary.reportLines (s : MaintainabilitySummary) : List Text :=
  phaseLines "Maintainability"
    [("Files analyzed", Text.ofInt s.totalFiles),
      ("Average maintainability index", Text.ofInt s.averageIndex),
      ("Files needing attention", Text.ofInt s.filesNeedingAttention),
      ("Code smells", Text.ofInt s.totalSmells)]

def QualitySummary.reportLines (s : QualitySummary) : List Text :=
  above "### Quality standards"
    ([item ("Files checked: " ++ Text.ofInt s.totalFiles),
      item ("Average score: " ++ Text.ofInt s.averageScore ++ "/100"),
      item "Grade distribution:"] ++
    s.gradeDistribution.map fun p => "  - " ++ p.1 ++ ": " ++ Text.ofInt p.2 ++ " file(s)") ++ [[]]

def DocumentSummary.reportLines (s : DocumentSummary) : List Text :=
  phaseLines "Documentation"
    [("Files documented", Text.ofInt s.totalFiles), ("Test suites", Text.ofInt s.totalSuites),
      ("Test cases", Text.ofInt s.totalCases),
      ("Features covered", Text.ofNat s.featureCoverage.length)]

namespace MaintainabilityReport

/-- A file with a lower index is listed. -/
def attentionIndex : Extended := .ofWhole 60

/-- How many files are listed. -/
def worstFilesLimit : Nat := 5

/-- The files with the lowest index among those below the limit. -/
def worstFiles (r : MaintainabilityReport) : List Metrics :=
  (byIndex (r.files.filter fun m => m.maintainabilityIndex < attentionIndex)).take worstFilesLimit

def worstFileLine (m : Metrics) : Text :=
  item ("**" ++ m.testFile ++ "**: maintainability index " ++ m.maintainabilityIndex.text ++ "/100")

end MaintainabilityReport

/-- A path that may be missing, as messages show it. -/
def pathOrNone (path? : Option Text) : Text := path?.getD "None"

/-- The line on what became of a proposal. -/
def ApplyOutcome.reportLine (o : ApplyOutcome) : Text :=
  if o.applied then
    item (code o.filePath ++ " rewritten (backup: " ++ code (pathOrNone o.backupPath?) ++ ")")
  else item (code o.filePath ++ " not rewritten: " ++ pathOrNone o.reason?)

def FileFailure.reportLine (f : FileFailure) : Text :=
  item (code f.filePath ++ " (" ++ f.stage.name ++ "): " ++ f.error)

namespace RunSummary

/-- The summaries of the phases that a run had. -/
def phaseSummaries (run : RunSummary) : List Text :=
  ((run.refactoring?.map ProposalSummary.reportLines).getD []) ++
  ((run.maintainability?.map MaintainabilitySummary.reportLines).getD []) ++
  ((run.quality?.map QualitySummary.reportLines).getD []) ++
  ((run.documentation?.map DocumentSummary.reportLines).getD [])

/-- The path of an artifact as seen from the folder of the reports. -/
def artifactName (run : RunSummary) (folder : Location) (path : Text) : Text :=
  (Location.ofPath folder path).relativeTo (Location.ofPath folder run.outputDirectory)

def skippedLines (run : RunSummary) : List Text :=
  if run.skippedFiles.isEmpty then []
  else titled "## Skipped files" (sectionLines "Not analyzed because the time budget expired:"
    (run.skippedFiles.map fun path => item (code path)))

def failureLines (run : RunSummary) : List Text :=
  sectionLines "## Failures"
    (if run.failures.isEmpty then ["None."] else run.failures.map FileFailure.reportLine)

/-- The comprehensive report of a run that started at a moment, as seen from a folder. -/
def report (run : RunSummary) (startedAt : Timestamp) (folder : Location)
    (maintainability? : Option MaintainabilityReport) : Text :=
  Text.joinLines (titled "# Test Maintainability Report"
    [entry "Generated" startedAt.text, entry "Test directory" (code run.testDirectory),
      entry "Files discovered" (Text.ofInt run.filesDiscovered), []] ++
    titled "## Summary" run.phaseSummaries ++
    sectionOf "## Files most in need of work" MaintainabilityReport.worstFileLine
      ((maintainability?.map MaintainabilityReport.worstFiles).getD []) ++
    sectionOf "## Applied refactorings" ApplyOutcome.reportLine run.applied ++
    run.skippedLines ++ run.failureLines ++
    sectionOf "## Pipeline errors" item run.errors ++
    sectionLines "## Generated files"
      (run.artifacts.map fun path => item (code (run.artifactName folder path))))

/-- What is said about an artifact without a path. -/
def namelessArtifact : Text := "no path specified"

/-- The comprehensive report of a run whose artifacts all have paths. -/
def checkedReport (run : RunSummary) (startedAt : Timestamp) (folder : Location)
    (maintainability? : Option MaintainabilityReport) : Except Text Text :=
  if run.artifacts.any (·.isEmpty) then .error namelessArtifact
  else .ok (run.report startedAt folder maintainability?)

end RunSummary
end SuiteAudit
