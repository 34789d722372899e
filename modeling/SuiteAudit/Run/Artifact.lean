import SuiteAudit.Disk.Machine
import SuiteAudit.Document.Page
import SuiteAudit.Payload.Artifact
import SuiteAudit.Quality.Guide
import SuiteAudit.Refactoring.Guide

/-! # Artifacts of a run

The files that a run leaves in its output folder: reports in the report format, Markdown pages and
guides.  Every group of artifacts is written in order; the first write that fails ends the group.
-/

namespace SuiteAudit

/-- A file to be written into an output folder. -/
structure Artifact where
  /-- The path below the output folder. -/
  name : Text
  content : Text

namespace Artifact

/-- A report in the report format, which ends with a line feed. -/
def ofJson (name : Text) (value : Json) : Artifact := ⟨name, value.pretty ++ "\n"⟩

/-- A page, which ends with a line feed. -/
def ofPage (name page : Text) : Artifact :=
  ⟨name, if Text.endsWith page "\n" then page else page ++ "\n"⟩

/-- The path of an artifact. -/
def pathIn (outputDirectory : Text) (a : Artifact) : Text := Path.join outputDirectory a.name

/-- Writes artifacts one after the other and gives their paths. -/
def writeAll (outputDirectory : Text) : List Artifact → Work DiskError (List Text)
  | [] => return []
  | a :: rest => do
    Machine.writeInto (a.pathIn outputDirectory) (Utf8.encode a.content)
    return a.pathIn outputDirectory :: (← writeAll outputDirectory rest)

end Artifact

/-! ### What the phases leave -/

def ProposalReport.artifacts (r : ProposalReport) (time : Timestamp) : List Artifact :=
  [.ofJson "refactoring-analysis.json" (r.artifact time)]

def MaintainabilityReport.artifacts (r : MaintainabilityReport) (time : Timestamp) :
    List Artifact :=
  [.ofJson "maintainability-report.json" (r.artifact time)]

def QualitySuiteReport.artifacts (r : QualitySuiteReport) (standards : Registry)
    (time : Timestamp) : List Artifact :=
  [.ofJson "quality-standards-report.json" (r.artifact standards time)]

namespace DocumentReport

/-- The page of a document under the name that it has among all documents. -/
def pageArtifact (names : Table Text Text) (d : Document) : Artifact :=
  .ofPage (Path.join Document.folder ((names.get? d.filePath).getD [])) d.page

/-- The pages of all documents, then the index. -/
def artifacts (r : DocumentReport) : List Artifact :=
  r.documents.map (pageArtifact (Document.nameTable r.documents)) ++
    [.ofPage "test-suite-index.md" r.index]

end DocumentReport

/-- The guides on the reports that there are. -/
def guideArtifacts (refactoring? : Option ProposalReport)
    (maintainability? : Option MaintainabilityReport) (quality? : Option QualitySuiteReport) :
    List Artifact :=
  (refactoring?.map fun r => Artifact.ofPage "refactoring-suggestions.md" r.guide).toList ++
  (maintainability?.map fun r =>
    Artifact.ofPage "maintainability-improvements.md" r.guide).toList ++
  (quality?.map fun r => Artifact.ofPage "quality-improvement-guide.md" r.guide).toList

/-- The name of the comprehensive report. -/
def comprehensiveName : Text := "comprehensive-report.md"

end SuiteAudit
