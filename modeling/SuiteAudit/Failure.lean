import SuiteAudit.Text.Quoted

/-! # Failures

A stage of a run works on one file at a time.  When it fails for a file, the failure is recorded and
the stage goes on with the next one.
-/

namespace SuiteAudit

inductive Stage where
  | discovery
  | refactoring
  | apply
  | maintainability
  | quality
  | documentation
  | reports
  deriving DecidableEq, Repr

namespace Stage

def all : List Stage :=
  [discovery, refactoring, apply, maintainability, quality, documentation, reports]

def name : Stage → Text
  | discovery => "discovery"
  | refactoring => "refactoring"
  | apply => "apply"
  | maintainability => "maintainability"
  | quality => "quality"
  | documentation => "documentation"
  | reports => "reports"

def ofName? (t : Text) : Option Stage := all.find? (·.name = t)

/-- What is said about a value, as it is shown, that is the name of no stage. -/
def unknown (shown : Text) : Text := shown ++ " is not a valid PipelineStage"

end Stage

/-- A file for which a stage failed, and why. -/
structure FileFailure where
  filePath : Text
  stage : Stage
  error : Text
  deriving DecidableEq

end SuiteAudit
