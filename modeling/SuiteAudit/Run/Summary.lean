import SuiteAudit.Document.Basic
import SuiteAudit.Maintainability.Report
import SuiteAudit.Quality.Report
import SuiteAudit.Refactoring.Apply

/-! # Summary of a run -/

namespace SuiteAudit

/-- What a run did: the summaries of its phases, what was applied, and what went wrong. -/
structure RunSummary where
  testDirectory : Text
  outputDirectory : Text
  filesDiscovered : Int := 0
  skippedFiles : List Text := []
  refactoring? : Option ProposalSummary := none
  maintainability? : Option MaintainabilitySummary := none
  quality? : Option QualitySummary := none
  documentation? : Option DocumentSummary := none
  applied : List ApplyOutcome := []
  failures : List FileFailure := []
  artifacts : List Text := []
  errors : List Text := []

namespace RunSummary

/-- How the error begins that ends a run. -/
def abortMark : Text := "ABORT:"

def isAbort (error : Text) : Bool := Text.startsWith error abortMark

/-- The error that ended a run, if one did. -/
def abortion? (run : RunSummary) : Option Text := run.errors.find? isAbort

def isAborted (run : RunSummary) : Bool := run.errors.any isAbort

end RunSummary
end SuiteAudit
