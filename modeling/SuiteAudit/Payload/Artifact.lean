import SuiteAudit.Maintainability.Guide
import SuiteAudit.Payload.Maintainability
import SuiteAudit.Payload.Quality
import SuiteAudit.Payload.Refactoring
import SuiteAudit.Timestamp.Basic

/-! # Artifacts in the report format

The reports of a run as they are written to files: each begins with the moment at which the run
started, and nothing else in it depends on the time.
-/

namespace SuiteAudit

/-- A payload under the moment at which the run started. -/
def stamped (time : Timestamp) (members : List (Text × Json)) : Json :=
  .obj (("timestamp".toList, .str time.text) :: members)

def failuresToJson (failures : List FileFailure) : Json := .arr (failures.map FileFailure.toJson)

def ProposalReport.artifact (r : ProposalReport) (time : Timestamp) : Json :=
  stamped time
    [("summary", r.summary.toJson), ("results", .arr (r.proposals.map Proposal.toJson)),
      ("constants", r.constants.toJson), ("failures", failuresToJson r.failures)]

namespace MaintainabilityReport

def distributionToJson (counts : List (IndexClass × Int)) : Json :=
  .obj (counts.map fun p => (p.1.name, .int p.2))

def issueToJson (p : SmellKind × Int) : Json := .obj [("type", .str p.1.name), ("count", .int p.2)]

/-- The report with the files in order of their index. -/
def artifact (r : MaintainabilityReport) (time : Timestamp) : Json :=
  stamped time
    [("summary", r.summary.toJson),
      ("maintainabilityDistribution", distributionToJson r.distribution),
      ("topIssues", .arr (r.topIssues.map issueToJson)),
      ("refactoringOpportunities",
        .arr ((r.opportunities.take opportunitiesLimit).map Opportunity.toJson)),
      ("fileDetails", .arr ((byIndex r.files).map Metrics.toJson)),
      ("failures", failuresToJson r.failures)]

end MaintainabilityReport

namespace QualitySuiteReport

/-- The reports on files, the lowest score first. -/
def byScore (r : QualitySuiteReport) : List QualityReport :=
  r.reports.mergeSort fun a b => a.score ≤ b.score

/-- The report with the standards and with the files in order of their score. -/
def artifact (r : QualitySuiteReport) (standards : Registry) (time : Timestamp) : Json :=
  stamped time
    [("summary", r.summary.toJson), ("standards", .arr (standards.standards.map Standard.toJson)),
      ("fileReports", .arr (r.byScore.map QualityReport.toJson)),
      ("failures", failuresToJson r.failures)]

end QualitySuiteReport
end SuiteAudit
