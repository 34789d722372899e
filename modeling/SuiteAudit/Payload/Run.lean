import SuiteAudit.Payload.Document
import SuiteAudit.Payload.Maintainability
import SuiteAudit.Payload.Refactoring
import SuiteAudit.Run.Options
import SuiteAudit.Run.Summary

/-! # Payloads of runs

Options are read by their names in words joined by underscores.
-/

namespace SuiteAudit

open Payload

namespace WorkerLimit

/-- A number that is at least one. -/
def ofJson : Reader WorkerLimit := fun v =>
  match whole v with
  | .bad faults => .bad faults
  | .ok n =>
    match ofInt? n with
    | some limit => .ok limit
    | none => wrong .tooSmall

end WorkerLimit

namespace Options

/-- A number above zero. -/
def readBudget : Reader Extended := fun v => (real v).filter (fun x => .zero < x) .notAbove

def ofJson : Reader Options := recordOf fun m =>
  let other : Options := { testDirectory := [], outputDirectory := [] }
  Options.mk <$> required "test_directory" text m
    <*> required "output_directory" text m
    <*> defaulted "enable_refactoring" truth other.refactoring m
    <*> defaulted "enable_quality_check" truth other.quality m
    <*> defaulted "enable_documentation" truth other.documentation m
    <*> defaulted "generate_reports" truth other.reports m
    <*> defaulted "apply_refactoring" truth other.applying m
    <*> defaulted "max_workers" WorkerLimit.ofJson other.maxWorkers m
    <*> defaulted "time_budget_seconds" (nullable readBudget) other.timeBudget? m
    <*> defaulted "test_file_suffixes" (sequenceOf text) other.endings m
    <*> defaulted "exclude_dirs" (sequenceOf text) other.excluded m
    <*> defaulted "thresholds" Thresholds.ofJson other.thresholds m

/-- The options that the command line sets. -/
def basicMembers (o : Options) : List (Text × Json) :=
  [("test_directory", .str o.testDirectory), ("output_directory", .str o.outputDirectory),
    ("enable_refactoring", .bool o.refactoring), ("enable_quality_check", .bool o.quality),
    ("enable_documentation", .bool o.documentation), ("generate_reports", .bool o.reports),
    ("apply_refactoring", .bool o.applying), ("max_workers", .nat o.maxWorkers.size),
    ("time_budget_seconds", Json.ofOption .real o.timeBudget?)]

/-- The options that only a caller sets. -/
def furtherMembers (o : Options) : List (Text × Json) :=
  [("test_file_suffixes", .strs o.endings), ("exclude_dirs", .strs o.excluded),
    ("thresholds", o.thresholds.toJson)]

def toJson (o : Options) : Json := .obj (o.basicMembers ++ o.furtherMembers)

end Options

namespace ApplyOutcome

def toJson (o : ApplyOutcome) : Json :=
  .obj [("filePath", .str o.filePath), ("applied", .bool o.applied),
    ("backupPath", Json.ofOption .str o.backupPath?), ("reason", Json.ofOption .str o.reason?)]

def ofJson : Reader ApplyOutcome := recordOf fun m =>
  ApplyOutcome.mk <$> required "filePath" text m
    <*> required "applied" truth m
    <*> defaulted "backupPath" (nullable text) none m
    <*> defaulted "reason" (nullable text) none m

end ApplyOutcome

namespace RunSummary

def toJson (r : RunSummary) : Json :=
  .obj [("testDirectory", .str r.testDirectory), ("outputDirectory", .str r.outputDirectory),
    ("filesDiscovered", .int r.filesDiscovered), ("skippedFiles", .strs r.skippedFiles),
    ("refactoring", Json.ofOption ProposalSummary.toJson r.refactoring?),
    ("maintainability", Json.ofOption MaintainabilitySummary.toJson r.maintainability?),
    ("quality", Json.ofOption QualitySummary.toJson r.quality?),
    ("documentation", Json.ofOption DocumentSummary.toJson r.documentation?),
    ("applied", .arr (r.applied.map ApplyOutcome.toJson)),
    ("failures", .arr (r.failures.map FileFailure.toJson)), ("artifacts", .strs r.artifacts),
    ("errors", .strs r.errors)]

def ofJson : Reader RunSummary := recordOf fun m =>
  RunSummary.mk <$> required "testDirectory" text m
    <*> required "outputDirectory" text m
    <*> defaulted "filesDiscovered" whole 0 m
    <*> defaulted "skippedFiles" (listOf text) [] m
    <*> defaulted "refactoring" (nullable ProposalSummary.ofJson) none m
    <*> defaulted "maintainability" (nullable MaintainabilitySummary.ofJson) none m
    <*> defaulted "quality" (nullable QualitySummary.ofJson) none m
    <*> defaulted "documentation" (nullable DocumentSummary.ofJson) none m
    <*> defaulted "applied" (listOf ApplyOutcome.ofJson) [] m
    <*> defaulted "failures" (listOf FileFailure.ofJson) [] m
    <*> defaulted "artifacts" (listOf text) [] m
    <*> defaulted "errors" (listOf text) [] m

end RunSummary
end SuiteAudit
