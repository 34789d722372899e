import SuiteAudit.CommandLine.Arguments
import SuiteAudit.Log.Setup
import SuiteAudit.Payload.Run
import SuiteAudit.Run.Pipeline

/-! # The program

A command line is turned into options, the run is made, and its summary is printed for people or in
the report format.  `CommandLine.run` gives the exit code and what is printed.
-/

namespace SuiteAudit

/-- What a program leaves: its exit code and its two outputs. -/
structure Outcome where
  code : Nat
  out : Text := []
  err : Text := []
  deriving DecidableEq

/-- What stands behind a setting as a value of the options; the two hyphens leave an empty list. -/
def SettingValue.toJson {α : Type} (f : α → Json) : SettingValue α → Json
  | value a => f a
  | hyphens => .arr []

namespace Arguments

/-- The path of the output folder from the root. -/
def outputPath (a : Arguments) (d : Disk) (folder : Location) : Except PathFault Text :=
  (d.realLocation folder a.outputDirectory).map Location.path

/-- The path of the test folder from the root, if it is a folder. -/
def testPath? (a : Arguments) (d : Disk) (folder : Location) : Except PathFault (Option Text) := do
  let location ← d.realLocation folder a.testDirectory
  return if ← d.folderAt location then some location.path else none

/-- The options that some arguments ask for, or what is wrong with them. -/
def options (a : Arguments) (testDirectory outputDirectory : Text) :
    Except (List Payload.Fault) Options :=
  (Options.ofJson (.obj [
    ("test_directory", .str testDirectory), ("output_directory", .str outputDirectory),
    ("enable_refactoring", .bool !(a.has .noRefactoring)),
    ("enable_quality_check", .bool !(a.has .noQuality)),
    ("enable_documentation", .bool !(a.has .noDocs)),
    ("generate_reports", .bool !(a.has .noReports)),
    ("apply_refactoring", .bool (a.has .applyRefactoring)),
    ("max_workers", a.maxWorkers.toJson .int),
    ("time_budget_seconds", Json.ofOption (SettingValue.toJson .real) a.timeBudget?)])).toExcept

end Arguments

namespace RunSummary

/-- The line between the parts of what is printed. -/
def ruler : Text := List.replicate 60 '='

/-- Lines behind a blank one; nothing without lines. -/
def apart (ls : List Text) : List Text := if ls.isEmpty then [] else [] :: ls

def phaseResults (run : RunSummary) : List Text :=
  (run.refactoring?.map fun s =>
    "Refactoring: " ++ Text.ofInt s.changedFiles ++ " file(s) with changes, average score " ++
      s.averageScore.text).toList ++
  (run.maintainability?.map fun s =>
    "Maintainability: average index " ++ Text.ofInt s.averageIndex ++ ", " ++
      Text.ofInt s.filesNeedingAttention ++ " file(s) need attention").toList ++
  (run.quality?.map fun s =>
    "Quality: average score " ++ Text.ofInt s.averageScore ++ "/100").toList ++
  (run.documentation?.map fun s =>
    "Documentation: " ++ Text.ofInt s.totalSuites ++ " suite(s), " ++ Text.ofInt s.totalCases ++
      " case(s)").toList

def appliedResult (run : RunSummary) : Text :=
  "Rewritten files: " ++ Text.ofNat (run.applied.countP (·.applied)) ++ " of " ++
    Text.ofNat run.applied.length ++ " attempted"

def skippedResult (run : RunSummary) : Text :=
  "Skipped (time budget): " ++ Text.ofNat run.skippedFiles.length

def failureResult (f : FileFailure) : Text :=
  "  - " ++ f.filePath ++ " [" ++ f.stage.name ++ "]: " ++ f.error

/-- Some entries under a title with their number; nothing without entries. -/
def counted (title : Text) (ls : List Text) : List Text :=
  if ls.isEmpty then []
  else apart ((title ++ " (" ++ Text.ofNat ls.length ++ "):") :: ls)

/-- What is printed for people. -/
def printed (run : RunSummary) : Text :=
  let ls : List Text :=
    apart [ruler, "Suite Doctor Results", ruler] ++
    apart ["Test directory: " ++ run.testDirectory,
      "Files analyzed: " ++ Text.ofInt run.filesDiscovered] ++
    run.phaseResults ++
    apart (if run.applied.isEmpty then [] else [run.appliedResult]) ++
    apart (if run.skippedFiles.isEmpty then [] else [run.skippedResult]) ++
    counted "Failures" (run.failures.map failureResult) ++
    counted "Errors" (run.errors.map fun (e : Text) => "  - " ++ e) ++
    apart ["Reports written to: " ++ run.outputDirectory, ruler]
  Text.joinLines ls ++ "\n"

end RunSummary

namespace CommandLine

def name : Text := "suite-doctor"

def usage : Text :=
  "usage: " ++ name ++ " [options] [test_directory] [output_directory]\n"

/-- The outcome of a command line that cannot be used. -/
def usageOutcome : Stop → Outcome
  | .help => ⟨0, usage, []⟩
  | .usage e => ⟨2, [], usage ++ name ++ ": error: " ++ e.message ++ "\n"⟩

/-- The outcome of a failure under a label. -/
def failed (label message : Text) : Outcome := ⟨1, [], label ++ ": " ++ message ++ "\n"⟩

/-- How many faults some options have. -/
def faultText (faults : List Payload.Fault) : Text :=
  Text.ofNat faults.length ++ " validation error" ++ (if faults.length = 1 then [] else ['s']) ++
    " for EnhancementOptions"

/-- Makes a run and prints its summary. -/
def runOptions (a : Arguments) (options : Options) (startedAt : Timestamp) :
    StateM Machine Outcome := do
  match ← (options.run startedAt).run with
  | .error (.aborted e) => return failed "Orchestrator error" e
  | .error e => return failed "Unexpected error" e.message
  | .ok summary =>
    let out := if a.has .outputJson then summary.toJson.pretty ++ "\n" else summary.printed
    return ⟨0, out, []⟩

/-- Does what some arguments ask for. -/
def runArguments (a : Arguments) (startedAt : Timestamp) : Work PathFault Outcome := do
  let m ← get
  match ← a.testPath? m.disk m.folder with
  | none => return failed "Error" ("'" ++ a.testDirectory ++ "' is not a valid directory.")
  | some testDirectory =>
    match a.options testDirectory (← a.outputPath m.disk m.folder) with
    | .error faults => return failed "Invalid options" (faultText faults)
    | .ok options => runOptions a options startedAt

/-- Does what a command line asks for; only a path that cannot be resolved stops the program. -/
def run (texts : List Text) (env : LogEnvironment) (startedAt : Timestamp) :
    Work PathFault Outcome := do
  match Arguments.parse texts with
  | .error stop => return usageOutcome stop
  | .ok a =>
    let level? : Option Text := if a.has .verbose then some LogLevel.debug.name else none
    match LogSetup.make env level? none with
    | .error format => return failed "Configuration error" (LogFormat.unknown format)
    | .ok _ => runArguments a startedAt

end CommandLine
end SuiteAudit
