import SuiteAudit.Run.Artifact
import SuiteAudit.Run.Batch
import SuiteAudit.Run.Report

/-! # Runs

A run finds the test files of a folder and then goes through its phases.  A phase works on the files
in a batch, adds its failures and its skipped files to those of the phases before, and writes its
artifacts; when a write fails, the phase adds an error and the run goes on.  A run without files is
aborted.
-/

namespace SuiteAudit

/-- How far a run has come. -/
structure RunState where
  options : Options
  startedAt : Timestamp
  deadline? : Option Rat := none
  /-- In which order the calls of a batch are done. -/
  order : Completion := .inOrder
  files : List Text := []
  refactoring? : Option ProposalReport := none
  maintainability? : Option MaintainabilityReport := none
  quality? : Option QualitySuiteReport := none
  documentation? : Option DocumentReport := none
  applied : List ApplyOutcome := []
  failures : List FileFailure := []
  skipped : List Text := []
  artifacts : List Text := []
  errors : List Text := []

/-! ### Work on one file -/

/-- The source file of a path, or the text of its error. -/
def readSource (path : Text) : StateM Machine (Except Text SourceFile) := do
  match ← (SourceFile.read path).run with
  | .ok file => return .ok file
  | .error e => return .error e.message

/-- A worker that reads its file and then needs nothing else. -/
def fileWorker {β : Type} (f : SourceFile → Except Text β) : Worker β := fun path => do
  match ← readSource path with
  | .ok file => return f file
  | .error text => return .error text

def proposeFor (file : SourceFile) : Except Text Proposal :=
  (Proposal.ofText file.content file.path {}).mapError fun e => e.cause.message

def measure (thresholds : Thresholds) (file : SourceFile) : Except Text Metrics :=
  (Metrics.ofText file.content file.path thresholds).mapError MetricsFault.message

def checkQuality (file : SourceFile) : Except Text QualityReport :=
  .ok (Registry.default.check file.content file.path)

def describeFile (time : Timestamp) (file : SourceFile) : Except Text Document :=
  .ok (Document.ofText file.content file.path time)

/-! ### Phases -/

namespace RunState

/-- The state with what a batch could not do. -/
def withBatch {β : Type} (s : RunState) (b : BatchOutcome β) : RunState :=
  { s with failures := s.failures ++ b.failures, skipped := s.skipped ++ b.skipped }

/-- The error of a phase. -/
def phaseError (phase : Text) (e : DiskError) : Text := phase ++ "_node error: " ++ e.message

/-- The state after some artifacts were written, or an error in their place. -/
def writeArtifacts (s : RunState) (phase : Phase) (artifacts : List Artifact) :
    StateM Machine RunState := do
  match ← (Artifact.writeAll s.options.outputDirectory artifacts).run with
  | .ok paths => return { s with artifacts := s.artifacts ++ paths }
  | .error e => return { s with errors := s.errors ++ [phaseError phase.name e] }

/-- The outcome of a worker over some files. -/
def batch {β : Type} (s : RunState) (stage : Stage) (worker : Worker β) (paths : List Text) :
    StateM Machine (BatchOutcome β) :=
  Batch.run stage worker s.options.maxWorkers s.deadline? s.order paths

def refactor (s : RunState) : StateM Machine RunState := do
  let b ← s.batch .refactoring (fileWorker proposeFor) s.files
  let r := ProposalReport.ofProposals b.results b.failures
  ({ s with refactoring? := some r }.withBatch b).writeArtifacts .refactor (r.artifacts s.startedAt)

/-- A worker that applies the proposal for its file. -/
def applyWorker (thresholds : Thresholds) (candidates : Table Text Proposal) :
    Worker ApplyOutcome := fun path =>
  match candidates.get? path with
  | some p => return (← (p.apply thresholds).run).mapError PathFault.message
  | none => return .error []

def applyProposals (s : RunState) : StateM Machine RunState := do
  match s.refactoring? with
  | none => return s
  | some r =>
    let candidates := Table.ofPairs
      ((Proposal.applicable r.proposals s.options.thresholds).map fun p => (p.filePath, p))
    let b ← s.batch .apply (applyWorker s.options.thresholds candidates) candidates.keys
    return { s with applied := s.applied ++ b.results }.withBatch b

def assess (s : RunState) : StateM Machine RunState := do
  let thresholds := s.options.thresholds
  let b ← s.batch .maintainability (fileWorker (measure thresholds)) s.files
  let r := MaintainabilityReport.ofFiles thresholds b.results b.failures
  ({ s with maintainability? := some r }.withBatch b).writeArtifacts .maintainability
    (r.artifacts s.startedAt)

def checkStandards (s : RunState) : StateM Machine RunState := do
  let b ← s.batch .quality (fileWorker checkQuality) s.files
  let r := QualitySuiteReport.ofReports .default b.results b.failures
  ({ s with quality? := some r }.withBatch b).writeArtifacts .quality
    (r.artifacts .default s.startedAt)

def document (s : RunState) : StateM Machine RunState := do
  let b ← s.batch .documentation (fileWorker (describeFile s.startedAt)) s.files
  let r := DocumentReport.ofDocuments b.results b.failures
  ({ s with documentation? := some r }.withBatch b).writeArtifacts .documentation r.artifacts

/-- What a run did so far, with some more artifacts. -/
def summary (s : RunState) (more : List Text) : RunSummary where
  testDirectory := s.options.testDirectory
  outputDirectory := s.options.outputDirectory
  filesDiscovered := s.files.length
  skippedFiles := s.skipped.eraseDups
  refactoring? := s.refactoring?.map (·.summary)
  maintainability? := s.maintainability?.map (·.summary)
  quality? := s.quality?.map (·.summary)
  documentation? := s.documentation?.map (·.summary)
  applied := s.applied
  failures := s.failures
  artifacts := s.artifacts ++ more
  errors := s.errors

/-- The comprehensive report, which lists some more artifacts. -/
def comprehensive (s : RunState) (folder : Location) (more : List Text) : Artifact :=
  .ofPage comprehensiveName
    ((s.summary more).report s.startedAt folder s.maintainability?)

/-- The guides and the comprehensive report, which lists the guides and itself. -/
def reportArtifacts (s : RunState) (folder : Location) : List Artifact :=
  let guides := guideArtifacts s.refactoring? s.maintainability? s.quality?
  let output := s.options.outputDirectory
  guides ++ [s.comprehensive folder
    (guides.map (·.pathIn output) ++ [Path.join output comprehensiveName])]

def writeReports (s : RunState) : StateM Machine RunState := do
  s.writeArtifacts .report (s.reportArtifacts (← get).folder)

/-- The state after a phase. -/
def after (s : RunState) : Phase → StateM Machine RunState
  | .refactor => s.refactor
  | .apply => s.applyProposals
  | .maintainability => s.assess
  | .quality => s.checkStandards
  | .documentation => s.document
  | .report => s.writeReports

/-! ### The whole run -/

/-- The state at the start of a run; a finite time budget counts from now. -/
def start (options : Options) (startedAt : Timestamp) (order : Completion) :
    StateM Machine RunState := do
  match options.timeBudget? with
  | some (.finite budget) =>
    let now ← Machine.now
    return { options, startedAt, order, deadline? := some (now + budget.value) }
  | _ => return { options, startedAt, order }

/-- The state with the files of the test folder and the folders that cannot be listed, or with an
error. -/
def discoverFiles (s : RunState) : Work PathFault RunState := do
  let m ← get
  let filter := FileFilter.of s.options.endings s.options.excluded
  match discoverListed filter m.disk m.unlisted m.folder s.options.testDirectory with
  | .ok found => return { s with files := found.files, failures := s.failures ++ found.failures }
  | .error (.unresolved fault) => throw fault
  | .error e => return { s with errors := s.errors ++ ["discover_node error: " ++ e.message] }

/-- The state of a run that ends because there are no files. -/
def abort (s : RunState) : RunState :=
  let directory := s.options.testDirectory
  let error : Text :=
    match s.errors.getLast? with
    | some e => RunSummary.abortMark ++ " discovery failed for " ++ directory ++ ": " ++ e
    | none => RunSummary.abortMark ++ " no test files found in " ++ directory
  { s with errors := s.errors ++ [error] }

/-- The state after the phases of a run. -/
def runPhases (s : RunState) : StateM Machine RunState := s.options.route.foldlM after s

/-- The state at the end of a run. -/
def finish (s : RunState) : Work PathFault RunState := do
  let s ← s.discoverFiles
  if s.files.isEmpty then return s.abort
  if s.options.outputDirectory.elem '\x00' then throw .nullCharacter
  s.runPhases

end RunState

/-- Why a run has no summary. -/
inductive RunError where
  /-- There were no files to work on. -/
  | aborted (message : Text)
  /-- A path cannot be resolved. -/
  | unresolved (fault : PathFault)
  deriving DecidableEq

def RunError.message : RunError → Text
  | aborted message => message
  | unresolved fault => fault.message

/-- Runs everything that the options ask for, with an order in which the calls of a batch are done. -/
def Options.runIn (options : Options) (order : Completion) (startedAt : Timestamp) :
    Work RunError RunSummary := do
  let s ← ((← RunState.start options startedAt order).finish).adapt .unresolved
  let run := s.summary []
  match run.abortion? with
  | some error => throw (.aborted error)
  | none => return run

/-- Runs everything that the options ask for. -/
def Options.run (options : Options) (startedAt : Timestamp) : Work RunError RunSummary :=
  options.runIn .inOrder startedAt

end SuiteAudit
