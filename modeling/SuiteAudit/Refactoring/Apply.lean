import SuiteAudit.Disk.SourceFile
import SuiteAudit.Number.Decimal
import SuiteAudit.Refactoring.Proposal

/-! # Applying proposals

A proposal is applied when it changes its file and gains enough.  The file is copied to a backup,
the copy is compared, and only then is the new text written over the file.  A failure ends in an
outcome, and the backup stays.
-/

namespace SuiteAudit

/-- What became of a proposal. -/
structure ApplyOutcome where
  filePath : Text
  applied : Bool
  backupPath? : Option Text := none
  reason? : Option Text := none
  deriving DecidableEq

/-- Why a proposal is not applied, before its file is touched. -/
inductive Refusal where
  | noChanges
  | lowScore (score limit : Extended)
  deriving DecidableEq

def Refusal.message : Refusal → Text
  | noChanges => "no changes"
  | lowScore score limit => "improvement score " ++ score.text ++ " is not above " ++ limit.text

/-- Why a file could not be written. -/
inductive ApplyError where
  | source (e : SourceError)
  | disk (e : DiskError)
  | badBackup (backup path : Text)
  deriving DecidableEq

def ApplyError.message : ApplyError → Text
  | source e => e.message
  | disk e => e.message
  | badBackup backup path => "backup " ++ backup ++ " does not match " ++ path

namespace Proposal

def backupEnding : Text := ".backup"

/-- The path of the backup of a file. -/
def backupPath (path : Text) : Text := path ++ backupEnding

/-- The refusal of a proposal, if it is refused. -/
def refusal? (thresholds : Thresholds) (p : Proposal) : Option Refusal :=
  if p.changes.isEmpty || p.after = p.before then some .noChanges
  else if p.score ≤ thresholds.applyMinImprovement then
    some (.lowScore p.score thresholds.applyMinImprovement)
  else none

/-- Copies a file to its backup and gives its line ending. -/
def backUp (path : Text) : Work ApplyError LineEnding := do
  let file ← (SourceFile.read path).adapt .source
  (Machine.copyFile path (backupPath path)).adapt .disk
  return file.ending

/-- Writes a text over a file that equals its backup. -/
def overwrite (path content : Text) (ending : LineEnding) : Work ApplyError Unit := do
  if !(← (Machine.sameContent path (backupPath path)).adapt .disk) then
    throw (.badBackup (backupPath path) path)
  (Machine.writeFile path (SourceFile.bytesOf ending content)).adapt .disk

/-- The outcome when a file was left as it is. -/
def stopped (p : Proposal) (backupPath? : Option Text) (reason : Text) : ApplyOutcome :=
  ⟨p.filePath, false, backupPath?, some reason⟩

/-- Writes the new text of a proposal over its file, which is backed up first. -/
def replaceFile (p : Proposal) : StateM Machine ApplyOutcome := do
  let path := p.filePath
  match ← (backUp path).run with
  | .error e => return p.stopped none e.message
  | .ok ending =>
    match ← (overwrite path p.after ending).run with
    | .error e => return p.stopped (some (backupPath path)) e.message
    | .ok () => return ⟨path, true, some (backupPath path), none⟩

/-- Applies a proposal; only a file whose path cannot be resolved has no outcome. -/
def apply (thresholds : Thresholds) (p : Proposal) : Work PathFault ApplyOutcome := do
  match p.refusal? thresholds with
  | some refusal => return p.stopped none refusal.message
  | none =>
    let m ← get
    match m.disk.realLocation m.folder p.filePath with
    | .error fault => throw fault
    | .ok _ => p.replaceFile

end Proposal
end SuiteAudit
