import SuiteAudit.Disk.Basic

/-! # A machine with a disk and a clock

Work on files is done by calls to a machine: read a file, create one, append to one, make a folder.
A machine may have `trouble`: a call that would succeed fails, and an append gets only part of its
bytes through.  What a failed call left on the disk stays there.  Some of its folders may be `unlisted`:
what is in them cannot be found out.
-/

namespace SuiteAudit

/-- How a call fails: the cause, and how many bytes an append writes before. -/
structure Trouble where
  fault : DiskFault
  progress : Nat := 0

structure Machine where
  disk : Disk
  /-- The folder from which paths are seen. -/
  folder : Location := []
  /-- The calls that fail, by their number. -/
  trouble : Nat → Option Trouble := fun _ => none
  /-- How many calls were made. -/
  calls : Nat := 0
  /-- The folders that cannot be listed, and why. -/
  unlisted : Location → Option DiskFault := fun _ => none
  /-- The time at each reading of the clock, in seconds. -/
  clock : Nat → Rat := fun _ => 0
  /-- How often the clock was read. -/
  readings : Nat := 0

/-- Work on a machine that may fail. -/
abbrev Work (ε α : Type) := ExceptT ε (StateM Machine) α

namespace Machine

/-- A call on a path: what it gives and the disk after it, and in trouble the disk that the bytes
got through leave. -/
def call {α : Type} (path : Text) (result : Disk → Location → Except DiskFault (α × Disk))
    (broken : Disk → Location → Nat → Disk) : Work DiskError α := do
  if path.elem '\x00' then throw .nullCharacter
  let m ← get
  set { m with calls := m.calls + 1 }
  match m.trouble m.calls, result m.disk m.folder with
  | none, .ok (a, disk) =>
    set { m with calls := m.calls + 1, disk := disk }
    return a
  | some t, .ok _ =>
    set { m with calls := m.calls + 1, disk := broken m.disk m.folder t.progress }
    throw (.failed t.fault path)
  | _, .error fault => throw (.failed fault path)

def readFile (path : Text) : Work DiskError Bytes :=
  call path (fun d folder => (d.readFile folder path).map (·, d)) fun d _ _ => d

def createFile (path : Text) : Work DiskError Unit :=
  call path (fun d folder => (d.createFile folder path).map ((), ·)) fun d _ _ => d

/-- Some bytes behind those of a file, of which a part may get through. -/
def appendFile (path : Text) (bytes : Bytes) : Work DiskError Unit :=
  call path (fun d folder => (d.appendFile folder path bytes).map ((), ·)) fun d folder n =>
    match d.appendFile folder path (bytes.take n) with
    | .ok d => d
    | .error _ => d

def makeFolder (path : Text) : Work DiskError Unit :=
  call path (fun d folder => (d.makeFolder folder path).map ((), ·)) fun d _ _ => d

def remove (path : Text) : Work DiskError Unit :=
  call path (fun d folder => (d.remove folder path).map ((), ·)) fun d _ _ => d

/-- Reads the clock. -/
def now : StateM Machine Rat := do
  let m ← get
  set { m with readings := m.readings + 1 }
  return m.clock m.readings

/-! ### Work made of calls -/

/-- Writes a whole file. -/
def writeFile (path : Text) (bytes : Bytes) : Work DiskError Unit := do
  createFile path
  appendFile path bytes

/-- Copies a file over another one, or to a path where there is nothing. -/
def copyFile (source target : Text) : Work DiskError Unit := do
  let m ← get
  if m.disk.sameEntry m.folder source target then throw (.sameFile source target)
  let bytes ← readFile source
  let m ← get
  try writeFile target bytes
  catch e =>
    if e = .failed .isFolder target ∧ !m.disk.has m.folder target then throw (.noTarget target)
    throw e

/-- Whether two files hold the same bytes. -/
def sameContent (first second : Text) : Work DiskError Bool := do
  return (← readFile first) = (← readFile second)

/-- Goes on when something is there already. -/
def passOver (work : Work DiskError Unit) : Work DiskError Unit := do
  try work
  catch e =>
    match e with
    | .failed .present _ => pure ()
    | e => throw e

/-- Makes one folder unless it is there. -/
def makeFolderOnce (path : Text) : Work DiskError Unit := do
  try makeFolder path
  catch e =>
    let m ← get
    if !m.disk.hasFolder m.folder path then throw e

/-- Makes a folder unless it is there, and the folders above it, at most `depth` of them. -/
def ensureFolderWithin (depth : Nat) (path : Text) : Work DiskError Unit := do
  let (above, name) :=
    if (Path.split path).2.isEmpty then Path.split (Path.split path).1 else Path.split path
  let m ← get
  if !above.isEmpty && !name.isEmpty && !m.disk.has m.folder above then
    match depth with
    | 0 => pure ()
    | depth + 1 => passOver (ensureFolderWithin depth above)
    if name = ['.'] then return
  makeFolderOnce path

/-- Makes a folder unless it is there, and the folders above it. -/
def ensureFolder (path : Text) : Work DiskError Unit := ensureFolderWithin path.length path

/-- Writes a whole file into a folder that is made when it is not there. -/
def writeInto (path : Text) (bytes : Bytes) : Work DiskError Unit := do
  let folder := Path.folderOf path
  ensureFolder (if folder.isEmpty then ['.'] else folder)
  writeFile path bytes

end Machine
end SuiteAudit
