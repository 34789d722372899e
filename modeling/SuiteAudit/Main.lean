import Std.Time.DateTime
import SuiteAudit.CommandLine.Program

/-! # The command line

The folders that the arguments name are read into a disk, the program works on it, and what it wrote
there is written to the system.
-/

namespace SuiteAudit.CommandLine

/-! ### Reading the folders -/

/-- The entry of the system at a location below the root; none when it cannot be read. -/
def systemEntry? (place : Location) : IO (Option Entry) := do
  let name := place.getLast?.getD []
  let here : IO.FS.DirEntry := ⟨String.ofList (Location.path place.dropLast), String.ofList name⟩
  try
    match (← here.path.symlinkMetadata).type with
    | .dir => return some .folder
    | .symlink => return some (.link (← IO.FS.realPath here.path).toString.toList)
    | _ => return some (.file (← IO.FS.readBinFile here.path).toList)
  catch _ => return none

/-- The names in a folder of the system. -/
def systemNames (place : Location) : IO (List Text) := do
  let here ← IO.FS.realPath (String.ofList place.path)
  try return (← here.readDir).toList.map (·.fileName.toList)
  catch _ => return []

/-- The disk with what is found at a location, and in a folder at most `depth` levels below it. -/
def loadBelow (depth : Nat) (d : Disk) (place : Location) : IO Disk := do
  match depth, ← systemEntry? place with
  | _, none => return d
  | depth + 1, some .folder =>
    let names := (← systemNames place).filter fun name => !FileFilter.defaultExcluded.elem name
    names.foldlM (fun d name => loadBelow depth d (place ++ [name])) (Table.set place .folder d)
  | _, some entry => return Table.set place entry d

/-- The disk with the entries on the way to some names from a place, and the place that is reached
when links are followed. -/
def loadWay (d : Disk) (place : Location) : List Text → IO (Disk × Location)
  | [] => return (d, place)
  | name :: rest => do
    let next := place.step name
    match ← if next.isEmpty then pure none else systemEntry? next with
    | some (.link target) =>
      let real := Location.ofPath [] target
      let way := (List.range real.length).map fun n => real.take (n + 1)
      let linked := Table.set next (.link target) d
      let d := way.foldl (fun d place => Table.set place .folder d) linked
      loadWay d real rest
    | some entry => loadWay (Table.set next entry d) next rest
    | none => loadWay d next rest

/-- The disk with the folder of a path and everything below it. -/
def loadPath (folder : Location) (d : Disk) (path : Text) : IO Disk := do
  let (d, _) ← loadWay d [] folder
  let (d, place) ← loadWay d (Disk.startOf folder path) (Disk.namesOf path)
  loadBelow 64 d place

/-- The paths that some arguments name. -/
def namedPaths (texts : List Text) : List Text :=
  match Arguments.parse texts with
  | .ok a => [a.testDirectory, a.outputDirectory]
  | .error _ => []

/-! ### Writing what changed -/

/-- Writes the entries of a disk that are not on an earlier one. -/
def store (before after : Disk) : IO Unit := do
  for (place, entry) in after do
    if before.get? place ≠ some entry then
      let path := String.ofList place.path
      match entry with
      | .folder => IO.FS.createDirAll path
      | .file bytes => IO.FS.writeBinFile path ⟨bytes.toArray⟩
      | .link _ => pure ()

/-! ### Time -/

/-- The present moment in universal time. -/
def presentTime : IO Timestamp := do
  let t := Std.Time.PlainDateTime.ofWallTime
    (.ofNanoseconds (← Std.Time.Timestamp.now).toNanosecondsSinceUnixEpoch)
  return {
    year := t.year.toInt.toNat, month := t.month.val.toNat, day := t.day.val.toNat
    hour := t.hour.val.toNat, minute := t.minute.val.toNat, second := t.second.val.toNat
    micro := t.nanosecond.val.toNat / 1000, offset? := some 0 }

/-- The machine of a command line: its clock counts from the start of the program. -/
def machine (texts : List Text) : IO Machine := do
  let start ← IO.monoNanosNow
  let folder := Location.ofPath [] (← IO.currentDir).toString.toList
  let disk ← (namedPaths texts).foldlM (loadPath folder) []
  let elapsed : Rat := ((← IO.monoNanosNow) - start : Nat) / 1000000000
  return { disk := disk, folder := folder, clock := fun n => if n = 0 then 0 else elapsed }

/-- What the environment says about the log. -/
def environment : IO LogEnvironment := do
  let valueOf? (name : Text) : IO (Option Text) := do
    return (← IO.getEnv (String.ofList name)).map String.toList
  return ⟨← valueOf? LogSetup.levelVariable, ← valueOf? LogSetup.formatVariable⟩

end SuiteAudit.CommandLine

open SuiteAudit in
/-- Does what the command line asks for and gives the exit code. -/
def main (args : List String) : IO UInt32 := do
  let texts := args.map String.toList
  let before ← CommandLine.machine texts
  let work := CommandLine.run texts (← CommandLine.environment) (← CommandLine.presentTime)
  let (result, after) := work.run.run before
  CommandLine.store before.disk after.disk
  let outcome := match result with
    | .ok outcome => outcome
    | .error l => CommandLine.failed "Error" l.message
  IO.print (String.ofList outcome.out)
  IO.eprint (String.ofList outcome.err)
  return outcome.code.toUInt32
