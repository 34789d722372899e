import SuiteAudit.Disk.Path
import SuiteAudit.Table
import SuiteAudit.Text.Quoted
import SuiteAudit.Text.Utf8

/-! # Disks

A disk holds files, folders and links by their locations.  Names are followed one by one: a link
sends the search on to its target, at most `linkLimit` times.  Every operation gives its result or
the cause of its failure, and leaves the disk as it was when it fails.
-/

namespace SuiteAudit

inductive Entry where
  | file (bytes : Bytes)
  | folder
  | link (target : Text)
  deriving DecidableEq

/-- Why an operation on a disk fails. -/
inductive DiskFault where
  | absent
  | hardware
  | denied
  | present
  | notFolder
  | isFolder
  | full
  | nameTooLong
  | linkLoop
  deriving DecidableEq, Repr

namespace DiskFault

def code : DiskFault → Nat
  | absent => 2
  | hardware => 5
  | denied => 13
  | present => 17
  | notFolder => 20
  | isFolder => 21
  | full => 28
  | nameTooLong => 36
  | linkLoop => 40

def text : DiskFault → Text
  | absent => "No such file or directory"
  | hardware => "Input/output error"
  | denied => "Permission denied"
  | present => "File exists"
  | notFolder => "Not a directory"
  | isFolder => "Is a directory"
  | full => "No space left on device"
  | nameTooLong => "File name too long"
  | linkLoop => "Too many levels of symbolic links"

end DiskFault

/-- A failed operation with the path that it was given. -/
inductive DiskError where
  | failed (fault : DiskFault) (path : Text)
  /-- A file was to be copied onto itself. -/
  | sameFile (source target : Text)
  /-- A file was to be copied to a path that is none of a file. -/
  | noTarget (path : Text)
  /-- A path has a null character. -/
  | nullCharacter
  deriving DecidableEq

namespace DiskError

def message : DiskError → Text
  | failed fault path =>
    "[Errno " ++ Text.ofNat fault.code ++ "] " ++ fault.text ++ ": " ++ Text.quoted path
  | sameFile source target =>
    Text.quoted source ++ " and " ++ Text.quoted target ++ " are the same file"
  | noTarget path => "Directory does not exist: " ++ path
  | nullCharacter => "embedded null byte"

end DiskError

/-- Why a path cannot be resolved. -/
inductive PathFault where
  /-- Links lead back to themselves, where they were met. -/
  | linkLoop (path : Text)
  | nameTooLong (path : Text)
  | nullCharacter
  deriving DecidableEq

def PathFault.message : PathFault → Text
  | linkLoop path => "Symlink loop from " ++ Text.quoted path
  | nameTooLong path => (DiskError.failed .nameTooLong path).message
  | nullCharacter => DiskError.nullCharacter.message

/-- The entries of a disk by their locations; the root is a folder that needs no entry. -/
abbrev Disk := Table Location Entry

namespace Disk

def entry? (d : Disk) (place : Location) : Option Entry :=
  if place.isEmpty then some .folder else Table.get? place d

/-- How many links are followed. -/
def linkLimit : Nat := 40

/-- The bytes that a name may have. -/
def nameLimit : Nat := 255

/-- The bytes that a path may have. -/
def pathLimit : Nat := 4095

/-- Whether a text has more bytes than a limit. -/
def exceeds (limit : Nat) (t : Text) : Bool := limit < (Utf8.encode t).length

/-- The names of a path. -/
def namesOf (path : Text) : List Text := Text.splitOn '/' path

/-- Where the names of a path start. -/
def startOf (folder : Location) (path : Text) : Location :=
  if path.head? = some '/' then [] else folder

/-- What is done with a link at the end of a path, and with slashes there. -/
inductive Ending where
  /-- A link is followed; a slash may stand behind a folder. -/
  | follow
  /-- A link is followed to a file that may be made; no slash may stand behind it. -/
  | create
  /-- A link stands for itself. -/
  | stay
  deriving DecidableEq

/-- The place that some names lead to from a folder, with its entry if there is one; the folders on
the way have to be there. -/
def walk (d : Disk) (ending : Ending) (links : Nat) (at' : Location) (names : List Text) :
    Except DiskFault (Location × Option Entry) :=
  match names with
  | [] => .ok (at', d.entry? at')
  | name :: rest =>
    if d.entry? at' ≠ some .folder then .error .notFolder
    else if name.isEmpty || name == ['.'] then walk d ending links at' rest
    else if name == ['.', '.'] then walk d ending links at'.dropLast rest
    else if ending = .create && !rest.isEmpty && rest.all (·.isEmpty) then .error .isFolder
    else if exceeds nameLimit name then .error .nameTooLong
    else
      match d.entry? (at' ++ [name]) with
      | none => if rest.isEmpty then .ok (at' ++ [name], none) else .error .absent
      | some (.link target) =>
        if rest.isEmpty && ending = .stay then .ok (at' ++ [name], some (.link target))
        else
          match links with
          | 0 => .error .linkLoop
          | links + 1 => walk d ending links (startOf at' target) (namesOf target ++ rest)
      | some _ => walk d ending links (at' ++ [name]) rest
  termination_by (links, names.length)

/-- The place and the entry of a path as seen from a folder. -/
def find (d : Disk) (ending : Ending) (folder : Location) (path : Text) :
    Except DiskFault (Location × Option Entry) :=
  if path.isEmpty then .error .absent
  else if exceeds pathLimit path then .error .nameTooLong
  else walk d ending linkLimit (startOf folder path) (namesOf path)

/-- The place and the entry of a path as seen from a folder. -/
def locate (d : Disk) (folder : Location) (path : Text) :
    Except DiskFault (Location × Option Entry) := d.find .follow folder path

/-- The same without following a link at the end of the path, where slashes are left out. -/
def locateLink (d : Disk) (folder : Location) (path : Text) :
    Except DiskFault (Location × Option Entry) :=
  d.find .stay folder (if Path.isSlashes path then path else Text.trimEndWhile (· == '/') path)

/-! ### Operations -/

def readFile (d : Disk) (folder : Location) (path : Text) : Except DiskFault Bytes := do
  match ← d.locate folder path with
  | (_, some (.file bytes)) => return bytes
  | (_, none) => throw .absent
  | (_, some _) => throw .isFolder

/-- Writes a file anew, or makes it. -/
def writeFile (d : Disk) (folder : Location) (path : Text) (bytes : Bytes) :
    Except DiskFault Disk := do
  match ← d.find .create folder path with
  | (place, some (.file _)) | (place, none) => return Table.set place (.file bytes) d
  | (_, some _) => throw .isFolder

/-- Empties a file, or makes an empty one. -/
def createFile (d : Disk) (folder : Location) (path : Text) : Except DiskFault Disk :=
  d.writeFile folder path []

/-- Writes bytes behind those of a file. -/
def appendFile (d : Disk) (folder : Location) (path : Text) (bytes : Bytes) :
    Except DiskFault Disk := do
  d.writeFile folder path ((← d.readFile folder path) ++ bytes)

def makeFolder (d : Disk) (folder : Location) (path : Text) : Except DiskFault Disk := do
  match ← d.locateLink folder path with
  | (place, none) => return Table.set place .folder d
  | (_, some _) => throw .present

/-- Removes a file or a link, which no slash may follow. -/
def remove (d : Disk) (folder : Location) (path : Text) : Except DiskFault Disk := do
  match ← d.locateLink folder path with
  | (_, none) => throw .absent
  | (_, some .folder) => throw .isFolder
  | (place, some _) =>
    if path.getLast? = some '/' then throw .notFolder
    return d.filter fun p => p.1 ≠ place

/-! ### Questions -/

/-- Whether a path leads to an entry. -/
def has (d : Disk) (folder : Location) (path : Text) : Bool :=
  match d.locate folder path with
  | .ok (_, some _) => true
  | _ => false

/-- Whether a path leads to a folder. -/
def hasFolder (d : Disk) (folder : Location) (path : Text) : Bool :=
  match d.locate folder path with
  | .ok (_, some .folder) => true
  | _ => false

/-- Whether two paths lead to the same entry. -/
def sameEntry (d : Disk) (folder : Location) (first second : Text) : Bool :=
  match d.locate folder first, d.locate folder second with
  | .ok (place, some _), .ok (place', some _) => place = place'
  | _, _ => false

/-! ### Places without links -/

/-- The place that some names lead to from a place, links apart; two slashes at their start lead to
the root. -/
def stepAll (at' : Location) (names : List Text) : Location :=
  match names with
  | [] :: _ :: _ => names.foldl Location.step []
  | names => names.foldl Location.step at'

/-- The place that some names lead to from a place when its links are followed, whether or not
anything is there.  The links in `pending` are being followed: when one of them is met again, it
and the names behind it are the error.  No more than `links` can be pending. -/
def realWalk (d : Disk) (links : Nat) (pending : List Location) (at' : Location)
    (names : List Text) : Except Location Location :=
  match names with
  | [] => .ok at'
  | name :: rest =>
    let next := at'.step name
    match d.entry? next with
    | some (.link target) =>
      match links with
      | 0 => .error (stepAll next rest)
      | links + 1 =>
        if pending.elem next then .error (stepAll next rest)
        else
          match realWalk d links (next :: pending) (startOf next.dropLast target)
              (namesOf target) with
          | .ok place => realWalk d (links + 1) pending place rest
          | .error place => .error (stepAll place rest)
    | _ => realWalk d links pending next rest
  termination_by (links, names.length)

/-- The names of a path without those that lead nowhere. -/
def plainNames (path : Text) : List Text :=
  (namesOf path).filter fun name => !name.isEmpty && name ≠ ['.']

/-- The place of a path without links. -/
def realLocation (d : Disk) (folder : Location) (path : Text) : Except PathFault Location :=
  if path.elem '\x00' then .error .nullCharacter
  else
    match d.realWalk (d.length + 1) [] (startOf folder path) (plainNames path) with
    | .ok place => .ok place
    | .error place =>
      match d.locate [] place.path with
      | .error .linkLoop => .error (.linkLoop place.path)
      | _ => .ok place

/-- Whether there is a folder at a place. -/
def folderAt (d : Disk) (place : Location) : Except PathFault Bool :=
  match d.locate [] place.path with
  | .ok (_, some .folder) => .ok true
  | .error .nameTooLong => .error (.nameTooLong place.path)
  | _ => .ok false

end Disk
end SuiteAudit
