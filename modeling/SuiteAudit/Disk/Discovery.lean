import SuiteAudit.Disk.Basic
import SuiteAudit.Failure

/-! # Discovery of test files

The test files below a folder are found by the endings of their names.  Folders with certain names
are passed over, and links are not followed.  A folder that cannot be listed is a failure, and nothing
below it is found.
-/

namespace SuiteAudit

/-- What makes a file a test file, and which folders are passed over. -/
structure FileFilter where
  endings : List Text
  excluded : List Text

namespace FileFilter

/-- The endings of test files by default. -/
def defaultEndings : List Text :=
  [".spec.ts", ".spec.tsx", ".spec.js", ".spec.jsx", ".spec.mjs", ".spec.cjs",
   ".test.ts", ".test.tsx", ".test.js", ".test.jsx", ".test.mjs", ".test.cjs"]

/-- The folders that are passed over when none are named. -/
def defaultExcluded : List Text := ["node_modules", ".git"]

/-- The filter of some endings and some excluded folders, if any are named. -/
def of (endings excluded : List Text) : FileFilter :=
  ⟨endings, if excluded.isEmpty then defaultExcluded else excluded⟩

def isTestFile (f : FileFilter) (name : Text) : Bool := Text.endsWithAny name f.endings

/-- The names of a location below a folder. -/
def below? (root location : Location) : Option (List Text) :=
  if root.isPrefixOf location then some (location.drop root.length) else none

/-- Whether the folders on the way along some names from a folder can be listed. -/
def isOpen (unlisted : Location → Option DiskFault) (root : Location) (names : List Text) : Bool :=
  (List.range names.length).all fun n => (unlisted (root ++ names.take n)).isNone

/-- Whether none of some names is that of a folder which is passed over. -/
def enters (f : FileFilter) (names : List Text) : Bool := names.all fun name => !f.excluded.elem name

/-- Whether the file at a location is a test file that is found below a folder. -/
def selects (f : FileFilter) (unlisted : Location → Option DiskFault) (root location : Location)
    (entry : Entry) : Bool :=
  match entry, below? root location with
  | .file _, some names =>
    f.enters names.dropLast && isOpen unlisted root names &&
      names.getLast?.any (fun name => f.isTestFile name)
  | _, _ => false

/-- The paths of the test files that are found below a folder, in order. -/
def filesBelow (f : FileFilter) (d : Disk) (unlisted : Location → Option DiskFault)
    (root : Location) : List Text :=
  ((d.filter fun p => f.selects unlisted root p.1 p.2).map fun p => p.1.path).mergeSort Text.le

/-- Whether the folder at a location is come upon below a folder. -/
def meets (f : FileFilter) (unlisted : Location → Option DiskFault) (root location : Location)
    (entry : Entry) : Bool :=
  match entry, below? root location with
  | .folder, some names => !names.isEmpty && f.enters names && isOpen unlisted root names
  | _, _ => false

/-- What is recorded for a folder that cannot be listed. -/
def failureAt? (unlisted : Location → Option DiskFault) (location : Location) :
    Option FileFailure :=
  (unlisted location).map fun fault =>
    ⟨location.path, .discovery, (DiskError.failed fault location.path).message⟩

/-- The failures at a folder and at those below it, in the order in which they are come upon. -/
def failuresBelow (f : FileFilter) (d : Disk) (unlisted : Location → Option DiskFault)
    (root : Location) : List FileFailure :=
  let met := ((d.filter fun p => f.meets unlisted root p.1 p.2).map (·.1)).mergeSort Location.le
  (root :: met).filterMap (failureAt? unlisted)

end FileFilter

/-- What is found below a folder. -/
structure Discovered where
  files : List Text
  failures : List FileFailure := []

inductive DiscoveryError where
  /-- There is no such folder. -/
  | noFolder (path : Text)
  /-- The path cannot be resolved. -/
  | unresolved (fault : PathFault)
  deriving DecidableEq

namespace DiscoveryError

def message : DiscoveryError → Text
  | noFolder path => "Test directory not found: " ++ path
  | unresolved fault => fault.message

end DiscoveryError

/-- What is found below the folder of a path when some folders cannot be listed. -/
def discoverListed (f : FileFilter) (d : Disk) (unlisted : Location → Option DiskFault)
    (folder : Location) (path : Text) : Except DiscoveryError Discovered := do
  let root ← (d.realLocation folder path).mapError .unresolved
  if ← (d.folderAt root).mapError .unresolved then
    return ⟨f.filesBelow d unlisted root, f.failuresBelow d unlisted root⟩
  throw (.noFolder path)

/-- The paths of the test files below the folder of a path when all folders can be listed. -/
def discover (f : FileFilter) (d : Disk) (folder : Location) (path : Text) :
    Except DiscoveryError (List Text) :=
  (discoverListed f d (fun _ => none) folder path).map (·.files)

end SuiteAudit
