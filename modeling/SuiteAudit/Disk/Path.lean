import SuiteAudit.Text.Basic

/-! # Paths

A path is the text by which a file is named; a location is the list of names that lead to it from
the root.  Empty names and single points in a path stand for nothing, two points for the folder
above.
-/

namespace SuiteAudit

/-- The names that lead from the root to a file or a folder. -/
abbrev Location := List Text

namespace Location

/-- The path of a place from the root. -/
def path (p : Location) : Text := '/' :: Text.join ['/'] p

/-- The place one step further along a path: a name, nothing, or the folder above. -/
def step (p : Location) (name : Text) : Location :=
  if name.isEmpty || name == ['.'] then p
  else if name == ['.', '.'] then p.dropLast
  else p ++ [name]

/-- The place that a path names, seen from a folder, when links are left alone. -/
def ofPath (folder : Location) (path : Text) : Location :=
  (Text.splitOn '/' path).foldl step (if path.head? = some '/' then [] else folder)

/-- The order of places name by name, a folder before what is in it. -/
def le : Location → Location → Bool
  | [], _ => true
  | _ :: _, [] => false
  | a :: p, b :: q => if a = b then le p q else Text.le a b

/-- The part of a place below a folder and the number of steps up before it. -/
def beyond : Location → Location → Nat × Location
  | a :: folder, b :: place =>
    if a = b then beyond folder place else (folder.length + 1, b :: place)
  | folder, place => (folder.length, place)

/-- The path of a place as seen from a folder. -/
def relativeTo (place folder : Location) : Text :=
  let (up, rest) := beyond folder place
  let names := List.replicate up ['.', '.'] ++ rest
  if names.isEmpty then ['.'] else Text.join ['/'] names

end Location

namespace Path

/-- A path and a name below it. -/
def join (folder name : Text) : Text :=
  if name.head? = some '/' then name
  else if folder.isEmpty || folder.getLast? = some '/' then folder ++ name
  else folder ++ "/" ++ name

/-- Whether a path is nothing but slashes. -/
def isSlashes (t : Text) : Bool := t.all (· == '/')

/-- The folder and the last name of a path. -/
def split (path : Text) : Text × Text :=
  let name := (path.reverse.takeWhile (· != '/')).reverse
  let folder := (path.reverse.dropWhile (· != '/')).reverse
  (if isSlashes folder then folder else Text.trimEndWhile (· == '/') folder, name)

/-- The folder that a path names a file in. -/
def folderOf (path : Text) : Text := (split path).1

end Path
end SuiteAudit
