import SuiteAudit.Payload.Json
import SuiteAudit.Quality.Standard
import SuiteAudit.Table
import SuiteAudit.Text.CaseMap

/-! # Registry of standards

A registry keeps standards in order, no two under the same id; ids are compared without the blanks
around them and in lower case.  A registry is never changed: every operation gives a new one.
-/

namespace SuiteAudit

/-- An id in the form in which ids are compared. -/
def normalizeId (id : Text) : Text := Text.lower (Text.trim id)

inductive RegistryError where
  | duplicate (id : Text)
  | unknown (id : Text)
  deriving DecidableEq

namespace RegistryError

def message : RegistryError → Text
  | duplicate id => "Duplicate standard id: " ++ id
  | unknown id => Text.quoted ("Unknown standard: " ++ id)

end RegistryError

structure Registry where
  standards : List Standard

namespace Registry

def empty : Registry := ⟨[]⟩

/-- Adds standards one by one behind those of a registry. -/
def addAll (r : Registry) : List Standard → Except RegistryError Registry
  | [] => .ok r
  | s :: rest =>
    if (r.standards.map fun t => normalizeId t.id).elem (normalizeId s.id) then
      .error (.duplicate s.id)
    else addAll ⟨r.standards ++ [s]⟩ rest

/-- The registry of some standards, when no two of them have the same id. -/
def ofList (standards : List Standard) : Except RegistryError Registry := empty.addAll standards

def ids (r : Registry) : List Text := r.standards.map (·.id)

def size (r : Registry) : Nat := r.standards.length

def has (r : Registry) (id : Text) : Bool :=
  r.standards.any fun s => normalizeId s.id = normalizeId id

/-- Whether a value is the id of a standard; only a text can be one. -/
def holds (r : Registry) : Json → Bool
  | .str id => r.has id
  | _ => false

/-- The standard with an id. -/
def get (r : Registry) (id : Text) : Except RegistryError Standard :=
  match r.standards.find? fun s => normalizeId s.id = normalizeId id with
  | some s => .ok s
  | none => .error (.unknown id)

/-- The registry with one more standard at its end. -/
def withStandard (r : Registry) (s : Standard) : Except RegistryError Registry :=
  ofList (r.standards ++ [s])

/-- The registry without the standard of an id. -/
def without (r : Registry) (id : Text) : Except RegistryError Registry :=
  if r.has id then ofList (r.standards.filter fun s => normalizeId s.id ≠ normalizeId id)
  else .error (.unknown id)

/-- The registry of the standards in some categories. -/
def select (r : Registry) (categories : List Category) : Registry :=
  ⟨r.standards.filter fun s => categories.elem s.category⟩

/-- The standards by category, the categories in order of their first standard. -/
def byCategory (r : Registry) : Table Category (List Standard) :=
  r.standards.foldl
    (fun table s => Table.modify s.category (fun old => old.getD [] ++ [s]) table) []

end Registry
end SuiteAudit
