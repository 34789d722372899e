import SuiteAudit.Payload.Json
import SuiteAudit.Text.Quoted

/-! # Values in messages

Messages show a value with quoted texts, capitalised truth values and `None` for nothing.
-/

namespace SuiteAudit.Json

mutual

/-- A value as messages show it. -/
def display : Json → Text
  | null => "None"
  | bool b => if b then "True" else "False"
  | int n => Text.ofInt n
  | real x => x.text
  | str t => Text.quoted t
  | arr items => "[" ++ Text.join ", " (displayItems items) ++ "]"
  | obj members => "\x7b" ++ Text.join ", " (displayMembers members) ++ "\x7d"

def displayItems : List Json → List Text
  | [] => []
  | item :: items => display item :: displayItems items

def displayMembers : List (Text × Json) → List Text
  | [] => []
  | (key, value) :: members => (Text.quoted key ++ ": " ++ display value) :: displayMembers members

end

/-- A value as messages show it, a text without quotes. -/
def displayBare : Json → Text
  | str t => t
  | v => display v

/-- The name of a value's type in messages. -/
def typeName : Json → Text
  | null => "NoneType"
  | bool _ => "bool"
  | int _ => "int"
  | real _ => "float"
  | str _ => "str"
  | arr _ => "list"
  | obj _ => "dict"

end SuiteAudit.Json
