import SuiteAudit.Number.Decimal

/-! # Values of the report format

Reports are written as JSON.  An object keeps its members in order, whole numbers and binary
fractions are told apart, and every character beyond the controls is written as itself.
`Json.pretty` spreads a value over indented lines, `Json.line` keeps it on one.
-/

namespace SuiteAudit

inductive Json where
  | null
  | bool (b : Bool)
  | int (n : Int)
  | real (x : Extended)
  | str (t : Text)
  | arr (items : List Json)
  | obj (members : List (Text × Json))

namespace Json

instance : Inhabited Json := ⟨null⟩

def nat (n : Nat) : Json := int n

def ofOption {α : Type} (f : α → Json) : Option α → Json
  | none => null
  | some a => f a

def strs (ts : List Text) : Json := arr (ts.map str)

/-- The member of an object under a key; the last one if there are several. -/
def member? (key : Text) : Json → Option Json
  | obj members => members.reverse.lookup key
  | _ => none

/-- Whether a value stands for nothing: null, no, zero, or something without parts. -/
def isVoid : Json → Bool
  | null => true
  | bool b => !b
  | int n => n = 0
  | real x => x = .zero || x = .negativeZero
  | str t => t.isEmpty
  | arr items => items.isEmpty
  | obj members => members.isEmpty

/-! ### Writing -/

/-- A character inside a quoted text. -/
def escapeChar (c : Char) : Text :=
  if c = '"' then "\\\"" else if c = '\\' then "\\\\" else if c = '\n' then "\\n"
  else if c = '\r' then "\\r" else if c = '\t' then "\\t" else if c = '\x08' then "\\b"
  else if c = '\x0c' then "\\f" else if c.toNat < 0x20 then "\\u" ++ Text.ofNatHex 4 c.toNat
  else [c]

def quote (t : Text) : Text := '"' :: t.flatMap escapeChar ++ ['"']

/-- A floating-point value; what has no digits is written as a word. -/
def numeral : Extended → Text
  | .infinite negative => (if negative then ['-'] else []) ++ "Infinity"
  | .undefined => "NaN"
  | x => x.text

/-- A line feed and the indentation of a depth. -/
def newLine (depth : Nat) : Text := '\n' :: List.replicate (2 * depth) ' '

mutual

/-- The text of a value at a depth, each item and member on a line of its own. -/
def prettyAt (depth : Nat) : Json → Text
  | null => "null"
  | bool b => if b then "true" else "false"
  | int n => Text.ofInt n
  | real x => numeral x
  | str t => quote t
  | arr [] => "[]"
  | arr (item :: items) =>
    "[" ++ newLine (depth + 1) ++ prettyAt (depth + 1) item ++ prettyItems (depth + 1) items ++
      newLine depth ++ "]"
  | obj [] => "\x7b\x7d"
  | obj ((key, value) :: members) =>
    "\x7b" ++ newLine (depth + 1) ++ quote key ++ ": " ++ prettyAt (depth + 1) value ++
      prettyMembers (depth + 1) members ++ newLine depth ++ "\x7d"

/-- The items after the first. -/
def prettyItems (depth : Nat) : List Json → Text
  | [] => []
  | item :: items => "," ++ newLine depth ++ prettyAt depth item ++ prettyItems depth items

/-- The members after the first. -/
def prettyMembers (depth : Nat) : List (Text × Json) → Text
  | [] => []
  | (key, value) :: members =>
    "," ++ newLine depth ++ quote key ++ ": " ++ prettyAt depth value ++
      prettyMembers depth members

end

/-- The text of a value over indented lines. -/
def pretty (value : Json) : Text := prettyAt 0 value

mutual

/-- The text of a value on one line. -/
def line : Json → Text
  | null => "null"
  | bool b => if b then "true" else "false"
  | int n => Text.ofInt n
  | real x => numeral x
  | str t => quote t
  | arr items => "[" ++ Text.join ", " (lineItems items) ++ "]"
  | obj members => "\x7b" ++ Text.join ", " (lineMembers members) ++ "\x7d"

def lineItems : List Json → List Text
  | [] => []
  | item :: items => line item :: lineItems items

def lineMembers : List (Text × Json) → List Text
  | [] => []
  | (key, value) :: members => (quote key ++ ": " ++ line value) :: lineMembers members

end

end Json
end SuiteAudit
