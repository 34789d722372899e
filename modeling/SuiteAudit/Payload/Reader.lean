import SuiteAudit.Payload.Json
import SuiteAudit.Table

/-! # Reading payloads

A reader makes of a value what it stands for, or lists everything that is wrong with it in the order
of the fields: `Checked` has an applicative that goes on after the first fault.  Numerals may be
given as texts, whole numbers as fractions that are whole, and members that nobody asks for are
passed over.
-/

namespace SuiteAudit.Payload

/-- What is wrong with a value. -/
inductive Wrong where
  | absent
  | notText
  | notWhole
  | notReal
  | notNumeral
  | notWholeNumeral
  | fractional
  | notFinite
  | tooLong
  | notTruth
  | notTruthWord
  | notList
  | notSequence
  | notTable
  | notRecord
  | notMoment
  | notMomentText
  | outsideCalendar
  | notChoice
  | tooSmall
  | notAbove
  deriving DecidableEq, Repr

namespace Wrong

def name : Wrong → Text
  | absent => "missing"
  | notText => "string_type"
  | notWhole => "int_type"
  | notReal => "float_type"
  | notNumeral => "float_parsing"
  | notWholeNumeral => "int_parsing"
  | fractional => "int_from_float"
  | notFinite => "finite_number"
  | tooLong => "int_parsing_size"
  | notTruth => "bool_type"
  | notTruthWord => "bool_parsing"
  | notList => "list_type"
  | notSequence => "tuple_type"
  | notTable => "dict_type"
  | notRecord => "model_type"
  | notMoment => "datetime_type"
  | notMomentText => "datetime_from_date_parsing"
  | outsideCalendar => "datetime_parsing"
  | notChoice => "enum"
  | tooSmall => "greater_than_equal"
  | notAbove => "greater_than"

end Wrong

/-- A fault with the way to it: names of fields and positions in lists. -/
structure Fault where
  path : List Text
  wrong : Wrong
  deriving DecidableEq

/-- A value, or the faults that keep it from being one. -/
inductive Checked (α : Type) where
  | ok (value : α)
  | bad (faults : List Fault)

namespace Checked

variable {α β : Type}

/-- Applies a function to a value, or collects the faults of both. -/
def apply (f : Checked (α → β)) (x : Checked α) : Checked β :=
  match f, x with
  | ok f, ok a => ok (f a)
  | ok _, bad later => bad later
  | bad first, ok _ => bad first
  | bad first, bad later => bad (first ++ later)

instance : Applicative Checked where
  pure := ok
  seq f x := f.apply (x ())

/-- The faults moved below a field or a position. -/
def below (step : Text) : Checked α → Checked α
  | ok a => ok a
  | bad faults => bad (faults.map fun f => { f with path := step :: f.path })

/-- The value, when it has a property. -/
def filter (p : α → Bool) (wrong : Wrong) : Checked α → Checked α
  | ok a => if p a then ok a else bad [⟨[], wrong⟩]
  | bad faults => bad faults

def toExcept : Checked α → Except (List Fault) α
  | ok a => .ok a
  | bad faults => .error faults

end Checked

/-- A way to read a value. -/
abbrev Reader (α : Type) := Json → Checked α

variable {α β : Type}

def wrong (w : Wrong) : Checked α := .bad [⟨[], w⟩]

/-! ### Plain values -/

def text : Reader Text
  | .str t => .ok t
  | _ => wrong .notText

/-! ### Numbers -/

/-- A text without its underscores, when it has some and they stand alone between other
characters. -/
def withoutUnderscores? (t : Text) : Option Text :=
  if t.elem '_' && t.head? ≠ some '_' && t.getLast? ≠ some '_' && !Text.contains t "__" then
    some (t.filter (· != '_'))
  else none

/-- What is left of a numeral that begins with a zero: the digits behind the zeros, of which the
last stays before a point and at the end.  Underscores may stand among the zeros, and a minus
behind them. -/
def dropZeros? (last : Char) : Text → Option Text
  | [] => some [last]
  | c :: rest =>
    if c = '0' ∨ c = '_' then dropZeros? c rest
    else if c = '.' then some (last :: c :: rest)
    else if c.isDigit ∨ c = '-' then some (c :: rest)
    else none

/-- A numeral that begins with a digit, without zeros in front of it. -/
def unpadded? : Text → Option Text
  | '0' :: rest => dropZeros? '0' rest
  | c :: rest => if c.isDigit then some (c :: rest) else none
  | [] => none

/-- A numeral without a plus or zeros in front of it; the zeros behind a minus are left out too. -/
def unsigned? : Text → Option Text
  | '+' :: rest => unpadded? rest
  | '-' :: rest => (unpadded? rest).map fun t => '-' :: t
  | t => unpadded? t

/-- A numeral without a point that only zeros follow, at least one. -/
def dropPlaces (t : Text) : Text :=
  let whole := t.takeWhile (· != '.')
  let places := t.drop (whole.length + 1)
  if !places.isEmpty && places.all (· == '0') then whole else t

/-- A whole numeral without a plus, without zeros in front of it and behind a point, and without
underscores. -/
def bareNumeral? (t : Text) : Option Text :=
  (unsigned? (Text.trimSpaces t)).map fun numeral =>
    (withoutUnderscores? (dropPlaces numeral)).getD (dropPlaces numeral)

/-- The digits of a numeral, behind a minus or not. -/
def digitsOf (t : Text) : Text := if t.head? = some '-' then t.drop 1 else t

/-- Whether a text begins with a numeral of more characters than are read, no zero in front. -/
def beginsTooLong (t : Text) : Bool :=
  let digits := digitsOf t
  digits.head? ≠ some '0' &&
    DigitLimit.limit < t.length - (digits.dropWhile (·.isDigit)).length

/-- The number of a numeral that is all digits, behind a minus or not, with no zero in front of
other digits. -/
def wholeNumeral? (t : Text) : Option Int :=
  let digits := digitsOf t
  if digits.isEmpty || !digits.all (·.isDigit) then none
  else if digits.head? = some '0' && digits.length ≠ 1 || beginsTooLong t then none
  else
    let n : Int := Text.digitsToNat digits
    some (if t.head? = some '-' then -n else n)

/-- The number of a text, which is read as it stands or else as a bare numeral. -/
def wholeText (t : Text) : Checked Int :=
  match wholeNumeral? t with
  | some n => .ok n
  | none =>
    if beginsTooLong t then wrong .tooLong
    else
      match (bareNumeral? t).bind wholeNumeral? with
      | some n => .ok n
      | none => wrong .notWholeNumeral

/-- A floating-point value as a whole number, when it is one of 64 binary places. -/
def wholeValue (x : Extended) : Checked Int :=
  match x with
  | .infinite _ | .undefined => wrong .notFinite
  | x =>
    if x.value.den ≠ 1 then wrong .fractional
    else if Nat.pow 2 63 ≤ x.value.num.natAbs then wrong .tooLong
    else .ok x.value.num

def whole : Reader Int
  | .int n => .ok n
  | .bool b => .ok (if b then 1 else 0)
  | .real x => wholeValue x
  | .str t => wholeText t
  | _ => wrong .notWhole

/-- A numeral in plain characters without underscores. -/
def plainNumeral? (t : Text) : Option Extended :=
  if t.all (fun c => c.toNat < 0x80 && c != '_') then readUnspaced? t else none

/-- A numeral with spaces around it, or with underscores in it. -/
def realNumeral? (t : Text) : Option Extended :=
  match plainNumeral? (Text.trimSpaces t) with
  | some x => some x
  | none => (withoutUnderscores? t).bind plainNumeral?

def real : Reader Extended
  | .int n =>
    match Extended.ofInt n with
    | .ok x => .ok x
    | .error _ => wrong .notReal
  | .bool b => .ok (Binary64.ofNat (if b then 1 else 0))
  | .real x => .ok x
  | .str t =>
    match realNumeral? t with
    | some x => .ok x
    | none => wrong .notNumeral
  | _ => wrong .notReal

/-! ### Truth values and choices -/

/-- The words for yes, in lower case. -/
def yesWords : List Text := ["1", "on", "t", "true", "y", "yes"]

/-- The words for no, in lower case. -/
def noWords : List Text := ["0", "off", "f", "false", "n", "no"]

/-- A truth value by its word in letters of either case. -/
def truthWord (t : Text) : Checked Bool :=
  let word := t.map Char.toLower
  if yesWords.elem word then .ok true
  else if noWords.elem word then .ok false
  else wrong .notTruthWord

/-- A truth value by its number, which has to have 64 binary places. -/
def truthNumber (n : Int) : Checked Bool :=
  if n = 0 then .ok false
  else if n = 1 then .ok true
  else if -Nat.pow 2 63 ≤ n ∧ n < Nat.pow 2 63 then wrong .notTruthWord
  else wrong .notTruth

def truth : Reader Bool
  | .bool b => .ok b
  | .str t => truthWord t
  | .int n => truthNumber n
  | .real x =>
    match wholeValue x with
    | .ok n => truthNumber n
    | .bad _ => wrong .notTruth
  | _ => wrong .notTruth

/-- One of some values, by its name. -/
def choice (all : List α) (name : α → Text) : Reader α
  | .str t =>
    match all.find? fun a => name a = t with
    | some a => .ok a
    | none => wrong .notChoice
  | _ => wrong .notChoice

/-- Nothing for null. -/
def nullable (read : Reader α) : Reader (Option α)
  | .null => .ok none
  | v => some <$> read v

/-! ### Values with parts -/

/-- Items in order, the first of which has the position `index`. -/
def itemsFrom (read : Reader α) : Nat → List Json → Checked (List α)
  | _, [] => .ok []
  | index, v :: rest =>
    List.cons <$> (read v).below (Text.ofNat index) <*> itemsFrom read (index + 1) rest

def listOf (read : Reader α) : Reader (List α)
  | .arr items => itemsFrom read 0 items
  | _ => wrong .notList

def sequenceOf (read : Reader α) : Reader (List α)
  | .arr items => itemsFrom read 0 items
  | _ => wrong .notSequence

/-- The members of an object. -/
abbrev Members := List (Text × Json)

/-- The members with what they stand for, in order. -/
def entries (read : Reader α) : Members → Checked (List (Text × α))
  | [] => .ok []
  | (key, v) :: rest =>
    (fun a tail => (key, a) :: tail) <$> (read v).below key <*> entries read rest

/-- A table; of two members with one key the later counts. -/
def tableOf (read : Reader α) : Reader (Table Text α)
  | .obj members => Table.ofPairs <$> entries read members
  | _ => wrong .notTable

def recordOf (read : Members → Checked α) : Reader α
  | .obj members => read members
  | _ => wrong .notRecord

/-! ### Fields -/

/-- A name of several words joined by underscores instead of capitals. -/
def snakeName (key : Text) : Text :=
  key.flatMap fun c => if c.isUpper then ['_', c.toLower] else [c]

/-- The member of a field, which may have its name in either spelling. -/
def member? (key : Text) (members : Members) : Option (Text × Json) :=
  match members.reverse.lookup key with
  | some v => some (key, v)
  | none => (members.reverse.lookup (snakeName key)).map fun v => (snakeName key, v)

/-- A field that has to be there. -/
def required (key : Text) (read : Reader α) (members : Members) : Checked α :=
  match member? key members with
  | some (name, v) => (read v).below name
  | none => .bad [⟨[key], .absent⟩]

/-- A field with a value of its own when it is not there. -/
def defaulted (key : Text) (read : Reader α) (other : α) (members : Members) : Checked α :=
  match member? key members with
  | some (name, v) => (read v).below name
  | none => .ok other

end SuiteAudit.Payload
