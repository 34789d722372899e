import SuiteAudit.Payload.Display

/-! # Templates of messages

A message may have places for values: a percent sign, perhaps a key in parentheses, flags, a width,
a number of decimal places and a letter.  `s`, `r` and `a` show any value, `c` a character; `d`,
`o` and `x` show whole numbers, `f`, `e` and `g` numbers with a point; two percent signs are one.
A star takes the width or the number of places from the values.  Values are taken in order, or by
their keys from a record.
-/

namespace SuiteAudit

/-- What is wrong with a template and its values. -/
inductive TemplateError where
  | tooFewValues
  | tooManyValues
  | incomplete
  | incompleteKey
  | notRecord
  /-- A key was to be looked up in a list. -/
  | keyInList
  | absentKey (key : Text)
  | notReal (typeName : Text)
  | notNumber (letter : Char) (typeName : Text)
  | notWhole (letter : Char) (typeName : Text)
  | notCharacter
  | noSuchCharacter
  | unknownLetter (letter : Char) (index : Nat)
  | starNotWhole
  | starTooLarge (kind : Text)
  | widthTooBig
  | placesTooBig
  /-- A whole number would have too many digits. -/
  | digitsTooMany
  | number (fault : NumberFault)
  deriving DecidableEq

namespace TemplateError

def message : TemplateError → Text
  | tooFewValues => "not enough arguments for format string"
  | tooManyValues => "not all arguments converted during string formatting"
  | incomplete => "incomplete format"
  | incompleteKey => "incomplete format key"
  | notRecord => "format requires a mapping"
  | keyInList => "list indices must be integers or slices, not str"
  | absentKey key => Text.quoted key
  | notReal typeName => "must be real number, not " ++ typeName
  | notNumber letter typeName =>
    ['%', letter] ++ " format: a real number is required, not " ++ typeName
  | notWhole letter typeName =>
    ['%', letter] ++ " format: an integer is required, not " ++ typeName
  | notCharacter => "%c requires int or char"
  | noSuchCharacter => "%c arg not in range(0x110000)"
  | unknownLetter letter index =>
    let shown := if 31 ≤ letter.toNat ∧ letter.toNat ≤ 126 then letter else '?'
    "unsupported format character '" ++ [shown] ++ "' (0x" ++ Nat.toDigits 16 letter.toNat ++
      ") at index " ++ Text.ofNat index
  | starNotWhole => "* wants int"
  | starTooLarge kind => "Python int too large to convert to C " ++ kind
  | widthTooBig => "width too big"
  | placesTooBig => "precision too big"
  | digitsTooMany => "precision too large"
  | number fault => fault.message

end TemplateError

namespace Template

/-! ### Slots -/

/-- A place for a value. -/
structure Slot where
  flags : Text
  width : Nat
  places? : Option Nat
  letter : Char

/-- Whether a slot has a flag. -/
def Slot.has (s : Slot) (flag : Char) : Bool := s.flags.elem flag

/-- A numeral with its sign and what stands before its digits, filled up to the width of a slot. -/
def fitNumber (s : Slot) (negative : Bool) (mark digits : Text) : Text :=
  let sign : Text :=
    if negative then ['-'] else if s.has '+' then ['+'] else if s.has ' ' then [' '] else []
  let room := s.width - (sign.length + mark.length + digits.length)
  if s.has '-' then sign ++ mark ++ digits ++ List.replicate room ' '
  else if s.has '0' then sign ++ mark ++ List.replicate room '0' ++ digits
  else List.replicate room ' ' ++ sign ++ mark ++ digits

/-- A text filled up to the width of a slot. -/
def fitText (s : Slot) (t : Text) : Text :=
  let room := List.replicate (s.width - t.length) ' '
  if s.has '-' then t ++ room else room ++ t

/-- A text cut to the places of a slot and filled up to its width. -/
def fitCut (s : Slot) (t : Text) : Text :=
  fitText s ((s.places?.map fun n => t.take n).getD t)

/-! ### Numbers -/

/-- The whole number in a value that is one. -/
def whole? : Json → Option Int
  | .int n => some n
  | .bool b => some (if b then 1 else 0)
  | _ => none

/-- A floating-point value without the places behind its point. -/
def wholePart : Extended → Except NumberFault Int
  | .infinite _ => .error .infinite
  | .undefined => .error .undefined
  | x => .ok (if x.value < 0 then -(-x.value).floor else x.value.floor)

/-- The floating-point value in a value that is a number. -/
def number? : Json → Option (Except NumberFault Extended)
  | .real x => some (.ok x)
  | v => (whole? v).map fun n => (Extended.ofInt n).map Extended.finite

/-- How many digits may be asked for in a whole number. -/
def digitsLimit : Nat := Nat.pow 2 31 - 4

/-- The numeral of a whole number to a base, with a mark in front that the flag `#` asks for. -/
def fitWhole (s : Slot) (base : Nat) (mark : Text) (n : Int) : Except TemplateError Text :=
  let places := s.places?.getD 1
  if digitsLimit < places then .error .digitsTooMany
  else .ok (fitNumber s (n < 0) (if s.has '#' then mark else [])
    (Text.padZero places (Nat.toDigits base n.natAbs)))

/-- A point behind whole digits, when it is asked for. -/
def pointIf (asked : Bool) : Text := if asked then ['.'] else []

/-- A number with a given number of places. -/
def fixedText (places : Nat) (keep : Bool) (x : Binary64) : Text :=
  Binary64.fixed places x ++ pointIf (keep && places = 0)

/-- The digits of a decimal with a point behind the first, and an exponent. -/
def powerText (places : Nat) (keep : Bool) (digits : Text) (lead : Int) : Text :=
  let fraction : Text := if places = 0 then pointIf keep else '.' :: digits.drop 1
  digits.take 1 ++ fraction ++ Decimal.exponentText lead

/-- A number with an exponent and a given number of places before it. -/
def scientificText (places : Nat) (keep : Bool) (x : Binary64) : Text :=
  let d := Decimal.rounded (places + 1) x.value
  powerText places keep (Text.padZero (places + 1) (Text.ofNat d.digits)) (d.exponent + places)

/-- A numeral without zeros at the end of its places. -/
def trimPlaces (t : Text) : Text :=
  if t.elem '.' then Text.trimEndWhile (· == '.') (Text.trimEndWhile (· == '0') t) else t

/-- No finite number has more digits than these. -/
def mostDigits : Nat := 1100

/-- A number with a given number of digits, and with an exponent when that is shorter. -/
def generalText (places : Nat) (keep : Bool) (x : Binary64) : Text :=
  let count := if keep then max places 1 else min (max places 1) mostDigits
  let d := Decimal.rounded count x.value
  let lead : Int := d.exponent + count - 1
  if lead < -4 ∨ (count : Int) ≤ lead then
    let digits := Text.padZero count (Text.ofNat d.digits)
    let shown :=
      if keep then digits else digits.take 1 ++ Text.trimEndWhile (· == '0') (digits.drop 1)
    powerText (shown.length - 1) keep shown lead
  else if d.exponent = 0 then Text.ofNat d.digits ++ pointIf keep
  else
    let shown := Decimal.pointed (-d.exponent).toNat (Text.ofNat d.digits)
    if keep then shown else trimPlaces shown

/-! ### Filling slots -/

/-- A character by a value: a code point, or a text that is one character. -/
def character (v : Json) : Except TemplateError Text :=
  match v, whole? v with
  | .str [c], _ => .ok [c]
  | _, some n =>
    if 0 ≤ n ∧ n < 0x110000 then .ok [Char.ofNat n.toNat] else .error .noSuchCharacter
  | _, none => .error .notCharacter

/-- A whole number to a base in a slot. -/
def fillWhole (s : Slot) (base : Nat) (mark : Text) (v : Json) : Except TemplateError Text :=
  match whole? v with
  | some n => fitWhole s base mark n
  | none => .error (.notWhole s.letter v.typeName)

/-- The digits of a value in one of the ways to write them, or a word for what has no digits. -/
def realText (s : Slot) (text : Nat → Bool → Binary64 → Text) : Extended → Text
  | .infinite _ => "inf"
  | .undefined => "nan"
  | x => text (s.places?.getD 6) (s.has '#') ⟨x.value.abs⟩

/-- A number in a slot, in one of the ways to write it. -/
def fillReal (s : Slot) (text : Nat → Bool → Binary64 → Text) (v : Json) :
    Except TemplateError Text :=
  match number? v with
  | some (.ok x) => .ok (fitNumber s x.isNegative [] (realText s text x))
  | some (.error fault) => .error (.number fault)
  | none => .error (.notReal v.typeName)

/-- A number in a slot without the places behind its point. -/
def fillDecimal (s : Slot) (v : Json) : Except TemplateError Text :=
  match v, whole? v with
  | .real x, _ =>
    match wholePart x with
    | .ok n => fitWhole s 10 [] n
    | .error fault => .error (.number fault)
  | _, some n => fitWhole s 10 [] n
  | _, none => .error (.notNumber s.letter v.typeName)

/-- A value in a slot. -/
def fill (s : Slot) (index : Nat) (v : Json) : Except TemplateError Text :=
  match s.letter with
  | 's' => .ok (fitCut s v.displayBare)
  | 'r' => .ok (fitCut s v.display)
  | 'a' => .ok (fitCut s (Text.asciiOnly v.display))
  | 'c' => (character v).map (fitText s)
  | 'd' | 'i' | 'u' => fillDecimal s v
  | 'o' => fillWhole s 8 "0o" v
  | 'x' => fillWhole s 16 "0x" v
  | 'X' => (fillWhole s 16 "0x" v).map (·.map Char.toUpper)
  | 'f' => fillReal s fixedText v
  | 'e' => fillReal s scientificText v
  | 'g' => fillReal s generalText v
  | 'F' => (fillReal s fixedText v).map (·.map Char.toUpper)
  | 'E' => (fillReal s scientificText v).map (·.map Char.toUpper)
  | 'G' => (fillReal s generalText v).map (·.map Char.toUpper)
  | letter => .error (.unknownLetter letter index)

/-! ### Supplies -/

/-- What keys are looked up in. -/
inductive Store where
  | record (members : List (Text × Json))
  /-- A list, in which no key is found. -/
  | list

/-- The values for a template: those that are left, and what keys are looked up in. -/
structure Supply where
  values : List Json
  store? : Option Store := none

namespace Supply

/-- The supply of some values; a record alone is looked into. -/
def ofValues : List Json → Supply
  | [.obj (m :: members)] => ⟨[.obj (m :: members)], some (.record (m :: members))⟩
  | values => ⟨values, none⟩

/-- The supply of a single value; what has parts may be left over. -/
def ofValue (v : Json) : Supply :=
  match v with
  | .obj members => ⟨[v], some (.record members)⟩
  | .arr _ => ⟨[v], some .list⟩
  | v => ⟨[v], none⟩

/-- Whether nothing is left over. -/
def isSpent (s : Supply) : Bool := s.values.isEmpty || s.store?.isSome

/-- The supply in which the value of a key is next. -/
def select (s : Supply) (key : Text) : Except TemplateError Supply :=
  match s.store? with
  | none => .error .notRecord
  | some .list => .error .keyInList
  | some (.record members) =>
    match members.reverse.lookup key with
    | some v => .ok { s with values := [v] }
    | none => .error (.absentKey key)

/-- The next value, and the supply without it. -/
def next (s : Supply) : Except TemplateError (Json × Supply) :=
  match s.values with
  | [] => .error .tooFewValues
  | v :: values => .ok (v, { s with values := values })

end Supply

/-! ### Reading slots -/

/-- Decimal digits at the start of a text as a number, and the rest. -/
def takeNumber (t : Text) : Nat × Text :=
  (Text.digitsToNat (t.takeWhile (·.isDigit)), t.dropWhile (·.isDigit))

/-- The key at the start of a text up to its closing parenthesis, with `depth` parentheses open, and
the rest. -/
def takeKey? : Nat → Text → Option (Text × Text)
  | _, [] => none
  | depth, c :: rest =>
    if c = ')' ∧ depth = 0 then some ([], rest)
    else
      let depth := if c = '(' then depth + 1 else if c = ')' then depth - 1 else depth
      (takeKey? depth rest).map fun p => (c :: p.1, p.2)

/-- The supply after the key at the start of a text, if there is one, and the rest. -/
def takeKey (supply : Supply) : Text → Except TemplateError (Supply × Text)
  | '(' :: rest =>
    match supply.store?, takeKey? 0 rest with
    | none, _ => .error .notRecord
    | _, none => .error .incompleteKey
    | _, some (key, rest) => do return (← supply.select key, rest)
  | rest => .ok (supply, rest)

/-- The number that a star takes from the values, which has to be below a power of two. -/
def takeStar (places : Nat) (kind : Text) (supply : Supply) :
    Except TemplateError (Int × Supply) := do
  let (v, supply) ← supply.next
  match whole? v with
  | none => throw .starNotWhole
  | some n =>
    if -Nat.pow 2 places ≤ n ∧ n < Nat.pow 2 places then return (n, supply)
    throw (.starTooLarge kind)

/-- The width at the start of a text, and the rest; it is below zero for a text that is moved to the
left. -/
def takeWidth (supply : Supply) : Text → Except TemplateError (Int × Supply × Text)
  | '*' :: rest => do
    let (n, supply) ← takeStar 63 "ssize_t" supply
    return (n, supply, rest)
  | t =>
    let (n, rest) := takeNumber t
    if n < Nat.pow 2 63 then .ok (n, supply, rest) else .error .widthTooBig

/-- The number of places at the start of a text, and the rest. -/
def takePlaces (supply : Supply) : Text → Except TemplateError (Option Nat × Supply × Text)
  | '.' :: '*' :: rest => do
    let (n, supply) ← takeStar 31 "int" supply
    return (some n.toNat, supply, rest)
  | '.' :: rest =>
    let (n, rest) := takeNumber rest
    if n < Nat.pow 2 31 then .ok (some n, supply, rest) else .error .placesTooBig
  | t => .ok (none, supply, t)

/-- The slot at the start of a text, and the rest; the least width has no opposite and is none. -/
def takeSlot (supply : Supply) (t : Text) : Except TemplateError (Slot × Supply × Text) := do
  let isFlag (c : Char) : Bool := "-+ 0#".toList.elem c
  let flags := t.takeWhile isFlag
  let (width, supply, rest) ← takeWidth supply (t.dropWhile isFlag)
  let (places?, supply, rest) ← takePlaces supply rest
  let rest := match rest with
    | c :: more => if c = 'h' ∨ c = 'l' ∨ c = 'L' then more else c :: more
    | [] => []
  match rest with
  | [] => throw .incomplete
  | letter :: rest =>
    let room := if width = -Nat.pow 2 63 then 0 else width.natAbs
    return (⟨if width < 0 then '-' :: flags else flags, room, places?, letter⟩, supply, rest)

/-! ### Expansion -/

/-- What is left of a template from an offset on with values in its places; `fuel` bounds the
number of its characters. -/
def expandFrom (fuel offset : Nat) (template : Text) (supply : Supply) :
    Except TemplateError Text :=
  match fuel, template with
  | 0, _ | _, [] => if supply.isSpent then .ok [] else .error .tooManyValues
  | fuel + 1, '%' :: '%' :: rest => do return '%' :: (← expandFrom fuel (offset + 2) rest supply)
  | fuel + 1, '%' :: rest => do
    let (supply, start) ← takeKey supply rest
    let (slot, supply, after) ← takeSlot supply start
    let next := offset + 1 + (rest.length - after.length)
    let (v, supply) ← supply.next
    let shown ← fill slot (next - 1) v
    return shown ++ (← expandFrom fuel next after supply)
  | fuel + 1, c :: rest => do return c :: (← expandFrom fuel (offset + 1) rest supply)

/-- A template with values in its places. -/
def expand (template : Text) (supply : Supply) : Except TemplateError Text :=
  expandFrom template.length 0 template supply

end Template
end SuiteAudit
