import SuiteAudit.Number.Extended
import SuiteAudit.Text.Blank
import SuiteAudit.Text.WordChar

/-! # Decimal texts of numbers

`shortest` is the fewest decimal digits that read back as the same number, and of those the nearest
to it; `Binary64.text` writes them with a point between `1e-4` and `1e16` and with an exponent
outside.  `fixed` writes a given number of places, a tie going to the even digit.
-/

namespace SuiteAudit

/-- The exponent of the leading decimal place of a positive rational. -/
def decimalExponent (r : Rat) : Int :=
  settleExponent 10 r
    (((Text.ofNat r.num.natAbs).length : Int) - (Text.ofNat r.den).length)

/-- A decimal `digits · 10 ^ exponent`. -/
structure Decimal where
  digits : Nat
  exponent : Int

namespace Decimal

def value (d : Decimal) : Rat := d.digits * ratPow 10 d.exponent

/-- The decimal with `count` digits that reads back as a positive number, if one of the two around
it does: the nearer of them, a tie going to the even digit. -/
def withDigits (x : Binary64) (count : Nat) : Option Decimal :=
  let e := decimalExponent x.value - count + 1
  let below := (x.value / ratPow 10 e).floor.toNat
  let lo : Decimal := ⟨below, e⟩
  let hi : Decimal := ⟨below + 1, e⟩
  let reads (d : Decimal) : Bool := Binary64.nearest d.value = x
  let loFirst : Bool := if below % 2 = 0 then x.value - lo.value ≤ hi.value - x.value
    else x.value - lo.value < hi.value - x.value
  ((if loFirst then [lo, hi] else [hi, lo]).filter reads).head?

/-- The fewest digits that read back as a positive number; 17 always do. -/
def shortest (x : Binary64) : Decimal :=
  ((List.range 17).findSome? fun n => withDigits x (n + 1)).getD ⟨0, 0⟩

/-- Digits without zeros at the end, with the exponent that makes up for them. -/
def stripZeros : Nat → Decimal → Decimal
  | 0, d => d
  | fuel + 1, d =>
    if d.digits ≠ 0 ∧ d.digits % 10 = 0 then stripZeros fuel ⟨d.digits / 10, d.exponent + 1⟩ else d

/-- A numeral with a point `places` digits from its end. -/
def pointed (places : Nat) (digits : Text) : Text :=
  let filled := Text.padZero (places + 1) digits
  filled.take (filled.length - places) ++ "." ++ filled.drop (filled.length - places)

/-- The decimal of `count` digits nearest to a rational that is not negative, a tie going to the
even one. -/
def rounded (count : Nat) (r : Rat) : Decimal :=
  if r = 0 then ⟨0, 1 - count⟩
  else
    let e := decimalExponent r - count + 1
    let n := (roundEven (r / ratPow 10 e)).natAbs
    if n = Nat.pow 10 count then ⟨Nat.pow 10 (count - 1), e + 1⟩ else ⟨n, e⟩

/-- The exponent part of a numeral: a sign and at least two digits. -/
def exponentText (e : Int) : Text :=
  "e" ++ (if e < 0 then ['-'] else ['+']) ++ Text.padZero 2 (Text.ofNat e.natAbs)

/-- A decimal with an exponent when its leading place is below `1e-4` or at `1e16` and above. -/
def text (d : Decimal) : Text :=
  let d := stripZeros 20 d
  let digits := Text.ofNat d.digits
  let lead : Int := d.exponent + digits.length - 1
  if lead < -4 ∨ 16 ≤ lead then
    let mantissa := if digits.length = 1 then digits else digits.take 1 ++ "." ++ digits.drop 1
    mantissa ++ exponentText lead
  else if d.exponent < 0 then pointed (-d.exponent).toNat digits
  else digits ++ List.replicate d.exponent.toNat '0' ++ ".0"

end Decimal

namespace Binary64

/-- The text of a number: the shortest that reads back, always with a point or an exponent. -/
def text (x : Binary64) : Text :=
  if x.value = 0 then "0.0"
  else if x.value < 0 then '-' :: (Decimal.shortest ⟨-x.value⟩).text
  else (Decimal.shortest x).text

/-- The text of a number with exactly `places` decimal places. -/
def fixed (places : Nat) (x : Binary64) : Text :=
  let scaled := roundEven (x.value.abs * ratPow 10 places)
  let digits := Text.ofNat scaled.natAbs
  (if x.value < 0 then ['-'] else []) ++
    (if places = 0 then digits else Decimal.pointed places digits)

end Binary64

/-! ### Reading numerals -/

/-- A numeral with more digits than can be read. -/
structure DigitLimit where
  digits : Nat
  deriving DecidableEq

namespace DigitLimit

/-- The number of digits that a numeral may have. -/
def limit : Nat := 4300

def message (e : DigitLimit) : Text :=
  "Exceeds the limit (" ++ Text.ofNat limit ++
    " digits) for integer string conversion: value has " ++ Text.ofNat e.digits ++
    " digits; use sys.set_int_max_str_digits() to increase the limit"

end DigitLimit

/-- The number that a run of decimal digits stands for, when it is not too long. -/
def readNumeral (digits : Text) : Except DigitLimit Nat :=
  if DigitLimit.limit < digits.length then .error ⟨digits.length⟩
  else .ok (Text.digitsToNat digits)

/-- Decimal digits with single underscores between them, without the underscores. -/
def plainDigits? : Text → Option Text
  | [] => some []
  | [c] => if Text.isDigit c then some [c] else none
  | c :: d :: rest =>
    if !Text.isDigit c then none
    else if d = '_' then
      match rest with
      | [] => none
      | e :: more => if Text.isDigit e then (plainDigits? (e :: more)).map (c :: ·) else none
    else (plainDigits? (d :: rest)).map (c :: ·)
  termination_by t => t.length

/-- A sign in front of a numeral and the numeral. -/
def cutSign : Text → Bool × Text
  | '-' :: rest => (true, rest)
  | '+' :: rest => (false, rest)
  | t => (false, t)

/-- A whole number: a sign, then decimal digits with single underscores between them, with spaces
around; one with too many digits is not read. -/
def readInt? (t : Text) : Option Int :=
  let (negative, body) := cutSign (Text.trimSpaces t)
  match plainDigits? body with
  | none | some [] => none
  | some ds =>
    if DigitLimit.limit < ds.length then none
    else
      let n : Int := Text.digitsToNat ds
      some (if negative then -n else n)

namespace Extended

/-- The text of a value: the shortest that reads back, or a word for what has no digits. -/
def text : Extended → Text
  | finite x => x.text
  | negativeZero => '-' :: Binary64.text .zero
  | infinite negative => (if negative then ['-'] else []) ++ "inf"
  | undefined => "nan"

/-- The text of a value with exactly `places` decimal places. -/
def fixed (places : Nat) : Extended → Text
  | finite x => x.fixed places
  | negativeZero => '-' :: Binary64.fixed places .zero
  | x => x.text

/-- A numeral whose leading decimal place is at this exponent or above is infinite, and one that is
as far below is zero. -/
def exponentLimit : Int := 400

/-- What `digits · 10 ^ exponent` stands for. -/
def ofDigits (negative : Bool) (digits : Text) (exponent : Int) : Extended :=
  let n := Text.digitsToNat digits
  let lead : Int := exponent + (Text.ofNat n).length
  if n = 0 ∨ lead < -exponentLimit then if negative then negativeZero else zero
  else if exponentLimit < lead then infinite negative
  else
    let size : Rat := n * ratPow 10 exponent
    ofRat (if negative then -size else size)

/-- The words for what has no digits, in lower case. -/
def ofWord? (negative : Bool) (word : Text) : Option Extended :=
  if word = "inf".toList ∨ word = "infinity".toList then some (infinite negative)
  else if word = "nan".toList then some undefined
  else none

end Extended

/-- The exponent of a numeral from its mark on; zero without a mark. -/
def readExponent? : Text → Option Int
  | [] => some 0
  | _ :: e =>
    let (minus, ds) := cutSign e
    match plainDigits? ds with
    | none | some [] => none
    | some ds => some (if minus then -(Text.digitsToNat ds : Int) else Text.digitsToNat ds)

/-- A decimal number: a sign, digits with or without a point, and an exponent that may be left out;
or a word for what has no digits. -/
def readUnspaced? (t : Text) : Option Extended :=
  let (negative, body) := cutSign t
  let isMark (c : Char) : Bool := c == 'e' || c == 'E'
  let mantissa := body.takeWhile (!isMark ·)
  let whole := mantissa.takeWhile (· != '.')
  let fraction := (mantissa.dropWhile (· != '.')).drop 1
  match plainDigits? whole, plainDigits? fraction, readExponent? (body.dropWhile (!isMark ·)) with
  | some w, some f, some e =>
    if w.isEmpty && f.isEmpty then none else some (.ofDigits negative (w ++ f) (e - f.length))
  | _, _, _ => Extended.ofWord? negative (body.map Char.toLower)

/-- A decimal number with spaces around it. -/
def readExtended? (t : Text) : Option Extended := readUnspaced? (Text.trimSpaces t)

end SuiteAudit
