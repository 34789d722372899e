import SuiteAudit.Text.Quoted
import SuiteAudit.Text.Utf8
import SuiteAudit.Timestamp.Basic

/-! # Moments in the ISO 8601 form

`Timestamp.read` takes a date, and after any one character a time.  A date is a day of a month or of
a week, with or without hyphens; a time has hours, minutes and seconds, with or without colons, and
a fraction behind a point or a comma of which six digits count.  A distance from universal time may
follow.  What stands between the time and that distance is passed over.
-/

namespace SuiteAudit

/-- Why a text is no moment. -/
inductive TimestampError where
  | malformed (text : Text)
  /-- A distance from universal time, in microseconds, of a day or more. -/
  | offset (micros : Int)
  | year (n : Nat)
  | month
  | day
  | hour
  | minute
  | second
  deriving DecidableEq

namespace TimestampError

/-- A distance in days, seconds and microseconds, without the parts that are zero. -/
def distanceText (micros : Int) : Text :=
  let seconds := micros / Timestamp.microsPerSecond
  let parts : List (Text × Int) :=
    [("days", seconds / Timestamp.secondsPerDay), ("seconds", seconds % Timestamp.secondsPerDay),
      ("microseconds", micros % Timestamp.microsPerSecond)]
  "datetime.timedelta(" ++ Text.join ", " ((parts.filter fun p => p.2 ≠ 0).map fun p =>
    p.1 ++ "=" ++ Text.ofInt p.2) ++ ")"

def message : TimestampError → Text
  | malformed text => "Invalid isoformat string: " ++ Text.quoted text
  | offset micros =>
    "offset must be a timedelta strictly between -timedelta(hours=24) and timedelta(hours=24), " ++
      "not " ++ distanceText micros ++ "."
  | year n => "year " ++ Text.ofNat n ++ " is out of range"
  | month => "month must be in 1..12"
  | day => "day is out of range for month"
  | hour => "hour must be in 0..23"
  | minute => "minute must be in 0..59"
  | second => "second must be in 0..59"

end TimestampError

namespace Timestamp

/-! ### Dates -/

/-- Where the digits end that stand at `start` and behind it. -/
def digitsEnd (start : Nat) (t : Text) : Nat :=
  start + ((t.drop start).takeWhile (·.isDigit)).length

/-- The length of the date in front of a text. -/
def dateLength? (t : Text) : Option Nat :=
  if t.length < 7 then none
  else if t.length = 7 then some 7
  else if t[4]? = some '-' then
    if t[5]? ≠ some 'W' then some 10
    else if t[8]? ≠ some '-' then some 8
    else if t.length = 9 then none
    else if (t[10]?.map (·.isDigit)).getD false then some 8 else some 10
  else if t[4]? = some 'W' then
    let stop := digitsEnd 7 t
    if stop < 9 then some stop else if stop % 2 = 0 then some 7 else some 8
  else some 8

/-- A text behind a hyphen, when there has to be one. -/
def afterHyphen? (dashed : Bool) (t : Text) : Option Text :=
  if !dashed then some t else if t.head? = some '-' then some (t.drop 1) else none

/-- The date of a week and perhaps a day, behind a year; `more` says that there is a day. -/
def readWeek? (year : Nat) (dashed more : Bool) (t : Text) : Option Date := do
  let (week, rest) ← takeNumber? 2 t
  if !more then Date.ofWeek? year week 1
  else
    let (day, _) ← takeNumber? 1 (← afterHyphen? dashed rest)
    Date.ofWeek? year week day

/-- The date in front of a text, which has a length. -/
def readDate? (length : Nat) (t : Text) : Option Date := do
  let (year, rest) ← takeNumber? 4 t
  let dashed : Bool := rest.head? = some '-'
  let rest := if dashed then rest.drop 1 else rest
  if rest.head? = some 'W' then
    readWeek? year dashed ((if dashed then 8 else 7) < length) (rest.drop 1)
  else
    let (month, rest) ← takeNumber? 2 rest
    let (day, _) ← takeNumber? 2 (← afterHyphen? dashed rest)
    some ⟨year, month, day⟩

/-! ### Times -/

/-- The numbers of a time from the hours on, the microseconds, and whether nothing is left over. -/
structure Clock where
  numbers : List Nat
  micro : Nat := 0
  complete : Bool := true

/-- The number at a place; zero if it was left out. -/
def Clock.number (c : Clock) (place : Nat) : Nat := c.numbers.getD place 0

/-- Whether a text ends here, or is cut off here by a null character. -/
def endsHere : Text → Bool
  | [] => true
  | c :: _ => c = '\x00'

/-- The fraction of a second: six digits count, and more are passed over. -/
def readFraction? (t : Text) : Option Clock := do
  let count := min 6 t.length
  let (n, rest) ← takeNumber? count t
  some ⟨[], n * Nat.pow 10 (6 - count), endsHere (rest.dropWhile (·.isDigit))⟩

/-- A time of at most `left` numbers and a fraction; whether colons stand between the numbers is
known from the first one on. -/
def readNumbers? : (left : Nat) → (colons? : Option Bool) → Text → Option Clock
  | 0, _, t => readFraction? t
  | left + 1, colons?, t => do
    let (n, rest) ← takeNumber? 2 t
    let follow (c : Clock) : Clock := { c with numbers := n :: c.numbers }
    match rest with
    | [] => some ⟨[n], 0, true⟩
    | c :: more =>
      let colons := colons?.getD (c = ':')
      if more.isEmpty then some ⟨[n], 0, c = '\x00'⟩
      else if colons && c = ':' then (readNumbers? left (some colons) more).map follow
      else if c = '.' || c = ',' then (readFraction? more).map follow
      else if colons then none
      else (readNumbers? left (some colons) rest).map follow

/-- A time. -/
def readClock? (t : Text) : Option Clock := readNumbers? 3 none t

/-- The microseconds that a distance from universal time stands for; below a second it is none. -/
def Clock.offset (c : Clock) : Int :=
  let seconds := c.number 0 * 3600 + c.number 1 * 60 + c.number 2
  if seconds = 0 then 0 else seconds * microsPerSecond + c.micro

/-- Whether a distance from universal time starts with a character. -/
def startsOffset (c : Char) : Bool := c == '+' || c == '-' || c == 'Z'

/-- The distance from universal time that a text is; the outer option is for a text that is none. -/
def readOffset? : Text → Option (Option Int)
  | [] => some none
  | 'Z' :: rest => if endsHere rest then some (some 0) else none
  | sign :: rest => do
    let c ← readClock? rest
    if c.complete then some (some (if sign = '-' then -c.offset else c.offset)) else none

/-- A time and a distance from universal time. -/
def readTime? (t : Text) : Option (Clock × Option Int) := do
  let c ← readClock? (t.takeWhile fun c => !startsOffset c)
  let offset? ← readOffset? (t.dropWhile fun c => !startsOffset c)
  if offset?.isNone && !c.complete then none else some (c, offset?)

/-! ### Moments -/

/-- The bytes of a text as characters: the length of each part counts bytes. -/
def byteChars (t : Text) : Text := (Utf8.encode t).map fun b => Char.ofNat b.toNat

/-- How many bytes a character has that starts with a byte. -/
def byteCount (first : Char) : Nat :=
  if first.toNat < 0x80 then 1
  else if first.toNat / 16 = 0xE then 3
  else if first.toNat / 16 = 0xF then 4
  else 2

/-- The fields of a moment in bytes, which may be out of range. -/
def readFields? (t : Text) : Option Timestamp := do
  let length ← dateLength? t
  let d ← readDate? length t
  match t.drop length with
  | [] => some { year := d.year, month := d.month, day := d.day }
  | mark :: rest =>
    let (c, offset?) ← readTime? (rest.drop (byteCount mark - 1))
    some ⟨d.year, d.month, d.day, c.number 0, c.number 1, c.number 2, c.micro, offset?⟩

/-- What is out of range in the fields of a moment. -/
def outOfRange? (t : Timestamp) : Option TimestampError :=
  let day := microsPerSecond * secondsPerDay
  let distance := t.offset?.getD 0
  if day ≤ distance.natAbs then some (.offset distance)
  else if t.year < 1 ∨ 9999 < t.year then some (.year t.year)
  else if t.month < 1 ∨ 12 < t.month then some .month
  else if t.day < 1 ∨ ((Date.monthLengths t.year).getD (t.month - 1) 0) < t.day then some .day
  else if 23 < t.hour then some .hour
  else if 59 < t.minute then some .minute
  else if 59 < t.second then some .second
  else none

/-- The moment that a text is. -/
def read (t : Text) : Except TimestampError Timestamp :=
  match readFields? (byteChars t) with
  | none => .error (.malformed t)
  | some time =>
    match time.outOfRange? with
    | some e => .error e
    | none => .ok time

end Timestamp
end SuiteAudit
