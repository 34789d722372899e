import SuiteAudit.Payload.Reader
import SuiteAudit.Timestamp.Basic

/-! # Moments in payloads

A payload gives a moment as a date with a time in the RFC 3339 form, as a date alone, or as the
number of seconds since the start of 1970 in universal time; a number that is too large for seconds
counts milliseconds.
-/

namespace SuiteAudit

namespace Timestamp

/-! ### Seconds since 1970 -/

/-- The day number of the first of January 1970. -/
def epochDay : Int := Date.dayNumber ⟨1970, 1, 1⟩

/-- The moment after a number of microseconds since the start of 1970, from the year 0 to 9999. -/
def ofEpochMicros? (micros : Int) : Option Timestamp :=
  let seconds := micros / microsPerSecond
  let day := epochDay + seconds / secondsPerDay
  let second := (seconds % secondsPerDay).toNat
  if day < Date.dayNumber ⟨0, 1, 1⟩ ∨ Date.dayNumber ⟨9999, 12, 31⟩ < day then none
  else
    let date := Date.ofDayNumber day
    some ⟨date.year, date.month, date.day, second / 3600, second / 60 % 60, second % 60,
      (micros % microsPerSecond).toNat, some 0⟩

/-- A number that is further from zero counts milliseconds. -/
def secondsLimit : Nat := 20000000000

/-- The microseconds of what a number counts: a second, or a millisecond. -/
def unitMicros (count : Rat) : Nat := if count.abs ≤ secondsLimit then microsPerSecond else 1000

/-- The moment of a whole number of seconds or milliseconds. -/
def ofCount? (count : Int) : Option Timestamp := ofEpochMicros? (count * unitMicros count)

/-- The whole number below a value that is not negative, or above it from one half on. -/
def halfUp (x : Extended) : Nat := (x.value + 1 / 2).floor.toNat

/-- The moment of a number of units of some microseconds: the whole number below it and the
microseconds that are nearest to the rest. -/
def ofUnits? (unit : Nat) (x : Extended) : Option Timestamp :=
  match x with
  | .infinite _ | .undefined => none
  | x =>
    let below := x.value.floor
    let beside := Extended.ofRat (x.value - below)
    ofEpochMicros? (below * unit + halfUp (Extended.ofRat (beside.value * unit)))

/-- The moment of a number of seconds or milliseconds with a fraction. -/
def ofValue? (x : Extended) : Option Timestamp := ofUnits? (unitMicros x.value) x

/-- The moment of a numeral of seconds or milliseconds with a fraction; milliseconds are turned into
seconds first. -/
def ofNumeral? (x : Extended) : Option Timestamp :=
  ofUnits? microsPerSecond (if x.value.abs ≤ secondsLimit then x else x.divide 1000)

/-! ### Texts -/

/-- A date with hyphens, and what follows it. -/
def takeDate? (t : Text) : Option (Date × Text) := do
  let (year, rest) ← takeNumber? 4 t
  let (month, rest) ← takeNumber? 2 (← takeMark? '-' rest)
  let (day, rest) ← takeNumber? 2 (← takeMark? '-' rest)
  let length := if month = 0 then 0 else (Date.monthLengths year).getD (month - 1) 0
  if day < 1 ∨ length < day then none else some (⟨year, month, day⟩, rest)
where
  takeMark? (mark : Char) (t : Text) : Option Text :=
    if t.head? = some mark then some (t.drop 1) else none

/-- A number of two digits below a limit. -/
def takeBelow? (limit : Nat) (t : Text) : Option (Nat × Text) :=
  (takeNumber? 2 t).filter fun p => p.1 < limit

/-- The microseconds behind a point or a comma, of which six digits count. -/
def takeMicros? (t : Text) : Option (Nat × Text) :=
  let digits := t.takeWhile (·.isDigit)
  if digits.isEmpty then none
  else (takeNumber? 6 ((digits ++ List.replicate 6 '0').take 6)).map fun p =>
    (p.1, t.drop digits.length)

/-- The seconds of a time with their fraction, which may be left out. -/
def takeSeconds? : Text → Option (Nat × Nat × Text)
  | ':' :: rest => do
    let (second, rest) ← takeBelow? 60 rest
    match rest with
    | c :: more =>
      if c = '.' ∨ c = ',' then
        let (micro, more) ← takeMicros? more
        some (second, micro, more)
      else some (second, 0, rest)
    | [] => some (second, 0, [])
  | rest => some (0, 0, rest)

/-- The microseconds of a distance from universal time that is all of a text. -/
def distance? (t : Text) : Option Int := do
  let (hours, rest) ← takeNumber? 2 t
  let (minutes, rest) ← takeBelow? 60 (Text.dropStart [':'] rest)
  if rest.isEmpty ∧ hours < 24 then some ((hours * 3600 + minutes * 60) * microsPerSecond) else none

/-- The distance from universal time that a text is; the outer option is for a text that is none. -/
def zone? : Text → Option (Option Int)
  | [] => some none
  | c :: rest =>
    if c = 'Z' ∨ c = 'z' then if rest.isEmpty then some (some 0) else none
    else if c = '+' then (distance? rest).map some
    else if c = '-' ∨ c.toNat = 0x2212 then (distance? rest).map fun n => some (-n)
    else none

/-- A date and a time of day behind a mark. -/
def readDateTime? (t : Text) : Option Timestamp := do
  let (date, rest) ← takeDate? t
  let mark ← rest.head?
  if !(Text.contains "Tt _" [mark]) then none
  let (hour, rest) ← takeBelow? 24 (rest.drop 1)
  if rest.head? ≠ some ':' then none
  let (minute, rest) ← takeBelow? 60 (rest.drop 1)
  let (second, micro, rest) ← takeSeconds? rest
  some ⟨date.year, date.month, date.day, hour, minute, second, micro, ← zone? rest⟩

/-- A date alone, at its start. -/
def readDay? (t : Text) : Option Timestamp :=
  match takeDate? t with
  | some (d, []) => some { year := d.year, month := d.month, day := d.day }
  | _ => none

/-- A number of seconds or milliseconds: digits, or digits with a point behind some of them, which a
power of ten may follow. -/
def readCount? (t : Text) : Option Timestamp :=
  let (negative, numeral) := cutSign t
  match numeral.dropWhile (·.isDigit) with
  | '.' :: _ => (Payload.plainNumeral? t).bind ofNumeral?
  | _ :: _ => none
  | [] =>
    if numeral.isEmpty then none
    else
      let n : Int := Text.digitsToNat numeral
      ofCount? (if negative then -n else n)

/-- The moment that a text gives. -/
def ofPayloadText? (t : Text) : Option Timestamp :=
  readDateTime? t <|> readCount? t <|> readDay? t

end Timestamp

namespace Payload

/-- A moment, or what is wrong in its place; the year 0 is outside the calendar of reports. -/
def found (w : Wrong) : Option Timestamp → Checked Timestamp
  | none => wrong w
  | some t => if t.year = 0 then wrong .outsideCalendar else .ok t

def moment : Reader Timestamp
  | .str t => found .notMomentText (Timestamp.ofPayloadText? t)
  | .int n =>
    match Extended.ofInt n with
    | .ok _ => found .outsideCalendar (Timestamp.ofCount? n)
    | .error _ => wrong .notMoment
  | .real x => found .outsideCalendar (Timestamp.ofValue? x)
  | _ => wrong .notMoment

end Payload
end SuiteAudit
