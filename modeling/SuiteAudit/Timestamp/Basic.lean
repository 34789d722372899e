import SuiteAudit.Timestamp.Calendar

/-! # Moments in time

A moment is kept as it is written: a date, a time with microseconds, and the distance from universal
time where it is known.  Reports for people write universal time as `+00:00`, payloads as `Z`.
-/

namespace SuiteAudit

structure Timestamp where
  year : Nat
  month : Nat
  day : Nat
  hour : Nat := 0
  minute : Nat := 0
  second : Nat := 0
  micro : Nat := 0
  /-- Microseconds east of universal time. -/
  offset? : Option Int := none
  deriving DecidableEq

namespace Timestamp

/-- The microseconds of a second. -/
def microsPerSecond : Nat := 1000000

/-- The seconds of a day. -/
def secondsPerDay : Nat := 86400

/-! ### Writing -/

def two (n : Nat) : Text := Text.padZero 2 (Text.ofNat n)

/-- Microseconds behind a point, if there are any. -/
def fractionText (micro : Nat) : Text :=
  if micro = 0 then [] else "." ++ Text.padZero 6 (Text.ofNat micro)

/-- The date and the time, with microseconds if there are any. -/
def localText (t : Timestamp) : Text :=
  Text.padZero 4 (Text.ofNat t.year) ++ "-" ++ two t.month ++ "-" ++ two t.day ++ "T" ++
    two t.hour ++ ":" ++ two t.minute ++ ":" ++ two t.second ++ fractionText t.micro

def signText (n : Int) : Text := if n < 0 then "-" else "+"

/-- Hours and minutes. -/
def minutesText (seconds : Nat) : Text := two (seconds / 3600) ++ ":" ++ two (seconds / 60 % 60)

/-- A distance from universal time, with seconds and microseconds if there are any. -/
def offsetText (micros : Int) : Text :=
  let seconds := micros.natAbs / microsPerSecond
  let micro := micros.natAbs % microsPerSecond
  let rest : Text :=
    if seconds % 60 = 0 ∧ micro = 0 then [] else ":" ++ two (seconds % 60) ++ fractionText micro
  signText micros ++ minutesText seconds ++ rest

/-- A moment as reports write it. -/
def text (t : Timestamp) : Text := t.localText ++ ((t.offset?.map offsetText).getD [])

/-- A distance from universal time as payloads write it: rounded to seconds, and the seconds beyond
the minutes left out. -/
def payloadOffsetText (micros : Int) : Text :=
  let seconds := (2 * micros.natAbs + microsPerSecond) / (2 * microsPerSecond)
  if seconds = 0 then "Z" else signText micros ++ minutesText seconds

/-- A moment as payloads write it. -/
def payloadText (t : Timestamp) : Text :=
  t.localText ++ ((t.offset?.map payloadOffsetText).getD [])

/-! ### Reading digits -/

/-- A number of `count` digits at the start of a text. -/
def takeNumber? (count : Nat) (t : Text) : Option (Nat × Text) :=
  let digits := t.take count
  if digits.length = count ∧ digits.all (·.isDigit) then
    some (digits.foldl (fun n c => 10 * n + (c.toNat - 0x30)) 0, t.drop count)
  else none

end Timestamp
end SuiteAudit
