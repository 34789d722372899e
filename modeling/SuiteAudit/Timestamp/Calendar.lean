import SuiteAudit.Text.Basic

/-! # The calendar

Dates of the Gregorian calendar, carried on to the years before its reform, and the number of every
day: `Date.dayNumber` counts from the first of January of the year 1, and `Date.ofDayNumber` finds
the date of a number.  `Date.ofWeek?` is the date of a day in a numbered week.
-/

namespace SuiteAudit

structure Date where
  year : Nat
  month : Nat
  day : Nat
  deriving DecidableEq, Repr

namespace Date

def isLeap (year : Nat) : Bool := year % 4 = 0 && (year % 100 ≠ 0 || year % 400 = 0)

/-- The lengths of the months of a year. -/
def monthLengths (year : Nat) : List Nat :=
  [31, if isLeap year then 29 else 28, 31, 30, 31, 30, 31, 31, 30, 31, 30, 31]

/-- The number of days before a year, counted from the year 1. -/
def daysBefore (year : Int) : Int :=
  365 * (year - 1) + (year - 1) / 4 - (year - 1) / 100 + (year - 1) / 400

/-- The number of a day; the first of January of the year 1 is day 1. -/
def dayNumber (d : Date) : Int :=
  let months : Nat := ((monthLengths d.year).take (d.month - 1)).foldr (· + ·) 0
  daysBefore d.year + months + d.day

/-- The month and the day of the `n`th day after the start of the first of some months, which has
the number `month`. -/
def monthDay (month n : Nat) : List Nat → Nat × Nat
  | [] => (month, n + 1)
  | length :: rest => if n < length then (month, n + 1) else monthDay (month + 1) (n - length) rest

/-- The date with a day number. -/
def ofDayNumber (n : Int) : Date :=
  let guess : Int := 400 * (n - 1) / 146097 + 1
  let year : Int :=
    if daysBefore (guess + 1) < n then guess + 1
    else if n ≤ daysBefore guess then guess - 1 else guess
  let (month, day) := monthDay 1 (n - daysBefore year - 1).toNat (monthLengths year.toNat)
  ⟨year.toNat, month, day⟩

/-- The weekday of a day number, from 0 for Monday. -/
def weekday (n : Int) : Int := (n - 1) % 7

/-- The day number of the Monday in the week of the fourth of January, which is week 1. -/
def firstMonday (year : Nat) : Int :=
  let fourth := dayNumber ⟨year, 1, 4⟩
  fourth - weekday fourth

/-- Whether a year has a week 53: it starts on a Thursday, or on a Wednesday before a leap day. -/
def hasLongWeeks (year : Nat) : Bool :=
  let first := weekday (dayNumber ⟨year, 1, 1⟩)
  first = 3 || (first = 2 && isLeap year)

/-- The date of a day in a week, both counted from 1, if there is such a day.  What lies before the
calendar has no month. -/
def ofWeek? (year week day : Nat) : Option Date :=
  if week = 0 ∨ 53 < week ∨ (week = 53 ∧ !hasLongWeeks year) ∨ day = 0 ∨ 7 < day then none
  else
    let n : Int := firstMonday year + 7 * (week - 1 : Nat) + (day - 1 : Nat)
    if n < 1 then some ⟨1, 0, 0⟩ else some (ofDayNumber n)

end Date
end SuiteAudit
