import KernelReach.Number.Power

/-!
# The calendar

Dates of the Gregorian calendar, carried on without end in both directions, and the number of days
from the first of January of the year 1 to a date.

* `Date.toDays` counts the days before a date;
* `Date.ofDays` finds the date after a number of days.
-/

namespace KernelReach.Time

/-- A day of the calendar. -/
structure Date where
  year : Int
  /-- From 1 for January. -/
  month : Nat
  /-- From 1. -/
  day : Nat
  deriving DecidableEq, Repr

/-- Whether a year has a 29th of February. -/
def isLeap (year : Int) : Bool :=
  year % 4 == 0 && (year % 100 != 0 || year % 400 == 0)

def monthLengths (leap : Bool) : List Nat :=
  [31, if leap then 29 else 28, 31, 30, 31, 30, 31, 31, 30, 31, 30, 31]

/-- The number of days in a month of a year; 0 if there is no such month. -/
def daysIn (year : Int) (month : Nat) : Nat :=
  match month with
  | 0 => 0
  | m + 1 => ((monthLengths (isLeap year))[m]?).getD 0

/-- The number of days from the first day of the year 1 to the first day of a year. -/
def daysBeforeYear (year : Int) : Int :=
  let y := year - 1
  365 * y + y / 4 - y / 100 + y / 400

/-- The year in which the day number `days` lies. The quotient is right or next to it. -/
def yearOfDay (days : Int) : Int :=
  let guess := days * 400 / 146097 + 1
  if days < daysBeforeYear guess then guess - 1
  else if daysBeforeYear (guess + 1) ≤ days then guess + 1
  else guess

/-- Finds the month in which a day of the year lies: the number of whole months before it, and the
    days left over. -/
def splitMonths : List Nat → Nat → Nat × Nat
  | [], days => (0, days)
  | length :: lengths, days =>
    if days < length then (0, days)
    else
      let (months, rest) := splitMonths lengths (days - length)
      (months + 1, rest)

namespace Date

/-- The number of days from the first day of the year 1. -/
def toDays (d : Date) : Int :=
  let months := (monthLengths (isLeap d.year)).take (d.month - 1)
  daysBeforeYear d.year + Number.total months + d.day - 1

/-- The date `days` days after the first day of the year 1. -/
def ofDays (days : Int) : Date :=
  let year := yearOfDay days
  let (months, rest) := splitMonths (monthLengths (isLeap year)) (days - daysBeforeYear year).toNat
  ⟨year, months + 1, rest + 1⟩

/-- Whether the month and the day are those of the calendar. -/
def isValid (d : Date) : Bool :=
  1 ≤ d.month && d.month ≤ 12 && 1 ≤ d.day && d.day ≤ daysIn d.year d.month

end Date

end KernelReach.Time
