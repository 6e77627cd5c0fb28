import KernelReach.Text.Numeral
import KernelReach.Time.Calendar

/-!
# Timestamps

An instant, to the nanosecond, together with the offset from universal time at which it is shown.
A timestamp is written as a date and a time of day with the fraction cut after its last digit, and
in the stored form in universal time with nine digits of fraction. In the stored form all texts
have the same width, so that they are in the order of the instants.
-/

namespace KernelReach.Time

/-- The number of nanoseconds in a second. -/
abbrev nanosPerSecond : Nat := 1000000000

/-- So many nanoseconds, without whole seconds. -/
def nanosOf (n : Nat) : Fin nanosPerSecond := ⟨n % nanosPerSecond, Nat.mod_lt n (by decide)⟩

/-- The number of seconds in a day. -/
abbrev secondsPerDay : Int := 86400

/-- A point in time. -/
structure Timestamp where
  /-- Whole seconds since the first instant of the year 1, in universal time. -/
  seconds : Int
  /-- Nanoseconds after the second. -/
  nanos : Fin nanosPerSecond
  /-- The offset at which the instant is shown, in minutes east of universal time. -/
  offset : Int
  deriving DecidableEq, Repr

/-- A date and a time of day, as a clock shows it. -/
structure ClockTime where
  date : Date
  hour : Nat
  minute : Nat
  second : Nat
  deriving DecidableEq, Repr

namespace ClockTime

/-- The seconds from the first instant of the year 1 on the same clock. -/
def toSeconds (c : ClockTime) : Int :=
  c.date.toDays * secondsPerDay + (c.hour * 3600 + c.minute * 60 + c.second : Nat)

/-- What a clock shows after so many seconds. -/
def ofSeconds (s : Int) : ClockTime :=
  let rest := (s % secondsPerDay).toNat
  ⟨Date.ofDays (s / secondsPerDay), rest / 3600, rest / 60 % 60, rest % 60⟩

/-- A number of at least `width` digits, with a minus sign if it is negative. -/
def signed (width : Nat) (n : Int) : String :=
  (if n < 0 then "-" else "") ++ Text.decimal width n.natAbs

/-- The date and the time of day with a `T` between them. -/
def text (c : ClockTime) : String :=
  signed 4 c.date.year ++ "-" ++ Text.decimal 2 c.date.month ++ "-" ++ Text.decimal 2 c.date.day
    ++ "T" ++ Text.decimal 2 c.hour ++ ":" ++ Text.decimal 2 c.minute ++ ":"
    ++ Text.decimal 2 c.second

end ClockTime

/-- Why a timestamp cannot be written in a document. -/
inductive WriteFault
  /-- The year has not four digits. -/
  | year
  /-- The offset is a day or more. -/
  | zone
  deriving DecidableEq, Repr

def WriteFault.message (f : WriteFault) : String :=
  "json: error calling MarshalJSON for type *time.Time: " ++ (match f with
    | year => "year outside of range [0,9999]"
    | zone => "timezone hour outside of range [0,23]")

namespace Timestamp

/-- The first instant of the year 1, which stands for a time that is not known. -/
def zero : Timestamp := ⟨0, 0, 0⟩

/-- Whether the timestamp is the instant of `zero`. -/
def isZero (t : Timestamp) : Bool := t.seconds == 0 && t.nanos == 0

/-- The same instant, shown in universal time. -/
def utc (t : Timestamp) : Timestamp := { t with offset := 0 }

/-- What a clock at the offset of the timestamp shows. -/
def clock (t : Timestamp) : ClockTime := ClockTime.ofSeconds (t.seconds + t.offset * 60)

/-- The timestamp of what a clock at an offset shows. -/
def ofClock (c : ClockTime) (nanos : Fin nanosPerSecond) (offset : Int) : Timestamp :=
  ⟨c.toSeconds - offset * 60, nanos, offset⟩

/-- The offset as it is written. -/
def zoneText (t : Timestamp) : String :=
  if t.offset = 0 then "Z"
  else
    (if t.offset < 0 then "-" else "+") ++ Text.decimal 2 (t.offset.natAbs / 60) ++ ":"
      ++ Text.decimal 2 (t.offset.natAbs % 60)

/-- The fraction of the second without zeros at its end; nothing if it is zero. -/
def fractionText (t : Timestamp) : String :=
  if t.nanos.val = 0 then ""
  else
    let digits := (Text.decimal 9 t.nanos.val).toList
    "." ++ String.ofList (digits.reverse.dropWhile (· == '0')).reverse

/-- The timestamp as documents show it. -/
def text (t : Timestamp) : String := t.clock.text ++ t.fractionText ++ t.zoneText

/-- The timestamp as it is stored: in universal time, with nine digits of fraction. -/
def storedText (t : Timestamp) : String :=
  t.utc.clock.text ++ "." ++ Text.decimal 9 t.nanos.val ++ "Z"

/-- Why a timestamp cannot be written in a document, if it cannot. -/
def writeFault? (t : Timestamp) : Option WriteFault :=
  if t.clock.date.year < 0 ∨ 9999 < t.clock.date.year then some .year
  else if 24 ≤ t.offset.natAbs / 60 then some .zone
  else none

end Timestamp

end KernelReach.Time
