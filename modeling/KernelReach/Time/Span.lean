import KernelReach.Text.Numeral
import KernelReach.Time.Timestamp

/-!
# Spans of time

How long something took, and how long ago something was.
-/

namespace KernelReach.Time

/-- Whole milliseconds in a number of nanoseconds, rounded to the nearest, a half away from zero. -/
def roundMillis (ns : Nat) : Nat := (ns + 500000) / 1000000

/-- A number of thousandths without zeros at the end. -/
def thousandths (n : Nat) : String :=
  if n = 0 then ""
  else "." ++ String.ofList ((Text.decimal 3 n).toList.reverse.dropWhile (· == '0')).reverse

/-- A number of milliseconds as hours, minutes and seconds. Less than a second is written in
    milliseconds. -/
def spanText (ms : Nat) : String :=
  if ms = 0 then "0s"
  else if ms < 1000 then Text.decimal 1 ms ++ "ms"
  else
    let seconds := ms / 1000
    let tail := Text.decimal 1 (seconds % 60) ++ thousandths (ms % 1000) ++ "s"
    if seconds < 60 then tail
    else if seconds < 3600 then Text.decimal 1 (seconds / 60) ++ "m" ++ tail
    else Text.decimal 1 (seconds / 3600) ++ "h" ++ Text.decimal 1 (seconds / 60 % 60) ++ "m" ++ tail

/-! ### Ages -/

def minute : Nat := 60

def hour : Nat := 60 * minute

def day : Nat := 24 * hour

def week : Nat := 7 * day

def month : Nat := 30 * day

def year : Nat := 12 * month

/-- What a span of some seconds is called: the first line of the table whose limit it is below. -/
def spanName (seconds : Nat) : String :=
  let many (unit : Nat) (name : String) : String :=
    Text.decimal 1 (seconds / unit) ++ " " ++ name
  if seconds < 2 then "1 second"
  else if seconds < minute then many 1 "seconds"
  else if seconds < 2 * minute then "1 minute"
  else if seconds < hour then many minute "minutes"
  else if seconds < 2 * hour then "1 hour"
  else if seconds < day then many hour "hours"
  else if seconds < 2 * day then "1 day"
  else if seconds < week then many day "days"
  else if seconds < 2 * week then "1 week"
  else if seconds < month then many week "weeks"
  else if seconds < 2 * month then "1 month"
  else if seconds < year then many month "months"
  else if seconds < 18 * month then "1 year"
  else if seconds < 2 * year then "2 years"
  else if seconds < 37 * year then many year "years"
  else "a long while"

/-- How far a time is from the present. -/
def Timestamp.age (t now : Timestamp) : String :=
  let billion : Int := 1000000000
  let ns := (now.seconds - t.seconds) * billion + ((now.nanos.val : Int) - t.nanos.val)
  let seconds := (ns.natAbs / billion.toNat)
  if seconds < 1 then "now"
  else spanName seconds ++ (if ns < 0 then " from now" else " ago")

end KernelReach.Time
