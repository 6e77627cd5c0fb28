import KernelReach.Text.Numeral

/-!
# Sizes

A number of bytes in the largest unit that it fills, with a decimal place if it is less than ten of
them. Units go up by thousands.
-/

namespace KernelReach.Text

/-- The units of size from some unit on, each a thousand of the one before it. -/
def sizeUnits : List String := ["B", "kB", "MB", "GB", "TB", "PB", "EB"]

/-- The largest unit that a number of bytes fills, and the bytes in it. -/
def sizeUnit (n : Nat) : (units : List String) → (unit : Nat) → String × Nat
  | [], unit => ("", unit)
  | [u], unit => (u, unit)
  | u :: v :: us, unit => if n < 1000 * unit then (u, unit) else sizeUnit n (v :: us) (1000 * unit)

/-- A number of tenths as a whole number; a half goes to the even neighbour. -/
def roundTenths (t : Nat) : Nat :=
  let whole := t / 10
  if t % 10 < 5 then whole
  else if t % 10 = 5 then whole + whole % 2
  else whole + 1

/-- A number of bytes as a text. -/
def byteSize (n : Nat) : String :=
  if n < 10 then decimal 1 n ++ " B"
  else
    let (name, unit) := sizeUnit n sizeUnits 1
    -- The size in tenths of the unit, rounded to the nearest.
    let tenths := (20 * n + unit) / (2 * unit)
    if tenths < 100 then decimal 1 (tenths / 10) ++ "." ++ decimal 1 (tenths % 10) ++ " " ++ name
    else decimal 1 (roundTenths tenths) ++ " " ++ name

end KernelReach.Text
