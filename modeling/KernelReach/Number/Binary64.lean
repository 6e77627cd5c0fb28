import KernelReach.Number.Power
import KernelReach.Text.Numeral

/-!
# Binary fractions of 64 bits

A fraction that is kept in 64 bits is a mantissa of at most 53 bits times a power of two. A decimal
fraction is taken for the binary one that is nearest to it; of two that are equally near, the one
with the even mantissa is taken. The text of a binary fraction has the fewest digits that are taken
for it again.
-/

namespace KernelReach

/-- A binary fraction of 64 bits. -/
inductive Binary64
  /-- `mantissa * 2 ^ exponent`, with a sign that is set for minus. -/
  | finite (negative : Bool) (mantissa : Nat) (exponent : Int)
  | infinite (negative : Bool)
  | notANumber
  deriving DecidableEq, Repr

namespace Binary64

/-- The number of bits of a mantissa. -/
def precision : Nat := 53

def leastExponent : Int := -1074

/-- The power of two from which on no number is finite. -/
def limitExponent : Nat := 1024

/-- The quotient of two numbers, rounded; a half goes to the even neighbour. -/
def roundDiv (num den : Nat) : Nat :=
  let q := num / den
  let twice := 2 * (num % den)
  if den < twice ∨ (twice = den ∧ q % 2 = 1) then q + 1 else q

/-- The quotient `num / (den * 2 ^ e)` as a pair of numbers. -/
def scaled (num den : Nat) (e : Int) : Nat × Nat :=
  if 0 ≤ e then (num, den * Number.twoTo e.toNat) else (num * Number.twoTo (-e).toNat, den)

/-- The exponent with which the quotient `num / den` has a mantissa of full length. -/
def exponentOf (num den : Nat) : Int :=
  let guess : Int := (num.log2 : Int) - den.log2 - (precision - 1 : Nat)
  let (n, d) := scaled num den guess
  max leastExponent (if n < d * Number.twoTo (precision - 1) then guess - 1 else guess)

/-- The mantissa and the exponent that are nearest to a quotient, or none if it is too great. -/
def nearest? (num den : Nat) : Option (Nat × Int) :=
  if num = 0 then some (0, leastExponent)
  else
    let e := exponentOf num den
    let (n, d) := scaled num den e
    let m := roundDiv n d
    let (m, e) :=
      if m = Number.twoTo precision then (Number.twoTo (precision - 1), e + 1) else (m, e)
    if (limitExponent : Int) < e + precision then none else some (m, e)

/-- The number of decimal digits of a number. -/
def decimalSize (n : Nat) : Nat := (Nat.toDigits 10 n).length

/-- The powers of ten outside of which every decimal fraction is too great, or is nothing. -/
def decimalReach : Int := 400

/-- The mantissa and the exponent that are nearest to `digits * 10 ^ power`, or none if it is too
    great. -/
def ofDecimal? (digits : Nat) (power : Int) : Option (Nat × Int) :=
  let top := (decimalSize digits : Int) + power
  if digits = 0 ∨ top < -decimalReach then some (0, leastExponent)
  else if decimalReach < top then none
  else if 0 ≤ power then nearest? (digits * Number.tenTo power.toNat) 1
  else nearest? digits (Number.tenTo (-power).toNat)

/-- The whole part of a number that is not negative. -/
def wholePart (mantissa : Nat) (exponent : Int) : Nat :=
  if 0 ≤ exponent then mantissa * Number.twoTo exponent.toNat
  else mantissa / Number.twoTo (-exponent).toNat

/-- Whether a number has no fraction. -/
def isWhole (mantissa : Nat) (exponent : Int) : Bool :=
  0 ≤ exponent || mantissa % Number.twoTo (-exponent).toNat == 0

/-! ### The shortest text -/

/-- The number as a quotient. -/
def ratio (mantissa : Nat) (exponent : Int) : Nat × Nat :=
  if 0 ≤ exponent then (mantissa * Number.twoTo exponent.toNat, 1)
  else (mantissa, Number.twoTo (-exponent).toNat)

/-- The quotient `num / (den * 10 ^ power)` as a pair of numbers. -/
def inTens (num den : Nat) (power : Int) : Nat × Nat :=
  if 0 ≤ power then (num, den * Number.tenTo power.toNat)
  else (num * Number.tenTo (-power).toNat, den)

/-- The power of ten of the first digit of a quotient that is not zero. -/
def firstPower (num den : Nat) : Int :=
  let guess : Int := (decimalSize num : Int) - decimalSize den
  let (n, d) := inTens num den guess
  if n < d then guess - 1 else guess

/-- The digits and the power of ten of the decimal fraction with the fewest digits, up to `size` of
    them, that is nearest to no other number. Of two such fractions the nearer one is taken. -/
def shortestFrom (mantissa : Nat) (exponent : Int) : (left size : Nat) → Nat × Int
  | left, size =>
    let (num, den) := ratio mantissa exponent
    let power := firstPower num den - ((size : Int) - 1)
    let (n, d) := inTens num den power
    let low := n / d
    let rounded := roundDiv n d
    let other := if rounded = low then low + 1 else low
    let isNear (digits : Nat) : Bool := ofDecimal? digits power == some (mantissa, exponent)
    if isNear rounded then (rounded, power)
    else if isNear other then (other, power)
    else match left with
      | 0 => (rounded, power)
      | left + 1 => shortestFrom mantissa exponent left (size + 1)

/-- Removes zeros at the end of digits. -/
def dropZeros : (fuel : Nat) → Nat → Int → Nat × Int
  | 0, digits, power => (digits, power)
  | fuel + 1, digits, power =>
    if digits ≠ 0 ∧ digits % 10 = 0 then dropZeros fuel (digits / 10) (power + 1)
    else (digits, power)

/-- The shortest digits of a number that is not zero, and the power of ten of the last of them. -/
def shortest (mantissa : Nat) (exponent : Int) : Nat × Int :=
  let (digits, power) := shortestFrom mantissa exponent 17 1
  dropZeros 20 digits power

/-- The power of ten of the first digit from which on a number is written with an exponent. -/
def exponentFrom : Int := 6

/-- The power of ten of the first digit below which a number is written with an exponent. -/
def exponentBelow : Int := -4

/-- The text of digits whose last one has a power of ten. -/
def decimalText (digits : Nat) (power : Int) : String :=
  let ds := Nat.toDigits 10 digits
  let first := power + ds.length - 1
  if first < exponentBelow ∨ exponentFrom ≤ first then
    let fraction := if ds.length ≤ 1 then [] else '.' :: ds.drop 1
    let sign := if first < 0 then "-" else "+"
    String.ofList (ds.take 1 ++ fraction) ++ "e" ++ sign ++ Text.decimal 2 first.natAbs
  else if first < 0 then
    "0." ++ String.ofList (List.replicate (-first - 1).toNat '0' ++ ds)
  else
    let whole := first.toNat + 1
    let padded := ds ++ List.replicate (whole - ds.length) '0'
    let fraction := if ds.length ≤ whole then [] else '.' :: ds.drop whole
    String.ofList (padded.take whole ++ fraction)

/-- The shortest text of a number. -/
def text : Binary64 → String
  | finite negative mantissa exponent =>
    let body := if mantissa = 0 then "0"
      else let (digits, power) := shortest mantissa exponent
        decimalText digits power
    (if negative then "-" else "") ++ body
  | infinite negative => if negative then "-Inf" else "+Inf"
  | notANumber => "NaN"

end Binary64

end KernelReach
