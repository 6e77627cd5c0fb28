import KernelReach.Number.Binary64

/-!
# Sums and products of binary fractions

The sum and the product of two binary fractions are the fractions nearest to the exact results. A
result that is too great is infinite, and one that has no value is not a number. The sign of zero
is not kept.
-/

namespace KernelReach.Binary64

/-- The fraction nearest to `n * 2 ^ e`. -/
def round (n e : Int) : Binary64 :=
  let (num, den) := ratio n.natAbs e
  match nearest? num den with
  | some (mantissa, exponent) => finite (n < 0) mantissa exponent
  | none => infinite (n < 0)

/-- The fraction nearest to a whole number. -/
def ofNat (n : Nat) : Binary64 := round n 0

/-- The fraction nearest to `n * 10 ^ power`. -/
def ofScientific (n power : Int) : Binary64 :=
  match ofDecimal? n.natAbs power with
  | some (mantissa, exponent) => finite (n < 0) mantissa exponent
  | none => infinite (n < 0)

def signed (negative : Bool) (mantissa : Nat) : Int :=
  if negative then -(mantissa : Int) else mantissa

/-- The fraction with the other sign. -/
def neg : Binary64 → Binary64
  | finite negative mantissa exponent => finite (!negative) mantissa exponent
  | infinite negative => infinite (!negative)
  | notANumber => notANumber

/-- The sum of two fractions. -/
def add : Binary64 → Binary64 → Binary64
  | finite s m e, finite t n f =>
    let least := min e f
    let raised (n : Int) (e : Int) : Int := n * Number.twoTo (e - least).toNat
    round (raised (signed s m) e + raised (signed t n) f) least
  | infinite s, infinite t => if s = t then infinite s else notANumber
  | infinite s, finite _ _ _ | finite _ _ _, infinite s => infinite s
  | notANumber, _ | _, notANumber => notANumber

/-- The difference of two fractions. -/
def sub (x y : Binary64) : Binary64 := x.add y.neg

/-- The product of two fractions. -/
def mul : Binary64 → Binary64 → Binary64
  | finite s m e, finite t n f => round (signed s m * signed t n) (e + f)
  | infinite s, infinite t => infinite (s ^^ t)
  | infinite s, finite t n _ | finite t n _, infinite s =>
    if n = 0 then notANumber else infinite (s ^^ t)
  | notANumber, _ | _, notANumber => notANumber

/-- The fraction with zeros for the lower half of its mantissa. -/
def upperHalf : Binary64 → Binary64
  | finite s m e => finite s (m - m % 0x4000000) e
  | x => x

/-- The whole part of a fraction that is not negative. -/
def toNat : Binary64 → Nat
  | finite _ m e => wholePart m e
  | _ => 0

end KernelReach.Binary64
