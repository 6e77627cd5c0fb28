import KernelReach.Number.Arithmetic

/-!
# Decimal fractions in a database

A database takes a decimal fraction for a binary one that is near to it, and not always for the
nearest. It takes as many digits as fit into 64 bits and multiplies them by powers of ten. The
product is kept as the sum of two binary fractions, of which the second one tells what the first one
lacks.
-/

namespace KernelReach.Store

/-- A decimal fraction, `digits * 10 ^ power`. -/
structure Decimal where
  digits : Nat
  power : Int
  deriving DecidableEq, Repr

namespace Decimal

/-! ### Digits -/

def digitLimit : Nat := (Number.wordCount - 10) / 10

/-- Adds digits to a number as long as there is room, and gives the number of digits that were
    added. -/
def addDigits : (n added : Nat) → List Nat → Nat × Nat
  | n, added, [] => (n, added)
  | n, added, d :: ds =>
    if n < digitLimit then addDigits (10 * n + d) (added + 1) ds else (n, added)

/-- The fraction with given digits before and after the point. Of those that do not fit, the ones
    before the point count as zeros. -/
def ofDigits (whole part : List Nat) : Decimal :=
  let (n, added) := addDigits 0 0 whole
  let (n, more) := addDigits n 0 part
  ⟨n, ((whole.length - added : Nat) : Int) - more⟩

/-- The exponent that digits stand for, which stops to grow. -/
def exponentOf (digits : List Nat) : Nat :=
  digits.foldl (fun e d => if e < 10000 then 10 * e + d else 10000) 0

/-- The number below which digits are multiplied by ten. -/
def raiseLimit : Nat := (Number.wordCount - 0x800) / 10

/-- Moves the power of ten towards zero as long as the digits stay whole and fit. Twenty steps are
    enough. -/
def reduced : (steps : Nat) → Decimal → Decimal
  | 0, x => x
  | steps + 1, x =>
    if 0 < x.power ∧ x.digits < raiseLimit then reduced steps ⟨10 * x.digits, x.power - 1⟩
    else if x.power < 0 ∧ x.digits % 10 = 0 then reduced steps ⟨x.digits / 10, x.power + 1⟩
    else x

/-! ### Products -/

/-- A binary fraction, and what it lacks. -/
structure Pair where
  value : Binary64
  rest : Binary64
  deriving DecidableEq, Repr

/-- A product of two pairs. The halves of the factors are multiplied on their own, so that little
    is lost. -/
def Pair.mul (x y : Pair) : Pair :=
  let a := x.value.upperHalf
  let b := x.value.sub a
  let c := y.value.upperHalf
  let d := y.value.sub c
  let outer := a.mul c
  let inner := (a.mul d).add (b.mul c)
  let sum := outer.add inner
  let lacking := ((outer.sub sum).add inner).add (b.mul d)
  let lacking := ((x.value.mul y.rest).add (x.rest.mul y.value)).add lacking
  let value := sum.add lacking
  ⟨value, (sum.sub value).add lacking⟩

/-- The greatest binary fraction of which the whole part has 64 bits. -/
def greatestWhole : Nat := Number.wordCount - 0x800

/-- A whole number as a pair. -/
def Pair.ofNat (n : Nat) : Pair :=
  let value := Binary64.ofNat n
  let near := value.toNat
  ⟨value, if near ≤ greatestWhole then .round (n - near) 0 else .ofNat 0⟩

/-- The factors for a hundred steps of ten upwards, for ten and for one. -/
def upwards : Pair × Pair × Pair :=
  (⟨.ofScientific 1 100, .ofScientific (-15902891109759918046) 64⟩, ⟨.ofScientific 1 10, .ofNat 0⟩,
    ⟨.ofScientific 1 1, .ofNat 0⟩)

/-- The factors for a hundred steps of ten downwards, for ten and for one. -/
def downwards : Pair × Pair × Pair :=
  (⟨.ofScientific 1 (-100), .ofScientific (-199918998026028836196) (-137)⟩,
    ⟨.ofScientific 1 (-10), .ofScientific (-36432197315497741579) (-46)⟩,
    ⟨.ofScientific 1 (-1), .ofScientific (-55511151231257827021) (-37)⟩)

/-- The binary fraction for which a decimal one is taken. -/
def toBinary (x : Decimal) : Binary64 :=
  let x := reduced 20 x
  let (hundred, ten, one) := if 0 < x.power then upwards else downwards
  let steps := x.power.natAbs
  let product := Nat.repeat (·.mul hundred) (steps / 100) (Pair.ofNat x.digits)
  let product := Nat.repeat (·.mul ten) (steps % 100 / 10) product
  let product := Nat.repeat (·.mul one) (steps % 10) product
  match product.value.add product.rest with
  | .notANumber => .infinite false
  | sum => sum

end Decimal

end KernelReach.Store
