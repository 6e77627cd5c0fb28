import KernelReach.Number.Power
import KernelReach.Text.Numeral

/-!
# Reading numerals

Whole numbers of 64 bits, written with an optional sign, in decimal or in the base that the start of
the digits gives. Underscores may stand between digits where the base is given like this.
-/

namespace KernelReach.Text

/-- The value of one or more decimal digits. -/
def digitsValue? (cs : List Char) : Option Nat :=
  if cs = [] then none
  else cs.foldlM (fun n c =>
    if '0' ≤ c ∧ c ≤ '9' then some (10 * n + (c.toNat - '0'.toNat)) else none) 0

/-- The number that a numeral stands for. -/
def integerValue? (s : String) : Option Int :=
  match s.toList with
  | '-' :: cs => (digitsValue? cs).map fun n => -(n : Int)
  | '+' :: cs => (digitsValue? cs).map Int.ofNat
  | cs => (digitsValue? cs).map Int.ofNat

/-- The value of one or more digits in a base. -/
def digitsIn? (base : Nat) (cs : List Char) : Option Nat :=
  if cs.isEmpty then none
  else cs.foldlM (fun n c => do
    let d ← hexDigit? c
    if d < base then some (base * n + d) else none) 0

/-- The number that digits stand for, in the base that their start gives. -/
def basedValue? : List Char → Option Nat
  | '0' :: 'x' :: cs | '0' :: 'X' :: cs => digitsIn? 16 cs
  | '0' :: 'o' :: cs | '0' :: 'O' :: cs => digitsIn? 8 cs
  | '0' :: 'b' :: cs | '0' :: 'B' :: cs => digitsIn? 2 cs
  | '0' :: c :: cs => digitsIn? 8 (c :: cs)
  | cs => digitsIn? 10 cs

/-- A text as a sign, set for minus, and what follows it. -/
def splitSign : List Char → Bool × List Char
  | '-' :: cs => (true, cs)
  | '+' :: cs => (false, cs)
  | cs => (false, cs)

/-- Whether a number fits into 64 bits. -/
def fits64 (n : Int) : Bool := -(Number.signedLimit : Int) ≤ n && n < Number.signedLimit

/-- The number of 64 bits that a numeral stands for. -/
def int64? (s : String) : Option Int := (integerValue? s).filter fits64

/-! ### Numerals with underscores -/

/-- Why a text is not a number of 64 bits. -/
inductive NumeralFault
  | malformed
  | tooBig
  deriving DecidableEq, Repr

/-- The base of a numeral, the digits in it, and whether something stands before them. -/
def splitBase : List Char → Nat × List Char × Bool
  | '0' :: mark :: c :: cs =>
    if mark = 'b' ∨ mark = 'B' then (2, c :: cs, true)
    else if mark = 'o' ∨ mark = 'O' then (8, c :: cs, true)
    else if mark = 'x' ∨ mark = 'X' then (16, c :: cs, true)
    else (8, mark :: c :: cs, true)
  | '0' :: cs => (8, cs, true)
  | cs => (10, cs, false)

/-- Whether each underscore stands between digits, given whether a digit stands before them all. -/
def underscoresFit : (afterDigit : Bool) → List Char → Bool
  | _, [] => true
  | afterDigit, '_' :: cs => afterDigit && !cs.isEmpty && underscoresFit false cs
  | _, _ :: cs => underscoresFit true cs

/-- The value of digits in a base, with underscores among them, after a value so far. -/
def readDigits (base : Nat) : (value : Nat) → List Char → Except NumeralFault Nat
  | value, [] => .ok value
  | value, '_' :: cs => readDigits base value cs
  | value, c :: cs =>
    match (hexDigit? c).filter (· < base) with
    | none => .error .malformed
    | some d =>
      if Number.wordCount ≤ base * value + d then .error .tooBig
      else readDigits base (base * value + d) cs

/-- The number of 64 bits that a numeral stands for, in the base that its start gives. -/
def readInteger (s : String) : Except NumeralFault Int := do
  let (negative, cs) := splitSign s.toList
  let (base, digits, marked) := splitBase cs
  let n ← if cs.isEmpty then .error .malformed else readDigits base 0 digits
  let value : Int := if negative then -(n : Int) else n
  if !underscoresFit marked digits then .error .malformed
  else if fits64 value then .ok value
  else .error .tooBig

end KernelReach.Text
