import KernelReach.Text.Quoted
import KernelReach.Text.ReadNumeral

/-!
# Reading spans of time

A span of time is written as numbers with units, such as `1h30m` or `1.5s`, perhaps after a sign. It
is kept in nanoseconds, of which fewer than 2⁶³ are told apart.
-/

namespace KernelReach.Time

/-- Why a text is not a span of time. -/
inductive SpanFault
  | badSpan (whole : String)
  | noUnit (whole : String)
  | unknownUnit (unit whole : String)
  deriving DecidableEq, Repr

def SpanFault.message : SpanFault → String
  | badSpan whole => "time: invalid duration " ++ Text.quoteAscii whole
  | noUnit whole => "time: missing unit in duration " ++ Text.quoteAscii whole
  | unknownUnit unit whole =>
    "time: unknown unit " ++ Text.quoteAscii unit ++ " in duration " ++ Text.quoteAscii whole

/-- The units of spans of time, in nanoseconds. -/
def spanUnits : List (String × Nat) := [
  ("ns", 1), ("us", 1000), ("µs", 1000), ("μs", 1000), ("ms", 1000000), ("s", 1000000000),
  ("m", 60000000000), ("h", 3600000000000)]

/-- The number of spans that can be told apart to one side of nothing. -/
def spanLimit : Nat := Number.signedLimit

/-- Adds up the parts of a span of time. -/
def spanParts (whole : String) : (fuel : Nat) → (sum : Nat) → List Char → Except SpanFault Nat
  | _, sum, [] => .ok sum
  | 0, sum, _ => .ok sum
  | fuel + 1, sum, cs =>
    let digits := cs.takeWhile Char.isDigit
    let rest := cs.drop digits.length
    let hasPoint := rest.head? == some '.'
    let rest := if hasPoint then rest.drop 1 else rest
    let decimals := if hasPoint then rest.takeWhile Char.isDigit else []
    let rest := rest.drop decimals.length
    let name := String.ofList (rest.takeWhile fun c => c != '.' && !c.isDigit)
    let rest := rest.drop name.length
    if digits.isEmpty && decimals.isEmpty then .error (.badSpan whole)
    else if spanLimit < (Text.digitsIn? 10 digits).getD 0 then .error (.badSpan whole)
    else if name = "" then .error (.noUnit whole)
    else match spanUnits.lookup name with
      | none => .error (.unknownUnit name whole)
      | some unit =>
        let number := (Text.digitsIn? 10 (digits ++ decimals)).getD 0
        let value := number * unit / Number.tenTo decimals.length
        if spanLimit < sum + value then .error (.badSpan whole)
        else spanParts whole fuel (sum + value) rest

/-- The span of time of a text, in nanoseconds. -/
def readSpan (s : String) : Except SpanFault Int :=
  let (negative, cs) := Text.splitSign s.toList
  if cs = ['0'] then .ok 0
  else if cs = [] then .error (.badSpan s)
  else match spanParts s cs.length 0 cs with
    | .error e => .error e
    | .ok n =>
      if negative then .ok (-(n : Int))
      else if n = spanLimit then .error (.badSpan s)
      else .ok n

end KernelReach.Time
