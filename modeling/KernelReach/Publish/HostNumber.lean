import KernelReach.Text.Numeral
import KernelReach.Text.Quoted

/-!
# Numbers of hosts

A host is known by its number: four decimal parts between points, or eight hexadecimal parts between
colons, of which a pair of colons may leave out a row of zeros and of which the last two may be
written in decimal. A zone may follow a number with colons.
-/

namespace KernelReach.HostNumber

/-- Which of its two forms a number has. -/
inductive Form
  | dotted
  | coloned (zoned : Bool)
  deriving DecidableEq, Repr

/-- What is wrong with a number. -/
inductive Problem
  | noNumber
  | onlyZone
  | emptyZone
  | leadingZero
  | bigDecimal
  | noDecimal
  | longDotted
  | shortDotted
  | badDecimal
  | longPart
  | noDigit
  | misplacedDecimal
  | crowdedDecimal
  | noColon
  | lastColon
  | secondPair
  | surplus
  | short
  | idlePair
  deriving DecidableEq, Repr

def Problem.text : Problem → String
  | noNumber => "unable to parse IP"
  | onlyZone => "missing IPv6 address"
  | emptyZone => "zone must be a non-empty string"
  | leadingZero => "IPv4 field has octet with leading zero"
  | bigDecimal => "IPv4 field has value >255"
  | noDecimal => "IPv4 field must have at least one digit"
  | longDotted => "IPv4 address too long"
  | shortDotted => "IPv4 address too short"
  | badDecimal => "unexpected character"
  | longPart => "each group must have 4 or less digits"
  | noDigit => "each colon-separated field must have at least one digit"
  | misplacedDecimal => "embedded IPv4 address must replace the final 2 fields of the address"
  | crowdedDecimal => "too many hex fields to fit an embedded IPv4 at the end of the address"
  | noColon => "unexpected character, want colon"
  | lastColon => "colon must be followed by more characters"
  | secondPair => "multiple :: in address"
  | surplus => "trailing garbage after address"
  | short => "address string too short"
  | idlePair => "the :: must expand to at least one field of zeros"

/-- A problem, and the rest of the text where it was found, if it was found at a place. -/
structure Fault where
  problem : Problem
  rest : List Char := []
  deriving DecidableEq, Repr

def Fault.message (number : String) (f : Fault) : String :=
  "ParseAddr(" ++ Text.quote number ++ "): " ++ f.problem.text
    ++ (if f.rest.isEmpty then "" else " (at " ++ Text.quote (String.ofList f.rest) ++ ")")

/-- Reads decimal parts, given the number of parts before, the digits of this part so far and its
    value. -/
def checkDotted : (count digits value : Nat) → List Char → Except Fault Unit
  | count, digits, _, [] =>
    if count < 3 then .error ⟨.shortDotted, []⟩
    else if digits = 0 then .error ⟨.noDecimal, []⟩
    else .ok ()
  | count, digits, value, c :: cs =>
    if c.isDigit then
      let value' := 10 * value + (c.toNat - '0'.toNat)
      if digits = 1 ∧ value = 0 then .error ⟨.leadingZero, []⟩
      else if 255 < value' then .error ⟨.bigDecimal, []⟩
      else checkDotted count (digits + 1) value' cs
    else if c = '.' then
      if digits = 0 ∨ cs = [] then .error ⟨.noDecimal, c :: cs⟩
      else if count = 3 then .error ⟨.longDotted, []⟩
      else checkDotted (count + 1) 0 0 cs
    else .error ⟨.badDecimal, c :: cs⟩

/-- Ends a number with colons, given the number of its parts and whether a pair of colons was found.
    -/
def checkCount (count : Nat) (paired : Bool) (rest : List Char) : Except Fault Unit :=
  if rest ≠ [] then .error ⟨.surplus, rest⟩
  else if count < 8 then if paired then .ok () else .error ⟨.short, []⟩
  else if paired then .error ⟨.idlePair, []⟩
  else .ok ()

/-- Reads the parts of a number with colons, of which there are at most as many as are left. -/
def checkColoned : (left : Nat) → (paired : Bool) → List Char → Except Fault Unit
  | 0, paired, cs => checkCount 8 paired cs
  | left + 1, paired, cs =>
    let digits := cs.takeWhile fun c => (Text.hexDigit? c).isSome
    if 4 < digits.length then .error ⟨.longPart, cs⟩
    else if digits = [] then .error ⟨.noDigit, cs⟩
    else match cs.drop digits.length with
      | [] => checkCount (8 - left) paired []
      | '.' :: _ =>
        if ¬paired ∧ left ≠ 1 then .error ⟨.misplacedDecimal, cs⟩
        else if left = 0 then .error ⟨.crowdedDecimal, cs⟩
        else do
          checkDotted 0 0 0 cs
          checkCount (9 - left) paired []
      | [':'] => .error ⟨.lastColon, [':']⟩
      | ':' :: ':' :: rest =>
        if paired then .error ⟨.secondPair, ':' :: rest⟩
        else if rest = [] then checkCount (8 - left) true []
        else checkColoned left true rest
      | ':' :: rest => checkColoned left paired rest
      | rest => .error ⟨.noColon, rest⟩

def form (number : List Char) : Except Fault Form :=
  match number.find? fun c => c = '.' ∨ c = ':' ∨ c = '%' with
  | some '.' => (checkDotted 0 0 0 number).map fun () => .dotted
  | some ':' =>
    let start := number.takeWhile (· != '%')
    let zone := number.drop start.length
    if zone = ['%'] then .error ⟨.emptyZone, []⟩
    else
      let checked : Except Fault Unit := match start with
        | [':', ':'] => .ok ()
        | ':' :: ':' :: rest => checkColoned 8 true rest
        | rest => checkColoned 8 false rest
      checked.map fun () => .coloned (zone ≠ [])
  | some _ => .error ⟨.onlyZone, []⟩
  | none => .error ⟨.noNumber, []⟩

end KernelReach.HostNumber
