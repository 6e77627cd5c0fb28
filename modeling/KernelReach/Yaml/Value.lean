import KernelReach.Number.Binary64
import KernelReach.Text.Affix
import KernelReach.Text.ReadNumeral
import KernelReach.Time.Loose
import KernelReach.Yaml.Fault

/-!
# Values of scalars

What a scalar stands for: nothing, a truth value, a whole number, a fraction, a point in time or its
own text. A scalar that is not quoted is taken for the first of these that it can be. A type that is
written before it has to agree with that, unless it is the type of texts or not known.
-/

namespace KernelReach.Yaml

/-- What a scalar stands for, its text apart. -/
inductive Value
  | null
  | truth (b : Bool)
  | whole (n : Int)
  | fraction (x : Binary64)
  | moment
  | text
  deriving DecidableEq, Repr

/-! ### Names of types -/

/-- How the names of the common types start when they are written out. -/
def commonTypes : String := "tag:yaml.org,2002:"

/-- The name of a type, shortened if the type is a common one. -/
def shortTag (tag : String) : String :=
  if Text.startsWith commonTypes tag then "!!" ++ Text.dropStart commonTypes tag else tag

/-- The type of lists. -/
def sequenceTag : String := "!!seq"

def mappingTag : String := "!!map"

def textTag : String := "!!str"

/-- The type of bytes that are written as text. -/
def binaryTag : String := "!!binary"

/-- The type of nothing. -/
def nullTag : String := "!!null"

/-- The type of the key under which other mappings are taken in. -/
def mergeTag : String := "!!merge"

/-- The type of truth values. -/
def truthTag : String := "!!bool"

/-- The type of whole numbers. -/
def wholeTag : String := "!!int"

def fractionTag : String := "!!float"

/-- The type of points in time. -/
def momentTag : String := "!!timestamp"

def Value.tag : Value → String
  | null => nullTag
  | truth _ => truthTag
  | whole _ => wholeTag
  | fraction _ => fractionTag
  | moment => momentTag
  | text => textTag

/-! ### Words -/

/-- The words that stand for values of their own. -/
def word? (s : String) : Option Value :=
  if ["", "~", "null", "Null", "NULL"].contains s then some .null
  else if ["true", "True", "TRUE"].contains s then some (.truth true)
  else if ["false", "False", "FALSE"].contains s then some (.truth false)
  else if [".nan", ".NaN", ".NAN"].contains s then some (.fraction .notANumber)
  else if [".inf", ".Inf", ".INF", "+.inf", "+.Inf", "+.INF"].contains s then
    some (.fraction (.infinite false))
  else if ["-.inf", "-.Inf", "-.INF"].contains s then some (.fraction (.infinite true))
  else none

/-! ### Numbers -/

/-- Whether underscores stand only between digits. -/
def underscoresBetween : (afterDigit : Bool) → List Char → Bool
  | _, [] => true
  | afterDigit, '_' :: cs =>
    afterDigit && (match cs with
      | c :: _ => c.isDigit
      | [] => false) && underscoresBetween false cs
  | _, c :: cs => underscoresBetween c.isDigit cs

/-- The fraction that digits with a point and an exponent stand for, without a sign. -/
def fractionOf? (negative : Bool) (cs : List Char) : Option Binary64 := do
  let whole := cs.takeWhile Char.isDigit
  let rest := cs.drop whole.length
  let hasPoint := rest.head? == some '.'
  let rest := if hasPoint then rest.drop 1 else rest
  let part := if hasPoint then rest.takeWhile Char.isDigit else []
  let rest := rest.drop part.length
  let digits ← Text.digitsIn? 10 (whole ++ part)
  let exponent ← match rest with
    | [] => some 0
    | e :: rest => if e == 'e' || e == 'E' then Text.integerValue? (String.ofList rest) else none
  let (mantissa, power) ← Binary64.ofDecimal? digits (exponent - part.length)
  some (.finite negative mantissa power)

/-- The number that digits with a sign in a base stand for, if it fits into 64 bits. -/
def signedIn? (base : Nat) (cs : List Char) : Option Int :=
  let (negative, digits) := Text.splitSign cs
  (Text.digitsIn? base digits).bind fun n =>
    let n : Int := if negative then -(n : Int) else n
    if Text.fits64 n then some n else none

/-- The number that digits in a base stand for, if it fits into 64 bits, one of which is the sign if
    there is one. -/
def wholeIn? (base : Nat) (cs : List Char) : Option Int :=
  (signedIn? base cs).or
    ((Text.digitsIn? base cs).bind fun n =>
      if n < Number.wordCount then some (Int.ofNat n) else none)

/-- The number whose base follows from the start of its digits, if it fits into 64 bits. -/
def basedWhole? (cs : List Char) : Option Int :=
  let (negative, digits) := Text.splitSign cs
  let isSigned := digits.length < cs.length
  (Text.basedValue? digits).bind fun n =>
    let m : Int := if negative then -(n : Int) else n
    if Text.fits64 m || (!isSigned && n < Number.wordCount) then some m else none

/-- The number with digits in base 2 or 8 that may have a sign of their own after the mark of the
    base. -/
def markedWhole? : List Char → Option Int
  | '0' :: 'b' :: cs => wholeIn? 2 cs
  | '-' :: '0' :: 'b' :: cs => signedIn? 2 ('-' :: cs)
  | '0' :: 'o' :: cs => wholeIn? 8 cs
  | '-' :: '0' :: 'o' :: cs => signedIn? 8 ('-' :: cs)
  | _ => none

/-- The number that a text stands for which starts with a digit or a sign. -/
def number? (cs : List Char) : Option Value :=
  let digits := cs.filter (· != '_')
  let (negative, unsigned) := Text.splitSign digits
  match basedWhole? digits with
  | some n => some (.whole n)
  | none =>
    match fractionOf? negative unsigned with
    | some x => some (.fraction x)
    | none => (markedWhole? digits).map .whole

/-- What a scalar stands for that is not quoted. Points in time are recognised if `moments`. -/
def plainValue (moments : Bool) (s : String) : Value :=
  match word? s with
  | some v => v
  | none =>
    match s.toList with
    | '.' :: cs =>
      if underscoresBetween false cs then
        match fractionOf? false (('.' :: cs).filter (· != '_')) with
        | some x => .fraction x
        | none => .text
      else .text
    | c :: cs =>
      if c.isDigit || c == '+' || c == '-' then
        if moments && Time.isLoose s then .moment else (number? (c :: cs)).getD .text
      else .text
    | [] => .null

/-! ### Types -/

/-- The types that a scalar has to agree with. -/
def checkedTags : List String := [truthTag, wholeTag, fractionTag, nullTag, momentTag]

def fractionOfWhole (n : Int) : Binary64 :=
  match Binary64.nearest? n.natAbs 1 with
  | some (mantissa, exponent) => .finite (n < 0) mantissa exponent
  | none => .infinite (n < 0)

/-- What a scalar of a type stands for. -/
def valueOf (tag text : String) : Except Fault Value :=
  if checkedTags.contains tag then
    let v := plainValue (tag == momentTag) text
    if v.tag = tag then .ok v
    else match v with
      | .whole n =>
        if tag = fractionTag ∧ n < Number.signedLimit then .ok (.fraction (fractionOfWhole n))
        else .error { problem := .wrongTag v.tag text tag }
      | _ => .error { problem := .wrongTag v.tag text tag }
  else .ok .text

/-! ### Bytes as text -/

/-- The six bits that a character stands for. -/
def base64Digit? (c : Char) : Option Nat :=
  if 'A' ≤ c ∧ c ≤ 'Z' then some (c.toNat - 'A'.toNat)
  else if 'a' ≤ c ∧ c ≤ 'z' then some (c.toNat - 'a'.toNat + 26)
  else if '0' ≤ c ∧ c ≤ '9' then some (c.toNat - '0'.toNat + 52)
  else if c = '+' then some 62
  else if c = '/' then some 63
  else none

/-- The bytes of groups of four characters, of which the last one may be filled up. -/
def base64Groups? : List Char → Option (List UInt8)
  | [] => some []
  | [a, b, '=', '='] => do
    let n := (← base64Digit? a) * 64 + (← base64Digit? b)
    some [UInt8.ofNat (n / 16)]
  | [a, b, c, '='] => do
    let n := ((← base64Digit? a) * 64 + (← base64Digit? b)) * 64 + (← base64Digit? c)
    some [UInt8.ofNat (n / 1024), UInt8.ofNat (n / 4)]
  | a :: b :: c :: d :: rest => do
    let n := (((← base64Digit? a) * 64 + (← base64Digit? b)) * 64 + (← base64Digit? c)) * 64
      + (← base64Digit? d)
    some (UInt8.ofNat (n / 65536) :: UInt8.ofNat (n / 256) :: UInt8.ofNat n
      :: (← base64Groups? rest))
  | _ => none

/-- The bytes that a text stands for. Line breaks in it do not count. -/
def base64? (s : String) : Option (List UInt8) :=
  base64Groups? (s.toList.filter fun c => c != '\n' && c != '\r')

end KernelReach.Yaml
