import KernelReach.Store.Decimal
import KernelReach.Text.Quoted
import KernelReach.Text.ReadNumeral

/-!
# Cells

A column of whole numbers keeps what can be read as a whole number as one, other numbers as
fractions and everything else as it is. Only whole numbers can be read from it again.
-/

namespace KernelReach.Store

/-- The value of a column of whole numbers. -/
inductive Cell
  | whole (n : Int)
  | fraction (x : Binary64)
  | text (s : String)
  deriving DecidableEq, Repr

namespace Cell

def isNumberBlank (c : Char) : Bool :=
  c == ' ' || c == '\t' || c == '\n' || c == '\x0b' || c == '\x0c' || c == '\r'

/-- A text without blanks around it. -/
def trimmed (s : String) : List Char :=
  let cs := s.toList.dropWhile isNumberBlank
  (cs.reverse.dropWhile isNumberBlank).reverse

/-- A number as it is written: digits before and after a point, and an exponent. -/
structure Written where
  negative : Bool
  whole : List Char
  /-- The digits after the point, if there is one. -/
  part : Option (List Char)
  exponent : Option Int
  deriving DecidableEq, Repr

def digitValues (cs : List Char) : List Nat := cs.map fun c => c.toNat - '0'.toNat

def exponent? (cs : List Char) : Option Int :=
  let (negative, digits) := Text.splitSign cs
  if digits.isEmpty || !digits.all Char.isDigit then none
  else
    let e : Int := Decimal.exponentOf (digitValues digits)
    some (if negative then -e else e)

/-- The number that a text is written as. -/
def written? (s : String) : Option Written := do
  let (negative, cs) := Text.splitSign (trimmed s)
  let whole := cs.takeWhile Char.isDigit
  let (part, rest) := match cs.drop whole.length with
    | '.' :: rest => (some (rest.takeWhile Char.isDigit), rest.dropWhile Char.isDigit)
    | rest => (none, rest)
  if whole.isEmpty && (part.getD []).isEmpty then none
  else match rest with
    | [] => some ⟨negative, whole, part, none⟩
    | e :: rest =>
      if e == 'e' || e == 'E' then
        (exponent? rest).map fun e => ⟨negative, whole, part, some e⟩
      else none

/-- The whole number that a number is, if it is written as one and fits. -/
def Written.whole? (w : Written) : Option Int :=
  if w.part.isSome || w.exponent.isSome then none
  else
    let n : Int := (Text.digitsIn? 10 w.whole).getD 0
    some (if w.negative then -n else n) |>.filter Text.fits64

/-- The binary fraction for which a number is taken, without its sign. -/
def Written.magnitude (w : Written) : Binary64 :=
  let x := Decimal.ofDigits (digitValues w.whole) (digitValues (w.part.getD []))
  Decimal.toBinary { x with power := x.power + w.exponent.getD 0 }

/-- The value that a number is kept as. -/
def ofWritten (w : Written) : Cell :=
  match w.whole?, w.magnitude with
  | some n, _ => whole n
  | none, .finite _ mantissa exponent =>
    let n : Int := Binary64.wholePart mantissa exponent
    if Binary64.isWhole mantissa exponent && n < Number.signedLimit then
      whole (if w.negative then -n else n)
    else fraction (.finite w.negative mantissa exponent)
  | none, _ => fraction (.infinite w.negative)

/-- The value that a text is kept as. -/
def ofText (s : String) : Cell :=
  match written? s with
  | some w => ofWritten w
  | none => text s

/-- What a value is called that is no whole number, and its text. -/
def described : Cell → String × String
  | whole n => ("int64", Text.integer n)
  | fraction x => ("float64", x.text)
  | text s => ("string", s)

/-- The whole number in a column of a kind, which is the column with an index. -/
def misread (index : Nat) (column kind : String) (c : Cell) : String :=
  let (found, shown) := c.described
  "sql: Scan error on column index " ++ Text.integer index ++ ", name " ++ Text.quote column
    ++ ": converting driver.Value type " ++ found ++ " (" ++ Text.quote shown ++ ") to a " ++ kind
    ++ ": invalid syntax"

end Cell

end KernelReach.Store
