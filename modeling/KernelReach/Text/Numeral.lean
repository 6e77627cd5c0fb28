/-!
# Numerals

Numbers written with a least number of digits, in hexadecimal, with grouped thousands, and as
byte sizes.
-/

namespace KernelReach.Text

/-- The text `s`, filled up on the left with `fill` to at least `width` characters. -/
def padLeft (fill : Char) (width : Nat) (s : String) : String :=
  String.ofList (List.replicate (width - s.length) fill ++ s.toList)

/-- The decimal digits of `n`, at least `width` of them. -/
def decimal (width n : Nat) : String :=
  padLeft '0' width (String.ofList (Nat.toDigits 10 n))

/-- The lower-case hexadecimal digits of `n`, at least `width` of them. -/
def hexadecimal (width n : Nat) : String :=
  padLeft '0' width (String.ofList (Nat.toDigits 16 n))

/-- A decimal with a minus sign if it is negative. -/
def integer (n : Int) : String :=
  if n < 0 then "-" ++ decimal 1 n.natAbs else decimal 1 n.natAbs

/-- Splits off groups of three from the right; `ds` is the numeral backwards. -/
def groupThousands : List Char → List Char
  | a :: b :: c :: d :: ds => a :: b :: c :: ',' :: groupThousands (d :: ds)
  | ds => ds

/-- A number with a comma between each two groups of three digits. -/
def grouped (n : Int) : String :=
  let digits := String.ofList (groupThousands (Nat.toDigits 10 n.natAbs).reverse).reverse
  if n < 0 then "-" ++ digits else digits

/-- The value of a hexadecimal digit of either case. -/
def hexDigit? (c : Char) : Option Nat :=
  if '0' ≤ c && c ≤ '9' then some (c.toNat - '0'.toNat)
  else if 'a' ≤ c && c ≤ 'f' then some (c.toNat - 'a'.toNat + 10)
  else if 'A' ≤ c && c ≤ 'F' then some (c.toNat - 'A'.toNat + 10)
  else none

end KernelReach.Text
