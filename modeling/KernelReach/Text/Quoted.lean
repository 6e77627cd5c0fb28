import KernelReach.Text.Numeral
import KernelReach.Text.Printable
import KernelReach.Text.Utf8

/-!
# Quoted text

Messages show a text or a character between quotes. A printable character stands for itself, the
quote and the backslash are escaped, seven control characters have a letter, the other ASCII
control characters and stray bytes two hexadecimal digits and everything else four or eight.
-/

namespace KernelReach.Text

/-- How a stray byte is written between quotes. -/
def escapeByte (b : UInt8) : String := "\\x" ++ hexadecimal 2 b.toNat

/-- How `c`, or the byte that it holds, is written between two of the quotes `quote`. -/
def escapeChar (quote c : Char) : String :=
  if let some b := heldByte? c then escapeByte b
  else if c == quote || c == '\\' then String.ofList ['\\', c]
  else if isPrintable c then String.singleton c
  else match c.toNat with
    | 0x07 => "\\a"
    | 0x08 => "\\b"
    | 0x09 => "\\t"
    | 0x0a => "\\n"
    | 0x0b => "\\v"
    | 0x0c => "\\f"
    | 0x0d => "\\r"
    | n =>
      if n < 0x20 || n == 0x7f then "\\x" ++ hexadecimal 2 n
      else if n < 0x10000 then "\\u" ++ hexadecimal 4 n
      else "\\U" ++ hexadecimal 8 n

/-- `s` between double quotes. -/
def quote (s : String) : String :=
  "\"" ++ String.join (s.toList.map (escapeChar '"')) ++ "\""

/-- How a piece of bytes is written between two of the quotes `quote`. -/
def escapePiece (quote : Char) : Piece → String
  | .char c => escapeChar quote c
  | .stray b => escapeByte b

/-- Bytes between double quotes. -/
def quoteBytes (bytes : List UInt8) : String :=
  "\"" ++ String.join ((pieces bytes).map (escapePiece '"')) ++ "\""

/-- How `c` is written between double quotes where only ASCII is shown: other characters and control
    characters are written byte by byte. -/
def escapeAscii (c : Char) : String :=
  if c.toNat < 0x20 ∨ 0x80 ≤ c.toNat then
    String.join ((String.utf8EncodeChar c).map fun b => "\\x" ++ hexadecimal 2 b.toNat)
  else if c = '"' ∨ c = '\\' then String.ofList ['\\', c]
  else String.singleton c

/-- `s` between double quotes, in ASCII. -/
def quoteAscii (s : String) : String := "\"" ++ String.join (s.toList.map escapeAscii) ++ "\""

/-- `c` between single quotes. -/
def quoteChar (c : Char) : String :=
  "'" ++ escapeChar '\'' c ++ "'"

end KernelReach.Text
