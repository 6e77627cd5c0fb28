import KernelReach.Text.Utf8
import KernelReach.Yaml.Fault

/-!
# Characters

A text is kept as UTF-8, or as UTF-16 with a mark at the start that says in which order the bytes of
a unit stand.

It is read in pieces, and a piece as a whole: of a piece with a fault nothing is read, and the fault
shows only when a character of that piece, or the end of the text, is asked for. So a document that
ends before is not touched by what comes after it.
-/

namespace KernelReach.Yaml

/-- The characters that a text may contain. -/
def isAllowed (c : Char) : Bool :=
  let n := c.toNat
  n == 0x09 || n == 0x0A || n == 0x0D || (0x20 ≤ n && n ≤ 0x7E) || n == 0x85
    || (0xA0 ≤ n && n ≤ 0xFFFD) || 0x10000 ≤ n

def textFault {α : Type} (p : Problem) : Except Fault α := .error { problem := p }

/-- A character that a text may contain. -/
def allowed (c : Char) : Except Fault Char :=
  if isAllowed c then .ok c else textFault .controlCharacter

/-- The number of bytes of a character that starts with a byte, or 0 if none does. -/
def leadWidth (b : UInt8) : Nat :=
  if b < 0x80 then 1
  else if 0xc0 ≤ b && b < 0xe0 then 2
  else if 0xe0 ≤ b && b < 0xf0 then 3
  else if 0xf0 ≤ b && b < 0xf8 then 4
  else 0

/-- The bits of a code that the first byte of a character gives. -/
def leadBits (b : UInt8) : Nat :=
  match leadWidth b with
  | 2 => b.toNat % 0x20
  | 3 => b.toNat % 0x10
  | 4 => b.toNat % 0x08
  | _ => b.toNat

/-- The least code of a character of so many bytes. -/
def leastCode : Nat → Nat
  | 2 => 0x80
  | 3 => 0x800
  | 4 => 0x10000
  | _ => 0

/-- The character of UTF-8 that starts with a byte. -/
def ofUtf8 (b : UInt8) (rest : List UInt8) : Except Fault Char :=
  let width := leadWidth b
  let tail := rest.take (width - 1)
  let code := tail.foldl (fun n t => n * 0x40 + Text.tailBits t) (leadBits b)
  if width = 0 then textFault .badLead
  else if tail.length < width - 1 then textFault .cutCharacter
  else if !tail.all Text.isTail then textFault .badTail
  else if code < leastCode width then textFault .badLength
  else if code.isValidChar then allowed (Char.ofNat code)
  else textFault .badCharacter

/-- The unit of UTF-16 that two bytes give, of which the low one stands first or last. -/
def unit (lowFirst : Bool) (a b : UInt8) : Nat :=
  if lowFirst then a.toNat + 0x100 * b.toNat else 0x100 * a.toNat + b.toNat

/-- Whether a unit is the first half of a character. -/
def isHighSurrogate (u : Nat) : Bool := 0xd800 ≤ u && u < 0xdc00

/-- Whether a unit is the second half of a character. -/
def isLowSurrogate (u : Nat) : Bool := 0xdc00 ≤ u && u < 0xe000

/-- The character of UTF-16 that starts with a byte. -/
def ofUtf16 (lowFirst : Bool) (a : UInt8) : List UInt8 → Except Fault Char
  | [] => textFault .cutUnit
  | b :: rest =>
    let u := unit lowFirst a b
    if isLowSurrogate u then textFault .strayLowSurrogate
    else if isHighSurrogate u then
      match rest with
      | c :: d :: _ =>
        let v := unit lowFirst c d
        if isLowSurrogate v then
          allowed (Char.ofNat (0x10000 + (u - 0xd800) * 0x400 + (v - 0xdc00)))
        else textFault .missingLowSurrogate
      | _ => textFault .cutSurrogatePair
    else allowed (Char.ofNat u)

/-- How the characters of a text are kept. -/
inductive Encoding
  | utf8
  | utf16 (lowFirst : Bool)
  deriving DecidableEq, Repr

namespace Encoding

/-- The number of bytes of the character that starts with a byte, as far as its start tells. -/
def width (b : UInt8) (rest : List UInt8) : Encoding → Nat
  | utf8 => max 1 (leadWidth b)
  | utf16 lowFirst =>
    match rest with
    | [] => 2
    | c :: _ => if isHighSurrogate (unit lowFirst b c) then 4 else 2

/-- The character that starts with a byte. -/
def first (b : UInt8) (rest : List UInt8) : Encoding → Except Fault Char
  | utf8 => ofUtf8 b rest
  | utf16 lowFirst => ofUtf16 lowFirst b rest

end Encoding

/-! ### Pieces -/

def pieceSize : Nat := 512

/-- What was read of a text. -/
structure Pieces where
  /-- The pieces before the first fault. -/
  whole : List (List Char)
  /-- The first fault. -/
  fault : Option Fault
  deriving Repr

namespace Pieces

/-- Reads on in a piece of which so many bytes are left. A character that does not fit into the
    piece, or is cut off by the end of the text, starts the next one. -/
def readFrom (e : Encoding) (left : Nat) (piece : List Char) (done : List (List Char)) :
    List UInt8 → Pieces
  | [] => ⟨(piece.reverse :: done).reverse, none⟩
  | b :: rest =>
    let width := e.width b rest
    let isNext := left < width || (rest.take (width - 1)).length < width - 1
    let done := if isNext then piece.reverse :: done else done
    match e.first b rest with
    | .error fault => ⟨done.reverse, some fault⟩
    | .ok c =>
      readFrom e ((if isNext then pieceSize else left) - width)
        (if isNext then [c] else c :: piece) done (rest.drop (width - 1))
termination_by bytes => bytes.length
decreasing_by simp only [List.length_drop, List.length_cons]; omega

/-- The characters of a file. A mark at the start gives the encoding and is no part of the text, but
    of the first piece. -/
def ofBytes : List UInt8 → Pieces
  | 0xff :: 0xfe :: rest => readFrom (.utf16 true) (pieceSize - 2) [] [] rest
  | 0xfe :: 0xff :: rest => readFrom (.utf16 false) (pieceSize - 2) [] [] rest
  | 0xef :: 0xbb :: 0xbf :: rest => readFrom .utf8 (pieceSize - 3) [] [] rest
  | bytes => readFrom .utf8 pieceSize [] [] bytes

/-- The characters that can be read. -/
def chars (p : Pieces) : List Char := p.whole.flatten

/-- The number of characters in the first piece. -/
def firstSize (p : Pieces) : Nat := (p.whole.headD []).length

end Pieces

end KernelReach.Yaml
