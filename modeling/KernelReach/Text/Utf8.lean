/-!
# Text and bytes

Text is kept in files as UTF-8. Bytes that are not UTF-8 can be told apart from those that are: each
byte with which no character starts stands for itself.

Names of files and parts of addresses are bytes and are used as text. So that different names stay
different, `hold` keeps a stray byte as a character that is set aside for private use, from which
`heldBytes` gives it back. Where such a text is printed, `shown` puts the replacement character in
its place.
-/

namespace KernelReach.Text

/-- A piece of what should be text: a character, or a byte with which no character starts. -/
inductive Piece
  | char (c : Char)
  | stray (b : UInt8)
  deriving DecidableEq, Repr

/-- Whether a byte continues a character. -/
def isTail (b : UInt8) : Bool := 0x80 ≤ b && b < 0xc0

/-- The bits of a byte that continues a character. -/
def tailBits (b : UInt8) : Nat := b.toNat % 0x40

/-- The character that starts with `b`, and the number of bytes after `b` that belong to it. The
    shortest form is the only one, and halves of surrogate pairs are no characters. -/
def charAt? (b : UInt8) (rest : List UInt8) : Option (Char × Nat) :=
  if b < 0x80 then some (Char.ofNat b.toNat, 0)
  else match rest with
    | b1 :: more =>
      if !isTail b1 then none
      else if 0xc2 ≤ b && b < 0xe0 then
        some (Char.ofNat (b.toNat % 0x20 * 0x40 + tailBits b1), 1)
      else match more with
        | b2 :: more =>
          if !isTail b2 then none
          else if 0xe0 ≤ b && b < 0xf0 then
            let n := b.toNat % 0x10 * 0x1000 + tailBits b1 * 0x40 + tailBits b2
            if n < 0x800 || (0xd800 ≤ n && n < 0xe000) then none else some (Char.ofNat n, 2)
          else match more with
            | b3 :: _ =>
              let n := b.toNat % 0x10 * 0x40000 + tailBits b1 * 0x1000 + tailBits b2 * 0x40
                + tailBits b3
              if isTail b3 && 0xf0 ≤ b && b < 0xf5 && 0x10000 ≤ n && n < 0x110000 then
                some (Char.ofNat n, 3)
              else none
            | [] => none
        | [] => none
    | [] => none

def pieces : List UInt8 → List Piece
  | [] => []
  | b :: rest =>
    match charAt? b rest with
    | some (c, n) => .char c :: pieces (rest.drop n)
    | none => .stray b :: pieces rest
termination_by bytes => bytes.length
decreasing_by all_goals simp only [List.length_drop, List.length_cons]; omega

/-- The text of bytes, if they are text. -/
def ofBytes? (bytes : List UInt8) : Option String := String.fromUTF8? ⟨bytes.toArray⟩

/-- A piece as a character; a stray byte becomes the replacement character. -/
def Piece.shown : Piece → Char
  | char c => c
  | stray _ => '�'

/-- The text of bytes; stray bytes become replacement characters. -/
def ofBytes (bytes : List UInt8) : String :=
  (ofBytes? bytes).getD (String.ofList ((pieces bytes).map Piece.shown))

def toBytes (s : String) : List UInt8 := s.toUTF8.toList

/-! ### Held bytes -/

/-- Where the characters start that hold stray bytes. -/
def holderBase : Nat := 0x10dc00

def heldByte? (c : Char) : Option UInt8 :=
  if holderBase + 0x80 ≤ c.toNat ∧ c.toNat < holderBase + 0x100 then
    some (UInt8.ofNat (c.toNat - holderBase))
  else none

/-- A piece as a character, which holds a stray byte. -/
def Piece.held : Piece → Char
  | char c => c
  | stray b => Char.ofNat (holderBase + b.toNat)

/-- The text of bytes, which holds those that are stray. -/
def hold (bytes : List UInt8) : String :=
  (ofBytes? bytes).getD (String.ofList ((pieces bytes).map Piece.held))

/-- The bytes of a text, with those that it holds. -/
def heldBytes (s : String) : List UInt8 :=
  s.toList.flatMap fun c =>
    match heldByte? c with
    | some b => [b]
    | none => String.utf8EncodeChar c

/-- A text in which replacement characters stand for the bytes that it holds. -/
def shown (s : String) : String := s.map fun c => if (heldByte? c).isSome then '�' else c

end KernelReach.Text
