import KernelReach.Binary.Reader

/-!
# Modified UTF-8

Class files write text as UTF-16 units of one to three bytes each. The unit zero takes two bytes,
so that no byte of a text is zero, and a character beyond U+FFFF is a pair of surrogates of three
bytes each. Two and three byte forms may be longer than needed. In the text that results, a
surrogate without its partner is the replacement character.
-/

namespace KernelReach.Binary.ModifiedUtf8

/-- The bytes that spell an ASCII character other than NUL. -/
def isPlain (b : UInt8) : Bool := b != 0 && b < 0x80

/-- Whether `b` continues a unit of several bytes. -/
def isContinuation (b : UInt8) : Bool := b &&& 0xc0 == 0x80

/-- The six bits that a continuation byte carries. -/
def payload (b : UInt8) : UInt16 := (b &&& 0x3f).toUInt16

/-- Splits bytes into units. -/
def units? : Bytes → Option (List UInt16)
  | [] => some []
  | a :: bs =>
    if isPlain a then (units? bs).map (a.toUInt16 :: ·)
    else if a &&& 0xe0 == 0xc0 then
      match bs with
      | b :: rest =>
        if isContinuation b then
          (units? rest).map (((a &&& 0x1f).toUInt16 <<< 6 ||| payload b) :: ·)
        else none
      | [] => none
    else if a &&& 0xf0 == 0xe0 then
      match bs with
      | b :: c :: rest =>
        if isContinuation b && isContinuation c then
          (units? rest).map
            (((a &&& 0x0f).toUInt16 <<< 12 ||| payload b <<< 6 ||| payload c) :: ·)
        else none
      | _ => none
    else none

/-- Whether `u` is the first half of a surrogate pair. -/
def isHigh (u : UInt16) : Bool := 0xd800 ≤ u && u < 0xdc00

/-- Whether `u` is the second half of a surrogate pair. -/
def isLow (u : UInt16) : Bool := 0xdc00 ≤ u && u < 0xe000

/-- The replacement character, which stands for a surrogate without its partner. -/
def replacement : Char := '�'

/-- The character that a unit spells by itself. -/
def ofUnit (u : UInt16) : Char :=
  if isHigh u || isLow u then replacement else Char.ofNat u.toNat

/-- The character beyond U+FFFF that a pair of surrogates spells. -/
def ofPair (u v : UInt16) : Char :=
  Char.ofNat (0x10000 + (u.toNat - 0xd800) * 0x400 + (v.toNat - 0xdc00))

/-- The characters that a sequence of UTF-16 units spells. -/
def ofUnits : List UInt16 → List Char
  | [] => []
  | [u] => [ofUnit u]
  | u :: v :: us =>
    if isHigh u && isLow v then ofPair u v :: ofUnits us else ofUnit u :: ofUnits (v :: us)

/-- The text that bytes spell, if they do. Plain ASCII needs no detour through units. -/
def decode? (bs : Bytes) : Option String :=
  if bs.all isPlain then some (String.ofList (bs.map fun b => Char.ofNat b.toNat))
  else (units? bs).map fun us => String.ofList (ofUnits us)

/-- The text of the complaint about bytes that spell nothing. -/
def invalidMessage : String := "invalid modified UTF-8"

end KernelReach.Binary.ModifiedUtf8
