import KernelReach.Binary.Reader

/-!
# Checksums

The checksum of some bytes is the remainder of a division of polynomials over two elements, with 32
bits, the least bit of each byte first.
-/

namespace KernelReach.Checksum

open Binary (Bytes)

/-- One step of the division. -/
def shift (c : UInt32) : UInt32 := if c &&& 1 = 1 then (c >>> 1) ^^^ 0xEDB88320 else c >>> 1

/-- The remainder after one more byte. -/
def addByte (c : UInt32) (b : UInt8) : UInt32 :=
  (List.range 8).foldl (fun c _ => shift c) (c ^^^ b.toUInt32)

/-- The checksum of some bytes. -/
def of (bs : Bytes) : UInt32 := (bs.foldl addByte 0xFFFFFFFF) ^^^ 0xFFFFFFFF

end KernelReach.Checksum
