import KernelReach.Files.Checksum
import KernelReach.Number.Power
import KernelReach.Text.Affix
import KernelReach.Text.Numeral
import KernelReach.Text.Utf8

/-!
# Archives

An archive is a file that holds named entries, in order and possibly with repeated names. Each entry
is a header and its content; after all of them there is a directory with a record for each, and
after that a record that tells where the directory starts. Numbers are written with the least byte
first.

`encode` writes entries as they are. What a directory says of an entry is an `ArchiveRecord`.
-/

namespace KernelReach

open Binary (Bytes)

/-- What is wrong with an archive or an entry. -/
inductive ArchiveFault
  | notArchive
  | compression
  | checksum
  /-- There is nothing where something should start. -/
  | ended
  | endedEarly
  /-- Something should start before the file does. -/
  | beforeStart
  | corrupt (offset : Nat)
  deriving DecidableEq, Repr

def ArchiveFault.message (path : String) : ArchiveFault → String
  | notArchive => "zip: not a valid zip file"
  | compression => "zip: unsupported compression algorithm"
  | checksum => "zip: checksum error"
  | ended => "EOF"
  | endedEarly => "unexpected EOF"
  | beforeStart => "readat " ++ path ++ ": negative offset"
  | corrupt offset => "flate: corrupt input before offset " ++ Text.decimal 1 offset

/-- An entry that is to be written. -/
structure ArchiveEntry where
  name : String
  content : Bytes
  /-- The number of the way in which the content is said to be compressed; zero if it is not. -/
  method : Nat := 0
  /-- The checksum that the entry is said to have. -/
  checksum : UInt32 := Checksum.of content
  deriving DecidableEq, Repr

/-- What the directory of an archive says of an entry. -/
structure ArchiveRecord where
  /-- The name, which holds stray bytes. -/
  name : String
  method : Nat
  checksum : Nat
  /-- The number of bytes that the content takes in the archive. -/
  storedSize : Nat
  size : Nat
  /-- Where the header of the entry starts. -/
  offset : Int
  /-- Whether the checksum is given once more after the content. -/
  hasDescriptor : Bool
  /-- Whether the entry is marked as a directory. -/
  isMarked : Bool
  deriving DecidableEq, Repr

namespace ArchiveRecord

/-- Whether the entry stands for a directory. -/
def isDirectory (r : ArchiveRecord) : Bool := r.isMarked || Text.endsWith "/" r.name

/-- The name without the slash that it may start with. -/
def localName (r : ArchiveRecord) : String := Text.dropStart "/" r.name

end ArchiveRecord

namespace Archive

/-- A number in some bytes, the least first. -/
def littleEndian : (width : Nat) → Nat → Bytes
  | 0, _ => []
  | width + 1, n => UInt8.ofNat n :: littleEndian width (n / 256)

/-- The number that bytes stand for, the least first. -/
def number : Bytes → Nat
  | [] => 0
  | b :: bs => b.toNat + 256 * number bs

/-! ### Marks and sizes -/

/-- The start of the header of an entry. -/
def headerMark : Bytes := [0x50, 0x4B, 0x03, 0x04]

/-- The start of a record of the directory. -/
def recordMark : Bytes := [0x50, 0x4B, 0x01, 0x02]

/-- The start of the record at the end. -/
def endMark : Bytes := [0x50, 0x4B, 0x05, 0x06]

/-- The start of the record that tells where the wide record at the end is. -/
def locatorMark : Bytes := [0x50, 0x4B, 0x06, 0x07]

/-- The start of the wide record at the end. -/
def wideEndMark : Bytes := [0x50, 0x4B, 0x06, 0x06]

/-- The start that a descriptor may have. -/
def descriptorMark : Bytes := [0x50, 0x4B, 0x07, 0x08]

/-- The size of a header without the name. -/
def headerSize : Nat := 30

/-- The size of a record without the name. -/
def recordSize : Nat := 46

/-- The size of the record at the end without the remark after it. -/
def endSize : Nat := 22

/-- The size of the record that tells where the wide record at the end is. -/
def locatorSize : Nat := 20

def wideEndSize : Nat := 56

/-- The size of a descriptor without the start that it may have. -/
def descriptorSize : Nat := 12

/-- The number of bytes at the end in which the last record is looked for. -/
def endRange : Nat := 65 * 1024

/-! ### Writing -/

/-- What header and record have in common: method, time, checksum and sizes. -/
def commonFields (e : ArchiveEntry) : Bytes :=
  littleEndian 2 e.method ++ littleEndian 4 0 ++ littleEndian 4 e.checksum.toNat
    ++ littleEndian 4 e.content.length ++ littleEndian 4 e.content.length
    ++ littleEndian 2 e.name.utf8ByteSize ++ littleEndian 2 0

def encodeEntry (e : ArchiveEntry) : Bytes :=
  headerMark ++ littleEndian 4 0 ++ commonFields e ++ Text.toBytes e.name ++ e.content

/-- The record of an entry that starts at an offset. -/
def encodeRecord (e : ArchiveEntry) (offset : Nat) : Bytes :=
  recordMark ++ littleEndian 6 0 ++ commonFields e ++ littleEndian 10 0 ++ littleEndian 4 offset
    ++ Text.toBytes e.name

/-- The records of entries of which the first starts at an offset. -/
def encodeRecords : (offset : Nat) → List ArchiveEntry → Bytes
  | _, [] => []
  | offset, e :: es =>
    encodeRecord e offset ++ encodeRecords (offset + (encodeEntry e).length) es

def encode (entries : List ArchiveEntry) : Bytes :=
  let body := entries.flatMap encodeEntry
  let directory := encodeRecords 0 entries
  body ++ directory ++ endMark ++ littleEndian 4 0 ++ littleEndian 2 entries.length
    ++ littleEndian 2 entries.length ++ littleEndian 4 directory.length
    ++ littleEndian 4 body.length ++ littleEndian 2 0

/-! ### Places -/

/-- Some bytes at an offset, or fewer if there are not as many. -/
def slice (content : Array UInt8) (offset size : Nat) : Bytes :=
  let start := min offset content.size
  (content.extract start (min (start + size) content.size)).toList

def numberAt (bs : Bytes) (offset width : Nat) : Nat := number ((bs.drop offset).take width)

/-- A sum as an offset, which has 64 bits and a sign. -/
def offsetOf (n : Int) : Int := n.bmod Number.wordCount

end Archive

end KernelReach
