import KernelReach.Files.Archive
import KernelReach.Files.Buffer
import KernelReach.Files.Inflate

/-!
# Content of archives

`ArchiveRecord.read` reads the content of an entry, which may be compressed. If the content is not
as the directory says, the reads before the one that shows it are kept. A wrong checksum shows only
after all of the content was read.
-/

namespace KernelReach.ArchiveRecord

open Binary (Bytes)

/-- What is wrong with the descriptor at an offset, which gives the checksum once more. -/
def descriptorFault? (archive : Array UInt8) (offset : Int) (r : ArchiveRecord) :
    Option ArchiveFault :=
  if offset < 0 then some .beforeStart
  else
    let bs := Archive.slice archive offset.toNat
      (Archive.descriptorMark.length + Archive.descriptorSize)
    let fields :=
      if Archive.descriptorMark.isPrefixOf bs then bs.drop Archive.descriptorMark.length else bs
    if fields.length < Archive.descriptorSize then some .endedEarly
    else if Archive.numberAt fields 0 4 ≠ r.checksum then some .checksum
    else none

/-- What is wrong with content of the right size, before the offset `next`. If there is no
    descriptor, a checksum of zero stands for none. -/
def checkFault? (archive : Array UInt8) (next : Int) (content : Bytes) (r : ArchiveRecord) :
    Option ArchiveFault :=
  let differs := (Checksum.of content).toNat ≠ r.checksum
  if r.hasDescriptor then
    (r.descriptorFault? archive next).or (if differs then some .checksum else none)
  else if r.checksum ≠ 0 ∧ differs then some .checksum
  else none

/-- The first reads that are together no longer than some size, and whether these are all. -/
def within (size : Nat) : (reads : List Bytes) → Bytes × Bool
  | [] => ([], true)
  | p :: ps =>
    if size < p.length then ([], false)
    else
      let (kept, isAll) := within (size - p.length) ps
      (p ++ kept, isAll)

/-- What is kept of the reads of the content, and what is wrong. The last read was told the end or
    a fault. -/
def received (r : ArchiveRecord) (reads : List Bytes × Bytes) (fault : Option ArchiveFault)
    (check : Bytes → Option ArchiveFault) : Bytes × Option ArchiveFault :=
  let (kept, isAll) := within r.size reads.1
  let all := kept ++ reads.2
  if !isAll ∨ r.size < all.length then (kept, some .notArchive)
  else if fault.isSome then (all, fault)
  else if all.length < r.size then (kept, some .endedEarly)
  else (all, check all)

/-- Reads the content of an entry: what could be read of it, and what is wrong if that is not all.
    -/
def read (archive : Array UInt8) (r : ArchiveRecord) : Bytes × Option ArchiveFault :=
  let header := Archive.slice archive r.offset.toNat Archive.headerSize
  if r.offset < 0 then ([], some .beforeStart)
  else if header.length < Archive.headerSize then ([], some .ended)
  else if !Archive.headerMark.isPrefixOf header then ([], some .notArchive)
  else
    let start := r.offset.toNat + Archive.headerSize + Archive.numberAt header 26 2
      + Archive.numberAt header 28 2
    let stored := Archive.slice archive start r.storedSize
    let check (content : Bytes) : Option ArchiveFault :=
      r.checkFault? archive (Archive.offsetOf (start + r.storedSize)) content
    match r.method with
    | 0 =>
      let portions := if stored.length = r.storedSize then [stored, []] else [stored]
      r.received (Buffer.reads false .first portions) none check
    | 8 =>
      let decoded := Inflate.inflate stored
      let fault := decoded.fault.map fun
        | .corrupt offset => ArchiveFault.corrupt offset
        | .endedEarly => .endedEarly
      r.received (Buffer.reads true .first decoded.portions) fault check
    | _ => ([], some .compression)

end KernelReach.ArchiveRecord
