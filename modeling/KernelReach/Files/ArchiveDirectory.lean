import KernelReach.Files.Archive

/-!
# Directories of archives

The record at the end of an archive says how many records the directory has, how large it is and
where it starts. `records` finds that record and reads the directory.

Numbers that do not fit are given in wide form: those of the record at the end in a wide record
before it, and those of a record of the directory in one of its extra fields.
-/

namespace KernelReach.Archive

open Binary (Bytes)

/-! ### Records -/

/-- What is missing where some bytes are too few. -/
def missing (bs : Bytes) : ArchiveFault := if bs.isEmpty then .ended else .endedEarly

/-- The extra fields of a record, with their tags. -/
def extraFields : Bytes → List (Nat × Bytes)
  | t0 :: t1 :: s0 :: s1 :: rest =>
    let size := number [s0, s1]
    if rest.length < size then []
    else (number [t0, t1], rest.take size) :: extraFields (rest.drop size)
  | _ => []
termination_by bs => bs.length
decreasing_by all_goals simp only [List.length_drop, List.length_cons]; omega

/-- The tag of the extra field with wide numbers. -/
def wideTag : Nat := 1

/-- The number that stands for one in wide form. -/
def isWide (n : Nat) : Bool := n == 0xffffffff

/-- A number of a record, and what is left of its wide numbers. -/
def widen (n : Nat) (wide : Bytes) : Except ArchiveFault (Nat × Bytes) :=
  if !isWide n then .ok (n, wide)
  else if wide.length < 8 then .error .notArchive
  else .ok (number (wide.take 8), wide.drop 8)

/-- The sizes and the offset of a record with given extra fields. If there is no field with wide
    numbers, they are as they are given. -/
def widenAll (size storedSize offset : Nat) (extra : Bytes) :
    Except ArchiveFault (Nat × Nat × Nat) :=
  match (extraFields extra).lookup wideTag with
  | none => .ok (size, storedSize, offset)
  | some wide => do
    let (size, wide) ← widen size wide
    let (storedSize, wide) ← widen storedSize wide
    let (offset, _) ← widen offset wide
    pure (size, storedSize, offset)

/-- Whether attributes are those of a directory, which depends on the system that wrote them. -/
def marksDirectory (system attributes : Nat) : Bool :=
  if system = 3 ∨ system = 19 then attributes / 0x10000000 = 4
  else if system = 0 ∨ system = 11 ∨ system = 14 then attributes / 0x10 % 2 = 1
  else false

/-- The record of the directory that starts at an offset, and the offset after it. Offsets in it are
    counted from `base`. -/
def recordAt (content : Array UInt8) (base : Int) (offset : Nat) :
    Except ArchiveFault (ArchiveRecord × Nat) :=
  let fixed := slice content offset recordSize
  if fixed.length < recordSize then .error (missing fixed)
  else if !recordMark.isPrefixOf fixed then .error .notArchive
  else
    let nameSize := numberAt fixed 28 2
    let extraSize := numberAt fixed 30 2
    let restSize := nameSize + extraSize + numberAt fixed 32 2
    let rest := slice content (offset + recordSize) restSize
    if rest.length < restSize then .error (missing rest)
    else do
      let (size, storedSize, start) ← widenAll (numberAt fixed 24 4) (numberAt fixed 20 4)
        (numberAt fixed 42 4) ((rest.drop nameSize).take extraSize)
      pure ({
        name := Text.hold (rest.take nameSize)
        method := numberAt fixed 10 2
        checksum := numberAt fixed 16 4
        storedSize, size
        offset := offsetOf (start + base)
        hasDescriptor := numberAt fixed 8 2 / 8 % 2 = 1
        isMarked := marksDirectory (numberAt fixed 5 1) (numberAt fixed 38 4) },
        offset + recordSize + restSize)

/-- The records from an offset on, up to the first that is not one, and why it is not. -/
def recordsFrom (content : Array UInt8) (base : Int) :
    (fuel offset : Nat) → List ArchiveRecord × ArchiveFault
  | 0, _ => ([], .notArchive)
  | fuel + 1, offset =>
    match recordAt content base offset with
    | .error e => ([], e)
    | .ok (r, next) =>
      let (rs, e) := recordsFrom content base fuel next
      (r :: rs, e)

/-! ### The end -/

/-- What the end of an archive says of the directory. -/
structure DirectoryEnd where
  /-- Where the record starts that says it. -/
  place : Nat
  /-- The number of records. -/
  count : Nat
  size : Nat
  offset : Nat
  deriving DecidableEq, Repr

/-- The last place at which some bytes, which start at an offset, have the mark of the end, with the
    bytes from there on. -/
def lastEnd? : (offset : Nat) → (found : Option (Nat × Bytes)) → Bytes → Option (Nat × Bytes)
  | _, found, [] => found
  | offset, found, b :: bs =>
    let isEnd := endMark.isPrefixOf (b :: bs) && endSize ≤ (b :: bs.take endSize).length
    lastEnd? (offset + 1) (if isEnd then some (offset, b :: bs) else found) bs

namespace DirectoryEnd

/-- What the last record says, if the remark after it is as long as it says. -/
def find? (content : Array UInt8) : Option DirectoryEnd :=
  let start := content.size - endRange
  match lastEnd? start none (slice content start endRange) with
  | none => none
  | some (place, last) =>
    if last.length < endSize + numberAt last 20 2 then none
    else some ⟨place, numberAt last 10 2, numberAt last 12 4, numberAt last 16 4⟩

/-- Whether there may be a wide record. -/
def mayBeWide (e : DirectoryEnd) : Bool :=
  e.count == 0xffff || e.size == 0xffff || isWide e.offset

/-- Where the wide record is, if there is one. -/
def widePlace? (content : Array UInt8) (e : DirectoryEnd) : Option Nat :=
  let locator := slice content (e.place - locatorSize) locatorSize
  let place := numberAt locator 8 8
  if e.mayBeWide ∧ locatorSize ≤ e.place ∧ locatorMark.isPrefixOf locator
      ∧ numberAt locator 4 4 = 0 ∧ numberAt locator 16 4 = 1 ∧ place < Number.signedLimit then
    some place
  else none

/-- What the wide record says, or the last one if there is no wide one. -/
def widened (content : Array UInt8) (e : DirectoryEnd) : Except ArchiveFault DirectoryEnd :=
  match e.widePlace? content with
  | none => .ok e
  | some place =>
    let fields := slice content place wideEndSize
    if fields.length < wideEndSize then .error .ended
    else if !wideEndMark.isPrefixOf fields then .error .notArchive
    else .ok ⟨place, numberAt fields 32 8, numberAt fields 40 8, numberAt fields 48 8⟩

/-- Where the offsets are counted from. There may be something before the archive: the directory
    ends where the record starts that tells of it. But if there is a record where the directory is
    said to start, nothing is before the archive. -/
def base (content : Array UInt8) (e : DirectoryEnd) : Int :=
  let base := offsetOf (e.place - e.size - e.offset)
  if 0 < base ∧ (recordAt content 0 e.offset).toBool then 0 else base

end DirectoryEnd

/-- The records of the directory of an archive. Of their number only the last sixteen bits are
    given. -/
def records (content : Array UInt8) : Except ArchiveFault (List ArchiveRecord) :=
  match DirectoryEnd.find? content with
  | none => .error .notArchive
  | some last => do
    let e ← last.widened content
    if Number.signedLimit ≤ e.size ∨ Number.signedLimit ≤ e.offset ∨ e.place < e.size
        ∨ content.size ≤ e.place - e.size then throw .notArchive
    let base := e.base content
    let (found, why) := recordsFrom content base content.size (offsetOf (base + e.offset)).toNat
    if why = .ended ∨ found.length % 0x10000 ≠ e.count % 0x10000 then throw why
    pure found

end KernelReach.Archive
