import KernelReach.Binary.Reader
import KernelReach.Number.Power

/-!
# Reading into buffers

What is read to its end without knowing how long it is goes into a row of buffers, each about half
as large again as the one before. It flows in portions: a read gets as much of one portion as there
is room for in the buffer. `reads` tells what each read gets, and what the one gets that is told the
end.
-/

namespace KernelReach

open Binary (Bytes)

/-- A buffer that is being filled. -/
structure Buffer where
  capacity : Nat
  free : Nat
  /-- The least size of the next buffer. -/
  next : Nat
  deriving DecidableEq, Repr

namespace Buffer

def first : Buffer := ⟨512, 512, 256⟩

/-- The sizes of memory up to the greatest that is not a number of pages. -/
def sizes : List Nat :=
  [256, 288, 320, 352, 384, 416, 448, 480, 512, 576, 640, 704, 768, 896, 1024, 1152, 1280, 1408,
    1536, 1792, 2048, 2304, 2688, 3072, 3200, 3456, 4096, 4864, 5120, 5376, 6144, 6528, 6784, 6912,
    8192, 9472, 9728, 10240, 10880, 12288, 13568, 14336, 16384, 18432, 19072, 20480, 21760, 24576,
    27264, 28672, 32768]

def pageSize : Nat := 8192

/-- The size of the memory that is given for a least size. -/
def sizeFor (least : Nat) : Nat :=
  (sizes.find? (least ≤ ·)).getD ((least + pageSize - 1) / pageSize * pageSize)

/-- The buffer to go on with after a read into this one: the next one, if this one is nearly full.
    -/
def after (b : Buffer) (read : Nat) : Buffer :=
  let free := b.free - read
  if free < b.capacity / 16 then
    let size := sizeFor b.next
    ⟨size, size, b.next + b.next / 2⟩
  else { b with free }

/-- What a read can get; there is always room for a byte. -/
def room (b : Buffer) : Nat := max b.free 1

/-- What the reads get of some portions, and what the last one gets, which is told the end. If
    `isEager` is set, the end is told to the read that gets the last byte, and otherwise to one that
    does not fill the buffer. -/
def reads (isEager : Bool) (b : Buffer) : (portions : List Bytes) → List Bytes × Bytes
  | [] => ([], [])
  | [p] =>
    if p.length < b.room ∨ (isEager ∧ p.length = b.room) then ([], p)
    else
      let (rs, last) := reads isEager (b.after b.room) [p.drop b.room]
      (p.take b.room :: rs, last)
  | p :: q :: ps =>
    if p.isEmpty then reads isEager b (q :: ps)
    else if p.length ≤ b.room then
      let (rs, last) := reads isEager (b.after p.length) (q :: ps)
      (p :: rs, last)
    else
      let (rs, last) := reads isEager (b.after b.room) (p.drop b.room :: q :: ps)
      (p.take b.room :: rs, last)
termination_by portions => Number.total (portions.map (·.length)) + portions.length
decreasing_by
  all_goals
    have : 1 ≤ b.room := Nat.le_max_right _ _
    simp only [List.map_cons, List.map_nil, Number.total_cons, Number.total_nil, List.length_cons,
      List.length_nil, List.length_drop]
    omega

end Buffer

end KernelReach
