import KernelReach.Binary.Reader
import Mathlib.Algebra.Ring.Nat
import Mathlib.Data.List.Forall2

/-!
# Reading what was written

`Reads r bs a` says that the reader `r` takes exactly the bytes `bs` from the front of whatever it
is given, and makes `a` of them. There is a rule for each way in which readers are put together, so
that a reader can be followed through bytes that were put together in the same way.
-/

namespace KernelReach.Binary

@[simp]
theorem length_putBigEndian (width n : Nat) : (putBigEndian width n).length = width := by
  induction width generalizing n with
  | zero => rfl
  | succ width ih => rw [putBigEndian, List.length_append, ih, List.length_singleton]

theorem bigEndian_concat (bs : Bytes) (b : UInt8) :
    bigEndian (bs ++ [b]) = 256 * bigEndian bs + b.toNat := by
  rw [bigEndian, List.foldl_append]
  rfl

/-- A number is read back as far as it fits. -/
theorem bigEndian_putBigEndian (width n : Nat) :
    bigEndian (putBigEndian width n) = n % 256 ^ width := by
  induction width generalizing n with
  | zero => exact (Nat.mod_one n).symm
  | succ width ih =>
    have hbyte : (UInt8.ofNat n).toNat = n % 256 := rfl
    rw [putBigEndian, bigEndian_concat, ih, hbyte, Nat.pow_succ, Nat.mul_comm (256 ^ width),
      Nat.mod_mul, Nat.add_comm]

namespace Reader

variable {ε δ α β : Type} {r : Reader ε α} {bs bs' : Bytes} {a : α}

/-- The reader takes the bytes `bs`, neither less nor more, and returns `a`. -/
def Reads (r : Reader ε α) (bs : Bytes) (a : α) : Prop := ∀ rest, r (bs ++ rest) = .ok (a, rest)

theorem reads_pure (a : α) : Reads (pure a : Reader ε α) [] a := fun _ => rfl

theorem Reads.bind {f : α → Reader ε β} {b : β} (h : Reads r bs a) (h' : Reads (f a) bs' b) :
    Reads (r >>= f) (bs ++ bs') b := by
  intro rest
  change (r (bs ++ bs' ++ rest) >>= fun p => f p.1 p.2) = _
  rw [List.append_assoc, h]
  exact h' rest

/-- A step after a reader that takes nothing. -/
theorem Reads.bind_nil {f : α → Reader ε β} {b : β} (h : Reads r [] a) (h' : Reads (f a) bs b) :
    Reads (r >>= f) bs b :=
  h.bind h'

/-- A step that takes nothing after a reader. -/
theorem Reads.nil_bind {f : α → Reader ε β} {b : β} (h : Reads r bs a) (h' : Reads (f a) [] b) :
    Reads (r >>= f) bs b := by
  have := h.bind h'
  rwa [List.append_nil] at this

theorem reads_u1 (e : ε) (b : UInt8) : Reads (u1 e) [b] b := fun _ => rfl

theorem reads_u2_mod (e : ε) (n : Nat) : Reads (u2 e) (putBigEndian 2 n) (n % 65536) := by
  intro rest
  have hsize : n % 256 ^ 2 = n % 65536 := rfl
  rw [show u2 e (putBigEndian 2 n ++ rest) = .ok (bigEndian (putBigEndian 2 n), rest) from rfl,
    bigEndian_putBigEndian, hsize]

theorem reads_u2 (e : ε) {n : Nat} (h : n < 65536) : Reads (u2 e) (putBigEndian 2 n) n := by
  have := reads_u2_mod e n
  rwa [Nat.mod_eq_of_lt h] at this

theorem reads_u4 (e : ε) {n : Nat} (h : n < 4294967296) : Reads (u4 e) (putBigEndian 4 n) n := by
  intro rest
  have hsize : n % 256 ^ 4 = n := Nat.mod_eq_of_lt h
  rw [show u4 e (putBigEndian 4 n ++ rest) = .ok (bigEndian (putBigEndian 4 n), rest) from rfl,
    bigEndian_putBigEndian, hsize]

theorem drop?_append (bs rest : Bytes) : drop? bs.length (bs ++ rest) = some rest := by
  induction bs with
  | nil => rfl
  | cons b bs ih => exact ih

theorem split?_append (bs rest : Bytes) : split? bs.length (bs ++ rest) = some (bs, rest) := by
  induction bs with
  | nil => rfl
  | cons b bs ih =>
    rw [List.length_cons, List.cons_append, split?, ih]
    rfl

theorem reads_skip (e : ε) {n : Nat} (h : bs.length = n) : Reads (skip e n) bs () := by
  intro rest
  rw [skip, ← h, drop?_append]

theorem reads_bytes (e : ε) {n : Nat} (h : bs.length = n) : Reads (bytes e n) bs bs := by
  intro rest
  rw [bytes, ← h, split?_append]

theorem reads_lift {f : δ → ε} {x : Except δ α} (h : x = .ok a) : Reads (lift f x) [] a := by
  subst h
  exact fun _ => rfl

theorem Reads.adapt {r : Reader δ α} (f : δ → ε) (h : Reads r bs a) : Reads (adapt f r) bs a := by
  intro rest
  rw [Reader.adapt, h]
  rfl

/-- A reader that is repeated takes one piece after the other. -/
theorem reads_times {r : Nat → Reader ε α} {pieces : List Bytes} {as : List α}
    (h : List.Forall₂ (fun bs a => ∀ i, Reads (r i) bs a) pieces as) (i : Nat) :
    Reads (times r i as.length) pieces.flatten as := by
  induction h generalizing i with
  | nil => exact reads_pure []
  | cons ha _ ih => exact (ha i).bind ((ih (i + 1)).nil_bind (reads_pure _))

end Reader

end KernelReach.Binary
