/-!
# Reading bytes

Binary formats are read from the front of a list of bytes. A reader returns a value and the bytes
after it, or fails; every number is big-endian. The only thing that can go wrong at this level is
that the bytes end too early.
-/

namespace KernelReach.Binary

/-- A sequence of bytes. -/
abbrev Bytes := List UInt8

/-- A step that takes bytes from the front, or fails with a cause of type `ε`. -/
abbrev Reader (ε α : Type) := StateT Bytes (Except ε) α

/-- The first `n` bytes and the rest, if there are as many. -/
def split? : Nat → Bytes → Option (Bytes × Bytes)
  | 0, bs => some ([], bs)
  | _ + 1, [] => none
  | n + 1, b :: bs => (split? n bs).map fun (taken, rest) => (b :: taken, rest)

/-- The bytes after the first `n`, if there are as many. -/
def drop? : Nat → Bytes → Option Bytes
  | 0, bs => some bs
  | _ + 1, [] => none
  | n + 1, _ :: bs => drop? n bs

/-- The number that a list of bytes spells. -/
def bigEndian (bs : Bytes) : Nat := bs.foldl (fun n b => 256 * n + b.toNat) 0

namespace Reader

variable {ε : Type}

/-- Takes `n` bytes; `truncated` is the failure if they are not there. -/
def bytes (truncated : ε) (n : Nat) : Reader ε Bytes := fun bs =>
  match split? n bs with
  | some r => .ok r
  | none => .error truncated

/-- Passes over `n` bytes. -/
def skip (truncated : ε) (n : Nat) : Reader ε Unit := fun bs =>
  match drop? n bs with
  | some rest => .ok ((), rest)
  | none => .error truncated

def u1 (truncated : ε) : Reader ε UInt8
  | b :: rest => .ok (b, rest)
  | [] => .error truncated

/-- Reads a number of two bytes. -/
def u2 (truncated : ε) : Reader ε Nat
  | a :: b :: rest => .ok (bigEndian [a, b], rest)
  | _ => .error truncated

/-- Reads a number of four bytes. -/
def u4 (truncated : ε) : Reader ε Nat
  | a :: b :: c :: d :: rest => .ok (bigEndian [a, b, c, d], rest)
  | _ => .error truncated

/-- Turns the failure of a step without effect into a failure of the reader. -/
def lift {δ α : Type} (f : δ → ε) (x : Except δ α) : Reader ε α := fun bs =>
  match x with
  | .ok a => .ok (a, bs)
  | .error e => .error (f e)

/-- The same reader with its failures renamed. -/
def adapt {δ α : Type} (f : δ → ε) (r : Reader δ α) : Reader ε α := fun bs =>
  (r bs).mapError f

/-- Repeats a reader `n` times, counting from `i`. -/
def times {α : Type} (r : Nat → Reader ε α) : (i n : Nat) → Reader ε (List α)
  | _, 0 => pure []
  | i, n + 1 => do
    let a ← r i
    let as ← times r (i + 1) n
    pure (a :: as)

/-! ### Readers move forward -/

/-- What a reader leaves is a suffix of what it was given. -/
def Advances {α : Type} (r : Reader ε α) : Prop :=
  ∀ bs a rest, r bs = .ok (a, rest) → rest <:+ bs

theorem advances_pure {α : Type} (a : α) : Advances (pure a : Reader ε α) := by
  intro bs b rest h
  cases h
  exact List.suffix_refl bs

theorem advances_throw {α : Type} (e : ε) : Advances (throw e : Reader ε α) := by
  intro bs b rest h
  cases h

theorem advances_bind {α β : Type} {r : Reader ε α} {f : α → Reader ε β}
    (hr : Advances r) (hf : ∀ a, Advances (f a)) : Advances (r >>= f) := by
  intro bs b rest h
  change (r bs >>= fun p => f p.1 p.2) = _ at h
  cases hb : r bs with
  | error e => rw [hb] at h; cases h
  | ok p =>
    rw [hb] at h
    exact (hf p.1 p.2 b rest h).trans (hr bs p.1 p.2 hb)

theorem advances_map {α β : Type} {r : Reader ε α} (f : α → β) (hr : Advances r) :
    Advances (f <$> r) := by
  intro bs b rest h
  change (r bs >>= fun p => pure (f p.1, p.2)) = _ at h
  cases hb : r bs with
  | error e => rw [hb] at h; cases h
  | ok p =>
    rw [hb] at h
    cases h
    exact hr bs p.1 p.2 hb

theorem drop?_suffix {n : Nat} {bs rest : Bytes} (h : drop? n bs = some rest) : rest <:+ bs := by
  induction n generalizing bs with
  | zero => cases h; exact List.suffix_refl _
  | succ n ih =>
    match bs with
    | [] => cases h
    | b :: bs => exact (ih h).trans (List.suffix_cons b bs)

theorem advances_skip (truncated : ε) (n : Nat) : Advances (skip truncated n) := by
  intro bs a rest h
  unfold skip at h
  split at h
  · rename_i r hr
    cases h
    exact drop?_suffix hr
  · cases h

theorem advances_u1 (truncated : ε) : Advances (u1 truncated) := by
  intro bs a rest h
  match bs with
  | [] => cases h
  | b :: bs => cases h; exact List.suffix_cons _ _

theorem advances_u2 (truncated : ε) : Advances (u2 truncated) := by
  intro bs a rest h
  match bs with
  | [] | [_] => cases h
  | b :: c :: bs => cases h; exact ⟨[b, c], rfl⟩

theorem advances_u4 (truncated : ε) : Advances (u4 truncated) := by
  intro bs a rest h
  match bs with
  | [] | [_] | [_, _] | [_, _, _] => cases h
  | b :: c :: d :: e :: bs => cases h; exact ⟨[b, c, d, e], rfl⟩

theorem advances_lift {δ α : Type} (f : δ → ε) (x : Except δ α) : Advances (lift f x) := by
  intro bs a rest h
  unfold lift at h
  split at h <;> cases h
  exact List.suffix_refl _

end Reader

/-- The last `width` bytes of a number, most significant first. -/
def putBigEndian : (width : Nat) → Nat → Bytes
  | 0, _ => []
  | width + 1, n => putBigEndian width (n / 256) ++ [UInt8.ofNat n]

end KernelReach.Binary
