import KernelReach.Proofs.Binary.Decoding

/-!
# Going through a code

A body holds all that a code decodes to. Whoever goes through a code, though, gets its items one by
one, and the next instruction is decoded only if it is asked for: `Code.iterate` is that loop.

* `iterateFrom_eq_feed`: it hands out the items of the body in their order, as long as they are
  asked for, so that to stop after some items is to have seen the first ones of the body
  (`feed_collect`);
* `decode_segments`: on arbitrary bytes, the items are the instructions with which the code begins
  and, unless they are all of it, one fault where no further instruction fits.
-/

namespace KernelReach

/-- What is handed out of a body, in order: its instructions, and then its fault if it has one. -/
def Body.items (b : Body) : List (Except CodeFault Instruction) :=
  b.instructions.map .ok ++ (b.fault.map .error).toList

theorem Body.length_items_le (b : Body) : b.items.length ≤ b.instructions.length + 1 := by
  rw [items, List.length_append, List.length_map]
  cases b.fault <;> simp

/-- A reader who stops after `n` instructions sees the first `n` items, if there are as many. -/
theorem Body.items_take (b : Body) (n : Nat) : (b.take n).items = b.items.take n := by
  rw [Body.take]
  split_ifs with hn
  · rw [items, items, List.take_append_of_le_length (by rwa [List.length_map]), List.map_take]
    exact List.append_nil _
  · rw [List.take_of_length_le]
    have hlength := b.length_items_le
    omega

namespace Binary

variable {σ α : Type} {pool : ConstantPool} {pc : Nat}

/-- Hands the items of a code, which begins at `pc`, to `yield` as long as it asks for more. An
    instruction is decoded when it is its turn. -/
def Code.iterateFrom (pool : ConstantPool) (yield : Except CodeFault Instruction → StateM σ Bool)
    (pc : Nat) (code : Bytes) : StateM σ Unit :=
  match code with
  | [] => pure ()
  | op :: rest =>
    match _h : readOperands pool pc op rest with
    | .error fault => discard (yield (.error ⟨pc, op, s!"offset {pc}: " ++ fault.message⟩))
    | .ok ((invoke, size), after) => do
      if ← yield (.ok ⟨pc, op, invoke⟩) then
        iterateFrom pool yield (pc + 1 + size) after
termination_by code.length
decreasing_by
  exact Nat.lt_succ_of_le (advances_readOperands pool pc op _ _ _ _h).length_le

/-- Goes through a code. -/
def Code.iterate (pool : ConstantPool) (yield : Except CodeFault Instruction → StateM σ Bool)
    (code : Bytes) : StateM σ Unit :=
  iterateFrom pool yield 0 code

/-- Hands out the items of a list as long as `yield` asks for more. -/
def feed (yield : α → StateM σ Bool) : List α → StateM σ Unit
  | [] => pure ()
  | a :: as => do
    if ← yield a then feed yield as

/-- Keeps what it is given, and asks for more until it has `n` items. -/
def collect (n : Nat) (a : α) : StateM (List α) Bool := fun seen =>
  (decide (seen.length + 1 < n), seen ++ [a])

theorem feed_cons (yield : α → StateM σ Bool) (a : α) (as : List α) (s : σ) :
    feed yield (a :: as) s =
      if (yield a s).1 = true then feed yield as (yield a s).2 else ((), (yield a s).2) := by
  change (if (yield a s).1 = true then feed yield as else pure ()) (yield a s).2 = _
  cases (yield a s).1 <;> rfl

/-- Who stops after some items has the first ones of the list. -/
theorem feed_collect (as seen : List α) (k : Nat) :
    (feed (collect (seen.length + k + 1)) as seen).2 = seen ++ as.take (k + 1) := by
  induction as generalizing seen k with
  | nil =>
    rw [List.take_nil, List.append_nil]
    rfl
  | cons a as ih =>
    rw [feed_cons, collect]
    cases k with
    | zero =>
      rw [if_neg (by simp)]
      rfl
    | succ k =>
      have hcount : seen.length + (k + 1) + 1 = (seen ++ [a]).length + k + 1 := by
        rw [List.length_append, List.length_singleton]
        omega
      rw [if_pos (by simp), hcount, ih, List.append_assoc, List.take_succ_cons]
      rfl

/-- Going through a code hands out the items of its body as long as they are asked for. -/
theorem iterateFrom_eq_feed (yield : Except CodeFault Instruction → StateM σ Bool) (pc : Nat)
    (code : Bytes) :
    Code.iterateFrom pool yield pc code = feed yield (Code.decodeFrom pool pc code).items := by
  fun_induction Code.iterateFrom pool yield pc code with
  | case1 pc =>
    rw [Code.decodeFrom]
    rfl
  | case2 pc op rest fault h =>
    rw [MachineInstruction.decodeFrom_of_error h]
    change _ = yield _ >>= fun more => if more = true then pure () else pure ()
    simp only [ite_self]
    rfl
  | case3 pc op rest invoke size after h ih =>
    rw [decodeFrom_cons h]
    change (yield _ >>= fun more => if more = true then _ else pure ()) =
      yield _ >>= fun more => if more = true then feed yield _ else pure ()
    rw [ih]
    rfl

namespace MachineInstruction

theorem le_offset_of_mem_listing {is : List MachineInstruction} {ins : Instruction}
    (h : ins ∈ listing pc is) : pc ≤ ins.offset := by
  induction is generalizing pc with
  | nil => exact absurd h List.not_mem_nil
  | cons i is ih =>
    rcases List.mem_cons.1 h with rfl | h
    · exact Nat.le_refl pc
    · exact Nat.le_trans (Nat.le_add_right pc _) (ih h)

/-- No two instructions begin at the same offset. -/
theorem pairwise_listing (pc : Nat) (is : List MachineInstruction) :
    (listing pc is).Pairwise (·.offset < ·.offset) := by
  induction is generalizing pc with
  | nil => exact .nil
  | cons i is ih =>
    refine .cons (fun ins hins => ?_) (ih _)
    have hle := le_offset_of_mem_listing hins
    have hbytes := i.length_bytes
    change pc < ins.offset
    omega

theorem length_listing_le (pc : Nat) (is : List MachineInstruction) :
    (listing pc is).length ≤ (is.flatMap bytes).length := by
  induction is generalizing pc with
  | nil => exact Nat.le_refl 0
  | cons i is ih =>
    have hrest := ih (pc + i.bytes.length)
    have hbytes := i.length_bytes
    rw [listing, List.length_cons, List.flatMap_cons, List.length_append]
    omega

/-- What is decoded of a code that begins with instructions and then ends, or goes on with something
    that is none. -/
theorem items_decode {is : List MachineInstruction} {rest : Bytes} (his : FitAll pool 0 is)
    (hrest : rest = [] ∨ Obstructs pool (0 + (is.flatMap bytes).length) rest) :
    rest = [] ∧ (Code.decode pool (is.flatMap bytes ++ rest)).items = (listing 0 is).map .ok ∨
      ∃ op tail message, rest = op :: tail ∧ Obstructs pool (is.flatMap bytes).length rest ∧
        (Code.decode pool (is.flatMap bytes ++ rest)).items = (listing 0 is).map .ok ++
          [.error ⟨(is.flatMap bytes).length, op, message⟩] := by
  rw [Code.decode, decodeFrom_flatMap_append his]
  rw [Nat.zero_add] at hrest ⊢
  rcases rest with _ | ⟨op, tail⟩
  · left
    rw [Code.decodeFrom, Body.items]
    simp
  · right
    have hobstructs := hrest.resolve_left (List.cons_ne_nil op tail)
    obtain ⟨message, hdecode⟩ := decodeFrom_of_obstructs hobstructs
    refine ⟨op, tail, message, rfl, hobstructs, ?_⟩
    rw [hdecode, Body.items]
    simp

/-- The decoder on arbitrary bytes. The code begins with instructions, one after the other, of which
    there are as many as possible, and these are the first items. They are all there is if they end
    where the code ends; otherwise there is one item more, the fault at the opcode of what is no
    instruction. There are never more items than bytes, and they are handed out one by one, so that
    to stop after some of them is to have seen the first ones. -/
theorem decode_segments (pool : ConstantPool) (code : Bytes) :
    ∃ is rest, FitAll pool 0 is ∧ code = is.flatMap bytes ++ rest ∧
      (rest = [] ∧ (Code.decode pool code).items = (listing 0 is).map .ok ∨
        ∃ op tail message, rest = op :: tail ∧ Obstructs pool (is.flatMap bytes).length rest ∧
          (Code.decode pool code).items = (listing 0 is).map .ok ++
            [.error ⟨(is.flatMap bytes).length, op, message⟩]) ∧
      (listing 0 is).Pairwise (·.offset < ·.offset) ∧
      (Code.decode pool code).items.length ≤ code.length ∧
      (∀ (σ : Type) (yield : Except CodeFault Instruction → StateM σ Bool),
        Code.iterate pool yield code = feed yield (Code.decode pool code).items) ∧
      ∀ k, (Code.iterate pool (collect (k + 1)) code []).2 =
          (Code.decode pool code).items.take (k + 1) ∧
        ((Code.decode pool code).take k).items = (Code.decode pool code).items.take k := by
  obtain ⟨is, rest, his, rfl, hrest⟩ := exists_fitAll pool 0 code
  have hitems := items_decode his hrest
  have hiterate (σ : Type) (yield : Except CodeFault Instruction → StateM σ Bool) :
      Code.iterate pool yield (is.flatMap bytes ++ rest) =
        feed yield (Code.decode pool (is.flatMap bytes ++ rest)).items :=
    iterateFrom_eq_feed yield 0 _
  refine ⟨is, rest, his, rfl, hitems, pairwise_listing 0 is, ?_, hiterate, fun k => ⟨?_, ?_⟩⟩
  · have hlength := length_listing_le 0 is
    rcases hitems with ⟨-, hitems⟩ | ⟨op, tail, message, rfl, -, hitems⟩
    · rw [hitems, List.length_map, List.length_append]
      omega
    · rw [hitems, List.length_append, List.length_map, List.length_singleton, List.length_append,
        List.length_cons]
      omega
  · have hcollect := feed_collect (Code.decode pool (is.flatMap bytes ++ rest)).items [] k
    rw [hiterate]
    rwa [List.length_nil, Nat.zero_add, List.nil_append] at hcollect
  · exact Body.items_take _ k

end MachineInstruction

end Binary

end KernelReach
