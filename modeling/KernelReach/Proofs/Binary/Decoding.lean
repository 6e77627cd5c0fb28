import KernelReach.Proofs.Binary.InstructionSet
import KernelReach.Proofs.Binary.RoundTrip

/-!
# Decoding

The decoder takes a code apart, which may be any bytes at all.

* `recognizes_readOperands`: the decoder accepts the operands of the instructions that fit, and of
  nothing else;
* `decode_flatMap`: a code that was put together from instructions is taken apart into them;
* `exists_fitAll`: every code begins with instructions that fit, as many of them as there are, and
  what remains is nothing or the decoder is stopped where it begins (`Obstructs`).
-/

namespace KernelReach.Binary

open Reader

variable {ε ι : Type} {pool : ConstantPool} {pc : Nat} {bs rest : Bytes}

/-! ### Words -/

@[simp]
theorem length_putWord (w : Int32) : (putWord w).length = 4 := length_putBigEndian 4 _

theorem signed32_toNat (w : Int32) : Code.signed32 w.toUInt32.toNat = w.toInt := by
  rw [Code.signed32, ← Int32.toInt_toBitVec, BitVec.toInt_eq_toNat_cond, Int32.toNat_toBitVec]
  split_ifs <;> omega

/-- Every number of four bytes is that of a word. -/
theorem exists_toNat_eq {n : Nat} (h : n < 4294967296) : ∃ w : Int32, w.toUInt32.toNat = n :=
  ⟨⟨UInt32.ofNat n⟩, Nat.mod_eq_of_lt h⟩

theorem exists_putWord (h : bs.length = 4) : ∃ w : Int32, bs = putWord w := by
  have hlt := bigEndian_lt bs
  rw [h] at hlt
  obtain ⟨w, hw⟩ := exists_toNat_eq hlt
  refine ⟨w, ?_⟩
  rw [putWord, hw, ← h, putBigEndian_bigEndian]

theorem word_eq_ok {e : ε} {z : Int} :
    (Code.signed32 <$> u4 e) bs = .ok (z, rest) ↔
      ∃ w : Int32, z = w.toInt ∧ bs = putWord w ++ rest := by
  simp only [map_eq_ok, u4_eq_ok]
  constructor
  · rintro ⟨n, ⟨hn, rfl⟩, rfl⟩
    obtain ⟨w, rfl⟩ := exists_toNat_eq hn
    exact ⟨w, signed32_toNat w, rfl⟩
  · rintro ⟨w, rfl, rfl⟩
    exact ⟨w.toUInt32.toNat, ⟨w.toUInt32.toNat_lt, rfl⟩, signed32_toNat w⟩

theorem reads_word (e : ε) (w : Int32) : Reads (Code.signed32 <$> u4 e) (putWord w) w.toInt :=
  fun _ => word_eq_ok.2 ⟨w, rfl, rfl⟩

/-- A word that is not negative is written as the number it is. -/
theorem putWord_of_nonneg {w : Int32} (h : 0 ≤ w.toInt) :
    putWord w = putBigEndian 4 w.toInt.toNat ∧ w.toInt.toNat < 2 ^ 31 := by
  have hlt := w.toUInt32.toNat_lt
  have hword := signed32_toNat w
  rw [Code.signed32] at hword
  have hnat : w.toInt.toNat = w.toUInt32.toNat ∧ w.toInt.toNat < 2 ^ 31 := by
    split_ifs at hword <;> omega
  exact ⟨by rw [putWord, hnat.1], hnat.2⟩

theorem reads_count (e : ε) {n : Nat} (h : n < 2 ^ 31) :
    Reads (Code.signed32 <$> u4 e) (putBigEndian 4 n) (n : Int) :=
  fun _ => map_eq_ok.2 ⟨n, u4_eq_ok.2 ⟨by omega, rfl⟩, if_pos h⟩

@[simp]
theorem length_putPair (p : Int32 × Int32) : (putPair p).length = 8 := by
  rw [putPair, List.length_append, length_putWord, length_putWord]

theorem exists_putPair (h : bs.length = 8) : ∃ p : Int32 × Int32, bs = putPair p := by
  have htake : (bs.take 4).length = 4 := by rw [List.length_take]; omega
  have hdrop : (bs.drop 4).length = 4 := by rw [List.length_drop]; omega
  obtain ⟨key, hkey⟩ := exists_putWord htake
  obtain ⟨jump, hjump⟩ := exists_putWord hdrop
  refine ⟨(key, jump), ?_⟩
  rw [putPair, ← hkey, ← hjump, List.take_append_drop]

theorem switchPadding_eq_iff {n : Nat} : switchPadding pc = n ↔ n < 4 ∧ (pc + 1 + n) % 4 = 0 := by
  rw [switchPadding]
  omega

/-! ### Operands -/

namespace MachineInstruction

theorem Aligns.length_append {padding : Bytes} (h : Aligns pc padding) (default : Int32) :
    (padding ++ putWord default).length = switchPadding pc + 4 := by
  rw [List.length_append, length_putWord, switchPadding_eq_iff.2 h]

/-- What is skipped at the beginning of a switch is its padding and its default. -/
theorem exists_aligns {taken : Bytes} (h : taken.length = switchPadding pc + 4) :
    ∃ padding default, Aligns pc padding ∧ taken = padding ++ putWord default := by
  have htake : (taken.take (switchPadding pc)).length = switchPadding pc := by
    rw [List.length_take]
    omega
  have hdrop : (taken.drop (switchPadding pc)).length = 4 := by
    rw [List.length_drop]
    omega
  obtain ⟨default, hdefault⟩ := exists_putWord hdrop
  refine ⟨taken.take (switchPadding pc), default, switchPadding_eq_iff.1 htake.symm, ?_⟩
  rw [← hdefault, List.take_append_drop]

/-- The operands of an instruction that fits are read, and nothing after them. -/
theorem reads_operandBytes {i : MachineInstruction} (h : i.Fits pool pc) :
    Reads (Code.readOperands pool pc i.opcode) i.operandBytes
      (i.invocation, i.operandBytes.length) := by
  cases i with
  | plain op args =>
    obtain ⟨os, hformat, hlength⟩ := h
    have hoperands : operands op = .fixed args.length := by
      rw [operands_eq, hformat, hlength]
      rfl
    rw [opcode, Code.readOperands, hoperands]
    exact (reads_skip _ rfl).nil_bind (reads_pure _)
  | invoke kind index target more =>
    obtain ⟨hmethod, os, hformat, hlength⟩ := h
    have hoperands : operands (callOpcode kind) = .call kind more.length := by
      rw [operands_eq, hformat, hlength]
      rfl
    have hsize : (putBigEndian 2 index.toNat ++ more).length = 2 + more.length := by
      rw [List.length_append, length_putBigEndian]
    rw [opcode, Code.readOperands, hoperands, operandBytes, hsize]
    exact (reads_u2 _ index.toNat_lt).bind
      ((reads_lift (ConstantPool.methodAt_eq_ok.2 hmethod)).bind_nil
        ((reads_skip _ rfl).nil_bind (reads_pure _)))
  | tableSwitch padding default low high jumps =>
    obtain ⟨haligns, hle, hlength⟩ := h
    have hpadding := haligns.length_append default
    have hbounds : ¬ high.toInt < low.toInt := Int.not_lt.2 (Int32.le_iff_toInt_le.1 hle)
    have hcount : (high.toInt - low.toInt + 1).toNat = jumps.length := by omega
    have hjumps : (jumps.flatMap putWord).length = jumps.length * 4 :=
      length_flatMap_of_forall length_putWord jumps
    have hsize : (operandBytes (.tableSwitch padding default low high jumps)).length =
        switchPadding pc + 12 + jumps.length * 4 := by
      rw [operandBytes, List.length_append, hpadding, List.length_append, List.length_append,
        length_putWord, length_putWord, hjumps]
      omega
    have hoperands : operands 0xaa = .tableSwitch := by decide
    rw [opcode, Code.readOperands, hoperands, hsize]
    refine (reads_skip _ hpadding).bind ((reads_word _ low).bind ((reads_word _ high).bind ?_))
    rw [if_neg hbounds, hcount]
    exact (reads_skip _ hjumps).nil_bind (reads_pure _)
  | lookupSwitch padding default pairs =>
    obtain ⟨haligns, hlt⟩ := h
    have hpadding := haligns.length_append default
    have hpairs : (pairs.flatMap putPair).length = pairs.length * 8 :=
      length_flatMap_of_forall length_putPair pairs
    have hsize : (operandBytes (.lookupSwitch padding default pairs)).length =
        switchPadding pc + 8 + pairs.length * 8 := by
      rw [operandBytes, List.length_append, hpadding, List.length_append, length_putBigEndian,
        hpairs]
      omega
    have hoperands : operands 0xab = .lookupSwitch := by decide
    rw [opcode, Code.readOperands, hoperands, hsize]
    refine (reads_skip _ hpadding).bind ((reads_count _ hlt).bind ?_)
    rw [if_neg (Int.not_lt.2 (Int.natCast_nonneg _)), Int.toNat_natCast]
    exact (reads_skip _ hpairs).nil_bind (reads_pure _)
  | wide op args =>
    have hsize : (op :: args).length = 1 + if op = iinc then 4 else 2 := by
      rw [List.length_cons, h, Nat.add_comm]
    have hoperands : operands 0xc4 = .wide := by decide
    rw [opcode, Code.readOperands, hoperands, operandBytes, hsize]
    exact (reads_u1 _ op).bind ((reads_skip _ h).nil_bind (reads_pure _))

/-- What the decoder knows of the operands of an opcode comes from the format of the opcode. -/
theorem exists_format {op : UInt8} {o : Operands} (h : operands op = o) (ho : o ≠ .undefined) :
    ∃ f, formatOf? op = some f ∧ f.operands = o := by
  rw [operands_eq] at h
  rcases hf : formatOf? op with _ | f
  · rw [hf] at h
    exact absurd h.symm ho
  · rw [hf] at h
    exact ⟨f, rfl, h⟩

/-- The instruction can stand at `pc`, has the opcode `op`, makes the call `r.1`, if any, and has
    operands of `r.2` bytes. -/
def Yields (pool : ConstantPool) (pc : Nat) (op : UInt8) (i : MachineInstruction)
    (r : Option Invocation × Nat) : Prop :=
  i.Fits pool pc ∧ i.opcode = op ∧ i.invocation = r.1 ∧ i.operandBytes.length = r.2

variable {op : UInt8} {r : Option Invocation × Nat}

theorem exists_plain {n : Nat} (hop : operands op = .fixed n)
    (h : Code.readOperands pool pc op bs = .ok (r, rest)) :
    ∃ i, Yields pool pc op i r ∧ bs = i.operandBytes ++ rest := by
  simp only [Code.readOperands, hop, Reader.bind_eq_ok, Reader.pure_eq_ok, skip_eq_ok] at h
  obtain ⟨_, _, ⟨args, hlength, rfl⟩, rfl, rfl⟩ := h
  obtain ⟨f, hf, hfop⟩ := exists_format hop (by rintro ⟨⟩)
  cases f with
  | plain os =>
    have hsize : args.length = operandSize os := hlength.trans (Operands.fixed.inj hfop).symm
    exact ⟨.plain op args, ⟨⟨os, hf, hsize⟩, rfl, rfl, hlength⟩, rfl⟩
  | _ => cases hfop

theorem exists_invoke {kind : InvokeKind} {extra : Nat} (hop : operands op = .call kind extra)
    (h : Code.readOperands pool pc op bs = .ok (r, rest)) :
    ∃ i, Yields pool pc op i r ∧ bs = i.operandBytes ++ rest := by
  simp only [Code.readOperands, hop, Reader.bind_eq_ok, Reader.pure_eq_ok, u2_eq_ok, lift_eq_ok,
    skip_eq_ok] at h
  obtain ⟨_, _, ⟨index, rfl, rfl⟩, target, _, ⟨htarget, rfl⟩, _, _, ⟨more, hlength, rfl⟩, rfl,
    rfl⟩ := h
  obtain rfl : op = callOpcode kind := eq_of_ownOpcode? (by rw [hop]; rfl)
  obtain ⟨f, hf, hfop⟩ := exists_format hop (by rintro ⟨⟩)
  cases f with
  | invoke kind' os =>
    cases hfop
    refine ⟨.invoke kind index target more, ⟨⟨ConstantPool.methodAt_eq_ok.1 htarget, os, hf,
      hlength⟩, rfl, rfl, ?_⟩, by rw [operandBytes, List.append_assoc]⟩
    rw [operandBytes, List.length_append, length_putBigEndian, hlength]
  | _ => cases hfop

theorem exists_tableSwitch (hop : operands op = .tableSwitch)
    (h : Code.readOperands pool pc op bs = .ok (r, rest)) :
    ∃ i, Yields pool pc op i r ∧ bs = i.operandBytes ++ rest := by
  simp only [Code.readOperands, hop, Reader.bind_eq_ok, word_eq_ok, skip_eq_ok] at h
  obtain ⟨_, _, ⟨taken, htaken, rfl⟩, _, _, ⟨low, rfl, rfl⟩, _, _, ⟨high, rfl, rfl⟩, h⟩ := h
  obtain ⟨padding, default, haligns, rfl⟩ := exists_aligns htaken
  obtain rfl : op = 0xaa := eq_of_ownOpcode? (by rw [hop]; rfl)
  split_ifs at h with hlt
  · exact absurd h Reader.throw_ne_ok
  · simp only [Reader.bind_eq_ok, Reader.pure_eq_ok, skip_eq_ok] at h
    obtain ⟨_, _, ⟨table, htable, rfl⟩, rfl, rfl⟩ := h
    obtain ⟨jumps, hcount, rfl⟩ := exists_flatMap_eq (fun _ => exists_putWord) _ htable
    have hle : low.toInt ≤ high.toInt := Int.not_lt.1 hlt
    have hjumps : (jumps.length : Int) = high.toInt - low.toInt + 1 := by omega
    refine ⟨.tableSwitch padding default low high jumps,
      ⟨⟨haligns, Int32.le_iff_toInt_le.2 hle, hjumps⟩, rfl, rfl, ?_⟩, ?_⟩
    · rw [operandBytes, List.length_append, htaken, List.length_append, List.length_append,
        length_putWord, length_putWord, htable]
      omega
    · simp only [operandBytes, List.append_assoc]

theorem exists_lookupSwitch (hop : operands op = .lookupSwitch)
    (h : Code.readOperands pool pc op bs = .ok (r, rest)) :
    ∃ i, Yields pool pc op i r ∧ bs = i.operandBytes ++ rest := by
  simp only [Code.readOperands, hop, Reader.bind_eq_ok, word_eq_ok, skip_eq_ok] at h
  obtain ⟨_, _, ⟨taken, htaken, rfl⟩, _, _, ⟨count, rfl, rfl⟩, h⟩ := h
  obtain ⟨padding, default, haligns, rfl⟩ := exists_aligns htaken
  obtain rfl : op = 0xab := eq_of_ownOpcode? (by rw [hop]; rfl)
  split_ifs at h with hlt
  · exact absurd h Reader.throw_ne_ok
  · simp only [Reader.bind_eq_ok, Reader.pure_eq_ok, skip_eq_ok] at h
    obtain ⟨_, _, ⟨table, htable, rfl⟩, rfl, rfl⟩ := h
    obtain ⟨pairs, hcount, rfl⟩ := exists_flatMap_eq (fun _ => exists_putPair) _ htable
    obtain ⟨hword, hsmall⟩ := putWord_of_nonneg (Int.not_lt.1 hlt)
    rw [← hcount] at hword hsmall
    refine ⟨.lookupSwitch padding default pairs, ⟨⟨haligns, hsmall⟩, rfl, rfl, ?_⟩, ?_⟩
    · rw [operandBytes, List.length_append, htaken, List.length_append, length_putBigEndian, htable]
      omega
    · simp only [operandBytes, hword, List.append_assoc]

theorem exists_wide (hop : operands op = .wide)
    (h : Code.readOperands pool pc op bs = .ok (r, rest)) :
    ∃ i, Yields pool pc op i r ∧ bs = i.operandBytes ++ rest := by
  simp only [Code.readOperands, hop, Reader.bind_eq_ok, Reader.pure_eq_ok, u1_eq_ok,
    skip_eq_ok] at h
  obtain ⟨widened, _, rfl, _, _, ⟨args, hlength, rfl⟩, rfl, rfl⟩ := h
  obtain rfl : op = 0xc4 := eq_of_ownOpcode? (by rw [hop]; rfl)
  refine ⟨.wide widened args, ⟨hlength, rfl, rfl, ?_⟩, rfl⟩
  rw [operandBytes, List.length_cons, hlength, Nat.add_comm]

/-- The decoder accepts the operands of the instructions that fit, and nothing else. -/
theorem recognizes_readOperands (pool : ConstantPool) (pc : Nat) (op : UInt8) :
    Recognizes (Code.readOperands pool pc op) operandBytes (Yields pool pc op) := by
  intro bs r rest
  constructor
  · intro h
    cases hop : operands op with
    | fixed n => exact exists_plain hop h
    | call kind extra => exact exists_invoke hop h
    | tableSwitch => exact exists_tableSwitch hop h
    | lookupSwitch => exact exists_lookupSwitch hop h
    | wide => exact exists_wide hop h
    | undefined =>
      simp only [Code.readOperands, hop] at h
      exact absurd h Reader.throw_ne_ok
  · rintro ⟨i, ⟨hfits, rfl, hinvocation, hlength⟩, rfl⟩
    have hr : r = (i.invocation, i.operandBytes.length) := Prod.ext hinvocation.symm hlength.symm
    rw [hr]
    exact reads_operandBytes hfits rest

/-! ### Codes -/

theorem length_bytes (i : MachineInstruction) : i.bytes.length = 1 + i.operandBytes.length := by
  rw [bytes, List.length_cons, Nat.add_comm]

/-- An instruction that fits is decoded, and then what follows it. -/
theorem decodeFrom_bytes_append {i : MachineInstruction} (h : i.Fits pool pc) (rest : Bytes) :
    Code.decodeFrom pool pc (i.bytes ++ rest) =
      ⟨⟨pc, i.opcode, i.invocation⟩ ::
          (Code.decodeFrom pool (pc + i.bytes.length) rest).instructions,
        (Code.decodeFrom pool (pc + i.bytes.length) rest).fault⟩ := by
  rw [length_bytes, ← Nat.add_assoc, bytes, List.cons_append]
  exact decodeFrom_cons (reads_operandBytes h rest)

/-- Instructions that fit are decoded, and then what follows them. -/
theorem decodeFrom_flatMap_append {is : List MachineInstruction} (h : FitAll pool pc is)
    (rest : Bytes) :
    Code.decodeFrom pool pc (is.flatMap bytes ++ rest) =
      ⟨listing pc is ++
          (Code.decodeFrom pool (pc + (is.flatMap bytes).length) rest).instructions,
        (Code.decodeFrom pool (pc + (is.flatMap bytes).length) rest).fault⟩ := by
  induction is generalizing pc with
  | nil => rfl
  | cons i is ih =>
    obtain ⟨hi, his⟩ := h
    rw [List.flatMap_cons, List.append_assoc, decodeFrom_bytes_append hi, ih his, listing,
      List.length_append, ← Nat.add_assoc, List.cons_append]

/-- The instructions that make a call are those with one of four opcodes. -/
theorem isSome_invocation_iff {i : MachineInstruction} (h : i.Fits pool pc) :
    i.invocation.isSome = true ↔ i.opcode ∈ [0xb6, 0xb7, 0xb8, 0xb9] := by
  cases i with
  | plain op args =>
    obtain ⟨os, hformat, -⟩ := h
    have hoperands : operands op = .fixed (operandSize os) := by
      rw [operands_eq, hformat]
      rfl
    have hcalls : ∀ op ∈ [0xb6, 0xb7, 0xb8, 0xb9], ownOpcode? (operands op) = some op := by
      decide +kernel
    refine iff_of_false nofun fun hop => ?_
    have hown := hcalls op hop
    rw [hoperands] at hown
    cases hown
  | invoke kind index target more =>
    have hkind : ∀ kind, callOpcode kind ∈ [0xb6, 0xb7, 0xb8, 0xb9] := by
      rintro (_ | _ | _ | _) <;> decide
    exact iff_of_true rfl (hkind kind)
  | tableSwitch =>
    have hop : (0xaa : UInt8) ∉ [0xb6, 0xb7, 0xb8, 0xb9] := by decide
    exact iff_of_false nofun hop
  | lookupSwitch =>
    have hop : (0xab : UInt8) ∉ [0xb6, 0xb7, 0xb8, 0xb9] := by decide
    exact iff_of_false nofun hop
  | wide =>
    have hop : (0xc4 : UInt8) ∉ [0xb6, 0xb7, 0xb8, 0xb9] := by decide
    exact iff_of_false nofun hop

theorem isSome_invoke_iff_of_mem_listing {is : List MachineInstruction} {ins : Instruction}
    (h : FitAll pool pc is) (hins : ins ∈ listing pc is) :
    ins.invoke.isSome = true ↔ ins.opcode ∈ [0xb6, 0xb7, 0xb8, 0xb9] := by
  induction is generalizing pc with
  | nil => exact absurd hins List.not_mem_nil
  | cons i is ih =>
    rcases List.mem_cons.1 hins with rfl | hins
    · exact isSome_invocation_iff h.1
    · exact ih h.2 hins

/-- A code that is put together from instructions, each at an offset at which it can stand, is
    decoded without a fault into these instructions, with their offsets, opcodes and calls. Those
    with a call are those with one of the four opcodes for it. -/
theorem decode_flatMap (pool : ConstantPool) (is : List MachineInstruction) (h : FitAll pool 0 is) :
    Code.decode pool (is.flatMap bytes) = ⟨listing 0 is, none⟩ ∧
      ∀ ins ∈ listing 0 is, ins.invoke.isSome = true ↔ ins.opcode ∈ [0xb6, 0xb7, 0xb8, 0xb9] := by
  refine ⟨?_, fun ins => isSome_invoke_iff_of_mem_listing h⟩
  have hdecode := decodeFrom_flatMap_append h []
  rw [Code.decodeFrom, List.append_nil, List.append_nil] at hdecode
  exact hdecode

/-- A pool with a reference to a method of an interface. -/
def Sample.shapePool : ConstantPool :=
  ⟨#[.absent, .interfaceMethod 2 3, .class 4, .nameAndType 5 6, .text "app/Shape", .text "area",
    .text "(D)D"]⟩

/-- The method that is referred to. -/
def Sample.area : Signature := ⟨⟨"app.Shape"⟩, "area", "double", "double"⟩

/-- Both switches, with paddings of different sizes, a call and two wide instructions. -/
def Sample.switches : List MachineInstruction := [
  .plain 0x03 [],
  .tableSwitch [0, 0] 60 (-1) 1 [27, 55, -1],
  .lookupSwitch [0, 0, 0] 28 [(-5, 28), (2147483647, 34)],
  .plain loadThisOpcode [],
  .invoke .interface 1 Sample.area [3, 0],
  .wide iinc [0, 1, 0xff, 0xff],
  .wide 0x15 [1, 0],
  .plain returnOpcode []]

theorem Sample.switches_fitAll : FitAll Sample.shapePool 0 Sample.switches := by
  have hmethod : Sample.shapePool.IsMethodAt 1 Sample.area :=
    ConstantPool.methodAt_eq_ok.1 (by decide +kernel)
  refine ⟨⟨[], by decide, rfl⟩, ⟨by decide, by decide, by decide⟩, ⟨by decide, by decide⟩,
    ⟨[], by decide, rfl⟩, ⟨hmethod, [.count, .zero], by decide, rfl⟩, rfl, rfl,
    ⟨[], by decide, rfl⟩, trivial⟩

theorem decode_flatMap_switches : FitAll Sample.shapePool 0 Sample.switches ∧
    Code.decode Sample.shapePool (Sample.switches.flatMap bytes) =
      ⟨[⟨0, 0x03, none⟩, ⟨1, 0xaa, none⟩, ⟨28, 0xab, none⟩, ⟨56, 0x2a, none⟩,
        ⟨57, 0xb9, some ⟨.interface, Sample.area⟩⟩, ⟨62, 0xc4, none⟩, ⟨68, 0xc4, none⟩,
        ⟨72, 0xb1, none⟩], none⟩ :=
  ⟨Sample.switches_fitAll, (decode_flatMap _ _ Sample.switches_fitAll).1⟩

/-- Operands that cannot be read end the body. -/
theorem decodeFrom_of_error {fault : Code.Fault}
    (h : Code.readOperands pool pc op bs = .error fault) :
    Code.decodeFrom pool pc (op :: bs) =
      ⟨[], some ⟨pc, op, s!"offset {pc}: " ++ fault.message⟩⟩ := by
  rw [Code.decodeFrom]
  split
  case h_1 fault' hfault =>
    rw [h] at hfault
    cases hfault
    rfl
  case h_2 hok =>
    rw [h] at hok
    cases hok

/-- The code cannot begin with an instruction at `pc`. -/
def Obstructs (pool : ConstantPool) (pc : Nat) (code : Bytes) : Prop :=
  ∀ i : MachineInstruction, ∀ rest, i.Fits pool pc → code ≠ i.bytes ++ rest

/-- Decoding stops where no instruction fits, and says where that is. -/
theorem decodeFrom_of_obstructs {tail : Bytes} (h : Obstructs pool pc (op :: tail)) :
    ∃ message, Code.decodeFrom pool pc (op :: tail) = ⟨[], some ⟨pc, op, message⟩⟩ := by
  rcases hread : Code.readOperands pool pc op tail with fault | ⟨r, rest⟩
  · exact ⟨_, decodeFrom_of_error hread⟩
  · obtain ⟨i, ⟨hfits, rfl, -⟩, rfl⟩ := (recognizes_readOperands pool pc op tail r rest).1 hread
    exact absurd rfl (h i rest hfits)

/-- Every code begins with instructions that fit, after which there is nothing or no other one. -/
theorem exists_fitAll (pool : ConstantPool) (pc : Nat) (code : Bytes) :
    ∃ is rest, FitAll pool pc is ∧ code = is.flatMap bytes ++ rest ∧
      (rest = [] ∨ Obstructs pool (pc + (is.flatMap bytes).length) rest) := by
  -- On the length of the code, as an instruction takes at least its opcode.
  induction hn : code.length using Nat.strongRecOn generalizing pc code with
  | ind n ih =>
    by_cases hstop : code = [] ∨ Obstructs pool pc code
    · exact ⟨[], code, trivial, rfl, hstop⟩
    · rw [not_or, Obstructs] at hstop
      push Not at hstop
      obtain ⟨-, i, rest, hfits, rfl⟩ := hstop
      have hlt : rest.length < n := by
        rw [← hn, List.length_append, length_bytes]
        omega
      obtain ⟨is, rest', his, rfl, hend⟩ := ih _ hlt (pc + i.bytes.length) rest rfl
      refine ⟨i :: is, rest', ⟨hfits, his⟩, ?_, ?_⟩
      · rw [List.flatMap_cons, List.append_assoc]
      · rwa [List.flatMap_cons, List.length_append, ← Nat.add_assoc]

end MachineInstruction

end KernelReach.Binary
