import KernelReach.Binary.Code
import KernelReach.Proofs.Binary.Pool
import KernelReach.Proofs.Binary.Recognition

/-!
# The instruction set

The instructions of the machine with all their operands, and the bytes that they are written as.
This is the other side of the decoder, which keeps no more of an instruction than its offset, its
opcode and its call.

* `instructionSet`: the opcodes in their order with the operands of each. The decoder asks for the
  operands of an opcode range by range, and `operands_eq` says that it gets the same answer;
* `MachineInstruction`: an instruction, the bytes it is written as, and when it can stand at an
  offset (`Fits`): a switch has as many bytes of padding as its offset requires, and a call refers
  to a method of the constant pool (`ConstantPool.IsMethodAt`);
* `MachineInstruction.listing`: what a decoder should keep of instructions that stand one after
  another.
-/

namespace KernelReach.Binary

/-! ### Opcodes -/

/-- An operand that always has the same size. -/
inductive Operand
  /-- A small constant. -/
  | byte
  | short
  /-- A local variable. -/
  | localVar
  /-- A slot of the constant pool, if it has a low index. -/
  | lowSlot
  /-- A slot of the constant pool. -/
  | slot
  /-- The distance of a jump. -/
  | jump
  | longJump
  /-- The type of the elements of an array. -/
  | elementType
  /-- A number of dimensions or of arguments. -/
  | count
  /-- A byte that is zero. -/
  | zero
  deriving DecidableEq, Repr

/-- The number of bytes of an operand. -/
def Operand.size : Operand → Nat
  | byte | localVar | lowSlot | elementType | count | zero => 1
  | short | slot | jump => 2
  | longJump => 4

/-- What follows an opcode. -/
inductive Format
  | plain (operands : List Operand)
  /-- The slot of a method reference, and more operands. -/
  | invoke (kind : InvokeKind) (more : List Operand)
  | tableSwitch
  | lookupSwitch
  | wide
  deriving DecidableEq, Repr

/-- The number of bytes of some operands. -/
def operandSize (operands : List Operand) : Nat := (operands.map Operand.size).sum

/-- Instructions with the same operands. -/
def withOperands (operands : List Operand) (names : List String) : List (String × Format) :=
  names.map fun name => (name, .plain operands)

/-- The instructions by name, in the order of their opcodes from zero on. -/
def instructionSet : List (String × Format) :=
  withOperands [] ["nop", "aconst_null", "iconst_m1", "iconst_0", "iconst_1", "iconst_2",
    "iconst_3", "iconst_4", "iconst_5", "lconst_0", "lconst_1", "fconst_0", "fconst_1", "fconst_2",
    "dconst_0", "dconst_1"] ++
  withOperands [.byte] ["bipush"] ++
  withOperands [.short] ["sipush"] ++
  withOperands [.lowSlot] ["ldc"] ++
  withOperands [.slot] ["ldc_w", "ldc2_w"] ++
  withOperands [.localVar] ["iload", "lload", "fload", "dload", "aload"] ++
  withOperands [] ["iload_0", "iload_1", "iload_2", "iload_3", "lload_0", "lload_1", "lload_2",
    "lload_3", "fload_0", "fload_1", "fload_2", "fload_3", "dload_0", "dload_1", "dload_2",
    "dload_3", "aload_0", "aload_1", "aload_2", "aload_3", "iaload", "laload", "faload", "daload",
    "aaload", "baload", "caload", "saload"] ++
  withOperands [.localVar] ["istore", "lstore", "fstore", "dstore", "astore"] ++
  withOperands [] ["istore_0", "istore_1", "istore_2", "istore_3", "lstore_0", "lstore_1",
    "lstore_2", "lstore_3", "fstore_0", "fstore_1", "fstore_2", "fstore_3", "dstore_0", "dstore_1",
    "dstore_2", "dstore_3", "astore_0", "astore_1", "astore_2", "astore_3", "iastore", "lastore",
    "fastore", "dastore", "aastore", "bastore", "castore", "sastore",
    "pop", "pop2", "dup", "dup_x1", "dup_x2", "dup2", "dup2_x1", "dup2_x2", "swap",
    "iadd", "ladd", "fadd", "dadd", "isub", "lsub", "fsub", "dsub", "imul", "lmul", "fmul", "dmul",
    "idiv", "ldiv", "fdiv", "ddiv", "irem", "lrem", "frem", "drem", "ineg", "lneg", "fneg", "dneg",
    "ishl", "lshl", "ishr", "lshr", "iushr", "lushr", "iand", "land", "ior", "lor", "ixor",
    "lxor"] ++
  withOperands [.localVar, .byte] ["iinc"] ++
  withOperands [] ["i2l", "i2f", "i2d", "l2i", "l2f", "l2d", "f2i", "f2l", "f2d", "d2i", "d2l",
    "d2f", "i2b", "i2c", "i2s", "lcmp", "fcmpl", "fcmpg", "dcmpl", "dcmpg"] ++
  withOperands [.jump] ["ifeq", "ifne", "iflt", "ifge", "ifgt", "ifle", "if_icmpeq", "if_icmpne",
    "if_icmplt", "if_icmpge", "if_icmpgt", "if_icmple", "if_acmpeq", "if_acmpne", "goto", "jsr"] ++
  withOperands [.localVar] ["ret"] ++
  [("tableswitch", .tableSwitch), ("lookupswitch", .lookupSwitch)] ++
  withOperands [] ["ireturn", "lreturn", "freturn", "dreturn", "areturn", "return"] ++
  withOperands [.slot] ["getstatic", "putstatic", "getfield", "putfield"] ++
  [("invokevirtual", .invoke .virtual []), ("invokespecial", .invoke .special []),
    ("invokestatic", .invoke .static []),
    ("invokeinterface", .invoke .interface [.count, .zero])] ++
  withOperands [.slot, .zero, .zero] ["invokedynamic"] ++
  withOperands [.slot] ["new"] ++
  withOperands [.elementType] ["newarray"] ++
  withOperands [.slot] ["anewarray"] ++
  withOperands [] ["arraylength", "athrow"] ++
  withOperands [.slot] ["checkcast", "instanceof"] ++
  withOperands [] ["monitorenter", "monitorexit"] ++
  [("wide", .wide)] ++
  withOperands [.slot, .count] ["multianewarray"] ++
  withOperands [.jump] ["ifnull", "ifnonnull"] ++
  withOperands [.longJump] ["goto_w", "jsr_w"]

/-- What follows the opcode, if it has a meaning. -/
def formatOf? (op : UInt8) : Option Format := (instructionSet[op.toNat]?).map Prod.snd

/-- The operands as the decoder sees them. -/
def Format.operands : Format → Operands
  | plain os => .fixed (operandSize os)
  | invoke kind os => .call kind (operandSize os)
  | tableSwitch => .tableSwitch
  | lookupSwitch => .lookupSwitch
  | wide => .wide

/-- All opcodes can be tried out. -/
theorem forall_opcode {P : UInt8 → Prop} (h : ∀ n : Fin 256, P (UInt8.ofFin n)) (op : UInt8) :
    P op :=
  h op.toFin

/-- The decoder knows the operands of every opcode. -/
theorem operands_eq (op : UInt8) :
    operands op = ((formatOf? op).map Format.operands).getD .undefined := by
  revert op
  refine forall_opcode ?_
  decide +kernel

/-- The opcode that has operands of a form of its own. -/
def ownOpcode? : Operands → Option UInt8
  | .call kind _ => some (callOpcode kind)
  | .tableSwitch => some 0xaa
  | .lookupSwitch => some 0xab
  | .wide => some 0xc4
  | .fixed _ | .undefined => none

/-- An opcode can be told from operands of a form of their own. -/
theorem eq_of_ownOpcode? {op own : UInt8} (h : ownOpcode? (operands op) = some own) : op = own := by
  have hall : ∀ op, ownOpcode? (operands op) ∈ [none, some op] := by
    refine forall_opcode ?_
    decide +kernel
  simpa [h, eq_comm] using hall op

/-! ### Method references -/

namespace ConstantPool

variable {p : ConstantPool} {i : Nat} {sig : Signature}

/-- The index leads to a reference to a method of a class or an interface, all parts of the
    reference are there, and `sig` is what they spell. The methods of arrays are those of the root
    class. -/
inductive IsMethodAt (p : ConstantPool) (i : Nat) (sig : Signature) : Prop
  | intro {ownerIndex pairIndex ownerTextIndex nameIndex descriptorIndex : Nat}
      {owner name descriptor : String}
      (reference : p.entry i = .ok (.method ownerIndex pairIndex) ∨
        p.entry i = .ok (.interfaceMethod ownerIndex pairIndex))
      (ownerEntry : p.entry ownerIndex = .ok (.class ownerTextIndex))
      (ownerText : p.entry ownerTextIndex = .ok (.text owner))
      (pair : p.entry pairIndex = .ok (.nameAndType nameIndex descriptorIndex))
      (nameText : p.entry nameIndex = .ok (.text name))
      (descriptorText : p.entry descriptorIndex = .ok (.text descriptor))
      (spelled : Signature.ofDescriptor
        (if owner.toList.head? = some '[' then .object else .ofInternal owner) name descriptor =
          .ok sig)

theorem classAt_eq_ok {c : ClassName} :
    p.classAt i = .ok c ↔ ∃ n s, p.entry i = .ok (.class n) ∧ p.entry n = .ok (.text s) ∧
      (if s.toList.head? = some '[' then .object else .ofInternal s) = c := by
  constructor
  · intro h
    rw [classAt] at h
    rcases hk : p.entry i with e | k
    · rw [hk] at h
      cases h
    · rw [hk] at h
      cases k with
      | «class» n =>
        change (p.textAt n >>= fun s => pure _) = _ at h
        rcases hs : p.textAt n with e | s
        · rw [hs] at h
          cases h
        · rw [hs] at h
          exact ⟨n, s, rfl, textAt_eq_ok.1 hs, Except.ok.inj h⟩
      | _ => cases h
  · rintro ⟨n, s, hk, hs, rfl⟩
    exact classAt_eq hk (textAt_eq_ok.2 hs)

theorem nameAndTypeAt_eq_ok {name descriptor : String} :
    p.nameAndTypeAt i = .ok (name, descriptor) ↔ ∃ n d, p.entry i = .ok (.nameAndType n d) ∧
      p.entry n = .ok (.text name) ∧ p.entry d = .ok (.text descriptor) := by
  constructor
  · intro h
    rw [nameAndTypeAt] at h
    rcases hk : p.entry i with e | k
    · rw [hk] at h
      cases h
    · rw [hk] at h
      cases k with
      | nameAndType n d =>
        change (p.textAt n >>= fun s => p.textAt d >>= fun s' => pure (s, s')) = _ at h
        rcases hn : p.textAt n with e | s
        · rw [hn] at h
          cases h
        rcases hd : p.textAt d with e | s'
        · rw [hn, hd] at h
          cases h
        rw [hn, hd] at h
        cases h
        exact ⟨n, d, rfl, textAt_eq_ok.1 hn, textAt_eq_ok.1 hd⟩
      | _ => cases h
  · rintro ⟨n, d, hk, hn, hd⟩
    exact nameAndTypeAt_eq hk (textAt_eq_ok.2 hn) (textAt_eq_ok.2 hd)

theorem methodAt_eq_ok : p.methodAt i = .ok sig ↔ p.IsMethodAt i sig := by
  constructor
  · intro h
    -- Both kinds of references are followed in the same way.
    have hfollow {c nt : Nat} (hlookup : (p.classAt c >>= fun owner => p.nameAndTypeAt nt >>=
          fun names => (Signature.ofDescriptor owner names.1 names.2).mapError
            LookupError.badDescriptor) = .ok sig)
        (hk : p.entry i = .ok (.method c nt) ∨ p.entry i = .ok (.interfaceMethod c nt)) :
        p.IsMethodAt i sig := by
      rcases hc : p.classAt c with e | owner
      · rw [hc] at hlookup
        cases hlookup
      rcases hnt : p.nameAndTypeAt nt with e | ⟨name, descriptor⟩
      · rw [hc, hnt] at hlookup
        cases hlookup
      rw [hc, hnt] at hlookup
      change (Signature.ofDescriptor owner name descriptor).mapError _ = _ at hlookup
      obtain ⟨_, _, hentry, htext, rfl⟩ := classAt_eq_ok.1 hc
      obtain ⟨_, _, hpair, hname, hdescriptor⟩ := nameAndTypeAt_eq_ok.1 hnt
      rcases hsig : Signature.ofDescriptor _ name descriptor with e | sig'
      · rw [hsig] at hlookup
        cases hlookup
      · rw [hsig] at hlookup
        cases hlookup
        exact .intro hk hentry htext hpair hname hdescriptor hsig
    rw [methodAt] at h
    rcases hk : p.entry i with e | k
    · rw [hk] at h
      cases h
    · rw [hk] at h
      cases k with
      | method c nt => exact hfollow h (.inl hk)
      | interfaceMethod c nt => exact hfollow h (.inr hk)
      | _ => cases h
  · rintro ⟨hk, hentry, htext, hpair, hname, hdescriptor, hsig⟩
    exact methodAt_eq hk (classAt_eq_ok.2 ⟨_, _, hentry, htext, rfl⟩)
      (nameAndTypeAt_eq_ok.2 ⟨_, _, hpair, hname, hdescriptor⟩) hsig

end ConstantPool

/-! ### Instructions -/

/-- Writes a number of four bytes in two's complement. -/
def putWord (w : Int32) : Bytes := putBigEndian 4 w.toUInt32.toNat

/-- Writes an entry of a switch: a number and its jump. -/
def putPair (p : Int32 × Int32) : Bytes := putWord p.1 ++ putWord p.2

/-- An instruction with its operands. -/
inductive MachineInstruction
  | plain (opcode : UInt8) (operands : Bytes)
  /-- A call of the method `target`, to which the index leads. -/
  | invoke (kind : InvokeKind) (index : UInt16) (target : Signature) (more : Bytes)
  /-- A jump by the numbers from `low` to `high`. -/
  | tableSwitch (padding : Bytes) (default low high : Int32) (jumps : List Int32)
  /-- A jump by some numbers, each in a pair with its jump. -/
  | lookupSwitch (padding : Bytes) (default : Int32) (pairs : List (Int32 × Int32))
  /-- An instruction on local variables that has wider operands. -/
  | wide (opcode : UInt8) (operands : Bytes)
  deriving DecidableEq, Repr

namespace MachineInstruction

/-- The first byte of the instruction. -/
def opcode : MachineInstruction → UInt8
  | plain op _ => op
  | invoke kind .. => callOpcode kind
  | tableSwitch .. => 0xaa
  | lookupSwitch .. => 0xab
  | wide .. => 0xc4

/-- The bytes after the opcode. -/
def operandBytes : MachineInstruction → Bytes
  | plain _ operands => operands
  | invoke _ index _ more => putBigEndian 2 index.toNat ++ more
  | tableSwitch padding default low high jumps =>
    padding ++ putWord default ++ (putWord low ++ (putWord high ++ jumps.flatMap putWord))
  | lookupSwitch padding default pairs =>
    padding ++ putWord default ++ (putBigEndian 4 pairs.length ++ pairs.flatMap putPair)
  | wide op operands => op :: operands

/-- The bytes of the instruction. -/
def bytes (i : MachineInstruction) : Bytes := i.opcode :: i.operandBytes

/-- The call that the instruction makes. -/
def invocation : MachineInstruction → Option Invocation
  | invoke kind _ target _ => some ⟨kind, target⟩
  | _ => none

/-- The padding of a switch at `pc` ends at the first multiple of four. -/
def Aligns (pc : Nat) (padding : Bytes) : Prop :=
  padding.length < 4 ∧ (pc + 1 + padding.length) % 4 = 0

instance (pc : Nat) (padding : Bytes) : Decidable (Aligns pc padding) :=
  inferInstanceAs (Decidable (_ ∧ _))

/-- The instruction can stand at `pc` in a code with that constant pool. -/
def Fits (pool : ConstantPool) (pc : Nat) : MachineInstruction → Prop
  | plain op operands => ∃ os, formatOf? op = some (.plain os) ∧ operands.length = operandSize os
  | invoke kind index target more => pool.IsMethodAt index.toNat target ∧
    ∃ os, formatOf? (callOpcode kind) = some (.invoke kind os) ∧ more.length = operandSize os
  | tableSwitch padding _ low high jumps => Aligns pc padding ∧ low ≤ high ∧
    (jumps.length : Int) = high.toInt - low.toInt + 1
  | lookupSwitch padding _ pairs => Aligns pc padding ∧ pairs.length < 2 ^ 31
  | wide op operands => operands.length = if op = iinc then 4 else 2

/-- The instructions can stand one after the other from `pc` on. -/
def FitAll (pool : ConstantPool) : (pc : Nat) → List MachineInstruction → Prop
  | _, [] => True
  | pc, i :: is => i.Fits pool pc ∧ FitAll pool (pc + i.bytes.length) is

/-- What the analysis sees of the instructions from `pc` on. -/
def listing : (pc : Nat) → List MachineInstruction → List Instruction
  | _, [] => []
  | pc, i :: is => ⟨pc, i.opcode, i.invocation⟩ :: listing (pc + i.bytes.length) is

end MachineInstruction

end KernelReach.Binary
