import KernelReach.Binary.ConstantPool
import KernelReach.Binary.Opcode

/-!
# Decoding code

`decode` cuts a code into instructions, one after the other from its first byte. It ends at the
end of the code or at the first instruction that cannot be decoded, which becomes the fault of
the body; the instructions before it stay as they are.
-/

namespace KernelReach.Binary.Code

/-- Why an instruction cannot be decoded. -/
inductive Fault
  /-- Its operands end after the code. -/
  | truncated (opcode : UInt8)
  | undefinedOpcode (opcode : UInt8)
  | emptyTable (low high : Int)
  | negativePairs
  /-- A call does not refer to a method. -/
  | badCall (e : ConstantPool.LookupError)
  deriving DecidableEq, Repr

/-- The text of a complaint about an instruction. -/
def Fault.message : Fault → String
  | truncated op => "opcode 0x" ++ Text.hexadecimal 2 op.toNat ++ ": unexpected end of data"
  | undefinedOpcode op => "undefined opcode 0x" ++ Text.hexadecimal 2 op.toNat
  | emptyTable low high =>
    "tableswitch: high " ++ Text.integer high ++ " < low " ++ Text.integer low
  | negativePairs => "lookupswitch: negative pair count"
  | badCall e => "invoke operand: " ++ e.message

/-- The signed number that four bytes spell in two's complement. -/
def signed32 (n : Nat) : Int := if n < 0x80000000 then n else (n : Int) - 0x100000000

/-- Reads the operands of the opcode `op` at `pc`: the call that they make, if it is one, and
    their size in bytes. -/
def readOperands (pool : ConstantPool) (pc : Nat) (op : UInt8) :
    Reader Fault (Option Invocation × Nat) :=
  match operands op with
  | .fixed n => do
    Reader.skip (.truncated op) n
    pure (none, n)
  | .call kind extra => do
    let index ← Reader.u2 (.truncated op)
    let target ← Reader.lift .badCall (pool.methodAt index)
    Reader.skip (.truncated op) extra
    pure (some ⟨kind, target⟩, 2 + extra)
  | .tableSwitch => do
    Reader.skip (.truncated op) (switchPadding pc + 4)
    let low ← signed32 <$> Reader.u4 (.truncated op)
    let high ← signed32 <$> Reader.u4 (.truncated op)
    if high < low then throw (.emptyTable low high)
    else
      let size := (high - low + 1).toNat * 4
      Reader.skip (.truncated op) size
      pure (none, switchPadding pc + 12 + size)
  | .lookupSwitch => do
    Reader.skip (.truncated op) (switchPadding pc + 4)
    let pairs ← signed32 <$> Reader.u4 (.truncated op)
    if pairs < 0 then throw .negativePairs
    else
      let size := pairs.toNat * 8
      Reader.skip (.truncated op) size
      pure (none, switchPadding pc + 8 + size)
  | .wide => do
    let widened ← Reader.u1 (.truncated op)
    let size := if widened = iinc then 4 else 2
    Reader.skip (.truncated op) size
    pure (none, 1 + size)
  | .undefined => throw (.undefinedOpcode op)

open Reader in
theorem advances_readOperands (pool : ConstantPool) (pc : Nat) (op : UInt8) :
    Advances (readOperands pool pc op) := by
  unfold readOperands
  split
  · exact advances_bind (advances_skip _ _) fun _ => advances_pure _
  · exact advances_bind (advances_u2 _) fun _ => advances_bind (advances_lift _ _) fun _ =>
      advances_bind (advances_skip _ _) fun _ => advances_pure _
  · refine advances_bind (advances_skip _ _) fun _ =>
      advances_bind (advances_map _ (advances_u4 _)) fun _ =>
      advances_bind (advances_map _ (advances_u4 _)) fun _ => ?_
    split
    · exact advances_throw _
    · exact advances_bind (advances_skip _ _) fun _ => advances_pure _
  · refine advances_bind (advances_skip _ _) fun _ =>
      advances_bind (advances_map _ (advances_u4 _)) fun _ => ?_
    split
    · exact advances_throw _
    · exact advances_bind (advances_skip _ _) fun _ => advances_pure _
  · exact advances_bind (advances_u1 _) fun _ =>
      advances_bind (advances_skip _ _) fun _ => advances_pure _
  · exact advances_throw _

/-- Decodes the rest of a code, whose first byte is at `pc`. -/
def decodeFrom (pool : ConstantPool) (pc : Nat) (code : Bytes) : Body :=
  match code with
  | [] => ⟨[], none⟩
  | op :: rest =>
    match _h : readOperands pool pc op rest with
    | .error fault => ⟨[], some ⟨pc, op, s!"offset {pc}: " ++ fault.message⟩⟩
    | .ok ((invoke, size), after) =>
      let following := decodeFrom pool (pc + 1 + size) after
      ⟨⟨pc, op, invoke⟩ :: following.instructions, following.fault⟩
termination_by code.length
decreasing_by
  exact Nat.lt_succ_of_le (advances_readOperands pool pc op _ _ _ _h).length_le

def decode (pool : ConstantPool) (code : Bytes) : Body := decodeFrom pool 0 code

/-- The fault of a body whose code attribute ends before its code does. -/
def attributeFault : CodeFault := ⟨0, 0, "code attribute: unexpected end of data"⟩

/-- Decodes a code attribute: two sizes of no interest here, the length of the code, the code, and
    tables that are not looked into. -/
def ofAttribute (pool : ConstantPool) (content : Bytes) : Body :=
  match readCode content with
  | .ok (code, _) => decode pool code
  | .error () => ⟨[], some attributeFault⟩
where
  /-- Finds the code in a code attribute. -/
  readCode : Reader Unit Bytes := do
    Reader.skip () 4
    let n ← Reader.u4 ()
    Reader.bytes () n

end KernelReach.Binary.Code
