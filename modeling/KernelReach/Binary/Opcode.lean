import KernelReach.Class.Basic

/-!
# Opcodes

What follows each opcode in a code. Most opcodes have a fixed number of operand bytes; the two
switches have a padding and a table, `wide` depends on the opcode it widens, and four opcodes call
the method that their first two operand bytes refer to.
-/

namespace KernelReach.Binary

/-- The operands of an opcode. -/
inductive Operands
  /-- A fixed number of bytes. -/
  | fixed (size : Nat)
  /-- The index of a method reference, and `extra` bytes more. -/
  | call (kind : InvokeKind) (extra : Nat)
  /-- A padding, a default, two bounds and one jump for every number between them. -/
  | tableSwitch
  /-- A padding, a default, a number of pairs and the pairs. -/
  | lookupSwitch
  /-- The opcode that is widened, and its widened operands. -/
  | wide
  | undefined
  deriving DecidableEq, Repr

/-- The opcode that adds a constant to a local variable; `wide` doubles both its operands. -/
def iinc : UInt8 := 0x84

/-- The operands of the opcode `op`. -/
def operands (op : UInt8) : Operands :=
  if op ≤ 0x0f then .fixed 0
  else if op = 0x10 then .fixed 1
  else if op = 0x11 then .fixed 2
  else if op = 0x12 then .fixed 1
  else if op ≤ 0x14 then .fixed 2
  else if op ≤ 0x19 then .fixed 1
  else if op ≤ 0x35 then .fixed 0
  else if op ≤ 0x3a then .fixed 1
  else if op ≤ 0x83 then .fixed 0
  else if op = iinc then .fixed 2
  else if op ≤ 0x98 then .fixed 0
  else if op ≤ 0xa8 then .fixed 2
  else if op = 0xa9 then .fixed 1
  else if op = 0xaa then .tableSwitch
  else if op = 0xab then .lookupSwitch
  else if op ≤ 0xb1 then .fixed 0
  else if op ≤ 0xb5 then .fixed 2
  else if op = 0xb6 then .call .virtual 0
  else if op = 0xb7 then .call .special 0
  else if op = 0xb8 then .call .static 0
  else if op = 0xb9 then .call .interface 2
  else if op = 0xba then .fixed 4
  else if op = 0xbb then .fixed 2
  else if op = 0xbc then .fixed 1
  else if op = 0xbd then .fixed 2
  else if op ≤ 0xbf then .fixed 0
  else if op ≤ 0xc1 then .fixed 2
  else if op ≤ 0xc3 then .fixed 0
  else if op = 0xc4 then .wide
  else if op = 0xc5 then .fixed 3
  else if op ≤ 0xc7 then .fixed 2
  else if op ≤ 0xc9 then .fixed 4
  else .undefined

/-- The opcode that makes a call of a kind. -/
def callOpcode : InvokeKind → UInt8
  | .virtual => 0xb6
  | .special => 0xb7
  | .static => 0xb8
  | .interface => 0xb9

/-- The opcode that returns from a method without a result. -/
def returnOpcode : UInt8 := 0xb1

/-- The opcode that loads the instance a method is called on. -/
def loadThisOpcode : UInt8 := 0x2a

/-- The number of bytes between the opcode of a switch at `pc` and the next multiple of four. -/
def switchPadding (pc : Nat) : Nat := (4 - (pc + 1) % 4) % 4

end KernelReach.Binary
