import KernelReach.Class.Flags
import KernelReach.Class.Level
import KernelReach.Class.Signature

/-!
# Classes

The model of a class as the analysis sees it: a header, a method table and the bodies of its
methods. A body is the sequence of its instructions, of which only the invocations matter; one
whose code cannot be decoded to its end carries the fault that ends it.
-/

namespace KernelReach

/-- How a call finds its method. -/
inductive InvokeKind
  | virtual
  | special
  | static
  | interface
  deriving DecidableEq, Repr

def InvokeKind.name : InvokeKind → String
  | virtual => "virtual"
  | special => "special"
  | static => "static"
  | interface => "interface"

/-- A call: its kind and the method it names. -/
structure Invocation where
  kind : InvokeKind
  target : Signature
  deriving DecidableEq, Repr

/-- One instruction of a body. -/
structure Instruction where
  /-- The position of the opcode in the code. -/
  offset : Nat
  opcode : UInt8
  /-- The call that the instruction makes, if it is one. -/
  invoke : Option Invocation := none
  deriving DecidableEq, Repr

/-- The point at which a code cannot be decoded. -/
structure CodeFault where
  offset : Nat
  opcode : UInt8
  message : String
  deriving DecidableEq, Repr

/-- The instructions of a method, and the fault after the last of them if there is one. -/
structure Body where
  instructions : List Instruction
  fault : Option CodeFault := none
  deriving DecidableEq, Repr

/-- The body that a reader sees who stops after `n` instructions. -/
def Body.take (b : Body) (n : Nat) : Body :=
  if n ≤ b.instructions.length then ⟨b.instructions.take n, none⟩ else b

/-- A method of a class. -/
structure Method where
  signature : Signature
  flags : AccessFlags
  /-- The body, where it is known and the method has one. -/
  body : Option Body
  deriving DecidableEq, Repr

namespace Method

/-- Whether the code of the method belongs into its class file. -/
def isConcrete (m : Method) : Bool := m.flags.isConcrete

/-- Whether the method belongs to the class and not to its instances. -/
def isStatic (m : Method) : Bool := m.flags.has .isStatic

end Method

/-- A class, resolved to a level. -/
structure Class where
  name : ClassName
  level : Level
  flags : AccessFlags
  /-- The class it extends; the root of the hierarchy extends none. -/
  superclass : Option ClassName
  /-- The interfaces that it lists itself. -/
  interfaces : List ClassName
  methods : List Method
  deriving DecidableEq, Repr

namespace Class

def isInterface (c : Class) : Bool := c.flags.has .isInterface

/-- Whether `name` is among the interfaces that the class lists itself. -/
def implements (c : Class) (name : ClassName) : Bool := c.interfaces.contains name

/-- The first method with the name, parameters and result of `sig`, whatever its owner. -/
def method? (c : Class) (sig : Signature) : Option Method :=
  c.methods.find? fun m => m.signature.name == sig.name && m.signature.params == sig.params &&
    m.signature.result == sig.result

def methodNamed? (c : Class) (name : String) : Option Method :=
  c.methods.find? (·.signature.name == name)

end Class

end KernelReach
