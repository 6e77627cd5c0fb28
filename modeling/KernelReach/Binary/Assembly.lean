import KernelReach.Binary.Opcode
import KernelReach.Binary.Reader
import Std.Data.HashMap

/-!
# Assembling class files

A `ClassSpec` describes a class by its name, its superclass, its interfaces and its methods, and
`ClassSpec.assemble` writes the class file for it. Texts are written as they are, in UTF-8, and
every constant that a class needs more than once is written once: the draft of the constant pool
remembers what it holds under a key.
-/

namespace KernelReach.Binary

/-- A piece of the code of a method. -/
inductive CodeItem
  /-- A call of a method, by its class, name and descriptor. -/
  | call (kind : InvokeKind) (owner name descriptor : String)
  /-- Bytes that are written as they are. -/
  | raw (bytes : Bytes)
  deriving DecidableEq, Repr

/-- A return without a result. -/
def CodeItem.ret : CodeItem := .raw [returnOpcode]

/-- A method to be written. -/
structure MethodSpec where
  name : String
  descriptor : String
  flags : AccessFlags
  code : List CodeItem
  deriving DecidableEq, Repr

/-- A class to be written. -/
structure ClassSpec where
  name : String
  /-- The superclass; empty for a root class. -/
  superclass : String
  interfaces : List String
  flags : AccessFlags
  methods : List MethodSpec
  deriving DecidableEq, Repr

/-! ### The draft of the constant pool -/

/-- What an entry of the draft is found by. The names in a reference are joined, so references
    whose joined names agree share an entry. -/
inductive PoolKey
  | text (value : String)
  | class (name : String)
  | nameAndType (joined : String)
  | method (joined : String)
  | interfaceMethod (joined : String)
  deriving DecidableEq, Hashable, Repr

/-- A constant pool under construction. -/
structure PoolDraft where
  /-- The number of slots, slot zero included. -/
  count : Nat := 1
  /-- The entries written so far, the last first. -/
  entries : List Bytes := []
  indices : Std.HashMap PoolKey Nat := ∅

namespace PoolDraft

/-- The index of the entry with the key `key`, which is `entry` if there is none yet. Indices
    have two bytes. -/
def intern (key : PoolKey) (entry : Bytes) : StateM PoolDraft Nat := fun draft =>
  match draft.indices[key]? with
  | some i => (i, draft)
  | none =>
    let i := draft.count % 65536
    (i, { count := draft.count + 1, entries := entry :: draft.entries,
          indices := draft.indices.insert key i })

def text (s : String) : StateM PoolDraft Nat :=
  let bytes := s.toUTF8.toList
  intern (.text s) (1 :: putBigEndian 2 bytes.length ++ bytes)

/-- The index of a class. Array types keep their form. -/
def className (name : String) : StateM PoolDraft Nat := do
  let internal := if name.toList.head? = some '[' then name else (ClassName.mk name).internal
  let n ← text internal
  intern (.class internal) (7 :: putBigEndian 2 n)

def nameAndType (name descriptor : String) : StateM PoolDraft Nat := do
  let n ← text name
  let d ← text descriptor
  intern (.nameAndType (name ++ ":" ++ descriptor)) (12 :: putBigEndian 2 n ++ putBigEndian 2 d)

/-- The index of a reference to a method of a class or, for a call of that kind, an interface. -/
def methodRef (kind : InvokeKind) (owner name descriptor : String) : StateM PoolDraft Nat := do
  let c ← className owner
  let nt ← nameAndType name descriptor
  let joined := owner ++ "." ++ name ++ descriptor
  let indices := putBigEndian 2 c ++ putBigEndian 2 nt
  match kind with
  | .interface => intern (.interfaceMethod joined) (11 :: indices)
  | _ => intern (.method joined) (10 :: indices)

end PoolDraft

/-! ### Code and methods -/

/-- The number of parameters of a descriptor; one that cannot be read counts as none. -/
def paramCount (descriptor : String) : Nat :=
  match Descriptor.parse descriptor with
  | .ok (params, _) => params.length
  | .error _ => 0

/-- Writes a piece of code. A call of an interface method carries the number of its arguments. -/
def CodeItem.assemble : CodeItem → StateM PoolDraft Bytes
  | .raw bytes => pure bytes
  | .call kind owner name descriptor => do
    let i ← PoolDraft.methodRef kind owner name descriptor
    let arguments : Bytes :=
      if kind = .interface then [UInt8.ofNat (paramCount descriptor + 1), 0] else []
    pure (callOpcode kind :: putBigEndian 2 i ++ arguments)

/-- Writes one entry of the method table; `codeName` is the index of the text `Code`. A method
    whose code is not in the class file has no attribute. -/
def MethodSpec.assemble (codeName : Nat) (m : MethodSpec) : StateM PoolDraft Bytes := do
  let name ← PoolDraft.text m.name
  let descriptor ← PoolDraft.text m.descriptor
  let head := putBigEndian 2 m.flags.bits.toNat ++ putBigEndian 2 name ++ putBigEndian 2 descriptor
  if m.flags.isConcrete then
    let code := (← m.code.mapM CodeItem.assemble).flatten
    pure (head ++ putBigEndian 2 1 ++ putBigEndian 2 codeName ++ putBigEndian 4 (12 + code.length)
      ++ putBigEndian 2 8 ++ putBigEndian 2 8 ++ putBigEndian 4 code.length ++ code
      ++ putBigEndian 2 0 ++ putBigEndian 2 0)
  else pure (head ++ putBigEndian 2 0)

/-! ### Classes -/

namespace ClassSpec

/-- A public class below the root of the hierarchy. -/
def new (name : String) : ClassSpec :=
  { name, superclass := ClassName.object.text, interfaces := [],
    flags := .isPublic ||| .isSuper, methods := [] }

def newInterface (name : String) : ClassSpec :=
  { new name with flags := .isPublic ||| .isInterface ||| .isAbstract }

/-- The class with one more method. A method without code returns at once. -/
def addMethod (c : ClassSpec) (name descriptor : String) (flags : AccessFlags)
    (code : List CodeItem) : ClassSpec :=
  let code := if code.isEmpty then [.ret] else code
  { c with methods := c.methods ++ [⟨name, descriptor, flags, code⟩] }

/-- The class with one more method that is only declared. -/
def addAbstract (c : ClassSpec) (name descriptor : String) : ClassSpec :=
  { c with methods := c.methods ++ [⟨name, descriptor, .isPublic ||| .isAbstract, []⟩] }

/-- The class with one more method that is implemented elsewhere. -/
def addNative (c : ClassSpec) (name descriptor : String) : ClassSpec :=
  { c with methods := c.methods ++ [⟨name, descriptor, .isPublic ||| .isNative, []⟩] }

/-- The class with a constructor that calls the one of its superclass. -/
def addConstructor (c : ClassSpec) : ClassSpec :=
  c.addMethod Signature.constructorName "()V" .isPublic [
    .raw [loadThisOpcode],
    .call .special c.superclass Signature.constructorName "()V",
    .ret]

/-- Where the class file lies below the root of a directory or an archive. -/
def filePath (c : ClassSpec) : String := (ClassName.mk c.name).filePath

/-- The parts of a class file after the constant pool. -/
def assembleBody (c : ClassSpec) : StateM PoolDraft Bytes := do
  let name ← PoolDraft.className c.name
  let superclass ← if c.superclass = "" then pure 0 else PoolDraft.className c.superclass
  let interfaces ← c.interfaces.mapM PoolDraft.className
  let codeName ← PoolDraft.text "Code"
  let methods ← c.methods.mapM (MethodSpec.assemble codeName)
  pure (putBigEndian 2 c.flags.bits.toNat ++ putBigEndian 2 name ++ putBigEndian 2 superclass
    ++ putBigEndian 2 interfaces.length ++ (interfaces.map (putBigEndian 2)).flatten
    ++ putBigEndian 2 0
    ++ putBigEndian 2 methods.length ++ methods.flatten
    ++ putBigEndian 2 0)

def assemble (c : ClassSpec) : Bytes :=
  let (body, draft) := c.assembleBody.run {}
  putBigEndian 4 0xcafebabe ++ putBigEndian 2 0 ++ putBigEndian 2 52 ++ putBigEndian 2 draft.count
    ++ draft.entries.reverse.flatten ++ body

end ClassSpec

end KernelReach.Binary
