import KernelReach.Binary.Code

/-!
# Class files

`parse` reads a class file as far as a level needs: the header for the hierarchy, then the method
table, then the code of every concrete method. What is beyond the level is not looked at, so a
class file that is broken there is still good for the level. A faulty code never makes a class
file unreadable; it is kept as the fault of the body.
-/

namespace KernelReach.Binary.ClassFile

/-- What is wrong with an entry of the method table. -/
inductive MethodFault
  | truncated
  | lookup (e : ConstantPool.LookupError)
  | descriptor (e : Descriptor.Error)
  | attributeName (e : ConstantPool.LookupError)
  deriving DecidableEq, Repr

def MethodFault.message : MethodFault → String
  | truncated => "unexpected end of data"
  | lookup e => e.message
  | descriptor e => e.message
  | attributeName e => "attribute name: " ++ e.message

/-- What is wrong with a class file. -/
inductive Fault
  | invalidLevel (level : Level)
  | truncated
  | badMagic
  | pool (fault : ConstantPool.Fault)
  | thisClass (e : ConstantPool.LookupError)
  | superclass (e : ConstantPool.LookupError)
  | interface (index : Nat) (e : ConstantPool.LookupError)
  | fields
  | method (index : Nat) (fault : MethodFault)
  deriving DecidableEq, Repr

def Fault.message : Fault → String
  | invalidLevel l => "invalid level " ++ Text.integer l.rank
  | truncated => "unexpected end of data"
  | badMagic => "bad magic"
  | pool fault => fault.message
  | thisClass e => "this_class: " ++ e.message
  | superclass e => "super_class: " ++ e.message
  | interface i e => s!"interface {i}: " ++ e.message
  | fields => "fields: unexpected end of data"
  | method i fault => s!"method {i}: " ++ fault.message

/-- The number that every class file starts with. -/
def magic : Nat := 0xcafebabe

/-- The header of a class file, and the pool that the rest refers to. -/
structure Header where
  pool : ConstantPool
  flags : AccessFlags
  name : ClassName
  superclass : Option ClassName
  interfaces : List ClassName

/-- Reads the superclass with the index `i`; index zero and an empty name stand for none. -/
def superclassAt (pool : ConstantPool) (i : Nat) :
    Except ConstantPool.LookupError (Option ClassName) :=
  if i = 0 then .ok none
  else (pool.classAt i).map fun name => if name.text = "" then none else some name

def readHeader : Reader Fault Header := do
  let start ← Reader.u4 .truncated
  if start ≠ magic then throw .badMagic
  -- The version of the format.
  Reader.skip .truncated 4
  let pool ← Reader.adapt .pool ConstantPool.read
  let flags ← Reader.u2 .truncated
  let thisIndex ← Reader.u2 .truncated
  let superIndex ← Reader.u2 .truncated
  let name ← Reader.lift .thisClass (pool.classAt thisIndex)
  let superclass ← Reader.lift .superclass (superclassAt pool superIndex)
  let count ← Reader.u2 .truncated
  let interfaces ← Reader.times (readInterface pool) 0 count
  pure { pool, flags := ⟨UInt16.ofNat flags⟩, name, superclass, interfaces }
where
  /-- Reads the interface at position `i` of the list. -/
  readInterface (pool : ConstantPool) (i : Nat) : Reader Fault ClassName := do
    let index ← Reader.u2 .truncated
    Reader.lift (.interface i) (pool.classAt index)

/-- Passes over one attribute. -/
def skipAttribute : Reader Fault Unit := do
  Reader.skip .fields 2
  let size ← Reader.u4 .fields
  Reader.skip .fields size

/-- Passes over one field and its attributes. -/
def skipField : Reader Fault Unit := do
  Reader.skip .fields 6
  let count ← Reader.u2 .fields
  discard <| Reader.times (fun _ => skipAttribute) 0 count

/-- Passes over the fields, which the analysis never needs. -/
def skipFields : Reader Fault Unit := do
  let count ← Reader.u2 .fields
  discard <| Reader.times (fun _ => skipField) 0 count

/-- Reads one attribute of a method: its name and its content. -/
def readAttribute (pool : ConstantPool) : Reader MethodFault (String × Bytes) := do
  let index ← Reader.u2 .truncated
  let size ← Reader.u4 .truncated
  let name ← Reader.lift .attributeName (pool.textAt index)
  let content ← Reader.bytes .truncated size
  pure (name, content)

/-- The body in the attributes of a method: the last attribute named `Code` counts. -/
def bodyOf (pool : ConstantPool) (attributes : List (String × Bytes)) : Option Body :=
  (attributes.reverse.find? (·.1 == "Code")).map fun a => Code.ofAttribute pool a.2

/-- Reads one entry of the method table of the class `owner`. -/
def readMethod (pool : ConstantPool) (owner : ClassName) (level : Level) :
    Reader MethodFault Method := do
  let flags ← Reader.u2 .truncated
  let nameIndex ← Reader.u2 .truncated
  let descriptorIndex ← Reader.u2 .truncated
  let name ← Reader.lift .lookup (pool.textAt nameIndex)
  let desc ← Reader.lift .lookup (pool.textAt descriptorIndex)
  let signature ← Reader.lift .descriptor (Signature.ofDescriptor owner name desc)
  let count ← Reader.u2 .truncated
  let attributes ← Reader.times (fun _ => readAttribute pool) 0 count
  let flags : AccessFlags := ⟨UInt16.ofNat flags⟩
  let body := if level = .bodies ∧ flags.isConcrete then bodyOf pool attributes else none
  pure { signature, flags, body }

/-- Reads the number of methods. A file that ends before it has none. -/
def readMethodCount : Reader Fault Nat := fun bs =>
  match Reader.u2 () bs with
  | .ok r => .ok r
  | .error () => .ok (0, bs)

def read (level : Level) : Reader Fault Class := do
  let h ← readHeader
  let known : Class :=
    { name := h.name, level := .hierarchy, flags := h.flags, superclass := h.superclass,
      interfaces := h.interfaces, methods := [] }
  if level = .hierarchy then pure known
  else
    skipFields
    let count ← readMethodCount
    let methods ← Reader.times
      (fun i => Reader.adapt (.method i) (readMethod h.pool h.name level)) 0 count
    pure { known with level, methods }

/-- The class in a class file, resolved to `level`. -/
def parse (data : Bytes) (level : Level) : Except Fault Class :=
  if level.IsValid then (read level data).map Prod.fst else .error (.invalidLevel level)

end KernelReach.Binary.ClassFile
