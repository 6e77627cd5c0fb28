import KernelReach.Binary.ModifiedUtf8
import KernelReach.Class.Signature

/-!
# The constant pool

A class file keeps its texts and names in a table, the constant pool, and refers to them by
index. Slot zero is never used, and a number of eight bytes takes two slots, of which the second
is never used either. Each entry starts with a tag; the analysis looks into texts, classes and
method references and keeps only the tag of everything else.
-/

namespace KernelReach.Binary

/-- An entry of the constant pool. -/
inductive Constant
  /-- A slot that holds nothing. -/
  | absent
  | text (value : String)
  /-- A class, by the index of the text of its name. -/
  | class (name : Nat)
  /-- A method of a class: the indices of its class and of its name and descriptor. -/
  | method (owner nameAndType : Nat)
  /-- A method of an interface. -/
  | interfaceMethod (owner nameAndType : Nat)
  /-- A name and a descriptor, by the indices of their texts. -/
  | nameAndType (name descriptor : Nat)
  /-- An entry that the analysis does not look into. -/
  | other (tag : UInt8)
  deriving DecidableEq, Repr

namespace Constant

/-- The tag that an entry starts with. -/
def tag : Constant → UInt8
  | absent => 0
  | text _ => 1
  | .class _ => 7
  | method .. => 10
  | interfaceMethod .. => 11
  | nameAndType .. => 12
  | other t => t

/-- What is wrong with an entry. -/
inductive Fault
  | truncated
  | badText
  | unknownTag (tag : UInt8)
  deriving DecidableEq, Repr

/-- The text of a complaint about an entry. -/
def Fault.message : Fault → String
  | truncated => "unexpected end of data"
  | badText => ModifiedUtf8.invalidMessage
  | unknownTag t => "unknown tag " ++ Text.decimal 1 t.toNat

/-- Whether the entry takes two slots: the numbers of eight bytes. -/
def isWide (c : Constant) : Bool := c.tag == 5 || c.tag == 6

def read : Reader Fault Constant := do
  let tag ← Reader.u1 .truncated
  match tag with
  | 1 =>
    let n ← Reader.u2 .truncated
    let bs ← Reader.bytes .truncated n
    match ModifiedUtf8.decode? bs with
    | some s => pure (.text s)
    | none => throw .badText
  | 7 =>
    let name ← Reader.u2 .truncated
    pure (.class name)
  | 10 =>
    let owner ← Reader.u2 .truncated
    let nameAndType ← Reader.u2 .truncated
    pure (.method owner nameAndType)
  | 11 =>
    let owner ← Reader.u2 .truncated
    let nameAndType ← Reader.u2 .truncated
    pure (.interfaceMethod owner nameAndType)
  | 12 =>
    let name ← Reader.u2 .truncated
    let descriptor ← Reader.u2 .truncated
    pure (.nameAndType name descriptor)
  | _ =>
    match otherSize? tag with
    | some n =>
      Reader.skip .truncated n
      pure (.other tag)
    | none => throw (.unknownTag tag)
where
  /-- The number of bytes after the tag of an entry that is not looked into. -/
  otherSize? (tag : UInt8) : Option Nat :=
    if tag == 8 || tag == 16 || tag == 19 || tag == 20 then some 2
    else if tag == 15 then some 3
    else if tag == 3 || tag == 4 || tag == 9 || tag == 17 || tag == 18 then some 4
    else if tag == 5 || tag == 6 then some 8
    else none

end Constant

/-- The constant pool of a class file. -/
structure ConstantPool where
  entries : Array Constant
  deriving DecidableEq, Repr

namespace ConstantPool

/-- What is wrong with a constant pool. -/
inductive Fault
  | truncated
  | empty
  /-- The entry of a slot cannot be read. -/
  | entry (index : Nat) (fault : Constant.Fault)
  deriving DecidableEq, Repr

/-- The text of a complaint about a constant pool. -/
def Fault.message : Fault → String
  | truncated => "unexpected end of data"
  | empty => "empty constant pool"
  | entry i fault => s!"constant pool entry {i}: " ++ fault.message

/-- Reads the entries of `n` slots, of which the first has the index `i`. -/
def readEntries : (i n : Nat) → Reader Fault (List Constant)
  | _, 0 => pure []
  | i, 1 => do
    let c ← Reader.adapt (.entry i) Constant.read
    pure [c]
  | i, n + 2 => do
    let c ← Reader.adapt (.entry i) Constant.read
    if c.isWide then
      let cs ← readEntries (i + 2) n
      pure (c :: .absent :: cs)
    else
      let cs ← readEntries (i + 1) (n + 1)
      pure (c :: cs)

/-- Reads a constant pool: the number of its slots, slot zero included, and its entries. -/
def read : Reader Fault ConstantPool := do
  let count ← Reader.u2 .truncated
  match count with
  | 0 => throw .empty
  | n + 1 =>
    let entries ← readEntries 1 n
    pure ⟨(.absent :: entries).toArray⟩

/-- Why an index of the constant pool does not lead to what is looked for. -/
inductive LookupError
  | outOfRange (index : Nat)
  | wrongTag (index : Nat) (tag : UInt8) (wanted : List UInt8)
  | badDescriptor (e : Descriptor.Error)
  deriving DecidableEq, Repr

/-- The text of a complaint about an index. -/
def LookupError.message : LookupError → String
  | outOfRange i => s!"constant pool index {i} out of range"
  | wrongTag i tag wanted =>
    let got := tag.toNat
    let want := String.intercalate " " (wanted.map fun t => Text.decimal 1 t.toNat)
    s!"constant pool index {i}: tag {got}, want [{want}]"
  | badDescriptor e => e.message

/-- The entry at index `i`. -/
def entry (p : ConstantPool) (i : Nat) : Except LookupError Constant :=
  if i = 0 then .error (.outOfRange i)
  else match p.entries[i]? with
    | some c => .ok c
    | none => .error (.outOfRange i)

/-- The text at index `i`. -/
def textAt (p : ConstantPool) (i : Nat) : Except LookupError String := do
  match ← p.entry i with
  | .text s => pure s
  | c => throw (.wrongTag i c.tag [1])

/-- The class at index `i`. The methods of arrays are those of the root class, so an array type
    stands for it. -/
def classAt (p : ConstantPool) (i : Nat) : Except LookupError ClassName := do
  match ← p.entry i with
  | .class n =>
    let name ← p.textAt n
    pure (if name.toList.head? = some '[' then .object else .ofInternal name)
  | c => throw (.wrongTag i c.tag [7])

/-- The name and the descriptor at index `i`. -/
def nameAndTypeAt (p : ConstantPool) (i : Nat) : Except LookupError (String × String) := do
  match ← p.entry i with
  | .nameAndType n d =>
    let name ← p.textAt n
    let descriptor ← p.textAt d
    pure (name, descriptor)
  | c => throw (.wrongTag i c.tag [12])

/-- The signature of the method reference at index `i`, to a class or to an interface. -/
def methodAt (p : ConstantPool) (i : Nat) : Except LookupError Signature := do
  match ← p.entry i with
  | .method owner nameAndType | .interfaceMethod owner nameAndType =>
    let owner ← p.classAt owner
    let (name, descriptor) ← p.nameAndTypeAt nameAndType
    (Signature.ofDescriptor owner name descriptor).mapError .badDescriptor
  | c => throw (.wrongTag i c.tag [10, 11])

end ConstantPool

end KernelReach.Binary
