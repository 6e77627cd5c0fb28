import KernelReach.Class.Basic
import KernelReach.Json.Document

/-!
# Classes as documents

A class, its methods and their bodies in the form in which they are looked at. An instruction is a
list of its offset, its opcode and, if it calls a method, the kind of the call and the target.
-/

namespace KernelReach

def Instruction.toJson (i : Instruction) : Json :=
  let place := [Json.int i.offset, .int i.opcode.toNat]
  match i.invoke with
  | some c => .array (place ++ [.string c.kind.name, .string c.target.text])
  | none => .array place

def CodeFault.toJson (f : CodeFault) : Json :=
  .array [.int f.offset, .int f.opcode.toNat, .string f.message]

def Body.toJson (b : Body) : Json := .object [
  ("instructions", .list Instruction.toJson b.instructions),
  ("error", match b.fault with
    | some f => f.toJson
    | none => .null)]

def Method.toJson (m : Method) : Json := .object [
  ("signature", .string m.signature.text), ("flags", .int m.flags.bits.toNat),
  ("concrete", .bool m.isConcrete),
  ("body", match m.body with
    | some b => b.toJson
    | none => .null)]

/-- The class as a document. Methods that are not known are null. -/
def Class.toJson (c : Class) : Json := .object [
  ("name", .string c.name.text), ("level", .string c.level.name),
  ("flags", .int c.flags.bits.toNat),
  ("super", .string ((c.superclass.map ClassName.text).getD "")),
  ("interfaces", .list (fun i => .string i.text) c.interfaces),
  ("is_interface", .bool c.isInterface),
  ("methods", if c.level = .hierarchy then .null else .list Method.toJson c.methods)]

end KernelReach
