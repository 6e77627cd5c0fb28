import KernelReach.Class.Name
import KernelReach.Text.Quoted

/-!
# Method descriptors

A method descriptor is `(` types `)` type. A type is any number of `[` followed by the letter of a
primitive type or by `L` name `;`, and the result may also be the letter `V`. `parse` reads a
descriptor into the list of its parameter types and its result, which `TypeName.text` writes the
way source code does: keyword or dotted name, then one `[]` per dimension.
-/

namespace KernelReach

/-- The primitive types. -/
inductive Primitive
  | byte
  | char
  | double
  | float
  | int
  | long
  | short
  | boolean
  deriving DecidableEq, Repr

namespace Primitive

def all : List Primitive := [byte, char, double, float, int, long, short, boolean]

/-- The letter of a primitive type in a descriptor. -/
def code : Primitive → Char
  | byte => 'B'
  | char => 'C'
  | double => 'D'
  | float => 'F'
  | int => 'I'
  | long => 'J'
  | short => 'S'
  | boolean => 'Z'

/-- The keyword of a primitive type in source code. -/
def keyword : Primitive → String
  | byte => "byte"
  | char => "char"
  | double => "double"
  | float => "float"
  | int => "int"
  | long => "long"
  | short => "short"
  | boolean => "boolean"

/-- The primitive type with the letter `c`. -/
def ofCode? (c : Char) : Option Primitive :=
  all.find? (·.code == c)

/-- The primitive type with the keyword `s`. -/
def ofKeyword? (s : String) : Option Primitive :=
  all.find? (·.keyword == s)

end Primitive

/-- The type of an element at the bottom of an array, or of a plain value. -/
inductive ElementType
  | void
  | primitive (p : Primitive)
  | object (name : ClassName)
  deriving DecidableEq, Repr

/-- A type: an element type under any number of array dimensions. -/
structure TypeName where
  element : ElementType
  dims : Nat
  deriving DecidableEq, Repr

namespace ElementType

/-- The element type as source code writes it. -/
def text : ElementType → String
  | void => "void"
  | primitive p => p.keyword
  | object name => name.text

end ElementType

namespace TypeName

/-- The type as source code writes it. -/
def text (t : TypeName) : String :=
  t.element.text ++ String.join (List.replicate t.dims "[]")

end TypeName

namespace Descriptor

/-- What is wrong with a descriptor. -/
inductive Fault
  | missingParameterList
  | voidParameter
  | unterminatedParameterList
  | trailingData
  | truncatedType
  | unterminatedClassType
  /-- A type starts with `code`, which no type does. -/
  | badTypeCode (code : Char)
  | arrayOfVoid
  deriving DecidableEq, Repr

/-- A descriptor that cannot be read. -/
structure Error where
  descriptor : String
  fault : Fault
  deriving DecidableEq, Repr

/-- The first byte of the encoding of `c`, as a character. A message shows this one byte of a
    type code that takes several. -/
def leadByte (c : Char) : Char :=
  match String.utf8EncodeChar c with
  | b :: _ => Char.ofNat b.toNat
  | [] => c

def Error.message (e : Error) : String :=
  let subject := Text.quote e.descriptor
  match e.fault with
  | .missingParameterList => s!"method descriptor {subject}: missing parameter list"
  | .voidParameter => s!"method descriptor {subject}: void parameter"
  | .unterminatedParameterList => s!"method descriptor {subject}: unterminated parameter list"
  | .trailingData => s!"method descriptor {subject}: trailing data"
  | .truncatedType => s!"descriptor {subject}: truncated type"
  | .unterminatedClassType => s!"descriptor {subject}: unterminated class type"
  | .badTypeCode c => s!"descriptor {subject}: bad type code " ++ Text.quoteChar (leadByte c)
  | .arrayOfVoid => s!"descriptor {subject}: array of void"

/-- Reads one element type, below `dims` array dimensions. -/
def readElement (dims : Nat) : List Char → Except Fault (ElementType × List Char)
  | [] => .error .truncatedType
  | c :: cs =>
    if c == 'L' then
      match cs.dropWhile (· != ';') with
      | [] => .error .unterminatedClassType
      | _ :: rest =>
        .ok (.object (.ofInternal (String.ofList (cs.takeWhile (· != ';')))), rest)
    else if c == 'V' then
      if dims = 0 then .ok (.void, cs) else .error .arrayOfVoid
    else
      match Primitive.ofCode? c with
      | some p => .ok (.primitive p, cs)
      | none => .error (.badTypeCode c)

/-- Reads one type and returns it with the characters after it. -/
def readType (cs : List Char) : Except Fault (TypeName × List Char) :=
  let dims := (cs.takeWhile (· == '[')).length
  (readElement dims (cs.dropWhile (· == '['))).map fun (element, rest) => (⟨element, dims⟩, rest)

/-- An element type takes at least one character. -/
theorem readElement_length {dims : Nat} {cs rest : List Char} {t : ElementType}
    (h : readElement dims cs = .ok (t, rest)) : rest.length < cs.length := by
  match cs with
  | [] => simp [readElement] at h
  | c :: cs =>
    simp only [readElement] at h
    split at h
    · have := (List.dropWhile_suffix (l := cs) (· != ';')).length_le
      split at h
      · simp at h
      · rename_i d r hr
        simp only [Except.ok.injEq, Prod.mk.injEq] at h
        obtain ⟨-, rfl⟩ := h
        rw [hr] at this
        simp only [List.length_cons] at this ⊢
        omega
    · split at h
      · split at h
        · simp only [Except.ok.injEq, Prod.mk.injEq] at h
          simp [h.2]
        · simp at h
      · split at h
        · simp only [Except.ok.injEq, Prod.mk.injEq] at h
          simp [h.2]
        · simp at h

/-- A type takes at least one character. -/
theorem readType_length {cs rest : List Char} {t : TypeName}
    (h : readType cs = .ok (t, rest)) : rest.length < cs.length := by
  unfold readType at h
  cases he : readElement (cs.takeWhile (· == '[')).length (cs.dropWhile (· == '[')) with
  | error e => simp [he, Except.map] at h
  | ok r =>
    obtain ⟨element, after⟩ := r
    simp only [he, Except.map, Except.ok.injEq, Prod.mk.injEq] at h
    have := readElement_length he
    have := (List.dropWhile_suffix (l := cs) (· == '[')).length_le
    rw [← h.2]
    omega

/-- Reads parameter types up to and including the closing parenthesis. -/
def readParams (cs : List Char) : Except Fault (List TypeName × List Char) :=
  match cs with
  | [] => .error .unterminatedParameterList
  | c :: rest =>
    if c == ')' then .ok ([], rest)
    else match _h : readType (c :: rest) with
      | .error e => .error e
      | .ok (t, after) =>
        if t.text = "void" then .error .voidParameter
        else match readParams after with
          | .error e => .error e
          | .ok (ts, result) => .ok (t :: ts, result)
termination_by cs.length
decreasing_by exact readType_length _h

def read (desc : String) : Except Fault (List TypeName × TypeName) :=
  match desc.toList with
  | '(' :: cs =>
    if desc.utf8ByteSize < 3 then .error .missingParameterList
    else match readParams cs with
      | .error e => .error e
      | .ok (params, rest) =>
        match readType rest with
        | .error e => .error e
        | .ok (result, []) => .ok (params, result)
        | .ok (_, _ :: _) => .error .trailingData
  | _ => .error .missingParameterList

/-- The parameter types and the result of a method descriptor. -/
def parse (desc : String) : Except Error (List TypeName × TypeName) :=
  (read desc).mapError fun fault => ⟨desc, fault⟩

end Descriptor

end KernelReach
