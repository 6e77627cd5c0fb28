import KernelReach.Class.Descriptor

/-!
# Method signatures

A method is known by its class, its name, its parameter types and its result type, all as source
code writes them. The parameter types are kept joined by commas, as they stand in the text of the
signature.
-/

namespace KernelReach

/-- The identity of a method. -/
structure Signature where
  /-- The class that declares the method, or in which a call looks for it. -/
  owner : ClassName
  name : String
  /-- The parameter types, joined by commas. -/
  params : String
  result : String
  deriving DecidableEq, Hashable, Repr, Inhabited

/-- The descriptor of a type written as source code does. -/
def typeDescriptor (type : String) : String :=
  go 0 type.toList.reverse
where
  /-- Takes `[]` off the end of a type, given backwards, below `dims` dimensions. -/
  go (dims : Nat) : List Char → String
    | ']' :: '[' :: cs => go (dims + 1) cs
    | cs =>
      let element := String.ofList cs.reverse
      String.ofList (List.replicate dims '[') ++
        if element = "void" then "V"
        else match Primitive.ofKeyword? element with
          | some p => String.singleton p.code
          | none => "L" ++ (ClassName.mk element).internal ++ ";"

namespace Signature

def constructorName : String := "<init>"

def staticInitializerName : String := "<clinit>"

/-- The signature of a method with a list of parameter types. -/
def ofTypes (owner : ClassName) (name : String) (params : List String) (result : String) :
    Signature :=
  ⟨owner, name, String.intercalate "," params, result⟩

def ofDescriptor (owner : ClassName) (name desc : String) : Except Descriptor.Error Signature :=
  (Descriptor.parse desc).map fun (params, result) =>
    ofTypes owner name (params.map TypeName.text) result.text

def paramTypes (s : Signature) : List String :=
  if s.params = "" then [] else (s.params.toList.splitOn ',').map String.ofList

/-- The signature without its class. -/
def subSignature (s : Signature) : String :=
  s.result ++ " " ++ s.name ++ "(" ++ s.params ++ ")"

/-- The text of a signature: `<class: result name(params)>`. -/
def text (s : Signature) : String :=
  "<" ++ s.owner.text ++ ": " ++ s.subSignature ++ ">"

/-- The same method looked for in another class. -/
def withOwner (s : Signature) (owner : ClassName) : Signature := { s with owner }

/-- Whether the method makes an instance. -/
def isConstructor (s : Signature) : Bool := s.name == constructorName

/-- Whether the method sets up its class. -/
def isStaticInitializer (s : Signature) : Bool := s.name == staticInitializerName

def descriptor (s : Signature) : String :=
  "(" ++ String.join (s.paramTypes.map typeDescriptor) ++ ")" ++ typeDescriptor s.result

end Signature

end KernelReach
