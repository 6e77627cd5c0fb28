import KernelReach.Class.Basic
import KernelReach.Reach.OrderedSet

/-!
# Entry points

An entry point is a method that is reached from outside the program: the entry method of a kernel
class, or a constructor or static initializer of an application class with reachable code.
-/

namespace KernelReach

/-- Why a method is an entry point. -/
inductive EntryKind
  | kernel
  | constructor
  | staticInitializer
  deriving DecidableEq, Repr

def EntryKind.name : EntryKind → String
  | kernel => "kernel"
  | constructor => "constructor"
  | staticInitializer => "static-init"

/-- A method that is reached from outside. -/
structure EntryPoint where
  method : Signature
  kind : EntryKind
  deriving DecidableEq, Repr

/-- The entry points of a program, each method once, in order of discovery. -/
structure EntryPoints where
  points : Array EntryPoint := #[]
  methods : OrderedSet Signature := ∅

namespace EntryPoints

/-- The entry points with one more, unless its method is one already. -/
def add (e : EntryPoints) (p : EntryPoint) : EntryPoints :=
  if e.methods.contains p.method then e
  else { points := e.points.push p, methods := e.methods.insert p.method }

/-- The entry points in order of discovery. -/
def toList (e : EntryPoints) : List EntryPoint := e.points.toList

/-- The classes of the entry points, each once. -/
def kernelClasses (e : EntryPoints) : List ClassName :=
  (OrderedSet.ofList (e.toList.map (·.method.owner))).toList

end EntryPoints

/-- The constructors and static initializers of a class, in order of declaration. -/
def Class.initializers (c : Class) : List EntryPoint :=
  c.methods.filterMap fun m =>
    if m.signature.isConstructor then some ⟨m.signature, .constructor⟩
    else if m.signature.isStaticInitializer then some ⟨m.signature, .staticInitializer⟩
    else none

end KernelReach
