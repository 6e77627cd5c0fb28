/-!
# Access flags

The sixteen flag bits of a class or a method.
-/

namespace KernelReach

/-- A set of flag bits. -/
structure AccessFlags where
  bits : UInt16
  deriving DecidableEq, Repr, Inhabited

namespace AccessFlags

/-- Visible everywhere. -/
def isPublic : AccessFlags := ⟨0x0001⟩
/-- Belongs to the class and not to its instances. -/
def isStatic : AccessFlags := ⟨0x0008⟩
/-- Superclass calls are resolved anew; set on every class that is not an interface. -/
def isSuper : AccessFlags := ⟨0x0020⟩
/-- Implemented outside the class file. -/
def isNative : AccessFlags := ⟨0x0100⟩
def isInterface : AccessFlags := ⟨0x0200⟩
/-- Declared without a body. -/
def isAbstract : AccessFlags := ⟨0x0400⟩

/-- The flags of either operand. -/
def union (f g : AccessFlags) : AccessFlags := ⟨f.bits ||| g.bits⟩

instance : HOr AccessFlags AccessFlags AccessFlags := ⟨union⟩

/-- Whether `f` and `g` share a bit. -/
def has (f g : AccessFlags) : Bool := f.bits &&& g.bits != 0

/-- A method with these flags has its code in the class file. -/
def isConcrete (f : AccessFlags) : Bool := !f.has isAbstract && !f.has isNative

end AccessFlags

end KernelReach
