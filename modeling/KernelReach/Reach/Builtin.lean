import KernelReach.Class.Level
import KernelReach.Class.Name

/-!
# Built-in classes

Platform classes that are resolved before the call graph is built, so that type and exception
information is always there.
-/

namespace KernelReach

/-- A platform class and the level to which it is resolved. -/
structure Builtin where
  name : ClassName
  level : Level
  deriving DecidableEq, Repr

namespace Builtin

/-- Platform classes of which only the place in the hierarchy is needed, with their package. -/
def atHierarchy (names : List String) : List Builtin :=
  names.map fun n => ⟨⟨"java.lang." ++ n⟩, .hierarchy⟩

/-- Platform classes of which the methods are needed too. -/
def atSignatures (names : List String) : List Builtin :=
  names.map fun n => ⟨⟨"java.lang." ++ n⟩, .signatures⟩

/-- The platform classes that every generated kernel depends on. -/
def defaults : List Builtin :=
  atHierarchy ["Object"] ++
  atSignatures ["Class", "Void", "Boolean", "Byte", "Character", "Short", "Integer", "Long",
    "Float", "Double"] ++
  atHierarchy ["String"] ++
  atSignatures ["StringBuffer"] ++
  atHierarchy ["Error"] ++
  atSignatures ["AssertionError", "Throwable", "NoClassDefFoundError"] ++
  atHierarchy ["ExceptionInInitializerError", "RuntimeException", "ClassNotFoundException",
    "ArithmeticException", "ArrayStoreException", "ClassCastException",
    "IllegalMonitorStateException", "IndexOutOfBoundsException",
    "ArrayIndexOutOfBoundsException", "NegativeArraySizeException", "NullPointerException",
    "InstantiationError", "InternalError", "OutOfMemoryError", "StackOverflowError",
    "UnknownError", "ThreadDeath", "ClassCircularityError", "ClassFormatError",
    "IllegalAccessError", "IncompatibleClassChangeError", "LinkageError", "VerifyError",
    "NoSuchFieldError", "AbstractMethodError", "NoSuchMethodError", "UnsatisfiedLinkError",
    "Thread", "Runnable", "Cloneable"] ++
  [⟨⟨"java.io.Serializable"⟩, .hierarchy⟩, ⟨⟨"java.lang.ref.Finalizer"⟩, .hierarchy⟩]

end Builtin

end KernelReach
