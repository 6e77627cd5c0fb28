/-!
# Class names

A class is named by the dotted text that source code uses (`a.b.C`). Class files and archives use
the internal form, with a slash for every dot (`a/b/C`).
-/

namespace KernelReach

/-- The dotted name of a class. -/
structure ClassName where
  text : String
  deriving DecidableEq, Hashable, Repr, Inhabited

namespace ClassName

/-- The root of the class hierarchy. -/
def object : ClassName := ⟨"java.lang.Object"⟩

/-- What stands before the last dot, or nothing in the default package. -/
def package (c : ClassName) : String :=
  String.ofList ((c.text.toList.reverse.dropWhile (· != '.')).drop 1).reverse

/-- The internal form: slashes for dots. -/
def internal (c : ClassName) : String :=
  String.ofList (c.text.toList.map fun x => if x == '.' then '/' else x)

/-- Reads the internal form: dots for slashes. -/
def ofInternal (s : String) : ClassName :=
  ⟨String.ofList (s.toList.map fun x => if x == '/' then '.' else x)⟩

/-- Where the class file lies below the root of a directory or an archive. -/
def filePath (c : ClassName) : String := c.internal ++ ".class"

end ClassName

end KernelReach
