import KernelReach.Class.Name
import KernelReach.Text.Affix

/-!
# The package filter

Which of the staged classes belong to the application. The runtime classes are named one by one
and always belong; packages to keep and packages to ignore are given by the start of their names,
and keeping wins. A class that no rule mentions belongs.
-/

namespace KernelReach

/-- The rules of the filter. -/
structure PackageRules where
  /-- Classes of the kernel runtime, by name. -/
  runtime : List ClassName := []
  /-- Starts of the names of classes to keep. -/
  keep : List String := []
  /-- Starts of the names of classes to ignore. -/
  ignore : List String := []
  deriving DecidableEq, Repr

/-- What the filter says about a class. -/
inductive Decision
  | include
  | exclude
  deriving DecidableEq, Repr

def Decision.name : Decision → String
  | .include => "include"
  | .exclude => "exclude"

namespace PackageRules

/-- Whether `name` is one of the runtime classes. -/
def isRuntime (r : PackageRules) (name : ClassName) : Bool := r.runtime.contains name

/-- Decides about `name`: the first rule that mentions it counts. -/
def classify (r : PackageRules) (name : ClassName) : Decision :=
  if r.isRuntime name then .include
  else if r.keep.any (Text.startsWith · name.text) then .include
  else if r.ignore.any (Text.startsWith · name.text) then .exclude
  else .include

end PackageRules

end KernelReach
