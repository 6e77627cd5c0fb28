import KernelReach.Reach.OrderedSet
import KernelReach.Reach.PackageFilter

/-!
# The catalog

The working set of class names: the application classes that were ingested, the runtime classes,
and the ingested classes that the filter keeps out. It only grows.
-/

namespace KernelReach

/-- The class names of one analysis. -/
structure Catalog where
  rules : PackageRules
  /-- Ingested classes that belong to the application, in order of ingestion. -/
  application : OrderedSet ClassName := ∅
  /-- The runtime classes in configured order, ingested or not. -/
  runtime : OrderedSet ClassName
  /-- Ingested classes that the filter keeps out. -/
  ignored : OrderedSet ClassName := ∅

namespace Catalog

/-- The catalog before anything is ingested. -/
def new (rules : PackageRules) : Catalog := { rules, runtime := .ofList rules.runtime }

def add (c : Catalog) (name : ClassName) : Catalog :=
  match c.rules.classify name with
  | .include => { c with application := c.application.insert name }
  | .exclude => { c with ignored := c.ignored.insert name }

/-- Whether `name` is an application or a runtime class. -/
def contains (c : Catalog) (name : ClassName) : Bool :=
  c.application.contains name || c.runtime.contains name

end Catalog

/-- The class whose file has the path `path` below the staging root, if it is the path of a class
    file. Either slash separates, and slashes in front do not count. -/
def ClassName.ofPath? (path : String) : Option ClassName :=
  let path := String.ofList ((Text.replaceChar '\\' '/' path).toList.dropWhile (· == '/'))
  let base := ((Text.splitAt '/' path).getLast?).getD ""
  if Text.endsWith ".class" path && base != ".class" then
    some (.ofInternal (Text.dropEnd ".class" path))
  else none

end KernelReach
