import KernelReach.Settings.Document
import KernelReach.Settings.Environment

/-!
# Loading settings

The settings of a run: the standard ones, overridden by a settings file if there is one, overridden
by the environment, to which a file of assignments in the working directory adds variables.
-/

namespace KernelReach.Settings

def fileName : String := "kernelscan.yaml"

def assignmentsName : String := ".env"

/-- Why settings cannot be loaded. -/
inductive LoadError
  | file (cause : FileError)
  | document (path : String) (cause : DocumentFault)
  deriving Repr

def LoadError.message : LoadError → String
  | file cause => cause.message
  | document path cause => "parsing " ++ path ++ ": " ++ cause.message

/-- The standard settings, overridden by a settings file if there is one. -/
def ofFile (disk : FileTree) (path : String) : Except LoadError Settings :=
  match disk.contentAt path with
  | .error e => if e.fault = .notFound then .ok standard else .error (.file e)
  | .ok bytes =>
    match ofBytes bytes with
    | .ok s => .ok (standard.merge s)
    | .error e => .error (.document path e)

/-- The environment with the variables that the file of assignments adds. -/
def environment (disk : FileTree) (env : Environment) : Environment :=
  match disk.contentAt assignmentsName with
  | .ok bytes => env.withMissing (.ofBytes bytes)
  | .error _ => env

/-- The settings of a run. Without a path the settings file is looked for in the working
    directory. -/
def load (disk : FileTree) (env : Environment) (path : String) : Except LoadError Settings := do
  let s ← ofFile disk (if path = "" then fileName else path)
  pure (s.withEnvironment (environment disk env))

/-- The settings of a run with the settings file in a directory. -/
def loadFrom (disk : FileTree) (env : Environment) (dir : String) : Except LoadError Settings :=
  load disk env (Path.join dir fileName)

end KernelReach.Settings
