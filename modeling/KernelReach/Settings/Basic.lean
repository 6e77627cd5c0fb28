import KernelReach.Backend
import KernelReach.Files.Walk
import KernelReach.Reach.Session

/-!
# Settings

What can be configured. Settings come from several places, each of which overrides the ones before
it (`Settings.merge`):

* `Settings.standard`, the conventions of the kernel runtime;
* the settings file, see `Settings.load`;
* the variables of the environment, see `Settings.withEnvironment`.

An empty text, an empty list or a number that is not positive says nothing, so it overrides nothing.
-/

namespace KernelReach

/-- A platform class to resolve and the name of a level. -/
structure BuiltinSetting where
  className : String := ""
  level : String := ""
  deriving DecidableEq, Repr

/-- Where reports are kept. -/
structure StoreSettings where
  dir : String := ""
  /-- The address of a database server; empty for a file in the directory. -/
  address : String := ""
  deriving DecidableEq, Repr

/-- Where call graphs are exported to. -/
structure GraphSettings where
  uri : String := ""
  user : String := ""
  password : String := ""
  database : String := ""
  batchSize : Int := 0
  deriving DecidableEq, Repr

/-- Where reports are published. -/
structure PublishSettings where
  endpoint : String := ""
  bucket : String := ""
  region : String := ""
  accessKey : String := ""
  secretKey : String := ""
  /-- Whether connections are encrypted, if that is said at all. -/
  encrypted : Option Bool := none
  deriving DecidableEq, Repr

/-- Whether connections are encrypted. They are unless something else is said. -/
def PublishSettings.isEncrypted (s : PublishSettings) : Bool := s.encrypted.getD true

/-- Everything that can be configured. -/
structure Settings where
  /-- The archives and directories to analyse. -/
  inputs : List String := []
  classPath : List String := []
  /-- Directories whose archives are added to the class path. -/
  classPathDirs : List String := []
  stagingDir : String := ""
  runtimeClasses : List String := []
  keepPackages : List String := []
  ignorePackages : List String := []
  markerInterface : String := ""
  entryMethod : String := ""
  builtins : List BuiltinSetting := []
  backend : String := ""
  /-- The number of class files that are kept in memory. -/
  classCacheSize : Int := 0
  store : StoreSettings := {}
  graph : GraphSettings := {}
  publish : PublishSettings := {}
  deriving DecidableEq, Repr

namespace Settings

/-- The conventions of the kernel runtime. -/
def standard : Settings where
  stagingDir := "jar-contents"
  runtimeClasses := [
    "edu.syr.pcpratts.rootbeer.generate.bytecode.Constants",
    "edu.syr.pcpratts.rootbeer.runtime.RootbeerFactory",
    "edu.syr.pcpratts.rootbeer.runtime.Rootbeer",
    "edu.syr.pcpratts.rootbeer.runtime.RootbeerGpu",
    "edu.syr.pcpratts.rootbeer.runtime.Kernel",
    "edu.syr.pcpratts.rootbeer.runtime.CompiledKernel",
    "edu.syr.pcpratts.rootbeer.runtime.Serializer",
    "edu.syr.pcpratts.rootbeer.runtime.memory.Memory",
    "edu.syr.pcpratts.rootbeer.runtime.Sentinal",
    "edu.syr.pcpratts.rootbeer.test.TestSerialization",
    "edu.syr.pcpratts.rootbeer.test.TestSerializationFactory",
    "edu.syr.pcpratts.rootbeer.test.TestException",
    "edu.syr.pcpratts.rootbeer.test.TestExceptionFactory",
    "edu.syr.pcpratts.rootbeer.runtime.util.Stopwatch",
    "edu.syr.pcpratts.rootbeer.runtime.PrivateFields"]
  keepPackages := [
    "edu.syr.pcpratts.rootbeer.testcases.",
    "edu.syr.pcpratts.rootbeer.runtime.remap."]
  ignorePackages := [
    "edu.syr.pcpratts.compressor.",
    "edu.syr.pcpratts.deadmethods.",
    "edu.syr.pcpratts.jpp.",
    "edu.syr.pcpratts.rootbeer.",
    "pack.", "jasmin.", "soot.", "beaver.", "polyglot.", "org.antlr.", "java_cup.", "ppg.",
    "antlr.", "jas.", "scm."]
  markerInterface := Options.defaultMarker.text
  entryMethod := Options.defaultEntryMethod
  backend := Backend.cuda.name
  classCacheSize := 4096
  store := { dir := ".kernelscan" }
  graph := { uri := "bolt://localhost:7687", user := "neo4j", batchSize := 500 }
  publish := { bucket := "kernelscan-reports", region := "us-east-1" }

/-! ### Overriding -/

/-- A text, unless another one says something. -/
def overrideText (old new : String) : String := if new = "" then old else new

/-- A list, unless another one says something. -/
def overrideList {α : Type} (old new : List α) : List α := if new.isEmpty then old else new

/-- A number, unless another one says something. -/
def overrideNumber (old new : Int) : Int := if 0 < new then new else old

/-- The settings, overridden by others wherever those say something. -/
def merge (old new : Settings) : Settings where
  inputs := overrideList old.inputs new.inputs
  classPath := overrideList old.classPath new.classPath
  classPathDirs := overrideList old.classPathDirs new.classPathDirs
  stagingDir := overrideText old.stagingDir new.stagingDir
  runtimeClasses := overrideList old.runtimeClasses new.runtimeClasses
  keepPackages := overrideList old.keepPackages new.keepPackages
  ignorePackages := overrideList old.ignorePackages new.ignorePackages
  markerInterface := overrideText old.markerInterface new.markerInterface
  entryMethod := overrideText old.entryMethod new.entryMethod
  builtins := overrideList old.builtins new.builtins
  backend := overrideText old.backend new.backend
  classCacheSize := overrideNumber old.classCacheSize new.classCacheSize
  store := {
    dir := overrideText old.store.dir new.store.dir
    address := overrideText old.store.address new.store.address }
  graph := {
    uri := overrideText old.graph.uri new.graph.uri
    user := overrideText old.graph.user new.graph.user
    password := overrideText old.graph.password new.graph.password
    database := overrideText old.graph.database new.graph.database
    batchSize := overrideNumber old.graph.batchSize new.graph.batchSize }
  publish := {
    endpoint := overrideText old.publish.endpoint new.publish.endpoint
    bucket := overrideText old.publish.bucket new.publish.bucket
    region := overrideText old.publish.region new.publish.region
    accessKey := overrideText old.publish.accessKey new.publish.accessKey
    secretKey := overrideText old.publish.secretKey new.publish.secretKey
    encrypted := new.publish.encrypted.or old.publish.encrypted }

/-! ### Meaning -/

/-- What can be wrong with settings. -/
inductive Invalid
  | backend (cause : Backend.Unknown)
  | unnamedBuiltin
  | builtinLevel (className : String) (cause : Level.Unknown)
  | missingConvention
  deriving DecidableEq, Repr

def Invalid.message : Invalid → String
  | backend cause => cause.message
  | unnamedBuiltin => "builtin without class name"
  | builtinLevel c cause => "builtin " ++ c ++ ": " ++ cause.message
  | missingConvention => "marker_interface and entry_method are required"

/-- The level that is set for a platform class. -/
def builtinLevel (b : BuiltinSetting) : Except Invalid Level :=
  (Level.parse b.level).mapError (.builtinLevel b.className)

/-- Checks a platform class. -/
def validateBuiltin (b : BuiltinSetting) : Except Invalid Unit :=
  if Text.trim b.className = "" then .error .unnamedBuiltin
  else (builtinLevel b).map fun _ => ()

/-- Checks the settings; gives the first complaint. -/
def validate (s : Settings) : Except Invalid Unit := do
  let _ ← (Backend.parse s.backend).mapError .backend
  s.builtins.forM validateBuiltin
  if s.markerInterface = "" ∨ s.entryMethod = "" then throw .missingConvention

/-- Whether a class is one of the kernel runtime. -/
def isRuntimeClass (s : Settings) (name : String) : Bool := s.runtimeClasses.contains name

/-- The options of the analysis. If no platform classes are set, they are the usual ones. -/
def options (s : Settings) : Except Invalid Options := do
  let builtins ← if s.builtins.isEmpty then pure Builtin.defaults
    else s.builtins.mapM fun b => do
      pure ⟨⟨Text.trim b.className⟩, ← builtinLevel b⟩
  pure {
    rules := {
      runtime := s.runtimeClasses.map ClassName.mk
      keep := s.keepPackages
      ignore := s.ignorePackages }
    marker := ⟨s.markerInterface⟩
    entryMethod := s.entryMethod
    builtins }

/-- The class path: the entries that are set, and the archives in the directories that are set. -/
def classPathEntries (s : Settings) (disk : FileTree) : Except String (List String) := do
  let jars ← s.classPathDirs.mapM disk.jarsUnder
  pure (s.classPath ++ jars.flatten)

end Settings

end KernelReach
