import KernelReach.Reach.Builtin
import KernelReach.Reach.Catalog
import KernelReach.Reach.EntryPoint
import KernelReach.Reach.Queue
import KernelReach.Reach.Resolver

/-!
# Sessions

A session is one analysis run: the catalog of classes, the resolver, the entry points and the call
graph as far as it is built. Its phases run one after the other:

* `ingest` fills the catalog from the paths of staged files;
* `loadSignatures` resolves every application class to signatures;
* `detectEntryPoints` finds the entry method of every kernel class;
* `loadBuiltins` resolves the platform classes;
* the traversal (`KernelReach.Reach.Traversal`) builds the call graph;
* `augmentEntryPoints` adds the initializers of the classes whose code is reached.

A phase that fails leaves the session as it was at the point of failure.
-/

namespace KernelReach

/-- What an analysis is asked to do. -/
structure Options where
  rules : PackageRules := {}
  /-- The interface that kernel classes list. -/
  marker : ClassName
  /-- The name of the method at which a kernel starts. -/
  entryMethod : String
  builtins : List Builtin := []
  deriving DecidableEq, Repr

namespace Options

/-- The interface that marks kernels unless another is configured. -/
def defaultMarker : ClassName := ⟨"edu.syr.pcpratts.rootbeer.runtime.Kernel"⟩

/-- The entry method of kernels unless another is configured. -/
def defaultEntryMethod : String := "gpuMethod"

/-- The options with the conventional marker and entry method where none is given. -/
def withDefaults (o : Options) : Options :=
  { o with
    marker := if o.marker.text = "" then defaultMarker else o.marker
    entryMethod := if o.entryMethod = "" then defaultEntryMethod else o.entryMethod }

end Options

/-- Whether a call was followed. -/
inductive EdgeStatus
  | followed
  /-- The method that is called cannot be had. -/
  | unavailable (reason : String)
  deriving DecidableEq, Repr

namespace EdgeStatus

def name : EdgeStatus → String
  | followed => "followed"
  | unavailable _ => "unavailable"

/-- Why a call was not followed. -/
def reason : EdgeStatus → String
  | followed => ""
  | unavailable r => r

/-- Whether the call was not followed. -/
def isUnavailable : EdgeStatus → Bool
  | followed => false
  | unavailable _ => true

end EdgeStatus

/-- A call in the body of a method. -/
structure CallEdge where
  caller : Signature
  /-- The method as the call names it. -/
  target : Signature
  /-- The method that the call leads to; the target itself if that cannot be had. -/
  callee : Signature
  kind : InvokeKind
  offset : Nat
  status : EdgeStatus
  deriving DecidableEq, Repr

/-- The state of one analysis over a provider with the state `σ`. -/
structure Session (σ : Type) where
  options : Options
  catalog : Catalog
  resolver : Resolver σ
  entries : EntryPoints := {}
  /-- The application classes that were resolved to signatures, in catalog order. -/
  loaded : Array Class := #[]
  /-- Whether `loadSignatures` was started. -/
  signaturesLoaded : Bool := false
  /-- The classes whose bodies are called for. -/
  bodies : OrderedSet ClassName := ∅
  /-- The methods that are still to be visited. -/
  work : Queue Signature := ∅
  visited : OrderedSet Signature := ∅
  /-- The methods whose bodies were scanned. -/
  scanned : OrderedSet Signature := ∅
  /-- What each signature that was looked up leads to. -/
  resolved : Std.HashMap Signature (Except AnalysisError Method) := ∅
  edges : Array CallEdge := #[]
  diagnostics : Array Diagnostic := #[]

/-- A step of a session that may fail; its effect on the session stays when it does. -/
abbrev SessionM (σ : Type) := ExceptT AnalysisError (StateM (Session σ))

namespace Session

variable {σ : Type}

/-- A session that has done nothing yet. -/
def new (options : Options) (source : σ) : Session σ :=
  let options := options.withDefaults
  { options, catalog := .new options.rules, resolver := { source } }

/-- What happened so far, in order. -/
def events (s : Session σ) : List Event := s.resolver.events.reverse

def note (s : Session σ) (e : Event) : Session σ := { s with resolver := s.resolver.note e }

/-- The session with a note of a condition that the analysis lives with. -/
def diagnose (s : Session σ) (kind : DiagnosticKind) (subject message : String) : Session σ :=
  let d : Diagnostic := ⟨kind, subject, message⟩
  { s.note (.diagnosed d) with diagnostics := s.diagnostics.push d }

/-- Asks the resolver and hands out its answer, good or bad. -/
def ask {α : Type} (question : Resolver σ → Except AnalysisError α × Resolver σ) :
    SessionM σ (Except AnalysisError α) := fun s =>
  let (answer, resolver) := question s.resolver
  (.ok answer, { s with resolver })

/-! ### The phases before the traversal -/

/-- A staged file: its path below the staging root, and the failure to stage it if there was
    one. -/
structure StagedPath where
  path : String
  error : Option String := none
  deriving DecidableEq, Repr

/-- Adds a staged file to the catalog, if it is a class file. -/
def ingestPath (s : Session σ) (p : StagedPath) : Session σ :=
  match p.error, ClassName.ofPath? p.path with
  | some message, _ => s.diagnose .ingest p.path message
  | none, none => s
  | none, some name =>
    let s := { s with catalog := s.catalog.add name }
    if s.options.rules.classify name = .exclude then s.note (.ignoring name) else s

/-- Adds staged files to the catalog. -/
def ingest (s : Session σ) (paths : List StagedPath) : Session σ := paths.foldl ingestPath s

/-- The number of class files among `paths` that the filter lets in. -/
def admitted (rules : PackageRules) (paths : List StagedPath) : Nat :=
  paths.countP fun p =>
    p.error.isNone && (ClassName.ofPath? p.path).any (rules.classify · = .include)

/-- Resolves one application class to signatures. -/
def loadClass (P : Provider σ) (name : ClassName) : SessionM σ Unit := do
  modify (·.note (.loadingSignatures name))
  match ← ask (·.resolveClass P name .signatures) with
  | .ok c => modify fun s => { s with loaded := s.loaded.push c }
  | .error e =>
    if e.isUnavailable then modify (·.diagnose .resolve name.text e.message) else throw e

/-- Resolves every application class to signatures. A class that cannot be had is left out. -/
def loadSignatures (P : Provider σ) : SessionM σ Unit := do
  modify fun s => { s with signaturesLoaded := true }
  (← get).catalog.application.toList.forM (loadClass P)

/-- Finds the entry method of one class, if the class is a kernel. -/
def detectKernel (s : Session σ) (c : Class) : Session σ :=
  let marker := s.options.marker
  let entry := s.options.entryMethod
  if c.implements marker then
    match c.methodNamed? entry with
    | some m => { s with entries := s.entries.add ⟨m.signature, .kernel⟩ }
    | none =>
      s.diagnose .entryPoint c.name.text
        ("implements " ++ marker.text ++ " but declares no " ++ entry ++ " method")
  else s

/-- Finds the entry methods of the application classes that list the marker interface. -/
def detectEntryPoints (s : Session σ) : Session σ := s.loaded.toList.foldl detectKernel s

/-- Resolves one platform class. -/
def loadBuiltin (P : Provider σ) (b : Builtin) : SessionM σ Unit := do
  match ← ask (·.resolveClass P b.name b.level) with
  | .ok _ => pure ()
  | .error e =>
    if e.isUnavailable then modify (·.diagnose .builtin b.name.text e.message) else throw e

/-- Resolves the platform classes. -/
def loadBuiltins (P : Provider σ) : SessionM σ Unit := do
  (← get).options.builtins.forM (loadBuiltin P)

/-- Adds the constructors and static initializers of the application classes whose bodies are
    known. -/
def augmentEntryPoints (s : Session σ) : Session σ :=
  let reached := s.loaded.toList.filterMap fun c =>
    s.resolver.classes[c.name]?.filter (·.level = .bodies)
  { s with entries := (reached.flatMap Class.initializers).foldl EntryPoints.add s.entries }

end Session

end KernelReach
