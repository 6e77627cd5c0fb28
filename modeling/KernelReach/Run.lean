import KernelReach.Files.ClassPath
import KernelReach.Files.Staging
import KernelReach.Report.OfResult
import KernelReach.Settings.Basic
import KernelReach.Store.Basic
import KernelReach.Text.Size

/-!
# Runs

A run takes its inputs from the disk to a stored report:

* the inputs are copied into the staging directory;
* the staged classes are catalogued, and the kernels among them and all that they reach are found,
  with the staged classes in front of the class path;
* the report is stored and written as a document.

What is said on the way is part of the outcome, and so is what was changed before a failure.
-/

namespace KernelReach

open Time (Timestamp)

/-- How a run is to be done. -/
structure RunOptions where
  /-- Whether every step of the analysis is told. -/
  verbose : Bool := false
  /-- Whether the runs stored before are deleted. -/
  fresh : Bool := false
  /-- Whether the run is canceled before it starts. -/
  canceled : Bool := false
  deriving DecidableEq, Repr

/-- What a run gets from outside: a name of its own, the time at which it starts and the time it
    takes. -/
structure RunClock where
  id : String
  start : Timestamp
  durationNs : Nat
  deriving DecidableEq, Repr

/-- Why a run fails. -/
inductive RunError
  | noInputs
  | invalid (cause : Settings.Invalid)
  | options (cause : Settings.Invalid)
  | classPathFolder (message : String)
  | staging (cause : Staging.Error)
  /-- The run was canceled while it staged its inputs. -/
  | canceled
  | classPath (cause : ClassPath.OpenError)
  | analysis (cause : PhaseError)
  | store (doing : String) (cause : StoreError)
  deriving Repr

def RunError.message : RunError → String
  | noInputs => "no inputs to analyze"
  | invalid cause => "invalid configuration: " ++ cause.message
  | options cause => cause.message
  | classPathFolder message => message
  | staging cause => cause.message
  | canceled => "staging inputs: " ++ Staging.Error.canceled.message
  | classPath cause => "opening class path: " ++ cause.message
  | analysis cause => cause.message
  | store doing cause => doing ++ ": " ++ cause.message

/-- What a run has found and where it is kept. -/
structure RunResult where
  id : String
  backend : Backend
  analysis : AnalysisResult
  staged : StagingSummary
  classPath : ClassPathStats
  durationNs : Nat
  databasePath : String
  reportPath : String

/-- The outcome of a run. -/
structure RunOutcome where
  result : Except RunError RunResult
  /-- What was said, line by line. -/
  lines : List String
  space : Workspace

namespace Run

/-- What a run changes while it goes on: the disk and what was said. -/
structure State where
  space : Workspace
  lines : List String := []

/-- A step of a run. A failure keeps what was done before it. -/
abbrev Step := ExceptT RunError (StateM State)

def say (line : String) : Step Unit := modify fun s => { s with lines := s.lines ++ [line] }

/-- Turns the failure of a computation into that of a run. -/
def check {ε α : Type} (wrap : ε → RunError) (r : Except ε α) : Step α :=
  liftExcept (r.mapError wrap)
where
  /-- A step with a known result. -/
  liftExcept (r : Except RunError α) : Step α := ExceptT.mk (pure r)

/-- Copies the inputs into the staging directory. -/
def stageInputs (s : Settings) (o : RunOptions) : Step StagingSummary := do
  say ("Staging " ++ Text.decimal 1 s.inputs.length ++ " inputs into " ++ s.stagingDir ++ "...")
  let files ← check .staging (Staging.prepare (← get).space.files s.stagingDir)
  modify fun st => { st with space := { st.space with files } }
  if o.canceled then throw .canceled
  let (files, summary, log) := Staging.stage files s.stagingDir (InputEntry.ofInputs files s.inputs)
  modify fun st => { st with space := { st.space with files }, lines := st.lines ++ log }
  say ("Staged " ++ Text.grouped summary.files ++ " files (" ++ Text.grouped summary.classes
    ++ " classes, " ++ Text.byteSize summary.bytes ++ "), " ++ Text.decimal 1 summary.failed
    ++ " failed")
  pure summary

def told (o : RunOptions) (events : List Event) : List String :=
  (events.filter fun e => o.verbose || e.isWarning).map Event.line

/-- Finds the kernels among the staged classes and what they reach. -/
def analyse (s : Settings) (o : RunOptions) (options : Options) (libraries : List String)
    (staged : StagingSummary) : Step (AnalysisResult × ClassPathStats) := do
  let disk := (← get).space.files
  let cp ← check .classPath
    (ClassPath.openEntries disk (s.stagingDir :: libraries) s.classCacheSize)
  let session := (Session.new options cp).ingest staged.paths
  (told o session.events).forM say
  say ("Cataloged " ++ Text.grouped (Session.admitted options.rules staged.paths)
    ++ " application classes (" ++ Text.grouped session.catalog.ignored.size ++ " ignored)")
  say "Building call graph..."
  let (found, after) := Session.findKernels (ClassPath.provider disk) Session.ampleFuel none session
  (told o (after.events.drop session.events.length)).forM say
  check .analysis found
  let r := after.result
  say ("Found " ++ Text.decimal 1 r.kernelClasses.length ++ " kernel classes, "
    ++ Text.grouped r.stats.scanned ++ " reachable methods, " ++ Text.grouped r.stats.edges
    ++ " call edges (" ++ Text.decimal 1 r.stats.unavailable ++ " unavailable)")
  pure (r, after.resolver.source.stats)

/-- Stores the report on an analysis. Gives the name of the run and the paths of the database and of
    the document. -/
def keep (s : Settings) (o : RunOptions) (clock : RunClock) (backend : Backend)
    (r : AnalysisResult) : Step (String × String × String) := do
  let (store, space) ← check (.store "opening store")
    (Store.openAt s.store.dir s.store.address (← get).space)
  let put (store : Store) : Step Unit :=
    modify fun st => { st with space := store.putBack st.space }
  modify fun st => { st with space }
  let mut store := store
  if o.fresh then
    let (cleared, after) := store.clear
    put after
    check (.store "clearing store") cleared
    store := after
  let report := Report.ofResult r {
    startedAt := clock.start, durationNs := clock.durationNs, backend := backend.name
    inputs := some (s.inputs.map Text.heldBytes) }
  let (saved, after) := store.save clock.id clock.start false report
  put after
  let id ← check (.store "saving run") saved
  let (path, files) ← check (.store "writing report.json")
    (after.writeDocument id (← get).space.files)
  modify fun st => { st with space := { st.space with files } }
  pure (id, after.path, path)

/-- Does a run. -/
def steps (s : Settings) (o : RunOptions) (clock : RunClock) : Step RunResult := do
  if s.inputs.isEmpty then throw .noInputs
  check .invalid s.validate
  let backend := (Backend.parse s.backend).toOption.getD Backend.cuda
  let options ← check .options s.options
  let libraries ← check .classPathFolder (s.classPathEntries (← get).space.files)
  let staged ← stageInputs s o
  let (analysis, classPath) ← analyse s o options libraries staged
  let (id, databasePath, reportPath) ← keep s o clock backend analysis
  pure { id, backend, analysis, staged, classPath, durationNs := clock.durationNs,
         databasePath, reportPath }

/-- Does a run in a workspace. -/
def execute (s : Settings) (o : RunOptions) (clock : RunClock) (space : Workspace) : RunOutcome :=
  let (result, st) := steps s o clock { space }
  { result, lines := st.lines, space := st.space }

end Run

end KernelReach
