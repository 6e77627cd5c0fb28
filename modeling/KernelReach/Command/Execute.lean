import KernelReach.Command.Completion
import KernelReach.Command.Help
import KernelReach.Command.Script
import KernelReach.Export.Loader
import KernelReach.Publish.Publisher
import KernelReach.Run
import KernelReach.Settings.Load
import KernelReach.Time.Span
import KernelReach.Web.Api

/-!
# Executing commands

A command is executed on a world: the disk with its databases, the environment, and the services
that it connects to. What it prints is part of the outcome, and so is the world after it.
-/

namespace KernelReach

/-- What a command works on. -/
structure World where
  space : Workspace := {}
  environment : Environment := []
  clock : RunClock
  objects : ObjectStore := {}
  /-- The statements that the graph database has taken, if it can be reached. -/
  graph : Option (List Export.Statement) := none

/-- Why a command fails. -/
inductive CommandError
  | unknownCommand (name : String) (suggestions : List String)
  | flag (cause : FlagError)
  | unexpected (argument path : String)
  | tooManyArguments (limit given : Nat)
  | tooFewArguments (limit given : Nat)
  | settings (cause : Settings.LoadError)
  | backend (cause : Backend.Unknown)
  | store (cause : StoreError)
  | run (cause : RunError)
  | publisher (cause : PublishError)
  | publishing (run : String) (cause : PublishError)
  | listing (cause : PublishError)
  | linking (cause : PublishError)
  | unreachable (uri : String)
  | exporting (message : String)
  deriving Repr

def CommandError.message : CommandError → String
  | unknownCommand name suggestions =>
    "unknown command " ++ Text.quote name ++ " for " ++ Text.quote Command.programName
      ++ (if suggestions.isEmpty then ""
        else "\n\nDid you mean this?\n" ++ String.join (suggestions.map fun s => "\t" ++ s ++ "\n"))
  | flag cause => cause.message
  | unexpected argument path =>
    "unknown command " ++ Text.quote argument ++ " for " ++ Text.quote path
  | tooManyArguments limit given =>
    "accepts at most " ++ Text.decimal 1 limit ++ " arg(s), received " ++ Text.decimal 1 given
  | tooFewArguments limit given =>
    "requires at least " ++ Text.decimal 1 limit ++ " arg(s), only received "
      ++ Text.decimal 1 given
  | settings cause => "failed to load config: " ++ cause.message
  | backend cause => cause.message
  | store cause => cause.message
  | run cause => "analysis failed: " ++ cause.message
  | publisher cause => cause.message
  | publishing name cause => "publishing run " ++ name ++ ": " ++ cause.message
  | listing cause => "listing run objects: " ++ cause.message
  | linking cause => "presigning report URL: " ++ cause.message
  | unreachable uri => "connecting to " ++ uri ++ ": not reachable"
  | exporting message => message

namespace Command

/-- What a command changes while it goes on. -/
structure State where
  world : World
  /-- What was printed. -/
  printed : String := ""
  /-- What was told about the command itself: help and failures. -/
  messages : String := ""
  /-- The server that is to be started. -/
  server : Option Web.Server := none

/-- A step of a command. A failure keeps what was done before it. -/
abbrev Step := ExceptT CommandError (StateM State)

def print (line : String) : Step Unit :=
  modify fun s => { s with printed := s.printed ++ line ++ "\n" }

/-- Turns the failure of a computation into that of a command. -/
def require {ε α : Type} (wrap : ε → CommandError) (r : Except ε α) : Step α :=
  ExceptT.mk (pure (r.mapError wrap))

/-! ### Stored reports -/

def openStore (s : Settings) : Step Store := do
  let opened := Store.openAt s.store.dir s.store.address (← get).world.space
  let (store, space) ← require .store (StoreError.during "opening store" opened)
  modify fun st => { st with world := { st.world with space } }
  pure store

/-- What to do when there is no run. -/
def missingRunAdvice : String := "run \x60kernelscan analyze\x60 first"

/-- The report on the run that is named, or on the latest one. -/
def loadReport (store : Store) (args : List String) : Step Report := do
  let run := match args with
    | name :: _ => if name = "latest" then store.ask (·.latestRun) else store.ask (·.getRun name)
    | [] => store.ask (·.latestRun)
  let run ← require .store (run.mapError fun e =>
    if e.root = .noRun then .advised e missingRunAdvice else e)
  require .store (store.ask (·.reportOf run.id))

/-! ### Commands -/

/-- Finds kernels. -/
def runAnalyze (s : Settings) (a : Arguments) : Step Unit := do
  let s := { s with
    inputs := Settings.overrideList s.inputs a.plain
    backend := Settings.overrideText s.backend (a.text "backend")
    stagingDir := Settings.overrideText s.stagingDir (a.text "staging-dir")
    classPath := Settings.overrideList s.classPath (a.items "classpath")
    classPathDirs := Settings.overrideList s.classPathDirs (a.items "classpath-dir") }
  let w := (← get).world
  let out := Run.execute s { verbose := a.isOn "verbose", fresh := a.isOn "fresh" } w.clock w.space
  modify fun st => { st with world := { st.world with space := out.space } }
  out.lines.forM print
  let r ← require .run out.result
  print ""
  print "Analysis complete!"
  print ("  Run:          " ++ r.id)
  print ("  Backend:      " ++ r.backend.name ++ " (" ++ r.backend.profile.kernelPath ++ ")")
  print ("  Kernels:      " ++ Text.decimal 1 r.analysis.kernelClasses.length)
  r.analysis.kernelClasses.forM fun k => print ("    " ++ k.text)
  print ("  Entry points: " ++ Text.decimal 1 r.analysis.stats.entryPoints)
  print ("  Reachable:    " ++ Text.grouped r.analysis.stats.scanned ++ " methods in "
    ++ Text.grouped r.analysis.stats.bodiesClasses ++ " classes")
  print ("  Class loads:  " ++ Text.grouped r.classPath.reads ++ " reads, "
    ++ Text.grouped r.classPath.cacheHits ++ " cache hits, " ++ Text.grouped r.classPath.parses
    ++ " parses")
  print ("  Diagnostics:  " ++ Text.decimal 1 r.analysis.diagnostics.length)
  print ("  Duration:     " ++ Time.spanText (Time.roundMillis r.durationNs))
  if r.databasePath ≠ "" then print ("  Database:     " ++ r.databasePath)
  print ("  Report:       " ++ r.reportPath)

def runBackends (s : Settings) (a : Arguments) : Step Unit := do
  let selected ← require .backend (Backend.parse s.backend)
  Backend.all.forM fun b => do
    let p := b.profile
    print ((if b = selected then "* " else "  ") ++ b.name)
    print ("    device qualifier: " ++ Text.quote p.deviceQualifier)
    print ("    global qualifier: " ++ Text.quote p.globalQualifier)
    print ("    header template:  " ++ p.headerPath)
    print ("    kernel template:  " ++ p.kernelPath)
    let compiler := b.compileCommand {
      toolkitDir := a.text "toolkit-dir", gencode := a.text "gencode"
      source := "generated.cu", output := "code_file.ptx" }
    print ("    compiler:         " ++ match compiler with
      | .ok words => " ".intercalate words
      | .error _ => "none (built by the driver at load time)")

/-- Runs a part of an export on the graph database. -/
def exportPhases (uri : String) (wrap : String → String) (phases : List Export.Phase) :
    Step Unit := do
  match (← get).world.graph with
  | none => throw (.unreachable uri)
  | some taken =>
    let record : Export.Executor (List Export.Statement) := fun st s => (.ok (), s ++ [st])
    let out := Export.runPhases record phases taken
    modify fun st => { st with world := { st.world with graph := some out.state } }
    match out.failure with
    | some e => throw (.exporting (wrap e))
    | none => pure ()

/-- Exports a call graph. -/
def runExport (s : Settings) (a : Arguments) : Step Unit := do
  let store ← openStore s
  let r ← loadReport store a.plain
  let uri := s.graph.uri
  if a.isOn "clean" then exportPhases uri ("cleaning graph: " ++ ·) Export.cleanGraph
  exportPhases uri ("creating indexes: " ++ ·) Export.createIndexes
  exportPhases uri id (Export.exportPlan (Export.batchSize s.graph.batchSize) r)
  print ("Exported run " ++ r.run.id ++ " to " ++ uri ++ " ("
    ++ Text.decimal 1 (r.classes.getD []).length ++ " classes, "
    ++ Text.decimal 1 (r.methods.getD []).length ++ " methods, "
    ++ Text.decimal 1 (r.edges.getD []).length ++ " call sites)")

def runKernels (s : Settings) (a : Arguments) : Step Unit := do
  let store ← openStore s
  let r ← loadReport store a.plain
  (r.kernels.getD []).forM print

def runLine (now : Time.Timestamp) (r : RunSummary) : String :=
  r.id ++ "  " ++ padRight 6 r.backend ++ "  " ++ Text.padLeft ' ' 3 (Text.integer r.kernelCount)
    ++ " kernels  " ++ Text.padLeft ' ' 6 (Text.grouped r.methodCount) ++ " methods  "
    ++ r.startedAt.age now

def runRuns (s : Settings) (a : Arguments) : Step Unit := do
  let store ← openStore s
  let rs ← require .store (store.ask (·.listRuns (a.number "limit" defaultLimit)))
  if rs.isEmpty then print "No runs stored yet."
  else
    let now := (← get).world.clock.start
    rs.forM fun r => print (runLine now r)

def runPublish (s : Settings) (a : Arguments) : Step Unit := do
  let store ← openStore s
  let r ← loadReport store a.plain
  let p ← require .publisher (Publisher.ofSettings s.publish)
  let keepObjects (objects : ObjectStore) : Step Unit :=
    modify fun st => { st with world := { st.world with objects } }
  let (keys, failure, p, objects) := p.publish r (← get).world.objects
  keepObjects objects
  if let some e := failure then throw (.publishing r.run.id e)
  keys.forM fun key => print ("Uploaded s3://" ++ p.bucket ++ "/" ++ key)
  let (paths, _, objects) := p.list r.run.id objects
  keepObjects objects
  let paths ← require .listing paths
  print ("Run " ++ r.run.id ++ " now has " ++ Text.decimal 1 paths.length ++ " objects in "
    ++ p.bucket)
  if 0 < a.span "url" then
    let link ← require .linking (Publisher.link (a.span "url"))
    print ("Report URL: " ++ link)

/-- Makes the server that is to be started. -/
def runServe (s : Settings) (a : Arguments) : Step Unit := do
  let store ← openStore s
  modify fun st => { st with server := some ⟨store, a.number "port" defaultPort⟩ }

/-! ### The command line -/

/-- Tells something about the command itself. -/
def tell (text : String) : Step Unit := modify fun s => { s with messages := s.messages ++ text }

/-- Shows help on the command that is named, or on the program. -/
def runHelp (args : List String) : Step Unit :=
  tell <| match find all args with
    | .ok (c, _) => (c.map helpText).getD programHelp
    | .error _ => unknownTopic args

/-- Checks the number of plain arguments. -/
def checkArity (c : Command) (args : List String) : Step Unit :=
  match c.arity, args with
  | .none, arg :: _ => throw (.unexpected arg c.path)
  | .atMost limit, args =>
    if limit < args.length then throw (.tooManyArguments limit args.length) else pure ()
  | .atLeast limit, args =>
    if args.length < limit then throw (.tooFewArguments limit args.length) else pure ()
  | _, _ => pure ()

/-- What was said to a command. One that completes commands takes flags as they are. -/
def readArguments (c : Command) (args : List String) : Except FlagError Arguments :=
  match c.verb with
  | .complete _ => .ok { plain := args }
  | _ => Arguments.read c.allFlags args

def execute (c : Command) (args : List String) : Step Unit := do
  let a ← require .flag (c.readArguments args)
  if a.isOn "help" || !c.parts.isEmpty then tell c.helpText
  else
    c.checkArity a.plain
    let w := (← get).world
    let s ← require .settings (Settings.load w.space.files w.environment (a.text "config"))
    match c.verb with
    | .analyze => runAnalyze s a
    | .backends => runBackends s a
    | .exportGraph => runExport s a
    | .kernels => runKernels s a
    | .publish => runPublish s a
    | .runs => runRuns s a
    | .serve => runServe s a
    | .help => runHelp a.plain
    | .complete described => tell ((choicesAfter a.plain).text described)
    | .script shell => tell (shell.script (a.isOn "no-descriptions"))
    | .completion => pure ()

/-- Executes the command that the arguments name. -/
def dispatch (args : List String) : Step Unit :=
  match find (all ++ hidden) args with
  | .ok (none, args) => do
    let _ ← require .flag (Arguments.read programFlags args)
    tell programHelp
  | .ok (some c, args) => c.execute args
  | .error name => throw (.unknownCommand name (suggestions name))

/-- The outcome of a command. -/
structure Outcome where
  failure : Option CommandError
  /-- What was printed. -/
  printed : String
  /-- What was told about the command itself: help and failures. -/
  messages : String
  /-- The server that is to be started. -/
  server : Option Web.Server
  world : World

/-- Runs the program with some arguments. -/
def runProgram (args : List String) (w : World) : Outcome :=
  match dispatch args { world := w } with
  | (.ok (), s) => ⟨none, s.printed, s.messages, s.server, s.world⟩
  | (.error e, s) =>
    let usage := match e with
      | .unknownCommand _ _ => "Run '" ++ programName ++ " --help' for usage.\n"
      | _ => ""
    ⟨some e, s.printed, s.messages ++ "Error: " ++ e.message ++ "\n" ++ usage, none, s.world⟩

end Command

end KernelReach
