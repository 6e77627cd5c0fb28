import KernelReach.Command.Flag
import KernelReach.Text.Case

/-!
# Commands

The commands of the program, how a command is found among the arguments, and what is suggested
when there is none of that name.
-/

namespace KernelReach

/-- A program that reads commands. -/
inductive Shell
  | bash
  | fish
  | powershell
  | zsh
  deriving DecidableEq, Repr

/-- What a command does. -/
inductive Verb
  | analyze
  | backends
  | exportGraph
  | kernels
  | publish
  | runs
  | serve
  /-- Shows help. -/
  | help
  /-- Groups the commands that write scripts for shells. -/
  | completion
  /-- Writes a script that completes commands in a shell. -/
  | script (shell : Shell)
  /-- Completes a command, with or without what the completions are for. -/
  | complete (described : Bool)
  deriving DecidableEq, Repr

/-- How many plain arguments a command takes. -/
inductive Arity
  | any
  | none
  | atMost (limit : Nat)
  | atLeast (limit : Nat)
  deriving DecidableEq, Repr

/-- A command. -/
structure Command where
  verb : Verb
  name : String
  /-- The command that it is a part of; empty if it is one of its own. -/
  group : String := ""
  /-- What follows the name, as help shows it. -/
  usage : String := " [flags]"
  /-- What the command does, in a line. -/
  brief : String
  /-- What the command does. -/
  about : String := ""
  flags : List Flag := []
  arity : Arity := .any
  deriving DecidableEq, Repr

namespace Command

def programName : String := "kernelscan"

def lines (ls : List String) : String := "\n".intercalate ls

def programAbout : String := lines [
    "kernelscan analyzes compiled Java applications and finds the kernel",
    "classes a GPU code generator must translate.",
    "",
    "Classes are loaded lazily and only as deeply as needed: hierarchy for",
    "most of the class path, signatures for application classes, and method",
    "bodies only for code reachable from a kernel entry method."]

/-- The flags that every command knows. -/
def sharedFlags : List Flag := [
  ⟨"config", none, .text, "config file (default is ./kernelscan.yaml)"⟩,
  ⟨"verbose", some 'v', .switch, "log every class and method as it is processed"⟩]

def helpFlag (name : String) : Flag := ⟨"help", some 'h', .switch, "help for " ++ name⟩

/-- Finds kernels. -/
def analyze : Command where
  verb := .analyze
  name := "analyze"
  usage := " [jar-or-dir...] [flags]"
  brief := "Find kernel classes and the code they reach"
  about := lines [
    "Analyze compiled application code and record which classes a GPU",
    "code generator needs.",
    "",
    "The analyze command:",
    "- Copies every input jar or class directory into the staging directory",
    "- Catalogs staged classes, applying the runtime/keep/ignore package rules",
    "- Detects kernel classes by their marker interface and entry method",
    "- Follows every call reachable from the kernels, loading bodies on demand",
    "- Persists the run to .kernelscan/report.db and writes report.json",
    "",
    "Arguments replace the inputs listed in the config file."]
  flags := [
    ⟨"backend", some 'b', .text, "code generation backend (cuda or opencl)"⟩,
    ⟨"classpath", none, .list, "library jars or class directories, in lookup order"⟩,
    ⟨"classpath-dir", none, .list, "folders whose jars are added to the class path"⟩,
    ⟨"fresh", none, .switch, "delete previously stored runs first"⟩,
    ⟨"staging-dir", none, .text, "directory inputs are copied into (default jar-contents)"⟩]

def backends : Command where
  verb := .backends
  name := "backends"
  brief := "Show the code generation backends and their settings"
  flags := [
    ⟨"gencode", none, .text, "extra -gencode flags"⟩,
    ⟨"toolkit-dir", none, .text, "directory holding nvcc"⟩]

def exportGraph : Command where
  verb := .exportGraph
  name := "export"
  usage := " [run-id] [flags]"
  brief := "Load a run's call graph into Neo4j"
  about := lines [
    "Export a stored run to Neo4j as JavaClass and JavaMethod nodes joined",
    "by DECLARES and CALLS relationships. Kernel classes get a Kernel label",
    "and entry methods an EntryPoint label. Without a run ID the latest run",
    "is exported.",
    "",
    "Connection settings come from the neo4j section of the config or the",
    "NEO4J_URI, NEO4J_USER and NEO4J_PASSWORD environment variables."]
  flags := [⟨"clean", none, .switch, "remove previously exported graphs first"⟩]
  arity := .atMost 1

def kernels : Command where
  verb := .kernels
  name := "kernels"
  usage := " [run-id] [flags]"
  brief := "Print the kernel classes of a run"
  about := lines [
    "Print one kernel class per line, the list the code generator consumes.",
    "Without a run ID the latest run is used."]
  arity := .atMost 1

/-- Publishes the report on a run. -/
def publish : Command where
  verb := .publish
  name := "publish"
  usage := " [run-id] [flags]"
  brief := "Upload a run's report to S3-compatible storage"
  about := lines [
    "Publish report.json and kernels.txt for a stored run under",
    "<bucket>/<run-id>/. Without a run ID the latest run is published.",
    "",
    "Credentials come from the artifact section of the config or the",
    "ARTIFACT_S3_* environment variables."]
  flags := [⟨"url", none, .span, "also print a presigned report URL valid for this long"⟩]
  arity := .atMost 1

/-- The number of runs that are listed. -/
def defaultLimit : Int := 20

def runs : Command where
  verb := .runs
  name := "runs"
  brief := "List stored runs, newest first"
  flags := [⟨"limit", some 'n', .number defaultLimit, "maximum number of runs to list"⟩]

/-- The port at which reports are served. -/
def defaultPort : Int := 8080

def serve : Command where
  verb := .serve
  name := "serve"
  brief := "Serve stored reports over HTTP"
  about := lines [
    "Start a read-only JSON API over the report store.",
    "",
    "Endpoints include run summaries, kernel classes, classified classes,",
    "reachable methods, call edges and a call-graph view rooted at a kernel."]
  flags := [⟨"port", some 'p', .number defaultPort, "port to listen on"⟩]

def help : Command where
  verb := .help
  name := "help"
  usage := " [command] [flags]"
  brief := "Help about any command"
  about := lines [
    "Help provides help for any command in the application.",
    "Simply type kernelscan help [path to command] for full details."]

/-- The flag of the commands that write scripts. -/
def scriptFlags : List Flag := [
  ⟨"no-descriptions", none, .switch, "disable completion descriptions"⟩]

/-- Groups the commands that write scripts. -/
def completion : Command where
  verb := .completion
  name := "completion"
  usage := " [command]"
  brief := "Generate the autocompletion script for the specified shell"
  about := lines [
    "Generate the autocompletion script for kernelscan for the specified shell.",
    "See each sub-command's help for details on how to use the generated script."]
  arity := .none

/-- Writes a script for one shell. -/
def bash : Command where
  verb := .script .bash
  name := "bash"
  group := "completion"
  usage := ""
  brief := "Generate the autocompletion script for bash"
  about := lines [
    "Generate the autocompletion script for the bash shell.",
    "",
    "This script depends on the 'bash-completion' package.",
    "If it is not installed already, you can install it via your OS's package manager.",
    "",
    "To load completions in your current shell session:",
    "",
    "\tsource <(kernelscan completion bash)",
    "",
    "To load completions for every new session, execute once:",
    "",
    "#### Linux:",
    "",
    "\tkernelscan completion bash > /etc/bash_completion.d/kernelscan",
    "",
    "#### macOS:",
    "",
    "\tkernelscan completion bash > $(brew --prefix)/etc/bash_completion.d/kernelscan",
    "",
    "You will need to start a new shell for this setup to take effect."]
  flags := scriptFlags
  arity := .none

/-- Writes a script for another shell. -/
def fish : Command where
  verb := .script .fish
  name := "fish"
  group := "completion"
  brief := "Generate the autocompletion script for fish"
  about := lines [
    "Generate the autocompletion script for the fish shell.",
    "",
    "To load completions in your current shell session:",
    "",
    "\tkernelscan completion fish | source",
    "",
    "To load completions for every new session, execute once:",
    "",
    "\tkernelscan completion fish > ~/.config/fish/completions/kernelscan.fish",
    "",
    "You will need to start a new shell for this setup to take effect."]
  flags := scriptFlags
  arity := .none

/-- Writes a script for a third shell. -/
def powershell : Command where
  verb := .script .powershell
  name := "powershell"
  group := "completion"
  brief := "Generate the autocompletion script for powershell"
  about := lines [
    "Generate the autocompletion script for powershell.",
    "",
    "To load completions in your current shell session:",
    "",
    "\tkernelscan completion powershell | Out-String | Invoke-Expression",
    "",
    "To load completions for every new session, add the output of the above command",
    "to your powershell profile."]
  flags := scriptFlags
  arity := .none

/-- Writes a script for a fourth shell. -/
def zsh : Command where
  verb := .script .zsh
  name := "zsh"
  group := "completion"
  brief := "Generate the autocompletion script for zsh"
  about := lines [
    "Generate the autocompletion script for the zsh shell.",
    "",
    "If shell completion is not already enabled in your environment you will need",
    "to enable it.  You can execute the following once:",
    "",
    "\techo \"autoload -U compinit; compinit\" >> ~/.zshrc",
    "",
    "To load completions in your current shell session:",
    "",
    "\tsource <(kernelscan completion zsh)",
    "",
    "To load completions for every new session, execute once:",
    "",
    "#### Linux:",
    "",
    "\tkernelscan completion zsh > \"$\x7bfpath[1]\x7d/_kernelscan\"",
    "",
    "#### macOS:",
    "",
    "\tkernelscan completion zsh > $(brew --prefix)/share/zsh/site-functions/_kernelscan",
    "",
    "You will need to start a new shell for this setup to take effect."]
  flags := scriptFlags
  arity := .none

def complete (described : Bool) : Command where
  verb := .complete described
  name := if described then "__complete" else "__completeNoDesc"
  brief := "Request shell completion choices for the specified command-line"
  arity := .atLeast 1

def all : List Command :=
  [analyze, backends, exportGraph, kernels, runs, publish, serve, help, completion]

/-- The commands that help does not list. -/
def hidden : List Command := [complete true, complete false]

def parts (c : Command) : List Command :=
  if c.verb = .completion then [bash, fish, powershell, zsh] else []

def path (c : Command) : String :=
  programName ++ " " ++ (if c.group = "" then "" else c.group ++ " ") ++ c.name

def allFlags (c : Command) : List Flag := c.flags ++ helpFlag c.name :: sharedFlags

/-- The flags that are known before a command. -/
def programFlags : List Flag := helpFlag programName :: sharedFlags

/-! ### Finding a command -/

/-- Whether an argument is a flag whose value is the next argument. -/
def takesNext (flags : List Flag) (arg : String) : Bool :=
  let hasSign := arg.toList.contains '='
  if Text.startsWith "--" arg then
    !hasSign && !(Arguments.named? flags (Text.dropStart "--" arg)).any Flag.isSwitch
  else match arg.toList with
    | ['-', c] =>
      !hasSign && c.toNat < 0x80 && !(Arguments.lettered? flags c).any Flag.isSwitch
    | _ => false

def firstPlain? (flags : List Flag) : List String → Option String
  | [] => none
  | arg :: rest =>
    if arg = "--" then none
    else if takesNext flags arg then
      match rest with
      | _ :: next :: rest => firstPlain? flags (next :: rest)
      | _ => none
    else if arg = "" ∨ Text.startsWith "-" arg then firstPlain? flags rest
    else some arg

/-- The arguments without the first plain one of some text. -/
def without (flags : List Flag) (name : String) : List String → List String
  | [] => []
  | arg :: rest =>
    if arg = "--" then arg :: rest
    else if takesNext flags arg then
      match rest with
      | value :: rest => arg :: value :: without flags name rest
      | [] => [arg]
    else if arg = name then rest
    else arg :: without flags name rest

/-- The part of a command that arguments name, or else the command, and the arguments left for it.
    While it is looked for, only the flags that all commands share are known. -/
def findPart (c : Command) (args : List String) : Command × List String :=
  let part := (firstPlain? sharedFlags args).bind fun name => c.parts.find? (·.name = name)
  match part with
  | some p => (p, without sharedFlags p.name args)
  | none => (c, args)

/-- The command of some that arguments name, and the arguments left for it; no command if they name
    none. An unknown name is refused. -/
def find (commands : List Command) (args : List String) :
    Except String (Option Command × List String) :=
  match firstPlain? sharedFlags args with
  | none => .ok (none, args)
  | some name =>
    match commands.find? (·.name = name) with
    | some c =>
      let (c, args) := c.findPart (without sharedFlags name args)
      .ok (some c, args)
    | none => .error name

/-! ### Suggestions -/

/-- One more row of the table of edit distances. -/
def nextRow (c : UInt8) (t : List UInt8) (row : List Nat) : List Nat :=
  match row with
  | [] => []
  | first :: _ => go (first + 1) t row
where
  /-- Goes on after an entry of the new row. -/
  go (left : Nat) : List UInt8 → List Nat → List Nat
    | d :: ds, diagonal :: above :: more =>
      let best := if c = d then diagonal else 1 + min left (min above diagonal)
      left :: go best ds (above :: more)
    | _, _ => [left]

/-- The number of bytes to add, drop or replace to get from one text to another. -/
def editDistance (s t : String) : Nat :=
  let t := Text.toBytes t
  let rows := (Text.toBytes s).foldl (fun row c => nextRow c t row) (List.range (t.length + 1))
  rows.getLast?.getD 0

/-- The greatest distance at which a name is suggested. -/
def suggestionDistance : Nat := 2

/-- The names that may have been meant. Help is never suggested. -/
def suggestions (typed : String) : List String :=
  let typed := Text.lower typed
  ((all.filter (·.verb ≠ .help)).map Command.name).filter fun name =>
    editDistance typed name ≤ suggestionDistance || Text.startsWith typed name

end Command

end KernelReach
