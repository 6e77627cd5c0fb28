import KernelReach.Files.Walk
import KernelReach.Number.Power
import KernelReach.Reach.Session

/-!
# Staging

Before an analysis, the files of its inputs are copied below a staging root. Up to eight writes are
under way at a time. Writes to the same path are made one after the other, in the order in which the
entries are walked, so that of two entries with the same path the later one stays; writes to
different paths do not wait for each other. An entry that cannot be read or written is recorded with
the reason and does not keep the others from being staged.
-/

namespace KernelReach

/-- What became of one entry. -/
structure StagedEntry where
  path : String
  source : String
  size : Nat
  error : Option String
  deriving DecidableEq, Repr

/-- What became of all entries, in order. -/
structure StagingSummary where
  entries : List StagedEntry := []
  deriving DecidableEq, Repr

namespace StagingSummary

def staged (s : StagingSummary) : List StagedEntry := s.entries.filter (·.error.isNone)

def files (s : StagingSummary) : Nat := s.staged.length

def classes (s : StagingSummary) : Nat := s.staged.countP (Text.endsWith ".class" ·.path)

def bytes (s : StagingSummary) : Nat := Number.total (s.staged.map StagedEntry.size)

def failed (s : StagingSummary) : Nat := s.entries.countP (·.error.isSome)

/-- The staged paths for the catalog; an input that cannot be read goes by its own path. -/
def paths (s : StagingSummary) : List Session.StagedPath :=
  s.entries.map fun e => ⟨if e.path = "" then e.source else e.path, e.error⟩

end StagingSummary

namespace Staging

/-- Writes one entry below `root`. The directories that were made for it stay, also if the write
    fails. -/
def write (t : FileTree) (root : String) (e : InputEntry) : Except FileError Unit × FileTree :=
  let dest := Path.join root e.path
  match t.makeEach (FileTree.ancestors (Path.parent dest)) with
  | (.error failure, t) => (.error failure, t)
  | (.ok (), t) =>
    match t.withFile dest e.content with
    | .ok t => (.ok (), t)
    | .error failure => (.error failure, t)

/-! ### Writes side by side -/

/-- A write that is to be made: an entry that could be read, and its place among the entries. -/
structure Task where
  index : Nat
  entry : InputEntry
  deriving DecidableEq, Repr

def Task.path (k : Task) : String := k.entry.path

/-- The writes to be made, in the order of the entries. -/
def tasks (entries : List InputEntry) : List Task :=
  entries.zipIdx.filterMap fun (e, index) => if e.error.isNone then some ⟨index, e⟩ else none

/-- The number of writes that are under way at a time. -/
def workers : Nat := 8

/-- Of some writes, those that wait for no other one, and those that do: a write waits for those
    before it with the same path. The paths in `seen` are being written to already. -/
def splitReady (seen : List String) : List Task → List Task × List Task
  | [] => ([], [])
  | k :: ks =>
    if k.path ∈ seen then
      let (ready, waiting) := splitReady seen ks
      (ready, k :: waiting)
    else
      let (ready, waiting) := splitReady (k.path :: seen) ks
      (k :: ready, waiting)

theorem length_splitReady (seen : List String) (ks : List Task) :
    (splitReady seen ks).1.length + (splitReady seen ks).2.length = ks.length := by
  induction ks generalizing seen with
  | nil => rfl
  | cons k ks ih =>
    rw [splitReady]
    split
    · have hrest := ih seen
      simp only [List.length_cons]
      omega
    · have hrest := ih (k.path :: seen)
      simp only [List.length_cons]
      omega

/-- The order in which writes come to an end if all of them take the same time. In each turn those
    are made that are under way and wait for no other one, and others take their places. -/
def turns : List Task → List Task
  | [] => []
  | k :: ks =>
    let others := splitReady [k.path] (ks.take (workers - 1))
    k :: (others.1 ++ turns (others.2 ++ ks.drop (workers - 1)))
termination_by ks => ks.length
decreasing_by
  have hothers := length_splitReady [k.path] (ks.take (workers - 1))
  simp only [List.length_append, List.length_cons, List.length_drop, List.length_take] at hothers ⊢
  omega

/-! ### The whole staging -/

/-- How far a staging is: the tree, and the failures by the places of the entries, the last
    first. -/
structure State where
  tree : FileTree
  failures : List (Nat × FileError) := []

namespace State

/-- Makes one write. -/
def run (root : String) (s : State) (k : Task) : State :=
  match write s.tree root k.entry with
  | (.ok (), tree) => { s with tree }
  | (.error failure, tree) => ⟨tree, (k.index, failure) :: s.failures⟩

/-- What became of the entry in a place: why it could not be read or written, if it could not. -/
def outcome (s : State) (e : InputEntry) (index : Nat) : Option String :=
  e.error <|> (s.failures.lookup index).map FileError.message

/-- What became of all entries. -/
def summary (s : State) (entries : List InputEntry) : StagingSummary where
  entries := entries.zipIdx.map fun (e, index) =>
    ⟨e.path, e.source, e.content.length, s.outcome e index⟩

/-- The line about an entry that could not be read or written. -/
def line (e : InputEntry) (message : String) : String :=
  if e.error.isSome then
    "warning: unable to read " ++ e.path ++ " from " ++ e.source ++ ": " ++ message
  else "warning: unable to stage " ++ e.path ++ ": " ++ message

/-- The lines about the entries that could not be read or written. -/
def log (s : State) (entries : List InputEntry) : List String :=
  entries.zipIdx.filterMap fun (e, index) => (s.outcome e index).map (line e)

end State

def stage (t : FileTree) (root : String) (entries : List InputEntry) :
    FileTree × StagingSummary × List String :=
  let s := (turns (tasks entries)).foldl (State.run root) { tree := t }
  (s.tree, s.summary entries, s.log entries)

/-- Why staging cannot start. -/
inductive Error
  | noRoot
  | makingRoot (e : FileError)
  | canceled
  deriving DecidableEq, Repr

def Error.message : Error → String
  | noRoot => "staging directory is required"
  | makingRoot e => "creating staging directory: " ++ e.message
  | canceled => "context canceled"

/-- Makes the staging root. -/
def prepare (t : FileTree) (root : String) : Except Error FileTree :=
  if root = "" then .error .noRoot else (t.makeDirectories root).mapError .makingRoot

end Staging

end KernelReach
