import KernelReach.Binary.Reader
import KernelReach.Files.Path
import KernelReach.Text.Utf8
import Std.Data.HashMap

/-!
# File trees

The files that a program sees, as a value. A node is found under its location, the list of names
that lead to it. Paths are resolved component by component: every component but the last has to be a
directory, and symbolic links are replaced by what they point to.

Locations start at the working directory. What the working directory itself is called is not known,
so the directories above it go by `..`; locations that start with `/` lead from the root of the file
system. These directories are always there.
-/

namespace KernelReach

open Binary (Bytes)

/-- What can lie at a location. -/
inductive FileNode
  | file (content : Bytes)
  | link (target : String)
  | directory
  deriving DecidableEq, Repr

namespace FileNode

/-- Whether the node is a file that can be read. -/
def isRegular : FileNode → Bool
  | file _ => true
  | _ => false

end FileNode

/-- The names that lead from the working directory to a node. -/
abbrev Location := List String

namespace Location

/-- The root of the file system. -/
def root : Location := ["/"]

/-- Whether a directory is there in every tree: the working directory, one above it or the root. -/
def isGiven (l : Location) : Bool := l == root || l.all (· == "..")

/-- The location of the directory above. There is none above the root. -/
def up (l : Location) : Location :=
  if l == root then l else if l.all (· == "..") then ".." :: l else l.dropLast

end Location

/-- Why a path does not lead to what is asked for. -/
inductive FileFault
  | notFound
  | notDirectory
  | isDirectory
  | fileExists
  | nameTooLong
  | invalidName
  | tooManyLinks
  deriving DecidableEq, Repr

def FileFault.message : FileFault → String
  | notFound => "no such file or directory"
  | notDirectory => "not a directory"
  | isDirectory => "is a directory"
  | fileExists => "file exists"
  | nameTooLong => "file name too long"
  | invalidName => "invalid argument"
  | tooManyLinks => "too many levels of symbolic links"

/-- A failed operation on a file. -/
structure FileError where
  /-- What was being done. -/
  action : String
  path : String
  fault : FileFault
  deriving DecidableEq, Repr

def FileError.message (e : FileError) : String :=
  e.action ++ " " ++ e.path ++ ": " ++ e.fault.message

/-- The files that a program sees. -/
structure FileTree where
  nodes : Std.HashMap Location FileNode := ∅

namespace FileTree

/-- A tree without files. -/
def empty : FileTree := {}

def node? (t : FileTree) (l : Location) : Option FileNode :=
  if l.isGiven then some .directory else t.nodes[l]?

/-- The tree with a node at a location. -/
def insert (t : FileTree) (l : Location) (n : FileNode) : FileTree :=
  ⟨t.nodes.insert l n⟩

/-- The tree with nothing at or below a location. -/
def erase (t : FileTree) (l : Location) : FileTree :=
  ⟨t.nodes.filter fun k _ => !l.isPrefixOf k⟩

/-! ### Resolving paths -/

/-- The longest name of a file, in bytes. -/
def maxName : Nat := 255

/-- The longest path, in bytes. -/
def maxPath : Nat := 4095

/-- The number of symbolic links that are followed on one path. -/
def maxLinks : Nat := 40

/-- The location at which a path starts that is met at some location. -/
def startOf (path : String) (l : Location) : Location :=
  if Path.isRooted path then Location.root else l

/-- Follows the components of a path from the location `start`. If `followLast` is set, a link at
    the end is followed as well. The result is the location, whether or not there is a node. -/
def follow (t : FileTree) (followLast : Bool) :
    (links : Nat) → (start : Location) → List String → Except FileFault Location
  | _, start, [] => .ok start
  | links, start, c :: cs =>
    match t.node? start with
    | none => .error .notFound
    | some (.file _) | some (.link _) => .error .notDirectory
    | some .directory =>
      if c = "" ∨ c = "." then follow t followLast links start cs
      else if c = ".." then follow t followLast links start.up cs
      else if maxName < (Text.heldBytes c).length then .error .nameTooLong
      else
        let next := start ++ [c]
        match t.nodes[next]? with
        | some (.link target) =>
          if cs = [] ∧ !followLast then .ok next
          else
            match links with
            | 0 => .error .tooManyLinks
            | links + 1 =>
              follow t followLast links (startOf target start) (Path.components target ++ cs)
        | _ => follow t followLast links next cs
termination_by links _ cs => (links, cs.length)

/-- The location that a path leads to, whether or not there is a node. -/
def locate (t : FileTree) (followLast : Bool) (path : String) : Except FileFault Location :=
  if path.toList.contains '\x00' then .error .invalidName
  else if path = "" then .error .notFound
  else if maxPath < (Text.heldBytes path).length then .error .nameTooLong
  else t.follow followLast maxLinks (startOf path []) (Path.components path)

/-- The node that a path leads to. -/
def find (t : FileTree) (followLast : Bool) (path : String) :
    Except FileFault (Location × FileNode) := do
  let l ← t.locate followLast path
  match t.node? l with
  | some n => pure (l, n)
  | none => throw .notFound

/-! ### Operations -/

/-- The node that a path leads to, links followed. -/
def stat (t : FileTree) (path : String) : Except FileError FileNode :=
  ((t.find true path).map Prod.snd).mapError fun fault => ⟨"stat", path, fault⟩

def contentAt (t : FileTree) (path : String) : Except FileError Bytes :=
  match t.find true path with
  | .ok (_, .file content) => .ok content
  | .ok (_, _) => .error ⟨"read", path, .isDirectory⟩
  | .error fault => .error ⟨"open", path, fault⟩

/-- The names in a directory with their nodes, in the order of their bytes. -/
def list (t : FileTree) (path : String) : Except FileError (List (String × FileNode)) :=
  match t.find true path with
  | .ok (l, .directory) =>
    let inside := t.nodes.toList.filterMap fun (k, n) =>
      if k.dropLast = l then k.getLast?.map (·, n) else none
    .ok (inside.mergeSort fun a b => Text.heldBytes a.1 ≤ Text.heldBytes b.1)
  | .ok (_, _) => .error ⟨"open", path, .notDirectory⟩
  | .error fault => .error ⟨"open", path, fault⟩

/-- The tree with a file, whose directory has to be there. -/
def withFile (t : FileTree) (path : String) (content : Bytes) : Except FileError FileTree :=
  let fail (fault : FileFault) : Except FileError FileTree := .error ⟨"open", path, fault⟩
  match t.locate true path with
  | .error fault => fail fault
  | .ok l =>
    match t.node? l with
    | some .directory => fail .isDirectory
    | _ =>
      if t.node? l.dropLast = some .directory then .ok (t.insert l (.file content))
      else fail .notFound

/-- Where a new node goes for which there is a path: below a directory, under a name that is not
    taken. -/
def freeLocation (t : FileTree) (path : String) : Except FileFault Location := do
  if path.toList.contains '\x00' then throw .invalidName
  if path = "" then throw .notFound
  if maxPath < (Text.heldBytes path).length then throw .nameTooLong
  match (Path.components path).reverse.dropWhile (· == "") with
  | [] => throw .fileExists
  | name :: above =>
    let l ← t.follow true maxLinks (startOf path []) above.reverse
    match t.node? l with
    | none => throw .notFound
    | some (.file _) | some (.link _) => throw .notDirectory
    | some .directory =>
      if name = "." ∨ name = ".." then throw .fileExists
      else if maxName < (Text.heldBytes name).length then throw .nameTooLong
      else if (t.nodes[l ++ [name]]?).isSome then throw .fileExists
      else pure (l ++ [name])

/-- The tree with one more directory, unless there is one already. -/
def makeDirectory (t : FileTree) (path : String) : Except FileError FileTree :=
  match t.freeLocation path with
  | .ok l => .ok (t.insert l .directory)
  | .error fault =>
    match t.find false path with
    | .ok (_, .directory) => .ok t
    | _ => .error ⟨"mkdir", path, fault⟩

/-- A path and the paths of the directories above it that it names, the longest first. Of several
    slashes only the last is left out. -/
def ancestors (path : String) : List String :=
  let cs := Path.components path
  let above := (List.range cs.length).reverse.filter fun i => cs[i]? ≠ some ""
  path :: (above.map fun i => String.intercalate "/" (cs.take i)).filter (· ≠ "")

/-- Makes the directories of some paths, of which each lies in the next one, up to the first
    failure. Those that were made stay. -/
def makeEach (t : FileTree) : List String → Except FileError Unit × FileTree
  | [] => (.ok (), t)
  | path :: above =>
    match t.stat path with
    | .ok .directory => (.ok (), t)
    | .ok _ => (.error ⟨"mkdir", path, .notDirectory⟩, t)
    | .error _ =>
      match t.makeEach above with
      | (.error e, t) => (.error e, t)
      | (.ok (), t) =>
        match t.makeDirectory path with
        | .ok t => (.ok (), t)
        | .error e => (.error e, t)

/-- The tree with all the directories of a path. -/
def makeDirectories (t : FileTree) (path : String) : Except FileError FileTree :=
  match t.makeEach (ancestors path) with
  | (.ok (), t) => .ok t
  | (.error e, _) => .error e

/-- The tree with a link, whose directory has to be there. -/
def withLink (t : FileTree) (path target : String) : Except FileError FileTree :=
  match t.freeLocation path with
  | .ok l => .ok (t.insert l (.link target))
  | .error fault => .error ⟨"symlink", path, fault⟩

/-- The tree without whatever a path leads to. -/
def remove (t : FileTree) (path : String) : FileTree :=
  match t.locate false path with
  | .ok l => t.erase l
  | .error _ => t

/-! ### Walking -/

/-- A node met on a walk. -/
structure Visit where
  /-- The path under which it is met. -/
  path : String
  /-- Its path relative to the start of the walk. -/
  relative : String
  node : FileNode
  /-- Why a directory that is met cannot be listed. -/
  error : Option FileError := none

/-- Visits a node and everything below it. A directory is listed by the path under which it is met;
    one that cannot be listed is met a second time. -/
def visit (t : FileTree) : (fuel : Nat) → (path relative : String) → FileNode → List Visit
  | 0, path, relative, node => [{ path, relative, node }]
  | fuel + 1, path, relative, node =>
    let here : Visit := { path, relative, node }
    match node with
    | .directory =>
      match t.list path with
      | .error e => [here, { here with error := some e }]
      | .ok inside =>
        here :: inside.flatMap fun (name, n) =>
          let relative := if relative = "." then name else relative ++ "/" ++ name
          t.visit fuel (Path.join path name) relative n
    | _ => [here]

/-- The length of the longest location in a tree. -/
def height (t : FileTree) : Nat := t.nodes.fold (fun h l _ => max h l.length) 0

/-- The nodes met on a walk from `root`, which comes first itself: names in the order of their
    bytes, and everything in a directory right after it. Links are met and not followed. -/
def walk (t : FileTree) (root : String) : List Visit :=
  match t.find false root with
  | .error _ => []
  | .ok (_, node) => t.visit (t.height + 2) root "." node

/-- The files below a path by their relative paths, in the order of these. -/
def filesBelow (t : FileTree) (root : String) : List (String × Bytes) :=
  let found := (t.walk root).filterMap fun v =>
    if v.node.isRegular then
      (t.contentAt v.path).toOption.map fun content => (v.relative, content)
    else none
  found.mergeSort fun a b => Text.heldBytes a.1 ≤ Text.heldBytes b.1

end FileTree

end KernelReach
