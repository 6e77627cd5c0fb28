import KernelReach.Files.ArchiveContent
import KernelReach.Files.ArchiveDirectory
import KernelReach.Files.Tree
import KernelReach.Text.Quoted

/-!
# Walking inputs

The inputs of an analysis are directories and archives. `entries` lists their files in order, each
with its path below the staging root. What cannot be read is listed with the reason, and so is an
archive entry whose path leads out of the staging root.
-/

namespace KernelReach

open Binary (Bytes)

/-- A file found in an input. -/
structure InputEntry where
  /-- The path below the staging root; empty if the input itself cannot be read. -/
  path : String
  /-- The input. -/
  source : String
  /-- What could be read. -/
  content : Bytes
  /-- Why it could not be read to its end. -/
  error : Option String := none
  deriving DecidableEq, Repr

namespace InputEntry

/-- Whether the entry is a class file, by its name. -/
def isClass (e : InputEntry) : Bool := Text.endsWith ".class" e.path

/-- The files of a directory. A directory in it that cannot be listed is told of as well. -/
def ofDirectory (t : FileTree) (root : String) : List InputEntry :=
  (t.walk root).filterMap fun v =>
    match v.error with
    | some e => some ⟨v.relative, root, [], some e.message⟩
    | none =>
      if v.node.isRegular then
        match t.contentAt v.path with
        | .ok content => some ⟨v.relative, root, content, none⟩
        | .error e => some ⟨v.relative, root, [], some e.message⟩
      else none

/-- The file of an archive that a record tells of. -/
def ofRecord (archive : String) (content : Array UInt8) (r : ArchiveRecord) : InputEntry :=
  if Path.isLocal r.localName then
    let (read, fault) := r.read content
    ⟨r.localName, archive, read, fault.map (ArchiveFault.message archive)⟩
  else
    ⟨r.localName, archive, [],
      some ("archive entry " ++ Text.quote r.name ++ " escapes the staging root")⟩

/-- The files of an archive, of which the records of its directory tell. -/
def ofRecords (archive : String) (content : Array UInt8) :
    Except ArchiveFault (List ArchiveRecord) → List InputEntry
  | .error e =>
    [⟨"", archive, [], some ("opening archive " ++ archive ++ ": " ++ e.message archive)⟩]
  | .ok records =>
    (records.filter fun r => !r.isDirectory).map (ofRecord archive content)

def ofArchive (archive : String) (content : Bytes) : List InputEntry :=
  ofRecords archive content.toArray (Archive.records content.toArray)

def ofInput (t : FileTree) (input : String) : List InputEntry :=
  match t.stat input with
  | .error e => [⟨"", input, [], some ("input " ++ input ++ ": " ++ e.message)⟩]
  | .ok (.file content) => ofArchive input content
  | .ok _ => ofDirectory t input

/-- The files of all inputs, in order. -/
def ofInputs (t : FileTree) (inputs : List String) : List InputEntry :=
  inputs.flatMap (ofInput t)

end InputEntry

/-- The archives in a directory and below, in the order of a walk. Hidden files are left out. -/
def FileTree.jarsUnder (t : FileTree) (dir : String) : Except String (List String) :=
  match t.stat dir with
  | .error e => .error ("class path folder " ++ dir ++ ": " ++ e.message)
  | .ok .directory =>
    let visits := t.walk dir
    match visits.findSome? (·.error) with
    | some e => .error e.message
    | none =>
      .ok (visits.filterMap fun v =>
        let name := Path.base v.path
        if v.node = .directory then none
        else if Text.startsWith "." name || !Text.endsWith ".jar" name then none
        else some v.path)
  | .ok _ => .error ("class path folder " ++ dir ++ ": not a directory")

end KernelReach
