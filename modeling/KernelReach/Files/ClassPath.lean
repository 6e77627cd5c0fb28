import KernelReach.Binary.ClassFile
import KernelReach.Files.ArchiveContent
import KernelReach.Files.ArchiveDirectory
import KernelReach.Files.Cache
import KernelReach.Files.Tree
import KernelReach.Reach.Provider

/-!
# Class paths

A class path is a list of directories and archives in which classes are looked for; the first one
that has a class wins. Archives are indexed when the class path is opened, and stay open: if the
file is written to, entries are read from the new content by the old index; if it is removed, the
content stays as it was. The bytes of the classes that were read are kept in a bounded cache, so
that a class that is asked for at a higher level is parsed again but not read again.
-/

namespace KernelReach

open Binary (Bytes)

/-- A file that is open. -/
structure OpenFile where
  /-- The path under which it was opened. -/
  path : String
  /-- Where the file lies; nowhere if it was removed. -/
  location : Option Location
  content : Array UInt8

namespace OpenFile

/-- The open file after a change of the disk. -/
def refresh (disk : FileTree) (f : OpenFile) : OpenFile :=
  match f.location.bind disk.node? with
  | some (.file content) => { f with content := content.toArray }
  | _ => { f with location := none }

end OpenFile

/-- An entry of a class path. -/
inductive ClassSource
  | directory (root : String)
  /-- An archive, with the records of its class files by their paths. -/
  | archive (file : OpenFile) (index : Std.HashMap String ArchiveRecord)

namespace ClassSource

/-- The path under which the entry was opened. -/
def path : ClassSource → String
  | directory root => root
  | archive file _ => file.path

/-- Whether the entry is a file that has to be closed. -/
def isArchive : ClassSource → Bool
  | directory _ => false
  | archive _ _ => true

/-- The entry after a change of the disk. -/
def refresh (disk : FileTree) : ClassSource → ClassSource
  | directory root => directory root
  | archive file index => archive (file.refresh disk) index

/-- The class files of an archive by their paths. Of entries with the same path the last counts. -/
def indexOf (records : List ArchiveRecord) : Std.HashMap String ArchiveRecord :=
  records.foldl (fun index r =>
    if Text.endsWith ".class" r.name then index.insert r.localName r else index) ∅

end ClassSource

/-- Counts of the work of a class path. -/
structure ClassPathStats where
  /-- Classes read from an entry. -/
  reads : Nat := 0
  /-- Classes served from the cache. -/
  cacheHits : Nat := 0
  /-- Class files parsed. -/
  parses : Nat := 0
  /-- Classes that no entry has. -/
  misses : Nat := 0
  deriving DecidableEq, Repr

/-- An open class path. -/
structure ClassPath where
  sources : List ClassSource
  cache : Cache ClassName Bytes
  stats : ClassPathStats := {}
  /-- Whether the archives were closed. -/
  closed : Bool := false

namespace ClassPath

/-- The capacity of the cache unless another is configured. -/
def defaultCacheSize : Nat := 4096

/-- Why a class path cannot be opened. -/
inductive OpenError
  | entry (path : String) (e : FileError)
  | archive (path : String) (fault : ArchiveFault)
  deriving DecidableEq, Repr

def OpenError.message : OpenError → String
  | entry path e => "class path entry " ++ path ++ ": " ++ e.message
  | archive path fault => "opening archive " ++ path ++ ": " ++ fault.message path

def openArchive (path : String) (l : Location) (content : Bytes) :
    Except OpenError ClassSource := do
  let file : OpenFile := ⟨path, some l, content.toArray⟩
  let records ← (Archive.records file.content).mapError (.archive path)
  pure (.archive file (ClassSource.indexOf records))

def openSource (disk : FileTree) (path : String) : Except OpenError ClassSource :=
  match disk.find true path with
  | .error fault => .error (.entry path ⟨"stat", path, fault⟩)
  | .ok (l, .file content) => openArchive path l content
  | .ok _ => .ok (.directory path)

def openWith (disk : FileTree) (paths : List String) (policy : CachePolicy ClassName Bytes) :
    Except OpenError ClassPath := do
  let sources ← paths.mapM (openSource disk)
  pure { sources, cache := { policy } }

/-- Opens a class path. A cache size that is not positive stands for the default. -/
def openEntries (disk : FileTree) (paths : List String) (cacheSize : Int) :
    Except OpenError ClassPath :=
  openWith disk paths (.leastRecentlyUsed
    (if cacheSize ≤ 0 then defaultCacheSize else cacheSize.toNat))

/-- The entries in the order of look-up. -/
def entries (cp : ClassPath) : List String := cp.sources.map ClassSource.path

/-- Closes the archives. What is in the cache stays. If they were closed before, a line tells so for
    each of them. -/
def close (cp : ClassPath) : Option String × ClassPath :=
  let archives := (cp.sources.filter ClassSource.isArchive).map ClassSource.path
  let told := archives.map fun path => "close " ++ path ++ ": file already closed"
  (if cp.closed && !told.isEmpty then some ("\n".intercalate told) else none,
    { cp with closed := true })

/-- The class path after a change of the disk. -/
def refresh (disk : FileTree) (cp : ClassPath) : ClassPath :=
  { cp with sources := cp.sources.map (ClassSource.refresh disk) }

/-- Why a class cannot be had from a class path. -/
inductive Error
  | notFound (name : ClassName)
  | malformed (name : ClassName) (fault : Binary.ClassFile.Fault)
  /-- The class file is that of another class. -/
  | misnamed (name declared : ClassName)
  /-- An entry cannot be read. -/
  | reading (name : ClassName) (source message : String)
  deriving DecidableEq, Repr

namespace Error

def message : Error → String
  | notFound name => name.text ++ ": " ++ Lack.classNotFound.message
  | malformed name fault =>
    name.text ++ ": " ++ Lack.malformedClass.message ++ ": " ++ fault.message
  | misnamed name declared =>
    name.text ++ ": " ++ Lack.malformedClass.message ++ ": file declares " ++ declared.text
  | reading name source m => "reading " ++ name.text ++ " from " ++ source ++ ": " ++ m

/-- What the failure is to an analysis. -/
def toProviderError (e : Error) : ProviderError :=
  match e with
  | notFound _ => .unavailable .classNotFound e.message
  | malformed .. | misnamed .. => .unavailable .malformedClass e.message
  | reading .. => .fatal e.message

end Error

/-- Reads a class from one entry; nothing if the entry does not have it. -/
def readFrom (disk : FileTree) (closed : Bool) (name : ClassName) :
    ClassSource → Except String (Option Bytes)
  | .directory root =>
    match disk.contentAt (Path.join root name.filePath) with
    | .ok content => .ok (some content)
    | .error e => if e.fault = .notFound then .ok none else .error e.message
  | .archive file index =>
    match index[name.filePath]? with
    | none => .ok none
    | some r =>
      if closed ∧ 0 ≤ r.offset then .error ("read " ++ file.path ++ ": file already closed")
      else match r.read file.content with
        | (_, some fault) => .error (fault.message file.path)
        | (content, none) => .ok (some content)

/-- Reads a class from the first entry that has it. -/
def readFirst (disk : FileTree) (closed : Bool) (name : ClassName) :
    List ClassSource → Except Error (Option Bytes)
  | [] => .ok none
  | source :: sources =>
    match readFrom disk closed name source with
    | .ok (some content) => .ok (some content)
    | .ok none => readFirst disk closed name sources
    | .error m => .error (.reading name source.path m)

/-- The bytes of a class, from the cache or from an entry. -/
def bytesOf (disk : FileTree) (name : ClassName) (cp : ClassPath) :
    Except Error Bytes × ClassPath :=
  match cp.cache.get? name with
  | some (content, cache) =>
    (.ok content, { cp with cache, stats.cacheHits := cp.stats.cacheHits + 1 })
  | none =>
    match readFirst disk cp.closed name cp.sources with
    | .ok (some content) =>
      (.ok content, { cp with
        cache := cp.cache.insert name content
        stats.reads := cp.stats.reads + 1 })
    | .ok none =>
      (.error (.notFound name), { cp with stats.misses := cp.stats.misses + 1 })
    | .error e => (.error e, cp)

/-- The class in the class file `content`, which has to be the class `name`. -/
def parseAs (name : ClassName) (level : Level) (content : Bytes) : Except Error Class :=
  match Binary.ClassFile.parse content level with
  | .error fault => .error (.malformed name fault)
  | .ok c => if c.name = name then .ok c else .error (.misnamed name c.name)

def resolve (disk : FileTree) (name : ClassName) (level : Level) (cp : ClassPath) :
    Except Error Class × ClassPath :=
  match cp.bytesOf disk name with
  | (.error e, cp) => (.error e, cp)
  | (.ok content, cp) =>
    (parseAs name level content, { cp with stats.parses := cp.stats.parses + 1 })

/-- The body of a method, which is there if its class was resolved to bodies. Abstract and native
    methods never have one. -/
def retrieveBody (m : Method) : Except ProviderError Body :=
  match m.body with
  | some b => if m.isConcrete then .ok b else .error .noBody
  | none => .error .noBody

/-- A class path as a source of classes for an analysis. -/
def provider (disk : FileTree) : Provider ClassPath where
  resolve name level cp :=
    let (answer, cp) := cp.resolve disk name level
    (answer.mapError Error.toProviderError, cp)
  retrieveBody m cp := (retrieveBody m, cp)

end ClassPath

end KernelReach
