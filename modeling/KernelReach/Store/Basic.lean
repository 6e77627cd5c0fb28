import KernelReach.Store.Database
import KernelReach.Store.Engine
import KernelReach.Text.Blank

/-!
# The report store

A store is a report database in a directory, into which reports are also written as documents. It
is opened from a workspace, the files and databases that outlive it, and put back when it is done
with. A store that was closed refuses every question.
-/

namespace KernelReach

open Time (Timestamp)

/-- The files and the report databases that a program works on. -/
structure Workspace where
  files : FileTree := .empty
  /-- The databases by the locations of their files. -/
  databases : Std.HashMap Location Database := ∅

/-- A report store. -/
structure Store where
  /-- The directory of the store. -/
  dir : String
  /-- The file of the database. -/
  path : String
  database : Database := {}
  isOpen : Bool := true

namespace Store

def databaseName : String := "report.db"

def documentName : String := "report.json"

def engine (_ : Store) : Engine := .sqlite

/-- The database that lies at a location; it has no tables if there is none yet. -/
def databaseAt (w : Workspace) (l : Location) : Except StoreError Database :=
  match w.files.node? l with
  | some .directory => .error (.badAddress .cannotOpen)
  | some (.file []) => .ok .blank
  | some _ => .error .notDatabase
  | none => .ok (w.databases.getD l .blank)

/-- The location of the file at an address; none if there is no file. -/
def locationOf (w : Workspace) (a : Address) : Except StoreError (Option Location) := do
  let opening ← a.opening.mapError .badAddress
  if opening.isPrivate then pure none
  else
    let l ← (w.files.locate true a.file).mapError fun _ => .badAddress .cannotOpen
    let isThere := (w.files.node? l).isSome || w.databases.contains l
    if opening.isThere && !isThere then throw (.badAddress .cannotOpen)
    pure (some l)

/-- The number of pages that a database with all its tables takes. -/
def leastPages : Nat := 22

/-- Makes the tables that are missing in a database, if it may be written to. -/
def makeTables (isReadOnly : Bool) (maxPages : Option Nat) (db : Database) :
    Except StoreError Database :=
  if Table.all.all db.hasTable then .ok db
  else if isReadOnly then .error .readOnly
  else if maxPages.any (· < leastPages) then .error .full
  else .ok db.withTables

/-- Opens the store in a directory, which is made if it is not there. Tables that are missing are
    made as well. -/
def openIn (dir : String) (w : Workspace) : Except StoreError (Store × Workspace) := do
  let files ← StoreError.during ("creating " ++ dir)
    ((w.files.makeDirectories dir).mapError .file)
  let w := { w with files }
  let path := Path.join dir databaseName
  let address := Address.ofText path
  let (place, found, effect) ← StoreError.during "setting pragma" do
    let place ← locationOf w address
    let found ← place.elim (.ok .blank) (databaseAt w)
    let effect ← address.connect.mapError .badAddress
    pure (place, found, effect)
  let database ← StoreError.during "creating schema"
    (makeTables effect.isReadOnly effect.maxPages found)
  let w := match place with
    | some l => { w with files := files.erase l, databases := w.databases.insert l database }
    | none => w
  pure ({ dir, path, database }, w)

/-- Opens the store at an address, or in a directory if the address is not that of a server. -/
def openAt (dir address : String) (w : Workspace) : Except StoreError (Store × Workspace) :=
  if Engine.isServerAddress (Text.trim address) then
    .error (.context "connecting to postgres" (.badAddress .cannotOpen))
  else openIn dir w

/-- Puts the database of the store back into the workspace, unless it has no file. -/
def putBack (s : Store) (w : Workspace) : Workspace :=
  match locationOf w (.ofText s.path) with
  | .ok (some l) => { w with databases := w.databases.insert l s.database }
  | _ => w

def close (s : Store) : Store := { s with isOpen := false }

/-- Asks the database of an open store. -/
def ask {α : Type} (question : Database → Except StoreError α) (s : Store) : Except StoreError α :=
  if s.isOpen then question s.database else .error .closed

/-- Changes the database of an open store; on failure the store stays as it was. -/
def change (step : Database → Except StoreError Database) (s : Store) :
    Except StoreError Unit × Store :=
  match s.ask step with
  | .ok database => (.ok (), { s with database })
  | .error e => (.error e, s)

/-- The report with a name and a start: a report without them gets a fresh name and the present
    time. -/
def complete (fresh : String) (now : Timestamp) (r : Report) : Report :=
  { r with run := { r.run with
      id := if r.run.id = "" then fresh else r.run.id
      startedAt := if r.run.startedAt.isZero then now else r.run.startedAt } }

/-- Saves a report in one transaction, unless the run was canceled, and gives the name of the
    run. -/
def save (fresh : String) (now : Timestamp) (canceled : Bool) (r : Report) (s : Store) :
    Except StoreError String × Store :=
  let r := complete fresh now r
  let step (db : Database) : Except StoreError Database :=
    if canceled then .error .canceled else db.save r
  match s.change step with
  | (.ok (), s) => (.ok r.run.id, s)
  | (.error e, s) => (.error e, s)

/-- Adds a batch of rows in one transaction; without `commit` the transaction is only tried. -/
def addBatch (b : Database.Batch) (commit : Bool) (s : Store) : Except StoreError Unit × Store :=
  match s.change (·.addBatch b) with
  | (.ok (), after) => (.ok (), if commit then after else s)
  | (.error e, s) => (.error e, s)

/-- Empties all tables, one after the other. -/
def clear (s : Store) : Except StoreError Unit × Store :=
  if s.isOpen then
    let (answer, database) := s.database.clear
    (answer, { s with database })
  else
    let first := (Database.clearOrder.head?.map Table.name).getD ""
    (.error (.context ("clearing table " ++ first) .closed), s)

/-- Drops the tables that a text names. -/
def drop (text : String) (s : Store) : Except StoreError Unit × Store :=
  if s.isOpen then
    let (answer, database) := s.database.drop text
    (answer, { s with database })
  else (.error .closed, s)

/-- The counts over all stored runs. -/
def stats (s : Store) : Except StoreError Database.Stats :=
  if s.isOpen then s.database.stats
  else .error (.context ("counting " ++ Table.runs.name) .closed)

/-- Writes the report on a run as a document into the directory of the store, and gives the path
    of the document. -/
def writeDocument (id : String) (files : FileTree) (s : Store) :
    Except StoreError (String × FileTree) := do
  let r ← s.ask (·.reportOf id)
  StoreError.during ("marshaling " ++ documentName) (r.writeFault?.elim (.ok ()) fun f =>
    .error (.unwritableTime f))
  let path := Path.join s.dir documentName
  let files ← StoreError.during ("writing " ++ documentName)
    ((files.withFile path r.toJson.indented.toUTF8.toList).mapError .file)
  pure (path, files)

end Store

end KernelReach
