import KernelReach.Files.Tree
import KernelReach.Json.Reader
import KernelReach.Store.Address
import KernelReach.Store.Cell
import KernelReach.Time.Layout

/-!
# Failures of the report store

What can go wrong between a store and its database. A failure keeps its cause and says, outermost
first, what was being done.
-/

namespace KernelReach

/-- The tables of a report database. -/
inductive Table
  | runs
  | classes
  | methods
  | callEdges
  | entryPoints
  | kernels
  | diagnostics
  | metadata
  deriving DecidableEq, Repr

namespace Table

def all : List Table :=
  [runs, classes, methods, callEdges, entryPoints, kernels, diagnostics, metadata]

def name : Table → String
  | runs => "runs"
  | classes => "classes"
  | methods => "methods"
  | callEdges => "call_edges"
  | entryPoints => "entrypoints"
  | kernels => "kernels"
  | diagnostics => "diagnostics"
  | metadata => "metadata"

/-- The columns of the key of a table: no two rows agree on them. -/
def key : Table → List String
  | runs => ["id"]
  | classes => ["run_id", "name"]
  | methods => ["run_id", "signature"]
  | callEdges => ["run_id", "seq"]
  | entryPoints => ["run_id", "seq"]
  | kernels => ["run_id", "class"]
  | diagnostics => ["run_id", "seq"]
  | metadata => ["key"]

end Table

/-- Why the store cannot do what it is asked for. -/
inductive StoreError
  /-- The store was closed. -/
  | closed
  /-- The run was canceled. -/
  | canceled
  | noTable (name : String)
  | noColumn (name : String)
  /-- A part of a statement is not a name. -/
  | badName (fault : Store.NameFault)
  /-- A table that cannot be dropped. -/
  | lastingTable (name : String)
  /-- A row cannot have such a number. -/
  | badRowNumber
  /-- A column of whole numbers has another value. -/
  | badCell (index : Nat) (column kind : String) (cell : Store.Cell)
  /-- A row with the same key is there already. -/
  | duplicate (table : Table)
  /-- A value that was asked for is not there. -/
  | noRows
  | noRun
  | badTimestamp (text : String) (fault : Time.LayoutFault)
  | badInputs (fault : Json.TextsFault)
  /-- A file of the store cannot be made or written. -/
  | file (e : FileError)
  /-- A database cannot be opened at an address. -/
  | badAddress (fault : Store.AddressFault)
  /-- A time cannot be written in a document. -/
  | unwritableTime (fault : Time.WriteFault)
  /-- A file that should be a database is something else. -/
  | notDatabase
  /-- A database that is only read should be written to. -/
  | readOnly
  /-- A database has no room for more. -/
  | full
  /-- A failure while something was being done. -/
  | context (what : String) (cause : StoreError)
  /-- A failure, and what to do about it. -/
  | advised (cause : StoreError) (advice : String)
  deriving DecidableEq, Repr

namespace StoreError

def message : StoreError → String
  | closed => "sql: database is closed"
  | canceled => "context canceled"
  | noTable name => "SQL logic error: no such table: " ++ name ++ " (1)"
  | noColumn name => "SQL logic error: no such column: " ++ name ++ " (1)"
  | badName fault => "SQL logic error: " ++ fault.message ++ " (1)"
  | lastingTable name => "SQL logic error: table " ++ name ++ " may not be dropped (1)"
  | badRowNumber => "datatype mismatch (20)"
  | badCell index column kind cell => cell.misread index column kind
  | duplicate table =>
    let columns := table.key.map fun column => table.name ++ "." ++ column
    "constraint failed: UNIQUE constraint failed: " ++ String.intercalate ", " columns ++ " (1555)"
  | noRows => "sql: no rows in result set"
  | noRun => "run not found"
  | badTimestamp text fault => "bad timestamp " ++ Text.quote text ++ ": " ++ fault.message text
  | badInputs fault => "bad inputs: " ++ fault.message
  | file e => e.message
  | badAddress fault => fault.message
  | unwritableTime fault => fault.message
  | notDatabase => "file is not a database (26)"
  | readOnly => "attempt to write a readonly database (8)"
  | full => "database or disk is full (13)"
  | context what cause => what ++ ": " ++ cause.message
  | advised cause advice => cause.message ++ " (" ++ advice ++ ")"

/-- The failure that is at the bottom of a failure. -/
def root : StoreError → StoreError
  | context _ cause => cause.root
  | advised cause _ => cause.root
  | e => e

/-- Adds what was being done to the failure of an operation. -/
def during {α : Type} (what : String) (x : Except StoreError α) : Except StoreError α :=
  x.mapError (context what)

end StoreError

end KernelReach
