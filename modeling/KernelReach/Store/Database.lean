import KernelReach.Report.Basic
import KernelReach.Store.Error

/-!
# The report database

A report database has eight tables. A table is a list of rows in the order of insertion, in which
no two rows have the same key; a table that was dropped is not there at all. Timestamps and lists
of inputs are kept as texts and counts as cells, so that what another program wrote there is noticed
when it is read.

* `Database.save` adds the rows of a report. It is one transaction: if it fails, there is no new
  database, and the old one stays as it was.
* `Database.clear` empties one table after the other and stops at the first that is not there.
-/

namespace KernelReach

open Time (Timestamp)

/-- A row that belongs to a run and has a place in it. -/
structure RunRow (α : Type) where
  run : String
  seq : Nat
  value : α
  deriving DecidableEq, Repr

/-- The row of a run. -/
structure SummaryRow where
  id : String
  /-- The start of the run in the stored form. -/
  startedAt : String
  durationMs : Store.Cell
  backend : String
  /-- The inputs as a JSON text. -/
  inputs : String
  kernelCount : Store.Cell
  classCount : Store.Cell
  methodCount : Store.Cell
  edgeCount : Store.Cell
  unavailableCount : Store.Cell
  diagnosticCount : Store.Cell
  deriving DecidableEq, Repr

namespace SummaryRow

def ofSummary (r : RunSummary) : SummaryRow where
  id := r.id
  startedAt := r.startedAt.storedText
  durationMs := .whole r.durationMs
  backend := r.backend
  inputs := Json.writeTexts r.inputs
  kernelCount := .whole r.kernelCount
  classCount := .whole r.classCount
  methodCount := .whole r.methodCount
  edgeCount := .whole r.edgeCount
  unavailableCount := .whole r.unavailableCount
  diagnosticCount := .whole r.diagnosticCount

def columns : List String :=
  ["id", "started_at", "duration_ms", "backend", "inputs", "kernel_count", "class_count",
    "method_count", "edge_count", "unavailable_count", "diagnostic_count"]

def wholeIn (column kind : String) (c : Store.Cell) : Except StoreError Int :=
  match c with
  | .whole n => .ok n
  | c => .error (.badCell (columns.idxOf column) column kind c)

def toSummary (r : SummaryRow) : Except StoreError RunSummary := do
  let durationMs ← wholeIn "duration_ms" "int64" r.durationMs
  let kernelCount ← wholeIn "kernel_count" "int" r.kernelCount
  let classCount ← wholeIn "class_count" "int" r.classCount
  let methodCount ← wholeIn "method_count" "int" r.methodCount
  let edgeCount ← wholeIn "edge_count" "int" r.edgeCount
  let unavailableCount ← wholeIn "unavailable_count" "int" r.unavailableCount
  let diagnosticCount ← wholeIn "diagnostic_count" "int" r.diagnosticCount
  StoreError.during ("run " ++ r.id) do
    let startedAt ← (Timestamp.ofStored r.startedAt).mapError (.badTimestamp r.startedAt)
    let inputs ← (Json.parseTexts r.inputs).mapError .badInputs
    pure {
      id := r.id, startedAt, durationMs, backend := r.backend, inputs, kernelCount, classCount,
      methodCount, edgeCount, unavailableCount, diagnosticCount }

/-- The row with a column overwritten. -/
def withColumn (column value : String) (r : SummaryRow) : Option SummaryRow :=
  let cell := Store.Cell.ofText value
  match column with
  | "id" => some { r with id := value }
  | "started_at" => some { r with startedAt := value }
  | "duration_ms" => some { r with durationMs := cell }
  | "backend" => some { r with backend := value }
  | "inputs" => some { r with inputs := value }
  | "kernel_count" => some { r with kernelCount := cell }
  | "class_count" => some { r with classCount := cell }
  | "method_count" => some { r with methodCount := cell }
  | "edge_count" => some { r with edgeCount := cell }
  | "unavailable_count" => some { r with unavailableCount := cell }
  | "diagnostic_count" => some { r with diagnosticCount := cell }
  | _ => none

/-- The order of the list of runs: the latest first, and runs that started together by their
    names. -/
def listedBefore (a b : SummaryRow) : Bool :=
  if a.startedAt = b.startedAt then a.id ≤ b.id else b.startedAt < a.startedAt

end SummaryRow

/-- The tables of a report database; one that was dropped is absent. -/
structure Database where
  runs : Option (List SummaryRow) := some []
  classes : Option (List (RunRow ClassRecord)) := some []
  methods : Option (List (RunRow MethodRecord)) := some []
  callEdges : Option (List (RunRow EdgeRecord)) := some []
  entryPoints : Option (List (RunRow EntryRecord)) := some []
  kernels : Option (List (RunRow String)) := some []
  diagnostics : Option (List (RunRow DiagnosticRecord)) := some []
  metadata : Option (List (String × String)) := some []
  deriving DecidableEq, Repr

namespace Database

/-! ### Tables -/

def rowsOf {α : Type} (table : Table) (rows : Option (List α)) : Except StoreError (List α) :=
  match rows with
  | some rows => .ok rows
  | none => .error (.noTable table.name)

/-- A table with one more row, whose key has to be new. -/
def addRow {α κ : Type} [DecidableEq κ] (table : Table) (key : α → κ) (row : α)
    (rows : Option (List α)) : Except StoreError (Option (List α)) := do
  let rows ← rowsOf table rows
  if rows.any fun r => key r = key row then .error (.duplicate table)
  else .ok (some (rows ++ [row]))

/-- The rows of a run in their order. Rows in one place are in the order in which they were added.
    -/
def ofRun {α : Type} (run : String) (rows : List (RunRow α)) : List α :=
  ((rows.filter fun r => r.run = run).mergeSort fun a b => a.seq ≤ b.seq).map RunRow.value

/-- The rows of a run in their order. Rows in one place are in the order of `key`. -/
def ofRunBy {α : Type} (key : α → String) (run : String) (rows : List (RunRow α)) : List α :=
  ofRun run (rows.mergeSort fun a b => key a.value ≤ key b.value)

/-- A database without tables. -/
def blank : Database := ⟨none, none, none, none, none, none, none, none⟩

/-- The database with all tables; those that are there already stay as they are. -/
def withTables (db : Database) : Database where
  runs := db.runs <|> some []
  classes := db.classes <|> some []
  methods := db.methods <|> some []
  callEdges := db.callEdges <|> some []
  entryPoints := db.entryPoints <|> some []
  kernels := db.kernels <|> some []
  diagnostics := db.diagnostics <|> some []
  metadata := db.metadata <|> some []

def hasTable (db : Database) : Table → Bool
  | .runs => db.runs.isSome
  | .classes => db.classes.isSome
  | .methods => db.methods.isSome
  | .callEdges => db.callEdges.isSome
  | .entryPoints => db.entryPoints.isSome
  | .kernels => db.kernels.isSome
  | .diagnostics => db.diagnostics.isSome
  | .metadata => db.metadata.isSome

def withoutTable (db : Database) : Table → Database
  | .runs => { db with runs := none }
  | .classes => { db with classes := none }
  | .methods => { db with methods := none }
  | .callEdges => { db with callEdges := none }
  | .entryPoints => { db with entryPoints := none }
  | .kernels => { db with kernels := none }
  | .diagnostics => { db with diagnostics := none }
  | .metadata => { db with metadata := none }

def emptied (db : Database) : Table → Database
  | .runs => { db with runs := some [] }
  | .classes => { db with classes := some [] }
  | .methods => { db with methods := some [] }
  | .callEdges => { db with callEdges := some [] }
  | .entryPoints => { db with entryPoints := some [] }
  | .kernels => { db with kernels := some [] }
  | .diagnostics => { db with diagnostics := some [] }
  | .metadata => { db with metadata := some [] }

/-- The tables of the database itself, by their names. -/
def masterTables : List String := ["sqlite_master", "sqlite_schema"]

/-- The tables of the database of passing tables, by their names. -/
def passingTables : List String := ["sqlite_temp_master", "sqlite_temp_schema"]

/-- The table that cannot be dropped of a name, if it is that of one. -/
def lastingTable? (name : Store.TableName) : Option String :=
  if masterTables.any name.isIn then some "sqlite_master"
  else if (name.database.isNone && passingTables.any name.isIn)
      || (masterTables ++ passingTables).any name.isPassing then some "sqlite_temp_master"
  else none

def dropTable (name : Store.TableName) (db : Database) : Except StoreError Database :=
  match lastingTable? name with
  | some table => .error (.lastingTable table)
  | none =>
    match Table.all.find? fun t => name.isIn t.name && db.hasTable t with
    | some t => .ok (db.withoutTable t)
    | none =>
      if name.isRequired then .error (.noTable name.text) else .ok db

/-- Drops the tables that statements name, up to the first one that fails. The text starts with the
    name in the first statement. -/
def dropFrom : (fuel : Nat) → List Char → Database → Except StoreError Unit × Database
  | 0, _, db => (.ok (), db)
  | fuel + 1, cs, db =>
    let named := do
      let (name, rest) ← (Store.tableName cs).mapError StoreError.badName
      pure (rest, ← db.dropTable name)
    match named with
    | .error e => (.error e, db)
    | .ok (rest, db) =>
      match Store.nextDrop rest with
      | .error fault => (.error (.badName fault), db)
      | .ok none => (.ok (), db)
      | .ok (some rest) => dropFrom fuel rest db

/-- Drops the table that a text names, and those that statements after the name drop. -/
def drop (text : String) (db : Database) : Except StoreError Unit × Database :=
  dropFrom (text.length + 1) text.toList db

/-- The order in which tables are emptied: the rows of runs first, then the runs. -/
def clearOrder : List Table :=
  [.diagnostics, .kernels, .entryPoints, .callEdges, .methods, .classes, .runs, .metadata]

/-- Empties the tables of a list one after the other, up to the first that is not there. -/
def clearTables : List Table → Database → Except StoreError Unit × Database
  | [], db => (.ok (), db)
  | t :: ts, db =>
    if db.hasTable t then clearTables ts (db.emptied t)
    else (.error (.context ("clearing table " ++ t.name) (.noTable t.name)), db)

/-- Empties all tables. -/
def clear (db : Database) : Except StoreError Unit × Database := clearTables clearOrder db

/-! ### Rows -/

def addRun (r : RunSummary) (db : Database) : Except StoreError Database := do
  let runs ← addRow .runs SummaryRow.id (.ofSummary r) db.runs
  pure { db with runs }

def addKernel (run : String) (seq : Nat) (kernel : String) (db : Database) :
    Except StoreError Database := do
  let kernels ← addRow .kernels (fun r => (r.run, r.value)) ⟨run, seq, kernel⟩ db.kernels
  pure { db with kernels }

def addEntryPoint (run : String) (seq : Nat) (e : EntryRecord) (db : Database) :
    Except StoreError Database := do
  let entryPoints ← addRow .entryPoints (fun r => (r.run, r.seq)) ⟨run, seq, e⟩ db.entryPoints
  pure { db with entryPoints }

def addClass (run : String) (seq : Nat) (c : ClassRecord) (db : Database) :
    Except StoreError Database := do
  let classes ← addRow .classes (fun r => (r.run, r.value.name)) ⟨run, seq, c⟩ db.classes
  pure { db with classes }

def addMethod (run : String) (seq : Nat) (m : MethodRecord) (db : Database) :
    Except StoreError Database := do
  let methods ← addRow .methods (fun r => (r.run, r.value.signature)) ⟨run, seq, m⟩ db.methods
  pure { db with methods }

def addEdge (run : String) (seq : Nat) (e : EdgeRecord) (db : Database) :
    Except StoreError Database := do
  let callEdges ← addRow .callEdges (fun r => (r.run, r.seq)) ⟨run, seq, e⟩ db.callEdges
  pure { db with callEdges }

def addDiagnostic (run : String) (seq : Nat) (d : DiagnosticRecord) (db : Database) :
    Except StoreError Database := do
  let diagnostics ← addRow .diagnostics (fun r => (r.run, r.seq)) ⟨run, seq, d⟩ db.diagnostics
  pure { db with diagnostics }

def getMetadata (key : String) (db : Database) : Except StoreError String := do
  let rows ← rowsOf .metadata db.metadata
  match rows.find? fun r => r.1 = key with
  | some r => .ok r.2
  | none => .error .noRows

def setMetadata (key value : String) (db : Database) : Except StoreError Database := do
  let rows ← rowsOf .metadata db.metadata
  let rows := rows.filter (fun r => r.1 ≠ key) ++ [(key, value)]
  pure { db with metadata := some rows }

/-- Adds rows one after the other, each with its place in the list. -/
def addAll {α : Type} (add : Nat → α → Database → Except StoreError Database) (rows : List α)
    (db : Database) : Except StoreError Database :=
  rows.zipIdx.foldlM (fun db (row, seq) => add seq row db) db

/-- The metadata key of the run that was saved last. -/
def lastRunId : String := "last_run_id"

/-- The metadata key of the start of the run that was saved last. -/
def lastRunAt : String := "last_run_at"

def save (r : Report) (db : Database) : Except StoreError Database := do
  let id := r.run.id
  let db ← StoreError.during "inserting run" (db.addRun r.run)
  let db ← addAll (fun seq k db =>
    StoreError.during ("inserting kernel " ++ k) (db.addKernel id seq k)) (r.kernels.getD []) db
  let db ← addAll (fun seq e db =>
    StoreError.during ("inserting entrypoint " ++ e.method) (db.addEntryPoint id seq e))
    (r.entryPoints.getD []) db
  let db ← addAll (fun seq c db =>
    StoreError.during ("inserting class " ++ c.name) (db.addClass id seq c))
    (r.classes.getD []) db
  let db ← addAll (fun seq m db =>
    StoreError.during ("inserting method " ++ m.signature) (db.addMethod id seq m))
    (r.methods.getD []) db
  let db ← addAll (fun seq e db =>
    StoreError.during "inserting call edge" (db.addEdge id seq e)) (r.edges.getD []) db
  let db ← addAll (fun seq d db =>
    StoreError.during "inserting diagnostic" (db.addDiagnostic id seq d))
    (r.diagnostics.getD []) db
  let db ← db.setMetadata lastRunId id
  db.setMetadata lastRunAt r.run.startedAt.storedText

/-- Rows that are added together, outside of a report. -/
structure Batch where
  run : String := ""
  runs : List RunSummary := []
  classes : List ClassRecord := []
  methods : List MethodRecord := []
  edges : List EdgeRecord := []

def addBatch (b : Batch) (db : Database) : Except StoreError Database := do
  let db ← b.runs.foldlM (fun db r => db.addRun r) db
  let db ← addAll (addClass b.run) b.classes db
  let db ← addAll (addMethod b.run) b.methods db
  addAll (addEdge b.run) b.edges db

/-! ### Queries -/

/-- The runs, the latest first; if `limit` is positive, at most so many. -/
def listRuns (limit : Int) (db : Database) : Except StoreError (List RunSummary) := do
  let rows ← rowsOf .runs db.runs
  let rows := rows.mergeSort SummaryRow.listedBefore
  (if 0 < limit then rows.take limit.toNat else rows).mapM SummaryRow.toSummary

def getRun (id : String) (db : Database) : Except StoreError RunSummary := do
  let rows ← rowsOf .runs db.runs
  match rows.find? fun r => r.id = id with
  | some r => r.toSummary
  | none => .error (.context id .noRun)

/-- The run that started last. -/
def latestRun (db : Database) : Except StoreError RunSummary := do
  match ← db.listRuns 1 with
  | r :: _ => .ok r
  | [] => .error .noRun

def kernelsOf (id : String) (db : Database) : Except StoreError (List String) :=
  (rowsOf .kernels db.kernels).map (ofRunBy (fun k => k) id)

def entryPointsOf (id : String) (db : Database) : Except StoreError (List EntryRecord) :=
  (rowsOf .entryPoints db.entryPoints).map (ofRun id)

/-- The classes of a run, all or those of one disposition. -/
def classesOf (id disposition : String) (db : Database) : Except StoreError (List ClassRecord) :=
  (rowsOf .classes db.classes).map fun rows =>
    (ofRunBy ClassRecord.disposition id rows).filter fun c =>
      disposition = "" ∨ c.disposition = disposition

def methodsOf (id : String) (db : Database) : Except StoreError (List MethodRecord) :=
  (rowsOf .methods db.methods).map (ofRunBy MethodRecord.owner id)

/-- The calls of a run, all or those of one status. -/
def edgesOf (id status : String) (db : Database) : Except StoreError (List EdgeRecord) :=
  (rowsOf .callEdges db.callEdges).map fun rows =>
    (ofRun id rows).filter fun e => status = "" ∨ e.status = status

def diagnosticsOf (id : String) (db : Database) : Except StoreError (List DiagnosticRecord) :=
  (rowsOf .diagnostics db.diagnostics).map (ofRun id)

def reportOf (id : String) (db : Database) : Except StoreError Report := do
  let run ← db.getRun id
  let kernels ← StoreError.during "loading kernels" (db.kernelsOf id)
  let entryPoints ← StoreError.during "loading entrypoints" (db.entryPointsOf id)
  let classes ← StoreError.during "loading classes" (db.classesOf id "")
  let methods ← StoreError.during "loading methods" (db.methodsOf id)
  let edges ← StoreError.during "loading edges" (db.edgesOf id "")
  let diagnostics ← StoreError.during "loading diagnostics" (db.diagnosticsOf id)
  pure {
    run, kernels := presentRows kernels, entryPoints := presentRows entryPoints,
    classes := presentRows classes, methods := presentRows methods, edges := presentRows edges,
    diagnostics := presentRows diagnostics }

/-! ### Counts -/

/-- Counts over all stored runs. -/
structure Stats where
  runCount : Nat
  kernelCount : Nat
  classCount : Nat
  methodCount : Nat
  edgeCount : Nat
  lastRunId : String
  lastRunAt : Timestamp
  deriving DecidableEq, Repr

/-- The counts as a document. The name of the last run is left out if there is none. -/
def Stats.toJson (s : Stats) : Json := .object ([
  ("run_count", .int s.runCount), ("kernel_count", .int s.kernelCount),
  ("class_count", .int s.classCount), ("method_count", .int s.methodCount),
  ("edge_count", .int s.edgeCount)]
  ++ Json.textField "last_run_id" s.lastRunId ++ [("last_run_at", .string s.lastRunAt.text)])

def countOf {α : Type} (table : Table) (rows : Option (List α)) : Except StoreError Nat :=
  StoreError.during ("counting " ++ table.name) ((rowsOf table rows).map List.length)

/-- The counts over all stored runs. Metadata that is not there or cannot be read counts as
    empty. -/
def stats (db : Database) : Except StoreError Stats := do
  let runCount ← countOf .runs db.runs
  let kernelCount ← countOf .kernels db.kernels
  let classCount ← countOf .classes db.classes
  let methodCount ← countOf .methods db.methods
  let edgeCount ← countOf .callEdges db.callEdges
  let last := (db.getMetadata Database.lastRunId).toOption.getD ""
  let lastAt := (db.getMetadata Database.lastRunAt).toOption.bind fun text =>
    (Timestamp.ofStored text).toOption
  pure {
    runCount, kernelCount, classCount, methodCount, edgeCount, lastRunId := last,
    lastRunAt := lastAt.getD .zero }

/-! ### Repair -/

/-- Whether a name is that of the number of a row. -/
def isRowNumber (column : String) : Bool := ["rowid", "oid", "_rowid_"].contains column

/-- Overwrites the column of a run that a statement names. -/
def overwrite (id column value : String) (db : Database) : Except StoreError Database := do
  let name ← (Store.columnName column " = ? WHERE id = ?").mapError .badName
  let rows ← rowsOf .runs db.runs
  let changes := rows.any fun r => r.id = id
  let isKnown := SummaryRow.columns.contains name.toLower
  if !isKnown && !isRowNumber name.toLower then .error (.noColumn name)
  else if !isKnown then
    match changes, Store.Cell.ofText value with
    | false, _ | true, .whole _ => .ok db
    | true, _ => .error .badRowNumber
  else if name.toLower = "id" && changes && id != value && rows.any (fun r => r.id = value) then
    .error (.duplicate .runs)
  else
    let rows := rows.map fun r =>
      if r.id = id then (r.withColumn name.toLower value).getD r else r
    pure { db with runs := some rows }

end Database

end KernelReach
