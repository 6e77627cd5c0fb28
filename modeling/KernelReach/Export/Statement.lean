import KernelReach.Json.Document
import KernelReach.Report.Basic

/-!
# Statements of the graph export

A run is exported to a graph database by statements, each of which takes a batch of rows. Calls
between the same two methods become one row that carries the offsets of all of them.
-/

namespace KernelReach.Export

/-- A statement, with the rows that it is run over if it takes any. -/
structure Statement where
  text : String
  rows : Option (List Json) := none
  deriving Repr

def lines (ls : List String) : String := String.intercalate "\n\t\t " ls

/-! ### Texts -/

/-- The statements that remove everything that was exported before. -/
def cleaning : List Statement := [
  ⟨"MATCH ()-[r:CALLS]->() DELETE r", none⟩,
  ⟨"MATCH ()-[r:DECLARES]->() DELETE r", none⟩,
  ⟨"MATCH (n:JavaMethod) DETACH DELETE n", none⟩,
  ⟨"MATCH (n:JavaClass) DETACH DELETE n", none⟩]

def indexing : List Statement := [
  ⟨"CREATE INDEX java_class_key IF NOT EXISTS FOR (n:JavaClass) ON (n.run_id, n.name)", none⟩,
  ⟨"CREATE INDEX java_method_key IF NOT EXISTS FOR (n:JavaMethod) ON (n.run_id, n.signature)",
    none⟩]

/-- Makes a node for every class. -/
def classText : String := lines [
  "UNWIND $batch AS row",
  "MERGE (c:JavaClass \x7brun_id: row.run, name: row.name\x7d)",
  "SET c.level = row.level, c.disposition = row.disposition,",
  "    c.application = row.application, c.runtime = row.runtime,",
  "    c.reason = row.reason"]

/-- Makes a node for every method and joins it to its class. -/
def methodText : String := lines [
  "UNWIND $batch AS row",
  "MERGE (m:JavaMethod \x7brun_id: row.run, signature: row.signature\x7d)",
  "SET m.name = row.name, m.class = row.class, m.params = row.params,",
  "    m.return_type = row.return_type, m.reached = true",
  "WITH m, row",
  "MATCH (c:JavaClass \x7brun_id: row.run, name: row.class\x7d)",
  "MERGE (c)-[:DECLARES]->(m)"]

def callText : String := lines [
  "UNWIND $batch AS row",
  "MERGE (caller:JavaMethod \x7brun_id: row.run, signature: row.caller\x7d)",
  "MERGE (callee:JavaMethod \x7brun_id: row.run, signature: row.callee\x7d)",
  "MERGE (caller)-[r:CALLS]->(callee)",
  "SET r.kind = row.kind, r.status = row.status, r.reason = row.reason,",
  "    r.offsets = row.offsets"]

/-- Labels the kernel classes. -/
def kernelText : String := lines [
  "UNWIND $batch AS row",
  "MATCH (c:JavaClass \x7brun_id: row.run, name: row.name\x7d)",
  "SET c:Kernel"]

def entryPointText : String := lines [
  "UNWIND $batch AS row",
  "MATCH (m:JavaMethod \x7brun_id: row.run, signature: row.signature\x7d)",
  "SET m:EntryPoint, m.entry_kind = row.kind"]

/-! ### Rows -/

def classRow (run : String) (c : ClassRecord) : Json := .object [
  ("run", .string run), ("name", .string c.name), ("level", .string c.level),
  ("disposition", .string c.disposition), ("application", .bool c.application),
  ("runtime", .bool c.runtime), ("reason", .string c.reason)]

def methodRow (run : String) (m : MethodRecord) : Json := .object [
  ("run", .string run), ("signature", .string m.signature), ("name", .string m.name),
  ("class", .string m.owner), ("params", .string m.params), ("return_type", .string m.result)]

def kernelRow (run kernel : String) : Json := .object [
  ("run", .string run), ("name", .string kernel)]

def entryPointRow (run : String) (e : EntryRecord) : Json := .object [
  ("run", .string run), ("signature", .string e.method), ("kind", .string e.kind)]

/-- All calls from one method to another. Kind, status and reason are those of the first. -/
structure CallGroup where
  caller : String
  callee : String
  kind : String
  status : String
  reason : String
  /-- The offsets of the calls, in order. -/
  offsets : List Int
  deriving DecidableEq, Repr

/-- Adds a call to the group of its caller and callee, or as a group of its own at the end. -/
def addCall (groups : List CallGroup) (e : EdgeRecord) : List CallGroup :=
  match groups with
  | [] => [⟨e.caller, e.callee, e.kind, e.status, e.reason, [e.offset]⟩]
  | g :: gs =>
    if g.caller = e.caller ∧ g.callee = e.callee then
      { g with offsets := g.offsets ++ [e.offset] } :: gs
    else g :: addCall gs e

/-- The calls, grouped by caller and callee in the order of the first ones. -/
def groupCalls (edges : List EdgeRecord) : List CallGroup := edges.foldl addCall []

def callRow (run : String) (g : CallGroup) : Json := .object [
  ("run", .string run), ("caller", .string g.caller), ("callee", .string g.callee),
  ("kind", .string g.kind), ("status", .string g.status), ("reason", .string g.reason),
  ("offsets", .list .int g.offsets)]

/-! ### Batches -/

/-- Cuts a list into pieces of `n + 1` items, the last of which may be shorter. -/
def chunks {α : Type} (n : Nat) : List α → List (List α)
  | [] => []
  | x :: xs => (x :: xs.take n) :: chunks n (xs.drop n)
termination_by xs => xs.length
decreasing_by simp only [List.length_drop, List.length_cons]; omega

/-- The number of rows in a batch unless another is configured. -/
def defaultBatchSize : Nat := 500

/-- The number of rows in a batch. One that is not positive stands for the default. -/
def batchSize (configured : Int) : Nat :=
  if configured ≤ 0 then defaultBatchSize else configured.toNat

/-- The statements that run one text over all rows. -/
def batches (size : Nat) (text : String) (rows : List Json) : List Statement :=
  (chunks (size - 1) rows).map fun rows => ⟨text, some rows⟩

end KernelReach.Export
