import KernelReach.Json.Document
import KernelReach.Time.Timestamp

/-!
# Reports

What is kept of an analysis run: a summary and six lists. A report is a document of its own; a list
that was never filled is absent, and its place in the document is null.
-/

namespace KernelReach

open Time (Timestamp)

/-- The summary of a run. -/
structure RunSummary where
  id : String := ""
  startedAt : Timestamp := .zero
  /-- How long the run took, in milliseconds. -/
  durationMs : Int := 0
  backend : String := ""
  /-- The names of the inputs. They are bytes, which need not be text. -/
  inputs : Option (List (List UInt8)) := none
  kernelCount : Int := 0
  classCount : Int := 0
  methodCount : Int := 0
  edgeCount : Int := 0
  unavailableCount : Int := 0
  diagnosticCount : Int := 0
  deriving DecidableEq, Repr

/-- A method at which the analysis started. -/
structure EntryRecord where
  method : String := ""
  owner : String := ""
  kind : String := ""
  deriving DecidableEq, Repr

/-- A class that the analysis touched. -/
structure ClassRecord where
  name : String := ""
  level : String := ""
  disposition : String := ""
  application : Bool := false
  runtime : Bool := false
  reason : String := ""
  deriving DecidableEq, Repr

/-- A reachable method. -/
structure MethodRecord where
  signature : String := ""
  owner : String := ""
  name : String := ""
  params : String := ""
  result : String := ""
  deriving DecidableEq, Repr

/-- A call in the body of a reachable method. -/
structure EdgeRecord where
  caller : String := ""
  target : String := ""
  callee : String := ""
  kind : String := ""
  offset : Int := 0
  status : String := ""
  reason : String := ""
  deriving DecidableEq, Repr

/-- The status of a call that was not followed. -/
def EdgeRecord.unavailableStatus : String := "unavailable"

/-- A condition that did not end the analysis. -/
structure DiagnosticRecord where
  kind : String := ""
  subject : String := ""
  message : String := ""
  deriving DecidableEq, Repr

/-- The report on a run. -/
structure Report where
  run : RunSummary := {}
  kernels : Option (List String) := none
  entryPoints : Option (List EntryRecord) := none
  classes : Option (List ClassRecord) := none
  methods : Option (List MethodRecord) := none
  edges : Option (List EdgeRecord) := none
  diagnostics : Option (List DiagnosticRecord) := none
  deriving DecidableEq, Repr

/-- A list of rows as a report holds it: absent if there are none. -/
def presentRows {α : Type} : List α → Option (List α)
  | [] => none
  | rows => some rows

/-! ### Documents -/

def RunSummary.toJson (r : RunSummary) : Json := .object [
  ("id", .string r.id),
  ("started_at", .string r.startedAt.text),
  ("duration_ms", .int r.durationMs),
  ("backend", .string r.backend),
  ("inputs", .listOrNull (fun bytes => .string (Text.ofBytes bytes)) r.inputs),
  ("kernel_count", .int r.kernelCount),
  ("class_count", .int r.classCount),
  ("method_count", .int r.methodCount),
  ("edge_count", .int r.edgeCount),
  ("unavailable_count", .int r.unavailableCount),
  ("diagnostic_count", .int r.diagnosticCount)]

def EntryRecord.toJson (e : EntryRecord) : Json := .object [
  ("method", .string e.method), ("class", .string e.owner), ("kind", .string e.kind)]

/-- The class as a document. A reason that is empty is left out. -/
def ClassRecord.toJson (c : ClassRecord) : Json := .object ([
  ("name", .string c.name), ("level", .string c.level), ("disposition", .string c.disposition),
  ("application", .bool c.application), ("runtime", .bool c.runtime)]
  ++ Json.textField "reason" c.reason)

/-- The method as a document. Parameters that are empty are left out. -/
def MethodRecord.toJson (m : MethodRecord) : Json := .object ([
  ("signature", .string m.signature), ("class", .string m.owner), ("name", .string m.name)]
  ++ Json.textField "params" m.params ++ [("return", .string m.result)])

/-- The call as a document. A reason that is empty is left out. -/
def EdgeRecord.toJson (e : EdgeRecord) : Json := .object ([
  ("caller", .string e.caller), ("target", .string e.target), ("callee", .string e.callee),
  ("kind", .string e.kind), ("offset", .int e.offset), ("status", .string e.status)]
  ++ Json.textField "reason" e.reason)

def DiagnosticRecord.toJson (d : DiagnosticRecord) : Json := .object [
  ("kind", .string d.kind), ("subject", .string d.subject), ("message", .string d.message)]

/-- Why a report cannot be written as a document, if it cannot. -/
def Report.writeFault? (r : Report) : Option Time.WriteFault := r.run.startedAt.writeFault?

def Report.toJson (r : Report) : Json := .object [
  ("run", r.run.toJson),
  ("kernels", .listOrNull .string r.kernels),
  ("entrypoints", .listOrNull EntryRecord.toJson r.entryPoints),
  ("classes", .listOrNull ClassRecord.toJson r.classes),
  ("methods", .listOrNull MethodRecord.toJson r.methods),
  ("edges", .listOrNull EdgeRecord.toJson r.edges),
  ("diagnostics", .listOrNull DiagnosticRecord.toJson r.diagnostics)]

end KernelReach
