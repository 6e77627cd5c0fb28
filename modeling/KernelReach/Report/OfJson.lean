import KernelReach.Json.Document
import KernelReach.Report.Basic
import KernelReach.Text.ReadNumeral
import KernelReach.Time.Layout

/-!
# Reading reports

A report from its document. Fields are found by name; one that is missing, or that is not of the
kind it should be, counts as empty.
-/

namespace KernelReach

open Time (Timestamp)

namespace Json

/-- The value of a field; null if there is none. -/
def field (j : Json) (name : String) : Json :=
  match j with
  | object fields => (fields.lookup name).getD null
  | _ => null

def text : Json → String
  | string s => s
  | _ => ""

def textAt (j : Json) (name : String) : String := (j.field name).text

/-- The whole number in a field. -/
def intAt (j : Json) (name : String) : Int :=
  match j.field name with
  | number literal => (Text.integerValue? literal).getD 0
  | _ => 0

/-- The truth value in a field. -/
def boolAt (j : Json) (name : String) : Bool :=
  match j.field name with
  | bool b => b
  | _ => false

/-- The list in a field, with every item read by `item`. -/
def listAt {α : Type} (j : Json) (name : String) (item : Json → α) : Option (List α) :=
  match j.field name with
  | array items => some (items.map item)
  | _ => none

end Json

def RunSummary.ofJson (j : Json) : RunSummary where
  id := j.textAt "id"
  startedAt := (Timestamp.ofText (j.textAt "started_at")).toOption.getD .zero
  durationMs := j.intAt "duration_ms"
  backend := j.textAt "backend"
  inputs := j.listAt "inputs" fun input => Text.toBytes input.text
  kernelCount := j.intAt "kernel_count"
  classCount := j.intAt "class_count"
  methodCount := j.intAt "method_count"
  edgeCount := j.intAt "edge_count"
  unavailableCount := j.intAt "unavailable_count"
  diagnosticCount := j.intAt "diagnostic_count"

def EntryRecord.ofJson (j : Json) : EntryRecord :=
  ⟨j.textAt "method", j.textAt "class", j.textAt "kind"⟩

def ClassRecord.ofJson (j : Json) : ClassRecord :=
  ⟨j.textAt "name", j.textAt "level", j.textAt "disposition", j.boolAt "application",
    j.boolAt "runtime", j.textAt "reason"⟩

def MethodRecord.ofJson (j : Json) : MethodRecord :=
  ⟨j.textAt "signature", j.textAt "class", j.textAt "name", j.textAt "params", j.textAt "return"⟩

def EdgeRecord.ofJson (j : Json) : EdgeRecord :=
  ⟨j.textAt "caller", j.textAt "target", j.textAt "callee", j.textAt "kind", j.intAt "offset",
    j.textAt "status", j.textAt "reason"⟩

def DiagnosticRecord.ofJson (j : Json) : DiagnosticRecord :=
  ⟨j.textAt "kind", j.textAt "subject", j.textAt "message"⟩

def Report.ofJson (j : Json) : Report where
  run := .ofJson (j.field "run")
  kernels := j.listAt "kernels" Json.text
  entryPoints := j.listAt "entrypoints" EntryRecord.ofJson
  classes := j.listAt "classes" ClassRecord.ofJson
  methods := j.listAt "methods" MethodRecord.ofJson
  edges := j.listAt "edges" EdgeRecord.ofJson
  diagnostics := j.listAt "diagnostics" DiagnosticRecord.ofJson

end KernelReach
