import KernelReach.Reach.Result
import KernelReach.Report.Basic

/-!
# The report of an analysis

The result of an analysis, flattened into the rows of a report. The counts of the summary are the
lengths of the lists.
-/

namespace KernelReach

open Time (Timestamp)

/-- What is known of a run apart from its analysis. -/
structure RunInfo where
  id : String := ""
  startedAt : Timestamp
  /-- How long the run took, in nanoseconds. -/
  durationNs : Int
  backend : String
  inputs : Option (List (List UInt8))
  deriving DecidableEq, Repr

def EntryPoint.toRecord (p : EntryPoint) : EntryRecord :=
  ⟨p.method.text, p.method.owner.text, p.kind.name⟩

def ClassReport.toRecord (c : ClassReport) : ClassRecord :=
  ⟨c.name.text, c.level.name, c.disposition.name, c.application, c.runtime, c.reason⟩

def Signature.toRecord (s : Signature) : MethodRecord :=
  ⟨s.text, s.owner.text, s.name, s.params, s.result⟩

def CallEdge.toRecord (e : CallEdge) : EdgeRecord :=
  ⟨e.caller.text, e.target.text, e.callee.text, e.kind.name, e.offset, e.status.name,
    e.status.reason⟩

def Diagnostic.toRecord (d : Diagnostic) : DiagnosticRecord := ⟨d.kind.name, d.subject, d.message⟩

/-- The report on an analysis. Its duration is cut to whole milliseconds. -/
def Report.ofResult (r : AnalysisResult) (info : RunInfo) : Report where
  run := {
    id := info.id
    startedAt := info.startedAt
    durationMs := info.durationNs.tdiv 1000000
    backend := info.backend
    inputs := info.inputs
    kernelCount := r.kernelClasses.length
    classCount := r.classes.length
    methodCount := r.reachable.length
    edgeCount := r.edges.length
    unavailableCount := r.stats.unavailable
    diagnosticCount := r.diagnostics.length }
  kernels := presentRows (r.kernelClasses.map ClassName.text)
  entryPoints := presentRows (r.entryPoints.map EntryPoint.toRecord)
  classes := presentRows (r.classes.map ClassReport.toRecord)
  methods := presentRows (r.reachable.map Signature.toRecord)
  edges := presentRows (r.edges.map CallEdge.toRecord)
  diagnostics := presentRows (r.diagnostics.map Diagnostic.toRecord)

end KernelReach
