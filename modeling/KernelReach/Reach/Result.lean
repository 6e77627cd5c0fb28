import KernelReach.Reach.Traversal

/-!
# The result of an analysis

What a session has found out: the entry points, the reachable methods, the calls between them and
a report on every class that the analysis touched.
-/

namespace KernelReach

/-- What is to be done with a class. -/
inductive Disposition
  /-- Its code is reachable and has to be generated. -/
  | emit
  /-- It is needed for type information only. -/
  | hierarchy
  /-- It was filtered out or cannot be had. -/
  | ignored
  deriving DecidableEq, Repr

def Disposition.name : Disposition → String
  | emit => "emit"
  | hierarchy => "hierarchy"
  | ignored => "ignored"

/-- The report on one class. -/
structure ClassReport where
  name : ClassName
  level : Level
  disposition : Disposition
  application : Bool
  runtime : Bool
  reason : String
  deriving DecidableEq, Repr

/-- The counts of an analysis. -/
structure AnalysisStats where
  resolver : ResolverStats
  application : Nat
  ignored : Nat
  entryPoints : Nat
  visited : Nat
  scanned : Nat
  edges : Nat
  unavailable : Nat
  bodiesClasses : Nat
  deriving DecidableEq, Repr

/-- The result of an analysis. -/
structure AnalysisResult where
  kernelClasses : List ClassName
  entryPoints : List EntryPoint
  applicationClasses : List ClassName
  bodiesClasses : List ClassName
  /-- The methods whose bodies were scanned, in the order of their visit. -/
  reachable : List Signature
  edges : List CallEdge
  classes : List ClassReport
  diagnostics : List Diagnostic
  stats : AnalysisStats
  deriving DecidableEq, Repr

namespace AnalysisResult

/-- Whether the body of `sig` was scanned. -/
def reached (r : AnalysisResult) (sig : Signature) : Bool := r.reachable.contains sig

end AnalysisResult

namespace Session

variable {σ : Type}

/-- The report on a class that the resolver was asked for. -/
def classReport (s : Session σ) (name : ClassName) : ClassReport :=
  let level := s.resolver.level name
  let report (disposition : Disposition) (reason : String) : ClassReport :=
    { name, level, disposition, reason, application := s.catalog.application.contains name,
      runtime := s.catalog.rules.isRuntime name }
  let reached := level = .bodies ∧ s.scanned.toList.any (·.owner = name)
  if level = .none then
    report .ignored (((s.resolver.unavailable? name).map ProviderError.message).getD "")
  else if s.entries.kernelClasses.contains name ∨ reached then report .emit ""
  else report .hierarchy ""

/-- The reports on all classes that the analysis touched: first the ingested classes that the
    filter kept out and nothing refers to, then the classes that were asked for, in the order of
    the first request. -/
def classify (s : Session σ) : List ClassReport :=
  let excluded := s.catalog.ignored.toList.filter fun name => !s.resolver.requested.contains name
  excluded.map (fun name => ⟨name, .none, .ignored, false, false, "excluded by package filter"⟩)
    ++ s.resolver.requested.toList.map s.classReport

def stats (s : Session σ) : AnalysisStats where
  resolver := s.resolver.stats
  application := s.catalog.application.size
  ignored := s.catalog.ignored.size
  entryPoints := s.entries.points.size
  visited := s.visited.size
  scanned := s.scanned.size
  edges := s.edges.size
  unavailable := s.edges.toList.countP (·.status.isUnavailable)
  bodiesClasses := s.bodies.size

/-- What the session has found out so far. -/
def result (s : Session σ) : AnalysisResult where
  kernelClasses := s.entries.kernelClasses
  entryPoints := s.entries.toList
  applicationClasses := s.catalog.application.toList
  bodiesClasses := s.bodies.toList
  reachable := s.scanned.toList
  edges := s.edges.toList
  classes := s.classify
  diagnostics := s.diagnostics.toList
  stats := s.stats

end Session

end KernelReach
