import KernelReach.Export.Statement

/-!
# The graph export

The export of a run is a plan of phases, each with its statements, that is handed to an executor
statement by statement and given up at the first failure. An executor is anything that can run a
statement; it has a state of its own.
-/

namespace KernelReach.Export

/-- Something that runs statements. -/
abbrev Executor (σ : Type) := Statement → σ → Except String Unit × σ

/-- A part of an export. -/
structure Phase where
  /-- What the phase exports; none if a failure needs no explanation. -/
  what : Option String
  /-- What is said before the phase. -/
  note : Option String
  statements : List Statement
  deriving Repr

/-- Removing what was exported before. -/
def cleanGraph : List Phase := [⟨none, some "Cleaning existing call-graph data...", cleaning⟩]

def createIndexes : List Phase := [⟨none, some "Creating indexes...", indexing⟩]

/-- Exporting a report: its classes, methods and calls, and the labels of its kernels and entry
    points. -/
def exportPlan (size : Nat) (r : Report) : List Phase :=
  let run := r.run.id
  let classes := r.classes.getD []
  let methods := r.methods.getD []
  let edges := r.edges.getD []
  let groups := groupCalls edges
  [ ⟨some "classes", some ("Loading " ++ Text.decimal 1 classes.length ++ " classes..."),
      batches size classText (classes.map (classRow run))⟩,
    ⟨some "methods", some ("Loading " ++ Text.decimal 1 methods.length ++ " methods..."),
      batches size methodText (methods.map (methodRow run))⟩,
    ⟨some "calls", some ("Loading " ++ Text.decimal 1 groups.length ++ " call edges ("
        ++ Text.decimal 1 edges.length ++ " call sites)..."),
      batches size callText (groups.map (callRow run))⟩,
    ⟨some "kernels", none, batches size kernelText ((r.kernels.getD []).map (kernelRow run))⟩,
    ⟨some "entry points", none,
      batches size entryPointText ((r.entryPoints.getD []).map (entryPointRow run))⟩ ]

variable {σ : Type}

/-- Runs statements up to the first failure. -/
def runStatements (exec : Executor σ) : List Statement → σ → Except String Unit × σ
  | [], s => (.ok (), s)
  | st :: sts, s =>
    match exec st s with
    | (.ok (), s) => runStatements exec sts s
    | (.error e, s) => (.error e, s)

/-- What came of a list of phases. -/
structure Outcome (σ : Type) where
  /-- The failure that ended it. -/
  failure : Option String
  /-- What was said. -/
  notes : List String
  /-- The state of the executor. -/
  state : σ

/-- Runs phases up to the first failure. -/
def runPhases (exec : Executor σ) : List Phase → σ → Outcome σ
  | [], s => ⟨none, [], s⟩
  | p :: ps, s =>
    match runStatements exec p.statements s with
    | (.ok (), s) =>
      let rest := runPhases exec ps s
      { rest with notes := p.note.toList ++ rest.notes }
    | (.error e, s) =>
      let failure := match p.what with
        | some what => "exporting " ++ what ++ ": " ++ e
        | none => e
      ⟨some failure, p.note.toList, s⟩

end KernelReach.Export
