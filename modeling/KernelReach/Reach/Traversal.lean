import KernelReach.Reach.Session

/-!
# Building the call graph

The traversal works through a queue of method signatures. It starts with every method of the
application classes, the runtime classes and the classes of the entry points; it visits each
signature once, finds the concrete method behind it, scans the body of that method and queues
every method that the body calls. Calls that lead nowhere become unavailable edges.

The traversal may be called off: it asks before each step, and `patience` is the number of times
that it is told to go on. A traversal that was called off can be started again. `fuel` bounds the
number of steps; a provider with endlessly many classes could keep a traversal going for ever.
-/

namespace KernelReach.Session

variable {σ : Type}

/-! ### Finding the method behind a signature -/

/-- The concrete method that `sig` leads to. The class that `sig` names is raised to bodies, and so
    is the class that declares the method if that is another one. -/
def resolveToBody (P : Provider σ) (fuel : Nat) (sig : Signature) : SessionM σ Method := do
  modify (·.note (.resolvingToBodies sig.owner))
  discard <| liftExcept (← ask (·.resolveBodies P sig.owner))
  let m ← liftExcept (← ask (·.resolveMethod P fuel sig))
  if !m.isConcrete then throw (.noBody m.signature)
  if m.signature.owner = sig.owner then return m
  discard <| liftExcept (← ask (·.resolveBodies P m.signature.owner))
  -- The class was replaced when it was raised, so the method is looked up again.
  liftExcept (← ask (·.resolveMethod P fuel m.signature))
where
  /-- Fails with a bad answer. -/
  liftExcept {α : Type} (x : Except AnalysisError α) : SessionM σ α := ExceptT.mk (pure x)

/-- The concrete method that `sig` leads to, or why there is none. Both are remembered; failures
    of the provider are neither remembered nor survived. -/
def fullyResolve (P : Provider σ) (fuel : Nat) (sig : Signature) :
    SessionM σ (Except AnalysisError Method) := do
  match (← get).resolved[sig]? with
  | some outcome => return outcome
  | none =>
    let outcome ← attempt (resolveToBody P fuel sig)
    if let .error e := outcome then
      if !e.isUnavailable then throw e
    modify fun s => { s with resolved := s.resolved.insert sig outcome }
    return outcome
where
  /-- Runs a step and hands out its failure as a value. -/
  attempt {α : Type} (x : SessionM σ α) : SessionM σ (Except AnalysisError α) := fun s =>
    let (outcome, s) := x s
    (.ok outcome, s)

/-! ### Scanning -/

/-- Records the call `c` at `offset` in the body of `caller`, and queues the method that it
    leads to. -/
def scanCall (P : Provider σ) (fuel : Nat) (caller : Signature) (offset : Nat)
    (c : Invocation) : SessionM σ Unit := do
  modify fun s => { s with bodies := s.bodies.insert c.target.owner }
  let record (callee : Signature) (status : EdgeStatus) : SessionM σ Unit :=
    modify fun s => { s with
      edges := s.edges.push ⟨caller, c.target, callee, c.kind, offset, status⟩ }
  match ← fullyResolve P fuel c.target with
  | .error e => record c.target (.unavailable e.message)
  | .ok callee =>
    match ← ask (·.body P callee) with
    | .error e =>
      if e.isUnavailable then record c.target (.unavailable e.message) else throw e
    | .ok _ =>
      record callee.signature .followed
      modify fun s => { s with work := s.work.push callee.signature }

def scanInstruction (P : Provider σ) (fuel : Nat) (caller : Signature) (i : Instruction) :
    SessionM σ Unit :=
  match i.invoke with
  | some c => scanCall P fuel caller i.offset c
  | none => pure ()

/-- Scans the body of `caller`. A fault in the code ends the scan with a diagnostic. -/
def scan (P : Provider σ) (fuel : Nat) (caller : Signature) (b : Body) : SessionM σ Unit := do
  b.instructions.forM (scanInstruction P fuel caller)
  if let some fault := b.fault then modify (·.diagnose .scan caller.text fault.message)

/-- Visits one signature: scans the method that it leads to, unless that was visited before. An
    inherited method that is reached through a subclass is the same as the method itself. -/
def visit (P : Provider σ) (fuel : Nat) (sig : Signature) : SessionM σ Unit := do
  match ← fullyResolve P fuel sig with
  | .error e => modify (·.note (.noConcreteBody sig e.message))
  | .ok m =>
    if m.signature ≠ sig then
      if (← get).visited.contains m.signature then return
      modify fun s => { s with visited := s.visited.insert m.signature }
    match ← ask (·.body P m) with
    | .error e => if e.isUnavailable then modify (·.note (.noBody m.signature)) else throw e
    | .ok b =>
      modify fun s => { s.note (.scanning m.signature) with
        scanned := s.scanned.insert m.signature }
      scan P fuel m.signature b

/-! ### The worklist -/

/-- Queues the methods of one class. A missing application class was reported before. -/
def seedClass (P : Provider σ) (name : ClassName) : SessionM σ Unit := do
  match ← ask (·.resolveClass P name .signatures) with
  | .ok c => modify fun s => { s with work := s.work.pushAll (c.methods.map Method.signature) }
  | .error e =>
    if !e.isUnavailable then throw e
    if !(← get).catalog.application.contains name then
      modify (·.diagnose .resolve name.text e.message)

/-- Queues the methods of every class whose bodies are called for: the application classes, the
    runtime classes, the classes of the entry points and those that were called before. -/
def seed (P : Provider σ) : SessionM σ Unit := do
  modify fun s => { s with
    bodies := ((s.bodies.insertAll s.catalog.application.toList).insertAll
      s.catalog.runtime.toList).insertAll (s.entries.toList.map (·.method.owner)) }
  (← get).bodies.toList.forM (seedClass P)

/-- Works through the queue. -/
def drain (P : Provider σ) (limit : Nat) :
    (fuel : Nat) → (patience : Option Nat) → SessionM σ Unit
  | 0, _ => throw .exhausted
  | fuel + 1, patience => fun s =>
    if patience = some 0 then (.error .canceled, s)
    else
      match s.work.pop? with
      | none => (.ok (), s)
      | some (sig, work) =>
        let s := { s with work }
        let patience := patience.map (· - 1)
        if s.visited.contains sig then drain P limit fuel patience s
        else
          match visit P limit sig { s with visited := s.visited.insert sig } with
          | (.ok (), s) => drain P limit fuel patience s
          | (.error e, s) => (.error e, s)

/-- Builds the call graph, or goes on building it. -/
def traverse (P : Provider σ) (fuel : Nat) (patience : Option Nat) : SessionM σ Unit := do
  seed P
  drain P fuel fuel patience

/-! ### The whole analysis -/

/-- A step whose failure ends a phase. -/
def inPhase (phase : Phase) (step : SessionM σ Unit) :
    ExceptT PhaseError (StateM (Session σ)) Unit :=
  ExceptT.mk (Except.mapError (PhaseError.mk phase) <$> step.run)

/-- Runs every phase after ingestion. -/
def findKernels (P : Provider σ) (fuel : Nat) (patience : Option Nat) :
    ExceptT PhaseError (StateM (Session σ)) Unit := do
  if !(← get).signaturesLoaded then
    inPhase .loadingSignatures (loadSignatures P)
  modify detectEntryPoints
  inPhase .loadingBuiltins (loadBuiltins P)
  inPhase .buildingCallGraph (traverse P fuel patience)
  modify augmentEntryPoints

/-- More steps than any class path of real files can keep a traversal busy with. -/
def ampleFuel : Nat := 0x4000000000000000

end KernelReach.Session
