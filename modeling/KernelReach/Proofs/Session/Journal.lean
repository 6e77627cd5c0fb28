import KernelReach.Proofs.Resolver.History
import KernelReach.Proofs.Session.Step
import KernelReach.Proofs.Session.Worklist

/-!
# Sessions over providers that answer alike

A session knows of its provider only the answers. Over a provider that answers alike, it does the
same (`Mirrors`), from the lookup of a method to the whole analysis. In particular a journal of the
calls makes no difference (`findKernels_record`), so that a statement about the journal is one about
the calls of any analysis.
-/

namespace KernelReach

variable {σ τ : Type} {P : Provider σ} {Q : Provider τ} {view : τ → σ}

namespace Resolver

theorem mapSource_resolveMethod (h : Q.Refines P view) (fuel : Nat) (sig : Signature)
    (r : Resolver τ) :
    (r.mapSource view).resolveMethod P fuel sig =
      ((r.resolveMethod Q fuel sig).1, (r.resolveMethod Q fuel sig).2.mapSource view) := by
  rw [resolveMethod, resolveMethod]
  rcases hc : r.classes[sig.owner]? with _ | c
  · simp only [mapSource, hc]
  · by_cases hl : .signatures ≤ c.level
    · simp only [mapSource, hc, hl, if_true]
      exact mapSource_searchMethod h sig fuel [c.name] c r
    · simp only [mapSource, hc, hl, if_false]

theorem mapSource_body (h : Q.Refines P view) (m : Method) (r : Resolver τ) :
    (r.mapSource view).body P m = ((r.body Q m).1, (r.body Q m).2.mapSource view) := by
  have hp : P.retrieveBody m (r.mapSource view).source = _ := h.retrieveBody m r.source
  simp only [body, hp]
  rfl

end Resolver

namespace Session

variable {ε α β : Type}

/-- The session over another view of its provider. -/
def mapSource (view : τ → σ) (s : Session τ) : Session σ :=
  { s with resolver := s.resolver.mapSource view }

/-- Over the view of the provider, `y` does what `x` does. -/
def Mirrors (view : τ → σ) (x : ExceptT ε (StateM (Session τ)) α)
    (y : ExceptT ε (StateM (Session σ)) α) : Prop :=
  ∀ s, y (s.mapSource view) = ((x s).1, (x s).2.mapSource view)

namespace Mirrors

theorem pure (a : α) : Mirrors view (Pure.pure a : ExceptT ε (StateM (Session τ)) α)
    (Pure.pure a : ExceptT ε (StateM (Session σ)) α) :=
  fun _ => rfl

theorem throw (e : AnalysisError) :
    Mirrors view (MonadExcept.throw e : SessionM τ α) (MonadExcept.throw e : SessionM σ α) :=
  fun _ => rfl

theorem modify {f : Session τ → Session τ} {g : Session σ → Session σ}
    (h : ∀ s, g (s.mapSource view) = (f s).mapSource view) :
    Mirrors view (modify f : ExceptT ε (StateM (Session τ)) PUnit)
      (modify g : ExceptT ε (StateM (Session σ)) PUnit) :=
  fun s => congrArg (Prod.mk (Except.ok PUnit.unit)) (h s)

theorem bind {x : ExceptT ε (StateM (Session τ)) α} {y : ExceptT ε (StateM (Session σ)) α}
    {f : α → ExceptT ε (StateM (Session τ)) β} {g : α → ExceptT ε (StateM (Session σ)) β}
    (h : Mirrors view x y) (hf : ∀ a, Mirrors view (f a) (g a)) :
    Mirrors view (x >>= f) (y >>= g) := by
  intro s
  rw [bind_apply, bind_apply, h s]
  rcases x s with ⟨e | a, s'⟩
  · rfl
  · exact hf a s'

theorem get {f : Session τ → ExceptT ε (StateM (Session τ)) α}
    {g : Session σ → ExceptT ε (StateM (Session σ)) α}
    (h : ∀ s, Mirrors view (f s) (g (s.mapSource view))) :
    Mirrors view (MonadState.get >>= f) (MonadState.get >>= g) :=
  fun s => h s s

theorem ask {q : Resolver τ → Except AnalysisError α × Resolver τ}
    {q' : Resolver σ → Except AnalysisError α × Resolver σ}
    (h : ∀ r, q' (r.mapSource view) = ((q r).1, (q r).2.mapSource view)) :
    Mirrors view (Session.ask q) (Session.ask q') := by
  intro s
  have hs : q' (s.mapSource view).resolver = _ := h s.resolver
  simp only [Session.ask, hs]
  rfl

theorem ite {p : Prop} [Decidable p] {x x' : ExceptT ε (StateM (Session τ)) α}
    {y y' : ExceptT ε (StateM (Session σ)) α} (h : Mirrors view x y) (h' : Mirrors view x' y') :
    Mirrors view (if p then x else x') (if p then y else y') := by
  by_cases hp : p
  · simpa only [hp, if_true] using h
  · simpa only [hp, if_false] using h'

theorem forM {f : α → SessionM τ PUnit} {g : α → SessionM σ PUnit}
    (h : ∀ a, Mirrors view (f a) (g a)) (l : List α) : Mirrors view (l.forM f) (l.forM g) := by
  induction l with
  | nil => exact pure _
  | cons a l ih => exact (h a).bind fun _ => ih

theorem attempt {x : SessionM τ α} {y : SessionM σ α} (h : Mirrors view x y) :
    Mirrors view (fullyResolve.attempt x) (fullyResolve.attempt y) := by
  intro s
  simp only [fullyResolve.attempt, h s]
  rfl

theorem inPhase {x : SessionM τ Unit} {y : SessionM σ Unit} (phase : Phase)
    (h : Mirrors view x y) : Mirrors view (inPhase phase x) (inPhase phase y) := by
  intro s
  change ((y (s.mapSource view)).1.mapError _, _) = _
  rw [h s]
  rfl

end Mirrors

/-! ### The steps of an analysis -/

theorem mapSource_foldl {f : Session τ → α → Session τ} {g : Session σ → α → Session σ}
    (h : ∀ s a, g (s.mapSource view) a = (f s a).mapSource view) (l : List α) (s : Session τ) :
    l.foldl g (s.mapSource view) = (l.foldl f s).mapSource view := by
  induction l generalizing s with
  | nil => rfl
  | cons a l ih => rw [List.foldl_cons, List.foldl_cons, h, ih]

theorem mapSource_detectEntryPoints (view : τ → σ) (s : Session τ) :
    (s.mapSource view).detectEntryPoints = s.detectEntryPoints.mapSource view := by
  refine mapSource_foldl (fun s c => ?_) s.loaded.toList s
  unfold detectKernel
  by_cases hc : c.implements s.options.marker = true
  · rcases hm : c.methodNamed? s.options.entryMethod with _ | m
    · simp only [mapSource, hc, hm, if_true]
      rfl
    · simp only [mapSource, hc, hm, if_true]
  · simp [mapSource, hc]

section

variable (h : Q.Refines P view)
include h

theorem resolveToBody_mirrors (fuel : Nat) (sig : Signature) :
    Mirrors view (resolveToBody Q fuel sig) (resolveToBody P fuel sig) := by
  have hbodies (name : ClassName) :
      Mirrors view (ask (·.resolveBodies Q name)) (ask (·.resolveBodies P name)) :=
    .ask (Resolver.mapSource_resolveClass h name .bodies)
  have hmethod (sig : Signature) :
      Mirrors view (ask (·.resolveMethod Q fuel sig)) (ask (·.resolveMethod P fuel sig)) :=
    .ask (Resolver.mapSource_resolveMethod h fuel sig)
  have hlift {α : Type} (o : Except AnalysisError α) :
      Mirrors view (resolveToBody.liftExcept o) (resolveToBody.liftExcept o) := fun _ => rfl
  refine .bind (.modify fun _ => rfl) fun _ => (hbodies sig.owner).bind fun o =>
    .bind ((hlift o).bind fun _ => .pure _) fun _ => (hmethod sig).bind fun o =>
      (hlift o).bind fun m => .ite (.throw _) (.ite (.pure _) ?_)
  exact (hbodies m.signature.owner).bind fun o => .bind ((hlift o).bind fun _ => .pure _)
    fun _ => (hmethod m.signature).bind fun o => hlift o

theorem fullyResolve_mirrors (fuel : Nat) (sig : Signature) :
    Mirrors view (fullyResolve Q fuel sig) (fullyResolve P fuel sig) := by
  refine .get fun s => ?_
  have hsame : (s.mapSource view).resolved[sig]? = s.resolved[sig]? := rfl
  rw [hsame]
  rcases s.resolved[sig]? with _ | o
  · refine (resolveToBody_mirrors h fuel sig).attempt.bind fun o => ?_
    have hremember : Mirrors view
        (modify (m := SessionM τ) fun s => { s with resolved := s.resolved.insert sig o })
        (modify (m := SessionM σ) fun s => { s with resolved := s.resolved.insert sig o }) :=
      .modify fun _ => rfl
    cases o with
    | error e =>
      exact .ite (.bind (.throw _) fun _ => hremember.bind fun _ => .pure _)
        (hremember.bind fun _ => .pure _)
    | ok m => exact hremember.bind fun _ => .pure _
  · exact .pure _

theorem scanCall_mirrors (fuel : Nat) (caller : Signature) (offset : Nat) (c : Invocation) :
    Mirrors view (scanCall Q fuel caller offset c) (scanCall P fuel caller offset c) := by
  refine .bind (.modify fun _ => rfl) fun _ => (fullyResolve_mirrors h fuel c.target).bind
    fun o => ?_
  cases o with
  | error e => exact .modify fun _ => rfl
  | ok callee =>
    refine (Mirrors.ask (Resolver.mapSource_body h callee)).bind fun o => ?_
    cases o with
    | error e => exact .ite (.modify fun _ => rfl) (.throw _)
    | ok b => exact .bind (.modify fun _ => rfl) fun _ => .modify fun _ => rfl

theorem scan_mirrors (fuel : Nat) (caller : Signature) (b : Body) :
    Mirrors view (scan Q fuel caller b) (scan P fuel caller b) := by
  refine (Mirrors.forM (fun i => ?_) b.instructions).bind fun _ => ?_
  · unfold scanInstruction
    split
    · exact scanCall_mirrors h fuel caller i.offset _
    · exact .pure _
  · split
    · exact .modify fun _ => rfl
    · exact .pure _

theorem scanMethod_mirrors (fuel : Nat) (m : Method) :
    Mirrors view (scanMethod Q fuel m) (scanMethod P fuel m) := by
  refine (Mirrors.ask (Resolver.mapSource_body h m)).bind fun o => ?_
  cases o with
  | error e => exact .ite (.modify fun _ => rfl) (.throw _)
  | ok b => exact .bind (.modify fun _ => rfl) fun _ => scan_mirrors h fuel m.signature b

theorem visit_mirrors (fuel : Nat) (sig : Signature) :
    Mirrors view (visit Q fuel sig) (visit P fuel sig) := by
  rw [visit_eq, visit_eq]
  refine (fullyResolve_mirrors h fuel sig).bind fun o => ?_
  cases o with
  | error e => exact .modify fun _ => rfl
  | ok m =>
    refine .ite (.get fun s => ?_) (scanMethod_mirrors h fuel m)
    exact .ite (.pure _) (.bind (.modify fun _ => rfl) fun _ => scanMethod_mirrors h fuel m)

theorem drain_mirrors (limit fuel : Nat) (patience : Option Nat) :
    Mirrors view (drain Q limit fuel patience) (drain P limit fuel patience) := by
  induction fuel generalizing patience with
  | zero => exact .throw _
  | succ fuel ih =>
    intro s
    rw [drain, drain]
    by_cases hp : patience = some 0
    · simp only [hp, if_true]
    · -- The queue and the marks are the same, so that both take up the same signature or none.
      simp only [hp, if_false, show (s.mapSource view).work = s.work from rfl,
        show (s.mapSource view).visited = s.visited from rfl]
      rcases s.work.pop? with _ | ⟨sig, work⟩
      · rfl
      · by_cases hv : s.visited.contains sig = true
        · simp only [hv, if_true]
          exact ih _ { s with work }
        · have hvisit := visit_mirrors h limit sig
            { s with work, visited := s.visited.insert sig }
          simp only [mapSource] at hvisit ⊢
          simp only [hv, hvisit]
          rcases visit Q limit sig { s with work, visited := s.visited.insert sig } with ⟨e | _, s₁⟩
          · rfl
          · exact ih _ s₁

theorem traverse_mirrors (fuel : Nat) (patience : Option Nat) :
    Mirrors view (traverse Q fuel patience) (traverse P fuel patience) := by
  refine Mirrors.bind ?_ fun _ => drain_mirrors h fuel fuel patience
  refine .bind (.modify fun _ => rfl) fun _ => .get fun s => Mirrors.forM (fun name => ?_) _
  refine (Mirrors.ask (Resolver.mapSource_resolveClass h name .signatures)).bind fun o => ?_
  cases o with
  | ok c => exact .modify fun _ => rfl
  | error e =>
    exact .ite (.throw _) (.get fun s => .ite (.modify fun _ => rfl) (.pure _))

/-- Over a provider that answers alike, an analysis does the same. -/
theorem findKernels_mirrors (fuel : Nat) (patience : Option Nat) :
    Mirrors view (findKernels Q fuel patience) (findKernels P fuel patience) := by
  have hload : Mirrors view (loadSignatures Q) (loadSignatures P) := by
    refine .bind (.modify fun _ => rfl) fun _ => .get fun s => Mirrors.forM (fun name => ?_) _
    refine .bind (.modify fun _ => rfl) fun _ =>
      (Mirrors.ask (Resolver.mapSource_resolveClass h name .signatures)).bind fun o => ?_
    cases o with
    | ok c => exact .modify fun _ => rfl
    | error e => exact .ite (.modify fun _ => rfl) (.throw _)
  have hbuiltins : Mirrors view (loadBuiltins Q) (loadBuiltins P) := by
    refine .get fun s => Mirrors.forM (fun b => ?_) _
    refine (Mirrors.ask (Resolver.mapSource_resolveClass h b.name b.level)).bind fun o => ?_
    cases o with
    | ok c => exact .pure _
    | error e => exact .ite (.modify fun _ => rfl) (.throw _)
  have hrest : Mirrors view (do
      modify Session.detectEntryPoints
      inPhase .loadingBuiltins (loadBuiltins Q)
      inPhase .buildingCallGraph (traverse Q fuel patience)
      modify augmentEntryPoints) (do
      modify Session.detectEntryPoints
      inPhase .loadingBuiltins (loadBuiltins P)
      inPhase .buildingCallGraph (traverse P fuel patience)
      modify augmentEntryPoints) :=
    (Mirrors.modify (mapSource_detectEntryPoints view)).bind fun _ =>
      (hbuiltins.inPhase _).bind fun _ => ((traverse_mirrors h fuel patience).inPhase _).bind
        fun _ => .modify fun _ => rfl
  exact .get fun s => .ite ((hload.inPhase _).bind fun _ => hrest) hrest

end

/-! ### Journals -/

/-- The session over its provider with a journal, in which nothing is entered yet. -/
def record (s : Session σ) : Session (σ × List Provider.Call) := s.mapSource (·, [])

/-- The calls of the provider so far. -/
def journal (s : Session (σ × List Provider.Call)) : List Provider.Call := s.resolver.source.2

/-- A fresh session has nothing in its journal. -/
theorem record_ingest_new (options : Options) (source : σ) (paths : List StagedPath) :
    ((new options source).ingest paths).record = (new options (source, [])).ingest paths := by
  refine (mapSource_foldl (fun s p => ?_) paths (new options source)).symm
  unfold ingestPath
  rcases p.error with _ | message
  · rcases ClassName.ofPath? p.path with _ | name
    · rfl
    · by_cases hx : s.options.rules.classify name = .exclude
      · simp only [mapSource, hx, if_true]
        rfl
      · simp only [mapSource, hx, if_false]
  · rfl

/-- A journal makes no difference to an analysis. -/
theorem findKernels_record (P : Provider σ) (fuel : Nat) (patience : Option Nat) (s : Session σ) :
    findKernels P fuel patience s =
      ((findKernels P.recorded fuel patience s.record).1,
        (findKernels P.recorded fuel patience s.record).2.mapSource Prod.fst) :=
  findKernels_mirrors P.recorded_refines fuel patience s.record

end Session

end KernelReach
