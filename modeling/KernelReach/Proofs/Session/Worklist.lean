import KernelReach.Proofs.Collections
import KernelReach.Proofs.Provider
import KernelReach.Proofs.Session.Step
import KernelReach.Reach.Traversal

/-!
# Rules for the worklist

A traversal takes one signature after the other from its queue. `drain_ends` is the induction behind
every statement about it: what one round keeps, whether the signature was visited before or is
visited now, is kept until the queue is empty, or until something goes wrong.
-/

/-- The calls in a body with their positions, in code order. -/
def KernelReach.Body.calls (b : Body) : List (Nat × Invocation) :=
  b.instructions.filterMap fun i => i.invoke.map fun c => (i.offset, c)

namespace KernelReach.Session

variable {σ : Type} {P : Provider σ} {s : Session σ}

/-- The session with another queue. -/
def setWork (s : Session σ) (work : Queue Signature) : Session σ := { s with work }

/-- The session in which `sig` is visited. -/
def mark (s : Session σ) (sig : Signature) : Session σ :=
  { s with visited := s.visited.insert sig }

/-- The session in which the scan of `sig` begins. -/
def beginScan (s : Session σ) (sig : Signature) : Session σ :=
  { s.note (.scanning sig) with scanned := s.scanned.insert sig }

/-- The session in which the bodies of the classes are called for whose methods are the seeds. -/
def enlist (s : Session σ) : Session σ :=
  { s with
    bodies := ((s.bodies.insertAll s.catalog.application.toList).insertAll
      s.catalog.runtime.toList).insertAll (s.entries.toList.map (·.method.owner)) }

theorem ends_seed {Q : Unit → Session σ → Prop} {E : AnalysisError → Session σ → Prop} :
    Ends (seed P) s Q E ↔ Ends (s.enlist.bodies.toList.forM (seedClass P)) s.enlist Q E := by
  simp only [seed, ends_bind, ends_modify, ends_get]
  rfl

/-! ### One visit -/

/-- The part of a visit that follows once the method is found and marked as visited. -/
def scanMethod (P : Provider σ) (fuel : Nat) (m : Method) : SessionM σ Unit := do
  match ← ask (·.body P m) with
  | .error e => if e.isUnavailable then modify (·.note (.noBody m.signature)) else throw e
  | .ok b =>
    modify (·.beginScan m.signature)
    scan P fuel m.signature b

theorem visit_eq (P : Provider σ) (fuel : Nat) (sig : Signature) :
    visit P fuel sig = (do
      match ← fullyResolve P fuel sig with
      | .error e => modify (·.note (.noConcreteBody sig e.message))
      | .ok m =>
        if m.signature ≠ sig then
          if (← get).visited.contains m.signature then pure ()
          else
            modify (·.mark m.signature)
            scanMethod P fuel m
        else scanMethod P fuel m) :=
  rfl

/-- A visit, given what comes of the lookup. -/
theorem ends_visit {fuel : Nat} {sig : Signature} {Q : Unit → Session σ → Prop}
    {E : AnalysisError → Session σ → Prop} :
    Ends (visit P fuel sig) s Q E ↔
      Ends (fullyResolve P fuel sig) s (fun o s₁ => match o with
        | .error e => Q () (s₁.note (.noConcreteBody sig e.message))
        | .ok m =>
          (m.signature ≠ sig → m.signature ∈ s₁.visited.toList → Q () s₁) ∧
          (m.signature ≠ sig → m.signature ∉ s₁.visited.toList →
            Ends (scanMethod P fuel m) (s₁.mark m.signature) Q E) ∧
          (m.signature = sig → Ends (scanMethod P fuel m) s₁ Q E)) E := by
  have hlookup (o : Except AnalysisError Method) (s₁ : Session σ) :
      Ends (match o with
        | .error e => modify (·.note (.noConcreteBody sig e.message))
        | .ok m =>
          if m.signature ≠ sig then do
            if (← get).visited.contains m.signature then pure ()
            else
              modify (·.mark m.signature)
              scanMethod P fuel m
          else scanMethod P fuel m) s₁ Q E ↔
        match o with
        | .error e => Q () (s₁.note (.noConcreteBody sig e.message))
        | .ok m =>
          (m.signature ≠ sig → m.signature ∈ s₁.visited.toList → Q () s₁) ∧
          (m.signature ≠ sig → m.signature ∉ s₁.visited.toList →
            Ends (scanMethod P fuel m) (s₁.mark m.signature) Q E) ∧
          (m.signature = sig → Ends (scanMethod P fuel m) s₁ Q E) := by
    cases o with
    | error e => exact Iff.rfl
    | ok m =>
      simp only [ends_ite, ends_bind, ends_get, ends_pure, ends_modify,
        OrderedSet.contains_iff_mem_toList, ne_eq, Decidable.not_not, imp_and, and_assoc]
  rw [visit_eq, ends_bind]
  simp only [hlookup]

/-! ### The whole traversal -/

variable {I : Session σ → Prop} {E : AnalysisError → Session σ → Prop}

/-- What every round of the traversal keeps holds when the queue is empty. -/
theorem drain_ends {limit : Nat}
    (hdrop : ∀ s sig work, I s → s.work.pop? = some (sig, work) → sig ∈ s.visited.toList →
      I (s.setWork work))
    (hvisit : ∀ s sig work, I s → s.work.pop? = some (sig, work) → sig ∉ s.visited.toList →
      Ends (visit P limit sig) ((s.setWork work).mark sig) (fun _ => I) E)
    (hcanceled : ∀ s, I s → E .canceled s) (hexhausted : ∀ s, I s → E .exhausted s)
    (fuel : Nat) (patience : Option Nat) (h : I s) :
    Ends (drain P limit fuel patience) s (fun _ s' => I s' ∧ s'.work.toList = []) E := by
  induction fuel generalizing patience s with
  | zero => exact hexhausted s h
  | succ fuel ih =>
    unfold Ends
    rw [drain]
    by_cases hp : patience = some 0
    · simp only [hp, if_true]
      exact hcanceled s h
    · simp only [hp, if_false]
      rcases hw : s.work.pop? with _ | ⟨sig, work⟩
      · exact ⟨h, Queue.pop?_eq_none_iff.1 hw⟩
      · by_cases hv : s.visited.contains sig = true
        · simp only [hv, if_true]
          exact ih _ (hdrop s sig work h hw (OrderedSet.contains_iff_mem_toList.1 hv))
        · simp only [hv, Bool.false_eq_true, if_false]
          have hround := hvisit s sig work h hw fun hm =>
            hv (OrderedSet.contains_iff_mem_toList.2 hm)
          rcases hr : visit P limit sig ((s.setWork work).mark sig) with ⟨e | u, s₁⟩
          · have hE := hround.error hr
            simp only [setWork, mark] at hr
            simp only [hr]
            exact hE
          · have hI := hround.ok hr
            simp only [setWork, mark] at hr
            simp only [hr]
            exact ih _ hI

end KernelReach.Session

namespace KernelReach.Sample

/-- What is asked of an analysis of the small program. -/
def options : Options := { marker := ⟨"api.Kernel"⟩, entryMethod := "run" }

/-- The staged file of the kernel, the only class of the application. -/
def paths : List Session.StagedPath := [⟨"app/K.class", none⟩]

end KernelReach.Sample
