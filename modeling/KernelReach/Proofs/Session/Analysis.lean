import KernelReach.Proofs.Session.Step
import KernelReach.Reach.Traversal

/-!
# The phases of an analysis as one step

An analysis says in which of its phases it has failed. Apart from that it is a step of a session
like any other (`analyze`), and the rules for such steps apply to it (`findKernels_phased`).
-/

namespace KernelReach.Session

variable {σ α β : Type} {P : Provider σ} {fuel : Nat} {patience : Option Nat} {s s' : Session σ}

/-- All phases after ingestion, one after the other. -/
def analyze (P : Provider σ) (fuel : Nat) (patience : Option Nat) : SessionM σ Unit := do
  if !(← get).signaturesLoaded then
    loadSignatures P
  modify detectEntryPoints
  loadBuiltins P
  traverse P fuel patience
  modify augmentEntryPoints

/-- The step `x` does what `y` does, and adds to a failure the phase in which it arises. -/
def Phased (x : ExceptT PhaseError (StateM (Session σ)) α) (y : SessionM σ α) : Prop :=
  ∀ s, (x s).2 = (y s).2 ∧ (x s).1.mapError PhaseError.cause = (y s).1

theorem Phased.inPhase (phase : Phase) (x : SessionM σ Unit) : Phased (inPhase phase x) x := by
  intro s
  change (x s).2 = (x s).2 ∧ ((x s).1.mapError (PhaseError.mk phase)).mapError _ = (x s).1
  rcases (x s).1 with e | u
  · exact ⟨rfl, rfl⟩
  · exact ⟨rfl, rfl⟩

theorem Phased.modify (f : Session σ → Session σ) : Phased (modify f) (modify f) :=
  fun _ => ⟨rfl, rfl⟩

theorem Phased.bind {x : ExceptT PhaseError (StateM (Session σ)) α} {y : SessionM σ α}
    {f : α → ExceptT PhaseError (StateM (Session σ)) β} {g : α → SessionM σ β} (h : Phased x y)
    (hf : ∀ a, Phased (f a) (g a)) : Phased (x >>= f) (y >>= g) := by
  intro s
  rw [bind_apply, bind_apply]
  obtain ⟨hsession, houtcome⟩ := h s
  rcases hx : x s with ⟨e | a, s₁⟩
  · rw [hx] at hsession houtcome
    rw [show y s = (.error e.cause, s₁) from Prod.ext houtcome.symm hsession.symm]
    exact ⟨rfl, rfl⟩
  · rw [hx] at hsession houtcome
    rw [show y s = (.ok a, s₁) from Prod.ext houtcome.symm hsession.symm]
    exact hf a s₁

theorem findKernels_phased (P : Provider σ) (fuel : Nat) (patience : Option Nat) :
    Phased (findKernels P fuel patience) (analyze P fuel patience) := by
  have hrest : Phased (do
      modify Session.detectEntryPoints
      inPhase .loadingBuiltins (loadBuiltins P)
      inPhase .buildingCallGraph (traverse P fuel patience)
      modify augmentEntryPoints) (do
      modify Session.detectEntryPoints
      loadBuiltins P
      traverse P fuel patience
      modify augmentEntryPoints) :=
    .bind (.modify _) fun _ => .bind (.inPhase _ _) fun _ => .bind (.inPhase _ _) fun _ => .modify _
  unfold findKernels analyze
  -- The first phase is left out if it was started before.
  refine .bind (fun s => ⟨rfl, rfl⟩) fun s => ?_
  by_cases hloaded : (!s.signaturesLoaded) = true
  · simp only [hloaded, if_true]
    exact .bind (.inPhase _ _) fun _ => hrest
  · simp only [hloaded, Bool.false_eq_true, if_false]
    exact hrest

theorem findKernels_eq_ok_iff :
    findKernels P fuel patience s = (.ok (), s') ↔ analyze P fuel patience s = (.ok (), s') := by
  obtain ⟨hsession, houtcome⟩ := findKernels_phased P fuel patience s
  rw [Prod.ext_iff, Prod.ext_iff, ← hsession, ← houtcome]
  rcases (findKernels P fuel patience s).1 with e | u
  · constructor <;> rintro ⟨h, -⟩ <;> cases h
  · exact and_congr_left' (iff_of_true rfl rfl)

/-- What a phase complains about is the complaint of the analysis. -/
theorem analyze_of_findKernels {e : PhaseError}
    (h : findKernels P fuel patience s = (.error e, s')) :
    analyze P fuel patience s = (.error e.cause, s') := by
  obtain ⟨hsession, houtcome⟩ := findKernels_phased P fuel patience s
  rw [h] at hsession houtcome
  exact Prod.ext houtcome.symm hsession.symm

end KernelReach.Session
