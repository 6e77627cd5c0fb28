import KernelReach.Proofs.Session.Complaint

/-!
# Classes that do not end an analysis

A failed analysis may blame a class: the provider failed while it was asked for it, or knew less of
it than was asked for. The provider has a state, and what holds of that state after every call holds
throughout an analysis (`lasting_source`). So a class that the provider does not complain about in
any state that it can get into is never to blame (`not_blames_of_reached`).
-/

namespace KernelReach

/-- The failure came about when the class was asked for. -/
def AnalysisError.Blames (name : ClassName) : AnalysisError → Prop
  | resolving n _ | belowLevel n _ _ => n = name
  | _ => False

namespace Provider

variable {σ : Type} {P : Provider σ} {J : σ → Prop} {name : ClassName}

/-- Calls keep a property of the state of the provider. -/
structure Preserves (P : Provider σ) (J : σ → Prop) : Prop where
  resolve (name : ClassName) (level : Level) {s : σ} : J s → J (P.resolve name level s).2
  retrieveBody (m : Method) {s : σ} : J s → J (P.retrieveBody m s).2

/-- Where the property holds, a request for the class is no reason to give up. -/
def Spares (P : Provider σ) (J : σ → Prop) (name : ClassName) : Prop :=
  ∀ level s, J s → (Call.resolve name level (P.resolve name level s).1).complaint? = none

/-- A complaint about a call is about the class that was asked for. -/
theorem Call.blames_of_complaint? {call : Call} {e : AnalysisError} (h : call.complaint? = some e)
    (hb : e.Blames name) : ∃ level answer, call = .resolve name level answer := by
  cases call with
  | resolve n level answer =>
    suffices hname : n = name from ⟨level, answer, hname ▸ rfl⟩
    rcases answer with f | c
    · obtain ⟨-, rfl⟩ := by simpa [complaint?] using h
      exact hb
    · obtain ⟨-, rfl⟩ := by simpa [complaint?] using h
      exact hb
  | retrieveBody m answer =>
    rcases answer with f | b
    · obtain ⟨-, rfl⟩ := by simpa [complaint?] using h
      exact hb.elim
    · simp [complaint?] at h

/-- No call in the journal gives reason to blame the class. -/
def Acquits (name : ClassName) (journal : List Call) : Prop :=
  ∀ call ∈ journal, ∀ e, call.complaint? = some e → ¬ e.Blames name

theorem Acquits.concat {journal : List Call} {call : Call} (h : Acquits name journal)
    (hcall : ∀ e, call.complaint? = some e → ¬ e.Blames name) :
    Acquits name (journal ++ [call]) := by
  intro c hc
  rcases List.mem_append.1 hc with hc | hc
  · exact h c hc
  · rw [List.mem_singleton.1 hc]
    exact hcall

/-- Whatever is asked, the journal acquits a class that is spared. -/
theorem Preserves.recorded (hJ : P.Preserves J) (hname : P.Spares J name) :
    P.recorded.Preserves fun s => J s.1 ∧ Acquits name s.2 where
  resolve n level s h := by
    refine ⟨hJ.resolve n level h.1, h.2.concat fun e he hb => ?_⟩
    obtain ⟨_, _, hcall⟩ := Call.blames_of_complaint? he hb
    cases hcall
    rw [hname level s.1 h.1] at he
    cases he
  retrieveBody m s h := by
    refine ⟨hJ.retrieveBody m h.1, h.2.concat fun e he hb => ?_⟩
    obtain ⟨_, _, hcall⟩ := Call.blames_of_complaint? he hb
    cases hcall

end Provider

namespace Session

variable {σ α : Type} {P : Provider σ} {J : σ → Prop} {I : Session σ → Prop} {name : ClassName}
  {fuel : Nat} {patience : Option Nat} {s : Session σ}

/-- What calls keep of the state of the provider lasts throughout a session. -/
theorem lasting_source (hJ : P.Preserves J) :
    Lasting P (fun _ => True) fun s => J s.resolver.source where
  signatures := trivial
  bodies := trivial
  congr h hcore := by
    simp only [core, Prod.mk.injEq] at hcore
    exact hcore.2.2.2.2.1 ▸ h
  note _ h := h
  resolveClass {s} name level _ h := by
    have hanswer := Resolver.answer_resolveClass P name level s.resolver
    have hsource := hJ.resolve name level h
    generalize s.resolver.resolveClass P name level = result at hanswer ⊢
    obtain ⟨answer, r⟩ := result
    cases hanswer with
    | known | missed => exact h
    | found _ hp | low _ hp | unavailable _ hp | fatal _ hp =>
      rw [hp] at hsource
      exact hsource
  body m h := hJ.retrieveBody m h
  remember _ _ _ h := h
  keeps h _ hr _ := hr ▸ h

theorem keeps_of_snd {x : SessionM σ α} (h : ∀ s, I s → I (x s).2) : Keeps I x := by
  intro s hs
  have hsnd := h s hs
  rcases hx : x s with ⟨e | a, s'⟩
  · simpa only [Ends, hx] using hsnd
  · simpa only [Ends, hx] using hsnd

theorem Lasting.analyze_keeps (h : Lasting P (fun _ => True) I) (fuel : Nat)
    (patience : Option Nat) : Keeps I (analyze P fuel patience) := by
  have hbuiltins : Keeps I (loadBuiltins P) :=
    keeps_of_snd fun _ hs => h.loadBuiltins_keeps (fun _ _ => trivial) hs
  have hrest (s : Session σ) (hs : I s) : Ends (do
      modify Session.detectEntryPoints
      loadBuiltins P
      traverse P fuel patience
      modify augmentEntryPoints) s (fun _ => I) fun _ => I := by
    simp only [ends_bind, ends_modify]
    refine (hbuiltins _ (h.detectEntryPoints_keeps hs)).mono (fun _ s₁ hs₁ => ?_) fun _ _ => id
    refine (h.traverse_keeps fuel patience s₁ hs₁).mono (fun _ s₂ hs₂ => ?_) fun _ _ => id
    exact h.keeps hs₂ rfl rfl rfl
  intro s hs
  simp only [analyze, ends_bind, ends_get, ends_ite]
  refine ⟨fun _ => ?_, fun _ => ?_⟩
  · refine (h.loadSignatures_keeps s hs).mono (fun _ s₁ hs₁ => ?_) fun _ _ => id
    simpa only [ends_bind] using hrest s₁ hs₁
  · simpa only [ends_bind] using hrest s hs

/-- A class that the provider spares wherever calls lead is not to blame for a failure. -/
theorem not_blames_of_reached {options : Options} {source : σ} {e : PhaseError}
    (hJ : P.Preserves J) (hname : P.Spares J name) (hsource : J source)
    (h : Reached P options source s) (hrun : (findKernels P fuel patience s).1 = .error e) :
    ¬ e.cause.Blames name := by
  have hs : J s.resolver.source := (lasting_source hJ).reached (fun _ _ => trivial) hsource h
  have hrecord : (findKernels P.recorded fuel patience s.record).1 = .error e := by
    rw [findKernels_record] at hrun
    exact hrun
  have hanalyze := analyze_of_findKernels (Prod.ext hrecord rfl)
  have hkeeps := (lasting_source (hJ.recorded hname)).analyze_keeps fuel patience s.record
    ⟨hs, fun _ hc => absurd hc List.not_mem_nil⟩
  have hjournal := (hkeeps.error hanalyze).2
  intro hb
  rcases (analyze_explains P fuel patience s.record h.lenient).error hanalyze with
    ⟨_, call, -, hlast, hcall⟩ | ⟨-, hcut | ⟨hcanceled, -⟩⟩
  · -- The complaint is about the last call, which is in the journal.
    refine hjournal call ?_ e.cause hcall hb
    change call ∈ Session.journal _
    rw [hlast]
    exact List.mem_append_right _ List.mem_cons_self
  · rw [hcut] at hb
    exact hb
  · rw [hcanceled] at hb
    exact hb

/-- A platform class on which the provider fails ends the analysis, if it is the first one. -/
theorem loadBuiltins_fails {b : Builtin} {bs : List Builtin} {e : AnalysisError}
    (hb : s.options.builtins = b :: bs)
    (h : (s.resolver.resolveClass P b.name b.level).1 = .error e) (he : e.isUnavailable = false) :
    (loadBuiltins P s).1 = .error e := by
  rcases hr : s.resolver.resolveClass P b.name b.level with ⟨answer, r⟩
  rw [hr] at h
  cases h
  have hload : loadBuiltin P b s = (.error e, s.setResolver r) := by
    simp only [loadBuiltin, bind_apply, ask, hr, he]
    rfl
  change ((s.options.builtins.forM (loadBuiltin P)) s).1 = _
  rw [hb, List.forM, bind_apply, hload]

end Session

end KernelReach
