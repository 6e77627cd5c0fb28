import KernelReach.Proofs.Session.Failure
import KernelReach.Proofs.Session.Requests

/-!
# What becomes of the target of a call

A session remembers what came of a lookup and does not search again. Nothing is lost by that: the
outcome is settled by the answers of the provider, so another search at any other time has the same
outcome, however many classes were raised and however many were missed in between
(`resolveToBody_eq_of_resolved`). A session can be in the midst of an operation at that time
(`Underway`).

For the same reason the edges of a session agree with each other, whatever became of its traversals:
what an edge says is the verdict on its target (`Reached.judged`), and at the same time the verdict
on its callee (`Oracle.Verdict.self`).
-/

namespace KernelReach

namespace Oracle

variable {A : Oracle} {sig : Signature} {name owner : ClassName} {seen : List ClassName} {n k : Nat}

/-! ### Searches that come to an end -/

theorem Overruns.of_le (h : A.Overruns sig k seen name) (hle : n ≤ k) :
    A.Overruns sig n seen name := by
  induction n generalizing k seen name with
  | zero => exact trivial
  | succ n ih =>
    obtain _ | k := k
    · omega
    obtain ⟨superclass, d, hp, hout, hd, hover⟩ := h
    exact ⟨superclass, d, hp, hout, hd, ih hover (by omega)⟩

/-- One more step does not help a search that cannot go on from the superclass. -/
theorem Passes.not_overruns {superclass : ClassName} (hp : A.Passes sig name superclass)
    (h : ¬A.Overruns sig n (superclass :: seen) superclass) :
    ¬A.Overruns sig (n + 1) seen name := by
  rintro ⟨superclass', d, hp', -, -, hover⟩
  obtain rfl := hp.unique hp'
  exact h hover

/-- A search that finds something ends, wherever it has been. -/
theorem Finds.exists_not_overruns (h : A.Finds sig name owner) :
    ∃ n, ∀ seen, ¬A.Overruns sig n seen name := by
  induction h with
  | declared hd =>
    refine ⟨1, fun seen hover => ?_⟩
    obtain ⟨superclass, d, hp, -⟩ := hover
    exact hp.not_declares hd
  | inherited hp _ ih =>
    obtain ⟨n, hn⟩ := ih
    exact ⟨n + 1, fun seen => hp.not_overruns (hn _)⟩

/-- A search that stops ends. -/
theorem Stops.exists_not_overruns {e : AnalysisError} (h : A.Stops sig seen name e) :
    ∃ n, ¬A.Overruns sig n seen name := by
  induction h with
  | top hc _ hs =>
    refine ⟨1, fun hover => ?_⟩
    obtain ⟨superclass, d, hp, -⟩ := hover
    rw [hp.superclass_eq hc] at hs
    cases hs
  | circle hp hin =>
    refine ⟨1, fun hover => ?_⟩
    obtain ⟨superclass, d, hp', hout, -⟩ := hover
    exact hout (hp.unique hp' ▸ hin)
  | unavailable hp _ he | failed hp _ he =>
    refine ⟨1, fun hover => ?_⟩
    obtain ⟨superclass, d, hp', -, hd, -⟩ := hover
    rw [← hp.unique hp', he] at hd
    cases hd
  | above hp _ _ ih =>
    obtain ⟨n, hn⟩ := ih
    exact ⟨n + 1, hp.not_overruns hn⟩

/-- A lookup that has an outcome gets to it within some bound. -/
theorem Answers.exists_bound {o : Except AnalysisError Method} (h : A.Answers sig o) :
    ∃ n, ∀ fuel, n ≤ fuel → ¬((∃ c, A.resolve sig.owner .bodies = .ok c) ∧
      A.Overruns sig fuel [sig.owner] sig.owner) := by
  suffices H : (∃ c, A.resolve sig.owner .bodies = .ok c) →
      ∃ n, ¬A.Overruns sig n [sig.owner] sig.owner by
    by_cases hc : ∃ c, A.resolve sig.owner .bodies = .ok c
    · obtain ⟨n, hn⟩ := H hc
      exact ⟨n, fun fuel hle hover => hn (hover.2.of_le hle)⟩
    · exact ⟨0, fun fuel _ hover => hc hover.1⟩
  rintro ⟨c, hc⟩
  have hfound {owner : ClassName} (hf : A.Finds sig sig.owner owner) :
      ∃ n, ¬A.Overruns sig n [sig.owner] sig.owner :=
    hf.exists_not_overruns.imp fun n hn => hn _
  cases o with
  | ok m =>
    obtain ⟨owner, d, hf, -⟩ := Resolves.exists_owner h
    exact hfound hf
  | error e =>
    cases h with
    | noClass he => exact absurd he (demand_bodies_ne_error hc)
    | noMethod _ hstop => exact hstop.exists_not_overruns
    | notConcrete _ hf | noOwner _ hf => exact hfound hf

/-! ### Edges -/

/-- The verdict on a target is the verdict on the callee, too. -/
theorem Verdict.self (hA : A.Coherent) {target callee : Signature} {status : EdgeStatus}
    (h : A.Verdict target callee status) : A.Verdict callee callee status := by
  cases h with
  | followed hm => exact .followed (hm.self hA)
  | declined hd => exact .declined hd
  | noBody hm he => exact .noBody hm he

end Oracle

namespace Session

variable {σ : Type} {P : Provider σ} {start : σ} {A : Oracle} {s s' t : Session σ}
  {sig : Signature} {options : Options} {source : σ}

/-! ### Looking up once more -/

theorem located_resolveToBody (P : Provider σ) (fuel : Nat) (sig : Signature) (s : Session σ) :
    ∃ r, (s.resolver.note (.resolvingToBodies sig.owner)).Located P fuel sig
      (resolveToBody P fuel sig s).1 r := by
  have hends := resolveToBody_ends P fuel sig s
  rcases hrun : resolveToBody P fuel sig s with ⟨e | m, s'⟩
  · obtain ⟨r, -, hl⟩ := hends.error hrun
    exact ⟨r, hl⟩
  · obtain ⟨r, -, hl⟩ := hends.ok hrun
    exact ⟨r, hl⟩

/-- What a session remembers of a lookup is what a search finds, in that session or in any other
    over the same provider. -/
theorem resolveToBody_eq_of_resolved (hP : P.FollowsClasses start A) (hA : A.Coherent)
    (hs : Informed P start A s) {o : Except AnalysisError Method} (ho : s.resolved[sig]? = some o) :
    ∃ n, ∀ t, Informed P start A t → ∀ fuel, n ≤ fuel → (resolveToBody P fuel sig t).1 = o := by
  have hanswer := hs.resolved sig o ho
  obtain ⟨n, hn⟩ := hanswer.exists_bound
  refine ⟨n, fun t ht fuel hle => ?_⟩
  obtain ⟨r, hl⟩ := located_resolveToBody P fuel sig t
  -- Whether the search is cut off is settled by the provider, so it is not with this much fuel.
  have hsound := ht.resolver.note (.resolvingToBodies sig.owner)
  have hfinished := mt (hl.exhausted_iff hP hA hsound).1 (hn fuel hle)
  exact (hl.answers hP hA hsound hfinished).unique hA.toGraded hanswer

/-- A state of a session, possibly in the midst of an operation. Whatever an operation does to the
    rest of the session, its resolver and its memory change in these steps. -/
inductive Underway (P : Provider σ) (options : Options) (source : σ) : Session σ → Prop
  | new : Underway P options source (new options source)
  | elsewhere {s s' : Session σ} : Underway P options source s → s'.options = s.options →
      s'.resolver = s.resolver → s'.resolved = s.resolved → Underway P options source s'
  | note {s : Session σ} (e : Event) : Underway P options source s →
      Underway P options source (s.setResolver (s.resolver.note e))
  | resolveClass {s : Session σ} (name : ClassName) {level : Level} : options.Asks level →
      Underway P options source s →
      Underway P options source (s.setResolver (s.resolver.resolveClass P name level).2)
  | body {s : Session σ} (m : Method) : Underway P options source s →
      Underway P options source (s.setResolver (s.resolver.body P m).2)
  /-- What comes of a search is remembered unless the provider has failed. -/
  | remember {s : Session σ} {fuel : Nat} {sig : Signature} {o : Except AnalysisError Method}
      {r : Resolver σ} : Underway P options source s →
      (s.resolver.note (.resolvingToBodies sig.owner)).Located P fuel sig o r →
      (∀ e, o = .error e → e.isUnavailable = true) →
      Underway P options source ((s.setResolver r).remember sig o)

theorem lasting_underway (P : Provider σ) (options : Options) (source : σ) :
    Lasting P options.Asks (Underway P options source) where
  signatures := .inl rfl
  bodies := .inr (.inl rfl)
  congr h hcore := by
    simp only [core, Prod.mk.injEq] at hcore
    obtain ⟨ho, -, -, -, hr, hm⟩ := hcore
    exact h.elsewhere ho hr hm
  note := .note
  resolveClass := .resolveClass
  body := .body
  remember h hl hu _ := h.remember hl hu
  keeps := .elsewhere

/-- The sessions between operations are among those states. -/
theorem Reached.underway (h : Reached P options source s) : Underway P options source s :=
  (lasting_underway P options source).reached (fun b hb => .inr (.inr ⟨b, hb, rfl⟩)) .new h

/-- What lasts holds in the midst of an operation, too. -/
theorem Lasting.underway {admits : Level → Prop} {I : Session σ → Prop} (hI : Lasting P admits I)
    (hb : ∀ b ∈ options.builtins, admits b.level) (hnew : I (Session.new options source))
    (h : Underway P options source s) : I s := by
  induction h with
  | new => exact hnew
  | elsewhere _ ho hr hm ih => exact hI.keeps ih ho hr hm
  | note e _ ih => exact hI.note e ih
  | resolveClass name hl _ ih =>
    rcases hl with rfl | rfl | ⟨b, hmem, rfl⟩
    · exact hI.resolveClass name hI.signatures ih
    · exact hI.resolveClass name hI.bodies ih
    · exact hI.resolveClass name (hb b hmem) ih
  | body m _ ih => exact hI.body m ih
  | @remember s fuel sig o r _ hl hu ih =>
    -- A search consists of requests, which keep the property.
    exact hI.remember ih hl hu
      (hI.setResolver_of_located hl (hI.note (.resolvingToBodies sig.owner) ih))

/-! ### What the edges say -/

/-- The edges say what the provider has settled. -/
def Judged (A : Oracle) (s : Session σ) : Prop :=
  ∀ e ∈ s.edges.toList, A.Verdict e.target e.callee e.status

theorem Adds.judged {caller : Signature} {calls : List (Nat × Invocation)} {block : List CallEdge}
    (hadds : Adds block s s') (hdraws : List.Forall₂ (A.Draws caller) calls block)
    (h : Judged A s) : Judged A s' := by
  intro e he
  rcases hadds.mem_edges.1 he with he | he
  · exact h e he
  · obtain ⟨call, -, hd⟩ := Oracle.exists_draws hdraws he
    exact hd.target ▸ hd.verdict

theorem VisitOutcome.judged {o : Except AnalysisError Unit} (ho : VisitOutcome A sig s s' o)
    (h : Judged A s) : Judged A s' := by
  cases ho with
  | nowhere _ _ hadds | noBody _ _ _ hadds | again _ _ _ hadds | lost _ _ hadds =>
    have hnone : List.Forall₂ (A.Draws sig) [] [] := .nil
    exact hadds.judged hnone h
  | scan _ _ hdraws hadds | cut _ _ _ hdraws hadds => exact hadds.judged hdraws h

/-- Whatever becomes of a traversal, the edges that it leaves are as settled. -/
theorem traverse_judged (hP : P.Follows start A) (hA : A.Coherent) (fuel : Nat)
    (patience : Option Nat) (ht : Tracked P start A s) (h : Judged A s) :
    Ends (traverse P fuel patience) s (fun _ => Judged A)
      fun e s' => e ≠ .exhausted → Judged A s' := by
  rw [traverse, ends_bind]
  have hsown {names : ClassName → Prop} {s₁ : Session σ} (hs : Sows A names s s₁) :
      Judged A s₁ := fun e he => h e (hs.edges ▸ he)
  refine (seed_tracked hP hA ht).mono ?_ ?_
  · rintro _ s₁ ⟨ht₁, hs⟩
    refine (drain_outcome hP hA (I := Judged A) (J := Judged A) (fun _ _ _ h _ _ => h)
      (fun _ _ _ _ _ h _ _ _ ho => ho.judged h) (fun _ _ _ _ _ _ h _ _ _ ho => ho.judged h) fuel
      fuel patience ht₁ (hsown hs)).mono (fun _ _ h => h.2.1) ?_
    · intro e s' h' he
      rcases (h' he).2 with ⟨-, h'⟩ | ⟨-, h'⟩ <;> exact h'
  · rintro e s₁ ⟨-, _, -, hs⟩ -
    exact hsown hs

theorem Judged.of_graph (h : Judged A s) (hg : s'.graph = s.graph) : Judged A s' := by
  simp only [graph, Prod.mk.injEq] at hg
  obtain ⟨-, -, -, -, he⟩ := hg
  exact fun e hmem => h e (he ▸ hmem)

/-- In every session the edges say what the provider has settled. -/
theorem Reached.judged (hP : P.Follows source A) (hA : A.Coherent)
    (hb : ∀ b ∈ options.builtins, b.level.IsValid) (h : Reached P options source s) :
    Judged A s := by
  induction h with
  | new => exact fun e he => absurd he List.not_mem_nil
  | ingest paths _ ih => exact ih.of_graph (graph_ingest _ paths)
  | loadSignatures _ ih => exact ih.of_graph (graph_loadSignatures P _)
  | detectEntryPoints _ ih => exact ih.of_graph (graph_detectEntryPoints _)
  | loadBuiltins _ ih => exact ih.of_graph (graph_loadBuiltins P _)
  | augmentEntryPoints _ ih => exact ih.of_graph rfl
  | traverse fuel patience h hend ih =>
    refine (traverse_judged hP hA fuel patience (h.tracked hP hA hb) ih).snd fun e he hx => ?_
    exact hend (hx ▸ he)

theorem Judged.eq_of_target (hA : A.Coherent) (h : Judged A s) {e e' : CallEdge}
    (he : e ∈ s.edges.toList) (he' : e' ∈ s.edges.toList) (htarget : e.target = e'.target) :
    e.callee = e'.callee ∧ e.status = e'.status :=
  (h e he).unique hA.toGraded (htarget ▸ h e' he')

/-- A method is followed in all calls that lead to it, or in none. -/
theorem Judged.eq_of_callee (hA : A.Coherent) (h : Judged A s) {e e' : CallEdge}
    (he : e ∈ s.edges.toList) (he' : e' ∈ s.edges.toList) (hcallee : e.callee = e'.callee) :
    e.status = e'.status := by
  -- The targets may differ, but both edges have the verdict on their callee.
  have hself' := (h e' he').self hA
  rw [← hcallee] at hself'
  exact (((h e he).self hA).unique hA.toGraded hself').2

end Session

end KernelReach
