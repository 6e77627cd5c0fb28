import KernelReach.Proofs.Session.Progress

/-!
# Traversals after a failure

A signature is marked as visited before it is looked up, and a method as scanned before its calls
are looked up. If the provider fails in between, the marks stay. The next traversal passes over what
is marked, so it can come to its end, and report success, although a method was left out or was
scanned only in part.

* `Done`: a signature about which there is nothing left to do;
* `Course`: how a session came about, and whether a visit has failed. A traversal that fails before
  its first visit does no harm, for its seeds come again;
* `done_iff_intact`: a traversal that comes to its end has done everything if and only if no visit
  has failed before.
-/

namespace KernelReach

namespace Oracle

variable {A : Oracle} {sig : Signature}

/-- A lookup of a method that a class declares fails only if the class cannot be had. -/
theorem Declines.fails_of_seeds (hA : A.Coherent) {e : AnalysisError} {roots : ClassName → Prop}
    (h : A.Declines sig e) (he : e.isUnavailable = false) (hs : A.Seeds roots sig) :
    A.Fails sig := by
  obtain ⟨name, c, -, hc, m, hm, rfl⟩ := hs
  have hself : A.Finds m.signature m.signature.owner m.signature.owner := by
    rw [hA.owner_eq Level.isValid_signatures hc hm]
    refine .declared ⟨c, hc, ?_⟩
    rw [Class.method?, List.find?_isSome]
    exact ⟨m, hm, by simp⟩
  cases h with
  | noClass hd =>
    obtain ⟨e', he', rfl⟩ := demand_eq_error.1 hd
    rw [AnalysisError.isUnavailable_ofProvider] at he
    exact .inl ⟨e', he', he⟩
  | noMethod _ hstop => exact absurd hself hstop.not_finds_owner
  | notConcrete => cases he
  | noOwner hc' hf _ _ _ hd =>
    rw [← hself.unique hf] at hd
    exact absurd hd (demand_bodies_ne_error hc')

/-- Every edge of a scan is that of a call. -/
theorem exists_draws {caller : Signature} {calls : List (Nat × Invocation)}
    {block : List CallEdge} (h : List.Forall₂ (A.Draws caller) calls block) {e : CallEdge}
    (he : e ∈ block) : ∃ call ∈ calls, A.Draws caller call e := by
  induction h with
  | nil => exact absurd he List.not_mem_nil
  | @cons call edge calls block hd _ ih =>
    rcases List.mem_cons.1 he with rfl | he
    · exact ⟨call, List.mem_cons_self, hd⟩
    · obtain ⟨call', hc, hd'⟩ := ih he
      exact ⟨call', List.mem_cons_of_mem _ hc, hd'⟩

theorem records_of_draws {caller : Signature} {calls : List (Nat × Invocation)}
    {block : List CallEdge} (h : List.Forall₂ (A.Draws caller) calls block) :
    Records caller calls block := by
  induction h with
  | nil => rfl
  | cons hd _ ih =>
    rw [Records] at ih
    rw [Records, List.map_cons, List.map_cons, ih, hd.caller, hd.offset, hd.kind, hd.target]

end Oracle

namespace Session

variable {σ : Type} {P : Provider σ} {start : σ} {A : Oracle} {s s' t : Session σ}

/-! ### What is left alone -/

/-- The edges that begin in the method. -/
def edgesOf (s : Session σ) (sig : Signature) : List CallEdge :=
  s.edges.toList.filter (·.caller = sig)

/-- The graph has grown, and nothing was added to the methods that were scanned before. -/
structure Grows (s s' : Session σ) : Prop where
  bodies : ∀ name ∈ s.bodies.toList, name ∈ s'.bodies.toList
  edges : ∀ e ∈ s.edges.toList, e ∈ s'.edges.toList
  scanned : ∀ sig ∈ s.scanned.toList, sig ∈ s'.scanned.toList
  edgesOf : ∀ sig ∈ s.scanned.toList, s'.edgesOf sig = s.edgesOf sig

theorem Grows.refl (s : Session σ) : Grows s s :=
  ⟨fun _ => id, fun _ => id, fun _ => id, fun _ _ => rfl⟩

theorem Grows.trans {s₁ s₂ s₃ : Session σ} (h : Grows s₁ s₂) (h' : Grows s₂ s₃) : Grows s₁ s₃ where
  bodies name hn := h'.bodies name (h.bodies name hn)
  edges e he := h'.edges e (h.edges e he)
  scanned sig hs := h'.scanned sig (h.scanned sig hs)
  edgesOf sig hs := (h'.edgesOf sig (h.scanned sig hs)).trans (h.edgesOf sig hs)

theorem Adds.mem_edges {block : List CallEdge} (h : Adds block s s') {e : CallEdge} :
    e ∈ s'.edges.toList ↔ e ∈ s.edges.toList ∨ e ∈ block := by
  rw [h.edges, List.mem_append]

/-- The edges of one method come to those from before. -/
theorem Adds.edgesOf {block : List CallEdge} (h : Adds block s s') (sig : Signature) :
    s'.edgesOf sig = s.edgesOf sig ++ block.filter (·.caller = sig) := by
  rw [Session.edgesOf, h.edges, List.filter_append]
  rfl

/-- A visit adds to one method at most, and that was not scanned before. -/
theorem VisitOutcome.grows {sig : Signature} {o : Except AnalysisError Unit}
    (h : VisitOutcome A sig s s' o) : Grows s s' := by
  -- It is said of the session in which the signatures are marked, which has the same edges.
  have hidle {s₀ : Session σ} (hadds : Adds [] s₀ s') (he : s₀.edges = s.edges)
      (hb : s₀.bodies = s.bodies) (hs : s₀.scanned = s.scanned) : Grows s s' := by
    refine ⟨hb ▸ hadds.bodies, fun e hmem => hadds.mem_edges.2 (.inl (he ▸ hmem)), ?_, ?_⟩
    · rw [hadds.scanned, hs]
      exact fun _ => id
    · intro u _
      rw [hadds.edgesOf, List.filter_nil, List.append_nil, Session.edgesOf, he]
      rfl
  have hscan {u : Signature} {calls : List (Nat × Invocation)} {block : List CallEdge}
      (hadds : Adds block ((s.mark u).beginScan u) s') (hnew : u ∉ s.scanned.toList)
      (hdraws : List.Forall₂ (A.Draws u) calls block) : Grows s s' := by
    refine ⟨hadds.bodies, fun e he => hadds.mem_edges.2 (.inl he), fun v hv => ?_, fun v hv => ?_⟩
    · rw [hadds.scanned]
      exact OrderedSet.mem_toList_insert.2 (.inl hv)
    · have hnone : block.filter (·.caller = v) = [] := by
        rw [List.filter_eq_nil_iff]
        intro e he
        obtain ⟨_, -, hd⟩ := Oracle.exists_draws hdraws he
        rw [hd.caller, decide_eq_true_eq]
        rintro rfl
        exact hnew hv
      rw [hadds.edgesOf, hnone, List.append_nil]
      rfl
  cases h with
  | nowhere _ _ hadds | noBody _ _ _ hadds => exact hidle hadds rfl rfl rfl
  | again _ _ _ hadds | lost _ _ hadds => exact hidle hadds rfl rfl rfl
  | scan _ hnew hdraws hadds | cut _ hnew _ hdraws hadds => exact hscan hadds hnew hdraws

/-! ### What was asked for -/

/-- The signature was asked for: a class that declares it is called for, or a call leads to it. -/
def Wanted (A : Oracle) (s : Session σ) (sig : Signature) : Prop :=
  A.Seeds (· ∈ s.bodies.toList) sig ∨ sig ∈ CallEdge.callees s.edges.toList

theorem Wanted.grows {sig : Signature} (h : Wanted A s sig) (hg : Grows s s') :
    Wanted A s' sig := by
  rcases h with ⟨name, c, hn, hc⟩ | h
  · exact .inl ⟨name, c, hg.bodies name hn, hc⟩
  · obtain ⟨e, he, hstatus⟩ := CallEdge.mem_callees.1 h
    exact .inr (CallEdge.mem_callees.2 ⟨e, hg.edges e he, hstatus⟩)

/-- The queue and the edges can be accounted for: what is in the queue was asked for, followed edges
    lead to methods, and edges begin in methods that were scanned. -/
structure Accounted (A : Oracle) (s : Session σ) : Prop where
  wanted : ∀ sig ∈ s.work.toList, Wanted A s sig
  callees : ∀ sig ∈ CallEdge.callees s.edges.toList, A.Reaches sig sig
  callers : ∀ e ∈ s.edges.toList, e.caller ∈ s.scanned.toList

theorem Accounted.pop {sig : Signature} {work : Queue Signature} (h : Accounted A s)
    (hw : s.work.pop? = some (sig, work)) : Accounted A (s.setWork work) ∧ Wanted A s sig := by
  have hpop := Queue.toList_of_pop? hw
  refine ⟨⟨fun u hu => h.wanted u ?_, h.callees, h.callers⟩, h.wanted sig ?_⟩
  · rw [hpop]
    exact List.mem_cons_of_mem sig hu
  · rw [hpop]
    exact List.mem_cons_self

theorem Accounted.mark {sig : Signature} {work : Queue Signature} (h : Accounted A s)
    (hw : s.work.pop? = some (sig, work)) :
    Accounted A ((s.setWork work).mark sig) ∧ Wanted A ((s.setWork work).mark sig) sig := by
  obtain ⟨hrest, hsig⟩ := h.pop hw
  exact ⟨⟨hrest.wanted, hrest.callees, hrest.callers⟩, hsig⟩

/-- What a visit adds can be accounted for. -/
theorem VisitOutcome.accounted (hA : A.Coherent) {sig : Signature} {o : Except AnalysisError Unit}
    (ho : VisitOutcome A sig s s' o) (h : Accounted A s) : Accounted A s' := by
  have hgrows := ho.grows
  have hidle {s₀ : Session σ} (hadds : Adds [] s₀ s') (he : s₀.edges = s.edges)
      (hw : s₀.work = s.work) : Accounted A s' := by
    have hedges : s'.edges.toList = s.edges.toList := by
      rw [hadds.edges, List.append_nil, he]
    have hwork : s'.work.toList = s.work.toList := by
      rw [hadds.work, hw]
      exact List.append_nil _
    refine ⟨fun u hu => (h.wanted u (hwork ▸ hu)).grows hgrows, ?_, fun e he => ?_⟩
    · rw [hedges]
      exact h.callees
    · exact hgrows.scanned _ (h.callers e (hedges ▸ he))
  have hscan {u : Signature} {calls : List (Nat × Invocation)} {block : List CallEdge}
      (hadds : Adds block ((s.mark u).beginScan u) s')
      (hdraws : List.Forall₂ (A.Draws u) calls block) : Accounted A s' := by
    have hcallees : CallEdge.callees s'.edges.toList =
        CallEdge.callees s.edges.toList ++ CallEdge.callees block := by
      rw [hadds.edges, CallEdge.callees_append]
      rfl
    refine ⟨fun v hv => ?_, fun v hv => ?_, fun e he => ?_⟩
    · rw [hadds.work, List.mem_append] at hv
      rcases hv with hv | hv
      · exact (h.wanted v hv).grows hgrows
      · exact .inr (hcallees ▸ List.mem_append_right _ hv)
    · rw [hcallees, List.mem_append] at hv
      rcases hv with hv | hv
      · exact h.callees v hv
      · obtain ⟨call, -, hr⟩ := (Oracle.mem_callees_of_draws hA.toGraded hdraws).1 hv
        exact hr.self hA
    · rcases hadds.mem_edges.1 he with he | he
      · exact hgrows.scanned _ (h.callers e he)
      · obtain ⟨_, -, hd⟩ := Oracle.exists_draws hdraws he
        rw [hd.caller, hadds.scanned]
        exact OrderedSet.mem_toList_insert.2 (.inr rfl)
  cases ho with
  | nowhere _ _ hadds | noBody _ _ _ hadds => exact hidle hadds rfl rfl
  | again _ _ _ hadds | lost _ _ hadds => exact hidle hadds rfl rfl
  | scan _ _ hdraws hadds | cut _ _ _ hdraws hadds => exact hscan hadds hdraws

/-! ### What a failure leaves behind -/

/-- A signature was asked for about which nothing will be done any more, although the provider fails
    on it, or its method was scanned only in part. -/
def Broken (A : Oracle) (s : Session σ) : Prop :=
  ∃ sig, Wanted A s sig ∧ (A.Fails sig ∨ ∃ m b, A.LeadsTo sig m b ∧
    m.signature ∈ s.scanned.toList ∧ ¬Records m.signature b.calls (s.edgesOf m.signature))

theorem Broken.grows (h : Broken A s) (hg : Grows s s') : Broken A s' := by
  obtain ⟨sig, hw, h⟩ := h
  refine ⟨sig, hw.grows hg, h.imp_right ?_⟩
  rintro ⟨m, b, hm, hs, hrec⟩
  exact ⟨m, b, hm, hg.scanned _ hs, hg.edgesOf _ hs ▸ hrec⟩

/-- A visit that fails leaves something behind. -/
theorem VisitOutcome.broken (hA : A.Coherent) {sig : Signature} {e : AnalysisError}
    (ho : VisitOutcome A sig s s' (.error e)) (h : Accounted A s) (hw : Wanted A s sig) :
    Broken A s' := by
  refine ⟨sig, hw.grows ho.grows, ?_⟩
  cases ho with
  | lost hd hu =>
    rcases hw with hseed | hcallee
    · exact .inl (hd.fails_of_seeds hA hu hseed)
    · obtain ⟨m, b, hm, -⟩ := h.callees sig hcallee
      exact absurd hm.toResolves (hd.not_resolves hA.toGraded)
  | noBody hm hb hu => exact .inl (.inr ⟨_, _, hm, hb, hu⟩)
  | @cut m b n block _ hm hnew hn hdraws hadds =>
    refine .inr ⟨m, b, hm, ?_, fun hrec => ?_⟩
    · rw [hadds.scanned]
      exact OrderedSet.mem_toList_insert.2 (.inr rfl)
    · -- The method has no other edges, and there is none for the call at which the scan stopped.
      have hbefore : ((s.mark m.signature).beginScan m.signature).edgesOf m.signature = [] := by
        refine List.filter_eq_nil_iff.2 fun e he => ?_
        rw [decide_eq_true_eq]
        intro hcaller
        exact hnew (hcaller ▸ h.callers e he)
      have hall : block.filter (·.caller = m.signature) = block := by
        refine List.filter_eq_self.2 fun e he => ?_
        obtain ⟨_, -, hd⟩ := Oracle.exists_draws hdraws he
        rw [decide_eq_true_eq, hd.caller]
      rw [hadds.edgesOf, hbefore, hall, List.nil_append] at hrec
      have hlength := congrArg List.length hrec
      rw [List.length_map, List.length_map, ← hdraws.length_eq, List.length_take] at hlength
      omega

/-! ### Whole traversals -/

theorem mem_bodies_enlist_of_mem {name : ClassName} (h : name ∈ s.bodies.toList) :
    name ∈ s.enlist.bodies.toList := by
  simp [enlist, h]

/-- The seeds can be accounted for. -/
theorem Accounted.sows {names : ClassName → Prop} (h : Accounted A s) (hs : Sows A names s s')
    (hsub : ∀ name, names name → name ∈ s.enlist.bodies.toList) :
    Accounted A s' ∧ Grows s s' := by
  have hbodies : ∀ name ∈ s.bodies.toList, name ∈ s'.bodies.toList := by
    intro name hn
    rw [hs.bodies]
    exact mem_bodies_enlist_of_mem hn
  have hgrows : Grows s s' := by
    refine ⟨hbodies, by rw [hs.edges]; exact fun _ => id, by rw [hs.scanned]; exact fun _ => id, ?_⟩
    intro sig _
    rw [edgesOf, edgesOf, hs.edges]
  refine ⟨⟨fun sig hsig => ?_, hs.edges ▸ h.callees, hs.edges ▸ hs.scanned ▸ h.callers⟩, hgrows⟩
  rcases (hs.work sig).1 hsig with hsig | ⟨name, c, hn, hc⟩
  · exact (h.wanted sig hsig).grows hgrows
  · exact .inl ⟨name, c, hs.bodies ▸ hsub name hn, hc⟩

/-- A traversal that fails before its first visit fails as its seeding does. -/
theorem traverse_of_seed {e : AnalysisError} (h : (seed P s).1 = .error e) (fuel : Nat)
    (patience : Option Nat) : traverse P fuel patience s = (.error e, (seed P s).2) := by
  rw [traverse, bind_apply, show seed P s = (.error e, (seed P s).2) from Prod.ext h rfl]

section

variable (hP : P.Follows start A) (hA : A.Coherent)
include hP hA

theorem seed_accounted (ht : Tracked P start A s) (h : Accounted A s) :
    Ends (seed P) s (fun _ s' => Tracked P start A s' ∧ Accounted A s' ∧ Grows s s')
      fun _ s' => Tracked P start A s' ∧ Accounted A s' ∧ Grows s s' := by
  refine (seed_tracked hP hA ht).mono ?_ ?_
  · rintro _ s' ⟨ht', hs⟩
    exact ⟨ht', h.sows hs fun _ => id⟩
  · rintro e s' ⟨ht', names, hsub, hs⟩
    exact ⟨ht', h.sows hs fun _ hn => hsub hn⟩

theorem drain_accounted (limit fuel : Nat) (patience : Option Nat) (ht : Tracked P start A s)
    (h : Accounted A s) :
    Ends (drain P limit fuel patience) s
      (fun _ s' => Tracked P start A s' ∧ Accounted A s' ∧ Grows s s')
      fun e s' => e ≠ .exhausted → Tracked P start A s' ∧ (Accounted A s' ∧ Grows s s') ∧
        (e = .canceled ∨ Broken A s') := by
  refine (drain_outcome hP hA (I := fun s' => Accounted A s' ∧ Grows s s')
    (J := fun s' => (Accounted A s' ∧ Grows s s') ∧ Broken A s') ?_ ?_ ?_ limit fuel patience ht
    ⟨h, .refl s⟩).mono (fun _ _ h' => ⟨h'.1, h'.2.1⟩) ?_
  · rintro s₁ sig work ⟨h₁, hg⟩ hw -
    exact ⟨(h₁.pop hw).1, hg.bodies, hg.edges, hg.scanned, hg.edgesOf⟩
  · rintro s₁ sig work s' - ⟨h₁, hg⟩ hw - - ho
    obtain ⟨h₂, -⟩ := h₁.mark hw
    have hg₂ : Grows s ((s₁.setWork work).mark sig) :=
      ⟨hg.bodies, hg.edges, hg.scanned, hg.edgesOf⟩
    exact ⟨ho.accounted hA h₂, hg₂.trans ho.grows⟩
  · rintro s₁ sig work e s' - ⟨h₁, hg⟩ hw - - ho
    obtain ⟨h₂, hwanted⟩ := h₁.mark hw
    have hg₂ : Grows s ((s₁.setWork work).mark sig) :=
      ⟨hg.bodies, hg.edges, hg.scanned, hg.edgesOf⟩
    exact ⟨⟨ho.accounted hA h₂, hg₂.trans ho.grows⟩, ho.broken hA h₂ hwanted⟩
  · rintro e s' h' he
    obtain ⟨ht', ⟨hc, hI⟩ | ⟨-, hJ⟩⟩ := h' he
    · exact ⟨ht', hI, .inl hc⟩
    · exact ⟨ht', hJ.1, .inr hJ.2⟩

/-- A traversal can be accounted for, and if one of its visits fails, it leaves something behind. -/
theorem traverse_accounted (fuel : Nat) (patience : Option Nat) (ht : Tracked P start A s)
    (h : Accounted A s) :
    Ends (traverse P fuel patience) s
      (fun _ s' => Tracked P start A s' ∧ Accounted A s' ∧ Grows s s')
      fun e s' => e ≠ .exhausted → Tracked P start A s' ∧ (Accounted A s' ∧ Grows s s') ∧
        (e = .canceled ∨ (∃ e', (seed P s).1 = .error e') ∨ Broken A s') := by
  have hseed := seed_accounted hP hA ht h
  rcases hrun : seed P s with ⟨e | _, s₁⟩
  · have htraverse : traverse P fuel patience s = (.error e, s₁) := by
      rw [traverse_of_seed (by rw [hrun]), hrun]
    unfold Ends
    simp only [htraverse]
    obtain ⟨ht₁, h₁⟩ := hseed.error hrun
    exact fun _ => ⟨ht₁, h₁, .inr (.inl ⟨e, rfl⟩)⟩
  · obtain ⟨ht₁, h₁, hg₁⟩ := hseed.ok hrun
    have htraverse : traverse P fuel patience s = drain P fuel fuel patience s₁ := by
      rw [traverse, bind_apply, hrun]
    unfold Ends
    rw [htraverse]
    refine (drain_accounted hP hA fuel fuel patience ht₁ h₁).mono ?_ ?_
    · rintro _ s' ⟨ht', h', hg'⟩
      exact ⟨ht', h', hg₁.trans hg'⟩
    · rintro e s' h' he
      obtain ⟨ht', ⟨h', hg'⟩, hend⟩ := h' he
      exact ⟨ht', ⟨h', hg₁.trans hg'⟩, hend.imp_right .inr⟩

end

/-! ### Every session -/

/-- How a session came about: `intact` says whether no visit has failed so far, that is, whether
    every traversal came to its end, was called off or failed before its first visit. -/
inductive Course (P : Provider σ) (options : Options) (source : σ) : Bool → Session σ → Prop
  | new : Course P options source true (new options source)
  | ingest {intact : Bool} {s : Session σ} (paths : List StagedPath) :
      Course P options source intact s → Course P options source intact (s.ingest paths)
  | loadSignatures {intact : Bool} {s : Session σ} :
      Course P options source intact s → Course P options source intact (loadSignatures P s).2
  | detectEntryPoints {intact : Bool} {s : Session σ} :
      Course P options source intact s → Course P options source intact s.detectEntryPoints
  | loadBuiltins {intact : Bool} {s : Session σ} :
      Course P options source intact s → Course P options source intact (loadBuiltins P s).2
  | augmentEntryPoints {intact : Bool} {s : Session σ} :
      Course P options source intact s → Course P options source intact s.augmentEntryPoints
  | traverse {intact : Bool} {s s' : Session σ} {o : Except AnalysisError Unit} (fuel : Nat)
      (patience : Option Nat) :
      Course P options source intact s → traverse P fuel patience s = (o, s') →
      o = .ok () ∨ o = .error .canceled ∨ (∃ e, (seed P s).1 = .error e) →
      Course P options source intact s'
  | fault {intact : Bool} {s s' : Session σ} {e : AnalysisError} (fuel : Nat)
      (patience : Option Nat) :
      Course P options source intact s → traverse P fuel patience s = (.error e, s') →
      e ≠ .canceled → e ≠ .exhausted → (seed P s).1 = .ok () → Course P options source false s'

variable {options : Options} {source : σ}

theorem Accounted.of_graph (h : Accounted A s) (hg : s'.graph = s.graph) :
    Accounted A s' ∧ Grows s s' := by
  simp only [graph, Prod.mk.injEq] at hg
  obtain ⟨hb, hw, -, hs, he⟩ := hg
  have hgrows : Grows s s' := by
    refine ⟨hb ▸ fun _ => id, he ▸ fun _ => id, hs ▸ fun _ => id, fun sig _ => ?_⟩
    rw [edgesOf, edgesOf, he]
  exact ⟨⟨fun sig hsig => (h.wanted sig (hw ▸ hsig)).grows hgrows, he ▸ h.callees,
    he ▸ hs ▸ h.callers⟩, hgrows⟩

theorem Orderly.of_graph {roots : ClassName → Prop} {R : Set Signature}
    (h : Orderly P start A roots R s) (hk : Knows P start A s') (hg : s'.graph = s.graph) :
    Orderly P start A roots R s' := by
  simp only [graph, Prod.mk.injEq] at hg
  obtain ⟨-, hw, hv, hs, he⟩ := hg
  have hcovers (t : Signature) (hc : s.Covers t) : s'.Covers t := by
    rwa [Covers, hv, hw]
  refine ⟨⟨hk, hv ▸ hs ▸ h.settled, fun t ht => hcovers t (h.seeded t ht), ?_, hs ▸ h.scanned,
    hw ▸ h.licensed⟩, he ▸ hs ▸ h.blocks, hv ▸ h.harmless⟩
  rw [hs]
  exact fun u hu m b hm t ht => hcovers t (h.called u hu m b hm t ht)

theorem Course.reached {intact : Bool} (h : Course P options source intact s) :
    Reached P options source s := by
  induction h with
  | new => exact .new
  | ingest paths _ ih => exact .ingest paths ih
  | loadSignatures _ ih => exact .loadSignatures ih
  | detectEntryPoints _ ih => exact .detectEntryPoints ih
  | loadBuiltins _ ih => exact .loadBuiltins ih
  | augmentEntryPoints _ ih => exact .augmentEntryPoints ih
  | @traverse _ s s' o fuel patience _ hrun hend ih =>
    have hx : o ≠ .error .exhausted := by
      rintro rfl
      rcases hend with hok | hcanceled | ⟨e, he⟩
      · cases hok
      · cases hcanceled
      · -- The seeding fails only as the provider does.
        have hfault := (seed_fails P s).error (Prod.ext he rfl)
        rw [traverse_of_seed he] at hrun
        cases hrun
        exact hfault.elim
    have := ih.traverse fuel patience (by rw [hrun]; exact hx)
    rwa [hrun] at this
  | fault fuel patience _ hrun _ hx _ ih =>
    have := ih.traverse fuel patience (by rw [hrun]; exact fun h => hx (Except.error.inj h))
    rwa [hrun] at this

section

variable (hP : P.Follows source A) (hA : A.Coherent)
  (hb : ∀ b ∈ options.builtins, b.level.IsValid)
include hP hA hb

theorem Reached.tracked (h : Reached P options source s) : Tracked P source A s := by
  obtain ⟨runs, hlog⟩ := h.logged
  exact ⟨h.informed hP.classes hA hb, hlog.visited⟩

/-- Without a failed visit the traversal is on its way, however often it was taken up. -/
theorem Course.orderly {intact : Bool} (h : Course P options source intact s)
    (hi : intact = true) : Orderly P source A (fun _ => False) Set.univ s := by
  have hknows {s : Session σ} {intact : Bool} (h : Course P options source intact s) :
      Knows P source A s :=
    (h.reached.informed hP.classes hA hb).knows hA.toGraded
  induction h with
  | new =>
    refine ⟨⟨hknows .new, ?_, ?_, ?_, ?_, ?_⟩, ⟨[], rfl, .nil⟩, ?_⟩
    · exact fun _ h => absurd h List.not_mem_nil
    · rintro sig ⟨_, _, hn, -⟩
      exact hn.elim
    · exact fun _ h => absurd h List.not_mem_nil
    · exact fun _ _ => trivial
    · exact fun _ _ _ _ => trivial
    · exact fun _ h => absurd h List.not_mem_nil
  | ingest paths h ih => exact (ih hi).of_graph (hknows (.ingest paths h)) (graph_ingest _ paths)
  | loadSignatures h ih =>
    exact (ih hi).of_graph (hknows (.loadSignatures h)) (graph_loadSignatures P _)
  | detectEntryPoints h ih =>
    exact (ih hi).of_graph (hknows (.detectEntryPoints h)) (graph_detectEntryPoints _)
  | loadBuiltins h ih => exact (ih hi).of_graph (hknows (.loadBuiltins h)) (graph_loadBuiltins P _)
  | augmentEntryPoints h ih => exact (ih hi).of_graph (hknows (.augmentEntryPoints h)) rfl
  | @traverse _ s s' o fuel patience h hrun hend ih =>
    have huniv : A.Closed (· ∈ s.enlist.bodies.toList) Set.univ :=
      ⟨fun _ _ => trivial, fun _ _ _ => trivial⟩
    have ht := h.reached.tracked hP hA hb
    have hends := traverse_orderly hP hA huniv fuel patience ht (ih hi)
    rcases hend with rfl | rfl | ⟨e, he⟩
    · exact (hends.ok hrun).2.1.weaken
    · exact (hends.error hrun rfl).2
    · rw [traverse_of_seed he] at hrun
      cases hrun
      exact ((seed_orderly hP hA huniv ht (ih hi)).error (Prod.ext he rfl)).2
  | fault => cases hi

/-- In every session the graph can be accounted for, and a failed visit has left something
    behind. -/
theorem Course.accounted {intact : Bool} (h : Course P options source intact s) :
    Accounted A s ∧ (intact = false → Broken A s) := by
  -- An operation that leaves the graph alone leaves everything as it was.
  have hquiet {s s' : Session σ} {intact : Bool} (h : Accounted A s ∧ (intact = false → Broken A s))
      (hg : s'.graph = s.graph) : Accounted A s' ∧ (intact = false → Broken A s') := by
    obtain ⟨h', hgrows⟩ := h.1.of_graph hg
    exact ⟨h', fun hi => (h.2 hi).grows hgrows⟩
  induction h with
  | new =>
    refine ⟨⟨?_, ?_, ?_⟩, fun hi => by cases hi⟩ <;> exact fun _ h => absurd h List.not_mem_nil
  | ingest paths _ ih => exact hquiet ih (graph_ingest _ paths)
  | loadSignatures _ ih => exact hquiet ih (graph_loadSignatures P _)
  | detectEntryPoints _ ih => exact hquiet ih (graph_detectEntryPoints _)
  | loadBuiltins _ ih => exact hquiet ih (graph_loadBuiltins P _)
  | augmentEntryPoints _ ih => exact hquiet ih rfl
  | @traverse _ s s' o fuel patience h hrun hend ih =>
    have ht := h.reached.tracked hP hA hb
    have hends := traverse_accounted hP hA fuel patience ht ih.1
    have hgrows : Accounted A s' ∧ Grows s s' := by
      rcases hend with rfl | rfl | ⟨e, he⟩
      · exact (hends.ok hrun).2
      · exact (hends.error hrun (by simp)).2.1
      · rw [traverse_of_seed he] at hrun
        cases hrun
        exact ((seed_accounted hP hA ht ih.1).error (Prod.ext he rfl)).2
    exact ⟨hgrows.1, fun hi => (ih.2 hi).grows hgrows.2⟩
  | @fault _ s s' e fuel patience h hrun hc hx hseed ih =>
    obtain ⟨-, ⟨h', -⟩, hend⟩ := (traverse_accounted hP hA fuel patience
      (h.reached.tracked hP hA hb) ih.1).error hrun hx
    refine ⟨h', fun _ => ?_⟩
    rcases hend with hcanceled | ⟨e', he'⟩ | hbroken
    · exact absurd hcanceled hc
    · rw [hseed] at he'
      cases he'
    · exact hbroken

end

/-! ### What is done -/

/-- Nothing is left to do about the signature: the provider does not fail on it, and the method to
    which it leads was scanned, from the first call to the last. -/
structure Done (A : Oracle) (s : Session σ) (sig : Signature) : Prop where
  not_fails : ¬A.Fails sig
  scanned : ∀ m b, A.LeadsTo sig m b →
    m.signature ∈ s.scanned.toList ∧ Records m.signature b.calls (s.edgesOf m.signature)

/-- What was left behind is not done later. -/
theorem Broken.exists_not_done (h : Broken A s) (hg : Grows s s') :
    ∃ sig, Wanted A s sig ∧ ¬Done A s' sig := by
  obtain ⟨sig, hw, hfails | ⟨m, b, hm, hs, hrec⟩⟩ := h
  · exact ⟨sig, hw, fun hdone => hdone.not_fails hfails⟩
  · refine ⟨sig, hw, fun hdone => hrec ?_⟩
    rw [← hg.edgesOf _ hs]
    exact (hdone.scanned m b hm).2

end Session

namespace Oracle

variable {A : Oracle} {sig : Signature}

theorem Block.caller_eq {block : List CallEdge} (h : A.Block sig block) {e : CallEdge}
    (he : e ∈ block) : e.caller = sig := by
  obtain ⟨m, b, -, hdraws⟩ := h
  obtain ⟨_, -, hd⟩ := exists_draws hdraws he
  exact hd.caller

/-- Every edge is in the block of its caller. -/
theorem exists_block {sigs : List Signature} {blocks : List (List CallEdge)}
    (h : List.Forall₂ A.Block sigs blocks) {e : CallEdge} (he : e ∈ blocks.flatten) :
    e.caller ∈ sigs ∧ ∃ block, A.Block e.caller block ∧ e ∈ block := by
  induction h with
  | nil => exact absurd he List.not_mem_nil
  | @cons u block sigs blocks hu _ ih =>
    rw [List.flatten_cons, List.mem_append] at he
    rcases he with he | he
    · rw [hu.caller_eq he]
      exact ⟨List.mem_cons_self, block, hu, he⟩
    · obtain ⟨hmem, hblock⟩ := ih he
      exact ⟨List.mem_cons_of_mem u hmem, hblock⟩

/-- If every method has one block, then that is what its edges are. -/
theorem block_filter_flatten {sigs : List Signature} {blocks : List (List CallEdge)}
    (h : List.Forall₂ A.Block sigs blocks) (hnodup : sigs.Nodup) (hsig : sig ∈ sigs) :
    A.Block sig (blocks.flatten.filter (·.caller = sig)) := by
  induction h with
  | nil => exact absurd hsig List.not_mem_nil
  | @cons u block sigs blocks hu hrest ih =>
    obtain ⟨hnew, hnodup⟩ := List.nodup_cons.1 hnodup
    rw [List.flatten_cons, List.filter_append]
    rcases List.mem_cons.1 hsig with rfl | hsig
    · have hall : block.filter (·.caller = sig) = block :=
        List.filter_eq_self.2 fun e he => decide_eq_true (hu.caller_eq he)
      have hnone : blocks.flatten.filter (·.caller = sig) = [] := by
        refine List.filter_eq_nil_iff.2 fun e he => ?_
        rw [decide_eq_true_eq]
        rintro rfl
        exact hnew (exists_block hrest he).1
      rwa [hall, hnone, List.append_nil]
    · have hnone : block.filter (·.caller = sig) = [] := by
        refine List.filter_eq_nil_iff.2 fun e he => ?_
        rw [decide_eq_true_eq, hu.caller_eq he]
        rintro rfl
        exact hnew hsig
      rw [hnone, List.nil_append]
      exact ih hnodup hsig

end Oracle

namespace Session

variable {σ : Type} {P : Provider σ} {start : σ} {A : Oracle} {s t : Session σ} {sig : Signature}
  {roots : ClassName → Prop} {R : Set Signature}

/-- On the way, what a followed edge leads to is visited or in the queue. -/
theorem Orderly.covers_callee (hA : A.Graded) (h : Orderly P start A roots R s)
    (hsig : sig ∈ CallEdge.callees s.edges.toList) : s.Covers sig := by
  obtain ⟨blocks, hedges, hblocks⟩ := h.blocks
  obtain ⟨e, he, hstatus, rfl⟩ := CallEdge.mem_callees.1 hsig
  rw [hedges] at he
  obtain ⟨hcaller, block, ⟨m, b, hm, hdraws⟩, he⟩ := Oracle.exists_block hblocks he
  have hcallee : e.callee ∈ CallEdge.callees block := CallEdge.mem_callees.2 ⟨e, he, hstatus, rfl⟩
  exact h.called e.caller hcaller m b hm e.callee
    ((Oracle.mem_callees_of_draws hA hdraws).1 hcallee)

/-- On the way, nothing is left to do about what was visited. -/
theorem Orderly.done (hA : A.Coherent) (h : Orderly P start A roots R s)
    (hsig : sig ∈ s.visited.toList) : Done A s sig := by
  refine ⟨h.harmless sig hsig, fun m b hm => ?_⟩
  have hscanned := h.settled sig hsig List.not_mem_nil m.signature hm.reaches
  obtain ⟨blocks, hedges, hblocks⟩ := h.blocks
  obtain ⟨n, b', hn, hdraws⟩ :=
    Oracle.block_filter_flatten hblocks s.scanned.nodup_toList hscanned
  obtain ⟨-, rfl⟩ := (hm.self hA).unique hn
  refine ⟨hscanned, ?_⟩
  rw [edgesOf, hedges]
  exact Oracle.records_of_draws hdraws

end Session

/-! ### A body that cannot be read -/

namespace Sample

/-- The answers of a provider that has the sample program, and fails on the body of the kernel. -/
def failingOracle : Oracle where
  resolve := oracle.resolve
  retrieveBody m :=
    if m.signature = signature "app.K" "run" then .error (.fatal "disk on fire")
    else oracle.retrieveBody m

theorem coherent_failingOracle : failingOracle.Coherent where
  name_eq := coherent_oracle.name_eq
  level_eq := coherent_oracle.level_eq
  ok_of_le := coherent_oracle.ok_of_le
  error_of_le := coherent_oracle.error_of_le
  owner_eq := coherent_oracle.owner_eq

/-- The session in which the traversal begins. -/
def failingSession : Session Unit :=
  (Session.loadBuiltins failingOracle.toProvider
    (Session.loadSignatures failingOracle.toProvider
      ((Session.new options ()).ingest paths)).2.detectEntryPoints).2

theorem course_failingSession :
    Session.Course failingOracle.toProvider options () true failingSession :=
  .loadBuiltins (.detectEntryPoints (.loadSignatures (.ingest paths .new)))

/-- The first traversal fails at its first visit, and the second one finds nothing to do. -/
theorem failing_ends :
    let P := failingOracle.toProvider
    let first := Session.traverse P 9 none failingSession
    let second := Session.traverse P 9 none first.2
    (Session.seed P failingSession).1 = .ok () ∧
      first.1 = .error (.provider (.fatal "disk on fire")) ∧ second.1 = .ok () ∧
      second.2.result.reachable = [] ∧
      first.2.enlist.bodies.toList = [⟨"app.K"⟩] := by
  refine ⟨by cbv, by cbv, by cbv, by cbv, by cbv⟩

end Sample

namespace Session

variable {σ : Type} {P : Provider σ} {A : Oracle} {s t : Session σ}

/-- Over a coherent provider, a traversal that comes to its end has done everything, that is, each
    of its seeds and of the methods that followed edges lead to was scanned from the first call to
    the last and none of them is one on which the provider fails, if and only if no visit has failed
    in the course of the session. -/
theorem done_iff_intact {source : σ} (hP : P.Follows source A) (hA : A.Coherent)
    {options : Options} (hb : ∀ b ∈ options.builtins, b.level.IsValid) {intact : Bool}
    (h : Course P options source intact s) {fuel : Nat} {patience : Option Nat}
    (ht : traverse P fuel patience s = (.ok (), t)) :
    (∀ sig, A.Seeds (· ∈ s.enlist.bodies.toList) sig ∨ sig ∈ CallEdge.callees t.result.edges →
      Done A t sig) ↔ intact = true := by
  have htracked := h.reached.tracked hP hA hb
  constructor
  · intro hdone
    by_contra hfalse
    obtain ⟨haccounted, hbroken⟩ := h.accounted hP hA hb
    obtain ⟨-, -, hgrows⟩ := (traverse_accounted hP hA fuel patience htracked haccounted).ok ht
    obtain ⟨sig, hw, hnot⟩ :=
      (hbroken (Bool.not_eq_true intact ▸ hfalse)).exists_not_done hgrows
    refine hnot (hdone sig ?_)
    rcases hw with ⟨name, c, hn, hc⟩ | hw
    · exact .inl ⟨name, c, mem_bodies_enlist_of_mem hn, hc⟩
    · obtain ⟨e, he, hstatus⟩ := CallEdge.mem_callees.1 hw
      exact .inr (CallEdge.mem_callees.2 ⟨e, hgrows.edges e he, hstatus⟩)
  · intro hintact sig hsig
    have huniv : A.Closed (· ∈ s.enlist.bodies.toList) Set.univ :=
      ⟨fun _ _ => trivial, fun _ _ _ => trivial⟩
    obtain ⟨-, horderly, hempty⟩ := (traverse_orderly hP hA huniv fuel patience htracked
      (h.orderly hP hA hb hintact)).ok ht
    have hcovers : t.Covers sig := by
      rcases hsig with hseed | hcallee
      · exact horderly.seeded sig hseed
      · exact horderly.covers_callee hA.toGraded hcallee
    refine horderly.done hA (hcovers.resolve_right ?_)
    rw [hempty]
    exact List.not_mem_nil

/-- The second traversal of the sample program comes to its end and has not done everything. -/
theorem done_iff_intact_sample :
    let P := Sample.failingOracle.toProvider
    let s := (traverse P 9 none Sample.failingSession).2
    let t := (traverse P 9 none s).2
    Course P Sample.options () false s ∧ traverse P 9 none s = (.ok (), t) ∧
    ¬∀ sig, Sample.failingOracle.Seeds (· ∈ s.enlist.bodies.toList) sig ∨
      sig ∈ CallEdge.callees t.result.edges → Done Sample.failingOracle t sig := by
  intro P s t
  obtain ⟨hseed, hfirst, hsecond, -⟩ := Sample.failing_ends
  have hcourse : Course P Sample.options () false s :=
    .fault 9 none Sample.course_failingSession (Prod.ext hfirst rfl) (by decide) (by decide) hseed
  have ht : traverse P 9 none s = (.ok (), t) := Prod.ext hsecond rfl
  refine ⟨hcourse, ht, fun hdone => ?_⟩
  have hintact := (done_iff_intact Sample.failingOracle.follows_toProvider
    Sample.coherent_failingOracle (by decide) hcourse ht).1 hdone
  cases hintact

/-- The first traversal of the sample program fails on the body of the kernel. The second one is a
    success, although the kernel is still a seed, its body still cannot be read, and nothing was
    scanned. -/
theorem failed_passes_for_complete :
    let P := Sample.failingOracle.toProvider
    let first := traverse P 9 none Sample.failingSession
    let second := traverse P 9 none first.2
    Reached P Sample.options () Sample.failingSession ∧
    first.1 = .error (.provider (.fatal "disk on fire")) ∧ second.1 = .ok () ∧
    ∃ c m, ⟨"app.K"⟩ ∈ first.2.enlist.bodies.toList ∧
      Sample.failingOracle.resolve ⟨"app.K"⟩ .bodies = .ok c ∧ m ∈ c.methods ∧
      Sample.failingOracle.retrieveBody m = .error (.fatal "disk on fire") ∧
      m.signature ∉ second.2.result.reachable := by
  obtain ⟨-, hfirst, hsecond, hreachable, hbodies⟩ := Sample.failing_ends
  refine ⟨Sample.course_failingSession.reached, hfirst, hsecond, _, _, ?_, rfl, .head _, rfl, ?_⟩
  · rw [hbodies]
    exact List.mem_singleton_self _
  · rw [hreachable]
    exact List.not_mem_nil

end Session

end KernelReach
