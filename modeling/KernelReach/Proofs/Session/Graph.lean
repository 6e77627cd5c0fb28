import KernelReach.Proofs.Session.Phases
import KernelReach.Proofs.Session.Verdict

/-!
# What a visit adds to the graph

A visit marks signatures as visited, scans a method at most, and adds edges for the calls in its
body, all of them or, if it fails, the first ones. This is said once, for visits that succeed and
for visits that fail (`VisitOutcome`, `visit_outcome`), and the same is said of the seeds
(`seed_sows`). What is true of whole traversals follows from these two.
-/

namespace KernelReach

/-- The methods to which the followed edges lead. -/
def CallEdge.callees (edges : List CallEdge) : List Signature :=
  (edges.filter (·.status = .followed)).map CallEdge.callee

theorem CallEdge.mem_callees {edges : List CallEdge} {sig : Signature} :
    sig ∈ callees edges ↔ ∃ e ∈ edges, e.status = .followed ∧ e.callee = sig := by
  simp [callees, and_assoc]

theorem CallEdge.callees_append (edges edges' : List CallEdge) :
    callees (edges ++ edges') = callees edges ++ callees edges' := by
  simp [callees]

namespace Oracle

variable {A : Oracle} {sig : Signature} {m : Method}

/-- The provider fails when it is asked for the class that the signature names, or for the body of
    the method that it refers to. -/
def Fails (A : Oracle) (sig : Signature) : Prop :=
  (∃ e, A.resolve sig.owner .bodies = .error e ∧ e.isUnavailable = false) ∨
    ∃ m e, A.Resolves sig m ∧ A.retrieveBody m = .error e ∧ e.isUnavailable = false

theorem Resolves.fails_iff (h : A.Resolves sig m) :
    A.Fails sig ↔ ∃ e, A.retrieveBody m = .error e ∧ e.isUnavailable = false := by
  constructor
  · rintro (⟨e, he, -⟩ | ⟨n, e, hn, he⟩)
    · obtain ⟨c, hc⟩ := h.exists_class
      rw [hc] at he
      cases he
    · exact ⟨e, h.unique hn ▸ he⟩
  · rintro ⟨e, he⟩
    exact .inr ⟨m, e, h, he⟩

theorem LeadsTo.not_fails {b : Body} (h : A.LeadsTo sig m b) : ¬A.Fails sig := by
  rw [h.toResolves.fails_iff]
  rintro ⟨e, he, -⟩
  rw [h.body] at he
  cases he

/-- Something that is only unavailable is no failure. -/
theorem Declines.not_fails (hA : A.Graded) {e : AnalysisError} (h : A.Declines sig e)
    (he : e.isUnavailable = true) : ¬A.Fails sig := by
  rintro (⟨e', he', hu⟩ | ⟨m, e', hm, -⟩)
  · have hd : A.Declines sig (.ofProvider sig.owner e') :=
      .noClass (demand_eq_error.2 ⟨e', he', rfl⟩)
    rw [h.unique hA hd, AnalysisError.isUnavailable_ofProvider, hu] at he
    cases he
  · exact h.not_resolves hA hm

/-- Nor is a body that is only unavailable. -/
theorem Resolves.not_fails {e : ProviderError} (h : A.Resolves sig m)
    (hb : A.retrieveBody m = .error e) (he : e.isUnavailable = true) : ¬A.Fails sig := by
  rw [h.fails_iff, hb]
  rintro ⟨e', he', hu⟩
  rw [← Except.error.inj he', he] at hu
  cases hu

/-- The signature leads nowhere, though the provider does not fail. -/
structure IsDeadEnd (A : Oracle) (sig : Signature) : Prop where
  not_fails : ¬A.Fails sig
  not_reaches : ∀ t, ¬A.Reaches sig t

theorem Declines.isDeadEnd (hA : A.Graded) {e : AnalysisError} (h : A.Declines sig e)
    (he : e.isUnavailable = true) : A.IsDeadEnd sig := by
  refine ⟨h.not_fails hA he, ?_⟩
  rintro t ⟨m, b, hm, -⟩
  exact h.not_resolves hA hm.toResolves

theorem Resolves.isDeadEnd {e : ProviderError} (h : A.Resolves sig m)
    (hb : A.retrieveBody m = .error e) (he : e.isUnavailable = true) : A.IsDeadEnd sig := by
  refine ⟨h.not_fails hb he, ?_⟩
  rintro t ⟨n, b, hn, -⟩
  rw [← hn.toResolves.unique h, hn.body] at hb
  cases hb

theorem Verdict.reaches {target callee : Signature} (h : A.Verdict target callee .followed) :
    A.Reaches target callee := by
  cases h with
  | followed hm => exact hm.reaches

/-- The edge of a call is followed to the method to which the call leads. -/
theorem Draws.mem_callees (hA : A.Graded) {caller t : Signature} {call : Nat × Invocation}
    {edge : CallEdge} (h : A.Draws caller call edge) :
    t ∈ CallEdge.callees [edge] ↔ A.Reaches call.2.target t := by
  simp only [CallEdge.mem_callees, List.mem_singleton, exists_eq_left]
  constructor
  · rintro ⟨hstatus, rfl⟩
    exact (hstatus ▸ h.verdict).reaches
  · rintro ⟨m, b, hm, rfl⟩
    exact (h.verdict.unique hA (.followed hm)).symm

/-- The followed edges of a scan lead where the calls lead. -/
theorem mem_callees_of_draws (hA : A.Graded) {caller t : Signature}
    {calls : List (Nat × Invocation)} {block : List CallEdge}
    (h : List.Forall₂ (A.Draws caller) calls block) :
    t ∈ CallEdge.callees block ↔ ∃ call ∈ calls, A.Reaches call.2.target t := by
  induction h with
  | nil => simp [CallEdge.callees]
  | @cons call edge calls block hd _ ih =>
    rw [← List.singleton_append, CallEdge.callees_append, List.mem_append, hd.mem_callees hA, ih,
      List.exists_mem_cons_iff]

end Oracle

namespace Session

variable {σ : Type} {P : Provider σ} {start : σ} {A : Oracle} {s s' : Session σ}

/-! ### One scan -/

/-- The edges of `block` were added, and the methods to which they lead were queued. -/
structure Adds (block : List CallEdge) (s s' : Session σ) : Prop where
  edges : s'.edges.toList = s.edges.toList ++ block
  work : s'.work.toList = s.work.toList ++ CallEdge.callees block
  visited : s'.visited = s.visited
  scanned : s'.scanned = s.scanned
  bodies : ∀ name ∈ s.bodies.toList, name ∈ s'.bodies.toList

/-- The classes whose bodies are called for are those from before and those that the edges name. -/
def Names (block : List CallEdge) (s s' : Session σ) : Prop :=
  ∀ name, name ∈ s'.bodies.toList ↔ name ∈ s.bodies.toList ∨ ∃ e ∈ block, e.target.owner = name

theorem Adds.refl (s : Session σ) : Adds [] s s :=
  ⟨(List.append_nil _).symm, (List.append_nil _).symm, rfl, rfl, fun _ => id⟩

theorem Adds.trans {block block' : List CallEdge} {s₁ s₂ s₃ : Session σ} (h : Adds block s₁ s₂)
    (h' : Adds block' s₂ s₃) : Adds (block ++ block') s₁ s₃ where
  edges := by rw [h'.edges, h.edges, List.append_assoc]
  work := by rw [h'.work, h.work, CallEdge.callees_append, List.append_assoc]
  visited := h'.visited.trans h.visited
  scanned := h'.scanned.trans h.scanned
  bodies name hn := h'.bodies name (h.bodies name hn)

theorem names_nil (hb : s'.bodies = s.bodies) : Names [] s s' := by
  intro name
  simp [hb]

theorem Names.trans {block block' : List CallEdge} {s₁ s₂ s₃ : Session σ} (h : Names block s₁ s₂)
    (h' : Names block' s₂ s₃) : Names (block ++ block') s₁ s₃ := by
  intro name
  rw [h' name, h name]
  simp only [List.mem_append, or_and_right, exists_or, or_assoc]

/-- A lookup does not concern the graph. -/
theorem fullyResolve_adds (P : Provider σ) (fuel : Nat) (sig : Signature) (s : Session σ) :
    Ends (fullyResolve P fuel sig) s (fun _ s' => Adds [] s s' ∧ s'.bodies = s.bodies)
      fun _ s' => Adds [] s s' ∧ s'.bodies = s.bodies := by
  have hsame (r : Resolver σ) : Adds [] s (s.setResolver r) :=
    ⟨(List.append_nil _).symm, (List.append_nil _).symm, rfl, rfl, fun _ => id⟩
  refine (fullyResolve_ends P fuel sig s).mono ?_ ?_
  · rintro o s' (⟨-, rfl⟩ | ⟨-, -, r, rfl, -⟩)
    · exact ⟨.refl s', rfl⟩
    · have h := hsame r
      exact ⟨⟨h.edges, h.work, h.visited, h.scanned, h.bodies⟩, rfl⟩
  · rintro e s' ⟨-, -, r, rfl, -⟩
    exact ⟨hsame r, rfl⟩

/-- The session in which the class is called for. -/
def callFor (s : Session σ) (name : ClassName) : Session σ :=
  { s with bodies := s.bodies.insert name }

theorem Adds.of_callFor {name : ClassName} (h : Adds [] (s.callFor name) s') : Adds [] s s' :=
  ⟨h.edges, h.work, h.visited, h.scanned,
    fun n hn => h.bodies n (OrderedSet.mem_toList_insert.2 (.inl hn))⟩

/-- A class is called for, something is looked up, and there is an edge. -/
theorem adds_edge {edge : CallEdge} {s₁ s₂ : Session σ}
    (h : Adds [] (s.callFor edge.target.owner) s₁)
    (hbodies : s₁.bodies = (s.callFor edge.target.owner).bodies)
    (hedges : s₂.edges = s₁.edges.push edge)
    (hwork : s₂.work.toList = s₁.work.toList ++ CallEdge.callees [edge])
    (hvisited : s₂.visited = s₁.visited) (hscanned : s₂.scanned = s₁.scanned)
    (hsame : s₂.bodies = s₁.bodies) : Adds [edge] s s₂ ∧ Names [edge] s s₂ := by
  have h₁ := h.of_callFor
  refine ⟨⟨?_, ?_, hvisited.trans h₁.visited, hscanned.trans h₁.scanned, ?_⟩, fun name => ?_⟩
  · rw [hedges, Array.toList_push, h₁.edges, List.append_nil]
  · rw [hwork, h₁.work]
    exact congrArg (· ++ _) (List.append_nil _)
  · rw [hsame]
    exact h₁.bodies
  · rw [hsame, hbodies, callFor, OrderedSet.mem_toList_insert]
    simp [eq_comm]

section

variable (hP : P.Follows start A) (hA : A.Coherent)
include hP hA

/-- A call adds its edge. If it fails, it has called for the class that it names at most. -/
theorem scanCall_adds (fuel : Nat) (caller : Signature) (offset : Nat) (c : Invocation)
    (h : Informed P start A s) :
    Ends (scanCall P fuel caller offset c) s
      (fun _ s' => ∃ edge, A.Draws caller (offset, c) edge ∧ Adds [edge] s s' ∧ Names [edge] s s')
      fun _ s' => Adds [] s s' := by
  simp only [scanCall, ends_bind, ends_modify]
  have h₀ : Informed P start A (s.callFor c.target.owner) := ⟨h.resolver, h.resolved, h.expected⟩
  have hlookup := (fullyResolve_answers hP.classes hA fuel c.target h₀).and
    (((lasting_informed hP.classes hA).fullyResolve_keeps fuel c.target _ h₀).and
      (fullyResolve_adds P fuel c.target _))
  refine hlookup.mono ?_ fun e s₁ h₁ => h₁.2.2.1.of_callFor
  rintro o s₁ ⟨⟨ho, -⟩, h₁, hadds, hbodies⟩
  cases o with
  | error e =>
    refine ⟨⟨caller, c.target, c.target, c.kind, offset, .unavailable e.message⟩,
      ⟨rfl, rfl, rfl, rfl, .declined ho⟩, ?_⟩
    exact adds_edge hadds hbodies rfl (List.append_nil _).symm rfl rfl rfl
  | ok callee =>
    simp only [ends_bind, ends_ask, h₁.resolver.body_fst hP.bodies]
    rcases hb : A.retrieveBody callee with e | b
    · simp only [Except.mapError, ends_ite, ends_modify, ends_throw]
      refine ⟨fun _ => ?_, fun _ => ?_⟩
      · refine ⟨⟨caller, c.target, c.target, c.kind, offset,
            .unavailable (AnalysisError.provider e).message⟩,
          ⟨rfl, rfl, rfl, rfl, .noBody ho hb⟩, ?_⟩
        exact adds_edge hadds hbodies rfl (List.append_nil _).symm rfl rfl rfl
      · have h₂ := hadds.of_callFor
        exact ⟨h₂.edges, h₂.work, h₂.visited, h₂.scanned, h₂.bodies⟩
    · refine ⟨⟨caller, c.target, callee.signature, c.kind, offset, .followed⟩,
        ⟨rfl, rfl, rfl, rfl, .followed ⟨ho, hb⟩⟩, ?_⟩
      exact adds_edge hadds hbodies rfl (Queue.toList_push ..) rfl rfl rfl

/-- A scan adds the edges of the calls in the body. If it fails, it has added those of the first
    calls, but not of all. -/
theorem scan_adds (fuel : Nat) (caller : Signature) (b : Body) (h : Informed P start A s) :
    Ends (scan P fuel caller b) s
      (fun _ s' => ∃ block, List.Forall₂ (A.Draws caller) b.calls block ∧ Adds block s s' ∧
        Names block s s')
      fun _ s' => ∃ n block, n < b.calls.length ∧
        List.Forall₂ (A.Draws caller) (b.calls.take n) block ∧ Adds block s s' := by
  simp only [scan, ends_bind]
  -- The instructions that are done make up a body of their own.
  refine Ends.forM (I := fun done s' => Informed P start A s' ∧ ∃ block,
    List.Forall₂ (A.Draws caller) (Body.calls ⟨done, none⟩) block ∧ Adds block s s' ∧
      Names block s s') ?_ ?_ ⟨h, [], .nil, .refl s, names_nil rfl⟩
  · rintro done i rest hl s₁ ⟨h₁, block, hdraws, hadds, hnames⟩
    have hcalls : b.calls = Body.calls ⟨done, none⟩ ++ Body.calls ⟨i :: rest, none⟩ := by
      simp [Body.calls, hl]
    unfold scanInstruction
    rcases hi : i.invoke with _ | c
    · exact ⟨h₁, block, by simpa [Body.calls, hi] using hdraws, hadds, hnames⟩
    · have hnext : Body.calls ⟨i :: rest, none⟩ = (i.offset, c) :: Body.calls ⟨rest, none⟩ := by
        simp [Body.calls, hi]
      refine (((lasting_informed hP.classes hA).scanCall_keeps fuel caller i.offset c s₁ h₁).and
        (scanCall_adds hP hA fuel caller i.offset c h₁)).mono ?_ ?_
      · rintro _ s₂ ⟨h₂, edge, hdraw, hadds', hnames'⟩
        refine ⟨h₂, block ++ [edge], ?_, hadds.trans hadds', hnames.trans hnames'⟩
        have hdone : Body.calls ⟨done ++ [i], none⟩ =
            Body.calls ⟨done, none⟩ ++ [(i.offset, c)] := by
          simp [Body.calls, hi]
        rw [hdone]
        exact List.rel_append hdraws (.cons hdraw .nil)
      · rintro e s₂ ⟨-, hadds'⟩
        refine ⟨(Body.calls ⟨done, none⟩).length, block, ?_, ?_, ?_⟩
        · rw [hcalls, hnext]
          simp
        · rw [hcalls, List.take_left]
          exact hdraws
        · simpa using hadds.trans hadds'
  · rintro s₁ ⟨-, block, hdraws, hadds, hnames⟩
    rcases b.fault with _ | fault
    · exact ⟨block, hdraws, hadds, hnames⟩
    · exact ⟨block, hdraws,
        ⟨hadds.edges, hadds.work, hadds.visited, hadds.scanned, hadds.bodies⟩, hnames⟩

end

/-! ### One visit -/

/-- What a visit of `sig` can come to in the session `s`, in which `sig` is marked as visited. -/
inductive VisitOutcome (A : Oracle) (sig : Signature) (s s' : Session σ) :
    Except AnalysisError Unit → Prop
  /-- The signature leads nowhere. If it refers to a method without a body, that is marked too. -/
  | nowhere {t : Signature} : A.IsDeadEnd sig → A.IsDeadEnd t → Adds [] (s.mark t) s' →
      Names [] s s' → VisitOutcome A sig s s' (.ok ())
  /-- The method was visited before. -/
  | again {m : Method} : A.Resolves sig m → m.signature ≠ sig → m.signature ∈ s.visited.toList →
      Adds [] s s' → Names [] s s' → VisitOutcome A sig s s' (.ok ())
  /-- The method is scanned. -/
  | scan {m : Method} {b : Body} {block : List CallEdge} : A.LeadsTo sig m b →
      m.signature ∉ s.scanned.toList → List.Forall₂ (A.Draws m.signature) b.calls block →
      Adds block ((s.mark m.signature).beginScan m.signature) s' → Names block s s' →
      VisitOutcome A sig s s' (.ok ())
  /-- The lookup fails. -/
  | lost {e : AnalysisError} : A.Declines sig e → e.isUnavailable = false → Adds [] s s' →
      VisitOutcome A sig s s' (.error e)
  /-- The provider fails when it is asked for the body. -/
  | noBody {m : Method} {e : ProviderError} : A.Resolves sig m → A.retrieveBody m = .error e →
      e.isUnavailable = false → Adds [] (s.mark m.signature) s' →
      VisitOutcome A sig s s' (.error (.provider e))
  /-- The scan fails at one of the calls. -/
  | cut {m : Method} {b : Body} {n : Nat} {block : List CallEdge} {e : AnalysisError} :
      A.LeadsTo sig m b → m.signature ∉ s.scanned.toList → n < b.calls.length →
      List.Forall₂ (A.Draws m.signature) (b.calls.take n) block →
      Adds block ((s.mark m.signature).beginScan m.signature) s' →
      VisitOutcome A sig s s' (.error e)

theorem mark_of_mem {sig : Signature} (h : sig ∈ s.visited.toList) : s.mark sig = s := by
  rw [mark, OrderedSet.insert, dif_pos (OrderedSet.contains_iff_mem_toList.2 h)]

section

variable (hP : P.Follows start A) (hA : A.Coherent)
include hP hA

/-- What follows once the method is found and marked. -/
theorem scanMethod_outcome (fuel : Nat) {sig : Signature} {m : Method} {s₁ : Session σ}
    (h : Informed P start A s₁) (hm : A.Resolves sig m) (hnew : m.signature ∉ s.scanned.toList)
    (hadds : Adds [] (s.mark m.signature) s₁) (hbodies : s₁.bodies = s.bodies) :
    Ends (scanMethod P fuel m) s₁ (fun _ s' => VisitOutcome A sig s s' (.ok ()))
      fun e s' => VisitOutcome A sig s s' (.error e) := by
  simp only [scanMethod, ends_bind, ends_ask, h.resolver.body_fst hP.bodies]
  have hcore := (lasting_informed hP.classes hA).toStable
  have h₁ := hcore.body m h
  rcases hb : A.retrieveBody m with e | b
  · simp only [Except.mapError, ends_ite, ends_modify, ends_throw,
      AnalysisError.isUnavailable_provider]
    refine ⟨fun hu => ?_, fun hu => ?_⟩
    · refine .nowhere (hm.isDeadEnd hb hu) ((hm.self hA).isDeadEnd hb hu) ?_ (names_nil hbodies)
      exact ⟨hadds.edges, hadds.work, hadds.visited, hadds.scanned, hadds.bodies⟩
    · refine .noBody hm hb (by simpa using hu) ?_
      exact ⟨hadds.edges, hadds.work, hadds.visited, hadds.scanned, hadds.bodies⟩
  · simp only [Except.mapError, ends_bind, ends_modify]
    have h₂ : Informed P start A
        ((s₁.setResolver (s₁.resolver.body P m).2).beginScan m.signature) :=
      hcore.congr (hcore.note (.scanning m.signature) h₁) rfl
    have hbegin : Adds [] ((s.mark m.signature).beginScan m.signature)
        ((s₁.setResolver (s₁.resolver.body P m).2).beginScan m.signature) :=
      ⟨hadds.edges, hadds.work, hadds.visited,
        congrArg (OrderedSet.insert · m.signature) hadds.scanned, hadds.bodies⟩
    have hsame : Names [] s ((s₁.setResolver (s₁.resolver.body P m).2).beginScan m.signature) :=
      names_nil hbodies
    refine (scan_adds hP hA fuel m.signature b h₂).mono ?_ ?_
    · rintro _ s' ⟨block, hdraws, hblock, hnames⟩
      exact .scan ⟨hm, hb⟩ hnew hdraws (hbegin.trans hblock) (hsame.trans hnames)
    · rintro e s' ⟨n, block, hn, hdraws, hblock⟩
      exact .cut ⟨hm, hb⟩ hnew hn hdraws (hbegin.trans hblock)

/-- One visit, of a signature that is marked as visited. What was scanned before was marked before,
    so no method is scanned again. -/
theorem visit_outcome (fuel : Nat) {sig : Signature} (h : Informed P start A s)
    (hsig : sig ∈ s.visited.toList) (hnew : sig ∉ s.scanned.toList)
    (hsub : ∀ u ∈ s.scanned.toList, u ∈ s.visited.toList) :
    Ends (visit P fuel sig) s (fun _ s' => VisitOutcome A sig s s' (.ok ()))
      fun e s' => e ≠ .exhausted → VisitOutcome A sig s s' (.error e) := by
  rw [ends_visit]
  refine ((fullyResolve_answers hP.classes hA fuel sig h).and
    (((lasting_informed hP.classes hA).fullyResolve_keeps fuel sig s h).and
      (fullyResolve_adds P fuel sig s))).mono ?_ ?_
  · rintro o s₁ ⟨⟨ho, hu⟩, h₁, hadds, hbodies⟩
    cases o with
    | error e =>
      have hend := ho.isDeadEnd hA.toGraded (hu e rfl)
      refine .nowhere hend hend ?_ (names_nil hbodies)
      rw [mark_of_mem hsig]
      exact ⟨hadds.edges, hadds.work, hadds.visited, hadds.scanned, hadds.bodies⟩
    | ok m =>
      refine ⟨fun hne hm => ?_, fun hne hm => ?_, fun heq => ?_⟩
      · rw [hadds.visited] at hm
        exact .again ho hne hm hadds (names_nil hbodies)
      · have hmark : Adds [] (s.mark m.signature) (s₁.mark m.signature) :=
          ⟨hadds.edges, hadds.work, congrArg (OrderedSet.insert · m.signature) hadds.visited,
            hadds.scanned, hadds.bodies⟩
        have h₂ : Informed P start A (s₁.mark m.signature) :=
          (lasting_informed hP.classes hA).congr h₁ rfl
        rw [hadds.visited] at hm
        exact (scanMethod_outcome hP hA fuel h₂ ho (fun hs => hm (hsub _ hs)) hmark hbodies).mono
          (fun _ _ => id) fun _ _ h _ => h
      · refine (scanMethod_outcome hP hA fuel h₁ ho (s := s) ?_ ?_ hbodies).mono
          (fun _ _ => id) fun _ _ h _ => h
        · rwa [heq]
        · rwa [heq, mark_of_mem hsig]
  · rintro e s₁ ⟨⟨hu, hd⟩, -, hadds, -⟩ he
    exact .lost (hd he) hu hadds

end

/-! ### The worklist -/

/-- What the session knows comes from `A`, and what it has scanned is visited. -/
structure Tracked (P : Provider σ) (start : σ) (A : Oracle) (s : Session σ) : Prop extends
    Informed P start A s where
  marked : ∀ sig ∈ s.scanned.toList, sig ∈ s.visited.toList

theorem Tracked.congr (h : Tracked P start A s) (hr : s'.resolver = s.resolver)
    (hm : s'.resolved = s.resolved) (hv : s'.visited = s.visited) (hs : s'.scanned = s.scanned) :
    Tracked P start A s' :=
  ⟨⟨hr ▸ h.resolver, hm ▸ h.resolved, hm ▸ h.expected⟩, hs ▸ hv ▸ h.marked⟩

theorem Tracked.mark (h : Tracked P start A s) (sig : Signature) :
    Tracked P start A (s.mark sig) :=
  ⟨⟨h.resolver, h.resolved, h.expected⟩,
    fun t ht => OrderedSet.mem_toList_insert.2 (.inl (h.marked t ht))⟩

/-- What is scanned on a visit is marked. -/
theorem VisitOutcome.marked {sig : Signature} {o : Except AnalysisError Unit}
    (h : VisitOutcome A sig s s' o) (hs : ∀ t ∈ s.scanned.toList, t ∈ s.visited.toList) :
    ∀ t ∈ s'.scanned.toList, t ∈ s'.visited.toList := by
  have hmark {t u : Signature} (ht : t ∈ s.scanned.toList) : t ∈ (s.mark u).visited.toList :=
    OrderedSet.mem_toList_insert.2 (.inl (hs t ht))
  have hscan {u : Signature} : ∀ t ∈ ((s.mark u).beginScan u).scanned.toList,
      t ∈ ((s.mark u).beginScan u).visited.toList := by
    intro t ht
    rcases OrderedSet.mem_toList_insert.1 ht with ht | rfl
    · exact hmark ht
    · exact OrderedSet.mem_toList_insert.2 (.inr rfl)
  cases h with
  | nowhere _ _ hadds | noBody _ _ _ hadds =>
    rw [hadds.scanned, hadds.visited]
    exact fun t => hmark
  | again _ _ _ hadds | lost _ _ hadds =>
    rw [hadds.scanned, hadds.visited]
    exact hs
  | scan _ _ _ hadds | cut _ _ _ _ hadds =>
    rw [hadds.scanned, hadds.visited]
    exact hscan

theorem scanMethod_fails (P : Provider σ) (fuel : Nat) (m : Method) (s : Session σ) :
    Ends (scanMethod P fuel m) s (fun _ _ => True) fun e _ => e.IsFault ∨ e = .exhausted := by
  simp only [scanMethod, ends_bind, ends_ask]
  split
  case h_1 e he =>
    simp only [ends_ite, ends_modify, ends_throw, implies_true, true_and]
    exact fun hu => isFault_or_exhausted (isExpected_of_body he) (by simpa using hu)
  case h_2 b _ =>
    simp only [ends_bind, ends_modify]
    exact (scan_ends P fuel m.signature b _).mono (fun _ _ _ => trivial) fun _ _ h => h.1

/-- A visit fails only where the provider is at fault, or a search is cut off. -/
theorem visit_fails (P : Provider σ) (fuel : Nat) (sig : Signature) (s : Session σ) :
    Ends (visit P fuel sig) s (fun _ _ => True) fun e _ => e.IsFault ∨ e = .exhausted := by
  rw [ends_visit]
  refine (fullyResolve_quiet P fuel sig s).mono (fun o s₁ _ => ?_) fun _ _ h => h.2
  cases o with
  | error e => trivial
  | ok m =>
    exact ⟨fun _ _ => trivial, fun _ _ => scanMethod_fails P fuel m _,
      fun _ => scanMethod_fails P fuel m _⟩

/-- The rule for the worklist: what a visit keeps if it succeeds is kept until the queue is empty or
    the traversal is called off, and what a visit leaves behind if it fails is left behind. -/
theorem drain_outcome (hP : P.Follows start A) (hA : A.Coherent) {I J : Session σ → Prop}
    (hdrop : ∀ s sig work, I s → s.work.pop? = some (sig, work) → sig ∈ s.visited.toList →
      I (s.setWork work))
    (hvisit : ∀ s sig work s', Tracked P start A s → I s → s.work.pop? = some (sig, work) →
      sig ∉ s.visited.toList → Tracked P start A s' →
      VisitOutcome A sig ((s.setWork work).mark sig) s' (.ok ()) → I s')
    (hfail : ∀ s sig work e s', Tracked P start A s → I s → s.work.pop? = some (sig, work) →
      sig ∉ s.visited.toList → Tracked P start A s' →
      VisitOutcome A sig ((s.setWork work).mark sig) s' (.error e) → J s')
    (limit fuel : Nat) (patience : Option Nat) (h : Tracked P start A s) (hI : I s) :
    Ends (drain P limit fuel patience) s
      (fun _ s' => Tracked P start A s' ∧ I s' ∧ s'.work.toList = [])
      fun e s' => e ≠ .exhausted →
        Tracked P start A s' ∧ (e = .canceled ∧ I s' ∨ e.IsFault ∧ J s') := by
  refine (drain_ends (I := fun s => Tracked P start A s ∧ I s)
    (E := fun e s => e ≠ .exhausted →
      Tracked P start A s ∧ (e = .canceled ∧ I s ∨ e.IsFault ∧ J s)) ?_ ?_ ?_ ?_
    fuel patience ⟨h, hI⟩).mono (fun _ _ h => ⟨h.1.1, h.1.2, h.2⟩) fun _ _ => id
  · rintro s sig work ⟨h, hI⟩ hw hv
    exact ⟨h.congr rfl rfl rfl rfl, hdrop s sig work hI hw hv⟩
  · rintro s sig work ⟨h, hI⟩ hw hv
    have h₀ : Tracked P start A ((s.setWork work).mark sig) :=
      Tracked.mark (h.congr rfl rfl rfl rfl : Tracked P start A (s.setWork work)) sig
    have hsig : sig ∈ ((s.setWork work).mark sig).visited.toList :=
      OrderedSet.mem_toList_insert.2 (.inr rfl)
    have hnew : sig ∉ ((s.setWork work).mark sig).scanned.toList := fun hs => hv (h.marked sig hs)
    refine ((visit_outcome hP hA limit h₀.toInformed hsig hnew h₀.marked).and
      (((lasting_informed hP.classes hA).visit_keeps limit sig _ h₀.toInformed).and
        (visit_fails P limit sig _))).mono ?_ ?_
    · rintro _ s' ⟨ho, h', -⟩
      have ht : Tracked P start A s' := ⟨h', ho.marked h₀.marked⟩
      exact ⟨ht, hvisit s sig work s' h hI hw hv ht ho⟩
    · rintro e s' ⟨ho, h', hfault⟩ he
      have ht : Tracked P start A s' := ⟨h', (ho he).marked h₀.marked⟩
      exact ⟨ht, .inr ⟨hfault.resolve_right he, hfail s sig work e s' h hI hw hv ht (ho he)⟩⟩
  · exact fun s h _ => ⟨h.1, .inl ⟨rfl, h.2⟩⟩
  · exact fun s h he => absurd rfl he

/-! ### The seeds -/

/-- The methods of the classes that `roots` lets pass were queued, and the bodies of the classes are
    called for whose methods are the seeds. -/
structure Sows (A : Oracle) (roots : ClassName → Prop) (s s' : Session σ) : Prop extends
    Queues (A.Seeds roots) s s' where
  edges : s'.edges = s.edges
  bodies : s'.bodies = s.enlist.bodies

theorem isFault_of_resolveClass {name : ClassName} {level : Level} {r : Resolver σ}
    {e : AnalysisError} (h : (r.resolveClass P name level).1 = .error e)
    (hu : e.isUnavailable = false) : e.IsFault := by
  have hanswer := Resolver.answer_resolveClass P name level r
  rw [h] at hanswer
  generalize (r.resolveClass P name level).2 = r' at hanswer
  have hfault {e' : ProviderError} (hu' : (AnalysisError.provider e').isUnavailable = false) :
      (AnalysisError.provider e').IsFault := by
    cases e' with
    | unavailable => cases hu'
    | fatal => trivial
  cases hanswer with
  | missed | unavailable => exact hfault hu
  | low | fatal => trivial

/-- Before its first visit, a traversal fails only where the provider is at fault. -/
theorem seed_fails (P : Provider σ) (s : Session σ) :
    Ends (seed P) s (fun _ _ => True) fun e _ => e.IsFault := by
  rw [ends_seed]
  refine Ends.forM (I := fun _ _ => True) (fun _ name _ _ s _ => ?_) (fun _ => id) trivial
  simp only [seedClass, ends_bind, ends_ask]
  split
  · trivial
  case h_2 e he =>
    simp only [ends_ite, ends_bind, ends_throw, ends_get, ends_pure, ends_modify, implies_true,
      and_true]
    exact fun hu => isFault_of_resolveClass he (by simpa using hu)

/-- A traversal begins with the methods of all classes whose bodies are called for. If it fails, it
    has queued those of some of them. -/
theorem seed_sows (hP : P.Follows start A) (hA : A.Coherent) (h : Knows P start A s) :
    Ends (seed P) s (fun _ s' => Sows A (· ∈ s.enlist.bodies.toList) s s')
      fun _ s' => ∃ names ⊆ s.enlist.bodies.toList, Sows A (· ∈ names) s s' := by
  rw [ends_seed]
  have h₀ : Knows P start A s.enlist := ⟨h.resolver, h.resolved⟩
  refine Ends.forM (I := fun done s' => Knows P start A s' ∧ Sows A (· ∈ done) s s') ?_
    (fun _ h => h.2) ⟨h₀, Idle.queues ⟨rfl, rfl, rfl⟩ (by simp [Oracle.Seeds]), rfl, rfl⟩
  rintro done name rest hl s₁ ⟨h₁, hsows⟩
  have hgraph : Ends (seedClass P name) s₁
      (fun _ s' => s'.edges = s₁.edges ∧ s'.bodies = s₁.bodies)
      fun _ s' => ∃ r, s' = s₁.setResolver r := by
    simp only [seedClass, ends_bind, ends_ask]
    split
    · exact ⟨rfl, rfl⟩
    · simp only [ends_ite, ends_bind, ends_throw, ends_get, ends_pure, ends_modify]
      exact ⟨fun _ => ⟨_, rfl⟩, fun _ => ⟨fun _ => ⟨rfl, rfl⟩, fun _ => ⟨rfl, rfl⟩⟩⟩
  refine ((seedClass_queues hP hA name h₁).and hgraph).mono ?_ ?_
  · rintro _ s₂ ⟨⟨h₂, hq⟩, he, hb⟩
    refine ⟨h₂, (hsows.toQueues.trans hq).congr fun sig => ?_, he.trans hsows.edges,
      hb.trans hsows.bodies⟩
    simp [Oracle.Seeds, or_and_right, exists_or]
  · rintro e s₂ ⟨-, r, rfl⟩
    refine ⟨done, fun n hn => ?_, ⟨hsows.work, hsows.visited, hsows.scanned⟩, hsows.edges,
      hsows.bodies⟩
    rw [hl]
    exact List.mem_append_left _ hn

/-- The seeding asks the provider and queues methods. It marks nothing. -/
theorem seed_tracked (hP : P.Follows start A) (hA : A.Coherent) (h : Tracked P start A s) :
    Ends (seed P) s
      (fun _ s' => Tracked P start A s' ∧ Sows A (· ∈ s.enlist.bodies.toList) s s')
      fun _ s' => Tracked P start A s' ∧
        ∃ names ⊆ s.enlist.bodies.toList, Sows A (· ∈ names) s s' := by
  refine ((seed_sows hP hA (h.knows hA.toGraded)).and
    ((lasting_informed hP.classes hA).seed_keeps s h.toInformed)).mono ?_ ?_
  · rintro _ s' ⟨hs, hi⟩
    exact ⟨⟨hi, hs.scanned ▸ hs.visited ▸ h.marked⟩, hs⟩
  · rintro e s' ⟨⟨names, hsub, hs⟩, hi⟩
    exact ⟨⟨hi, hs.scanned ▸ hs.visited ▸ h.marked⟩, names, hsub, hs⟩

end Session

end KernelReach
