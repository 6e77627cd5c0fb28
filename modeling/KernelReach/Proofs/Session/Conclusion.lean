import KernelReach.Proofs.Session.Analysis
import KernelReach.Proofs.Session.Opening
import Mathlib.Algebra.BigOperators.Group.Finset.Basic

/-!
# An analysis that comes to its end

What a fresh session holds when its analysis has succeeded is put together from what can be told in
advance (`forecast`) and what the traversal has surveyed (`Concluded`). It is described by the
answers of the provider, the catalog and the set of methods that were scanned.

That an analysis succeeds can be told in advance as well (`Feasible`): the provider does not fail,
no search goes too far, and there is fuel for each of the signatures that get into the queue. How
many these are is known, for a method gets its callees into the queue when it is scanned, and it is
scanned once (`backlog`).
-/

namespace KernelReach.Session

variable {σ : Type} {P : Provider σ} {start : σ} {A : Oracle} {s s' : Session σ} {limit : Nat}

/-! ### The forecast -/

/-- The catalog of a fresh session after ingestion. -/
def catalogOf (rules : PackageRules) (paths : List StagedPath) : Catalog :=
  (Catalog.new rules).addAll (paths.filterMap StagedPath.class?)

/-- What a fresh session holds when its traversal begins. -/
def forecast (A : Oracle) (options : Options) (paths : List StagedPath) : Forecast :=
  let cat := catalogOf options.rules paths
  let staged : Forecast := { diagnostics := paths.flatMap StagedPath.complaints }
  let loaded := staged.load A cat.application.toList
  let opened := ((loaded.detect options.withDefaults loaded.loaded).loadBuiltins A
    options.builtins).enlist cat
  opened.seed A cat opened.bodies.toList

section

variable (A : Oracle) (options : Options) (paths : List StagedPath) {name : ClassName}

theorem requests_forecast :
    (forecast A options paths).requests =
      (catalogOf options.rules paths).application.toList.map (·, .signatures) ++
        (options.builtins.map fun b => (b.name, b.level)) ++
        (forecast A options paths).bodies.toList.map (·, .signatures) :=
  rfl

theorem loaded_forecast :
    (forecast A options paths).loaded =
      (catalogOf options.rules paths).application.toList.filterMap (A.class? · .signatures) :=
  List.nil_append _

theorem entries_forecast :
    (forecast A options paths).entries =
      ((forecast A options paths).loaded.filterMap options.withDefaults.kernel?).foldl
        EntryPoints.add {} := by
  rw [loaded_forecast]
  rfl

theorem mem_bodies_forecast :
    name ∈ (forecast A options paths).bodies.toList ↔
      name ∈ (catalogOf options.rules paths).application.toList ∨ name ∈ options.rules.runtime ∨
        ∃ p ∈ (forecast A options paths).entries.toList, p.method.owner = name := by
  have hruntime : (catalogOf options.rules paths).runtime = .ofList options.rules.runtime :=
    Catalog.runtime_addAll _ _
  change name ∈ (((∅ : OrderedSet ClassName).insertAll _).insertAll _ |>.insertAll
    ((forecast A options paths).entries.toList.map (·.method.owner))).toList ↔ _
  simp only [OrderedSet.mem_toList_insertAll, OrderedSet.toList_empty, List.not_mem_nil, false_or,
    hruntime, OrderedSet.mem_toList_ofList, List.mem_map, or_assoc]

end

variable {options : Options} {paths : List StagedPath} {source : σ}

theorem stage_ingest (P : Provider σ) (A : Oracle) (options : Options) (source : σ)
    (paths : List StagedPath) :
    Stage P source A options.withDefaults (catalogOf options.rules paths)
      { diagnostics := paths.flatMap StagedPath.complaints } ((new options source).ingest paths) :=
  (stage_new P A options source).ingest paths

/-- A traversal begins with the methods of the classes in `names`. -/
theorem Stage.survey {opts : Options} {cat : Catalog} {f : Forecast} {names : List ClassName}
    {R : Set Signature} (h : Stage P start A opts cat f s) (limit : Nat) (hA : A.Graded)
    (hwork : f.work = names.flatMap A.signatures) (hR : A.Closed (· ∈ names) R) :
    Survey P start A limit (fun name level => (name, level) ∈ f.requests) (· ∈ names) R
      f.diagnostics s := by
  have hvisited : s.visited.toList = [] := by rw [h.visited]; rfl
  have hscanned : s.scanned.toList = [] := by rw [h.scanned]; rfl
  have hedges : s.edges.toList = [] := by rw [h.edges]
  have hresolved (sig : Signature) : sig ∉ s.resolved := by simp [h.resolved]
  have hseeds (sig : Signature) : sig ∈ s.work.toList ↔ A.Seeds (· ∈ names) sig := by
    rw [h.work, hwork, Oracle.mem_flatMap_signatures]
  have hinformed : Informed P start A s :=
    ⟨h.sound, by simp [h.resolved], by simp [h.resolved]⟩
  have hserved : s.resolver.Served A
      (s.Requests A fun name level => (name, level) ∈ f.requests) :=
    h.served.congr fun name level => by simp [Requests, hresolved]
  exact {
    hinformed with
    marked := by simp [hscanned]
    served := hserved
    clear := fun sig hsig => absurd hsig (hresolved sig)
    knows := hinformed.knows hA
    settled := by simp [hvisited]
    seeded := fun sig hs => .inr ((hseeds sig).2 hs)
    called := by simp [hscanned]
    scanned := by simp [hscanned]
    licensed := fun sig hs t hr => hR.seed ((hseeds sig).1 (hs.resolve_right List.not_mem_nil)) hr
    blocks := ⟨[], by simp [hedges], by rw [hscanned]; exact .nil⟩
    harmless := by simp [hvisited]
    looked := by simp [hvisited]
    targets := by simp [hscanned]
    wanted := fun sig hs => .seed ((hseeds sig).1 (hs.resolve_left (hresolved sig)))
    diagnostics := by simp [h.diagnostics, hscanned] }

/-! ### The length of a traversal -/

/-- The number of signatures that are in the queue or will get there, if the methods in `R` are to
    be scanned and `blocks` are their edges. -/
def backlog (blocks : Signature → List CallEdge) (R : Finset Signature) (s : Session σ) : Nat :=
  s.work.toList.length +
    ∑ sig ∈ R \ s.scanned.toList.toFinset, (CallEdge.callees (blocks sig)).length

variable {blocks : Signature → List CallEdge} {R : Finset Signature} {sig : Signature}
  {work : Queue Signature}

theorem backlog_setWork (blocks : Signature → List CallEdge) (R : Finset Signature)
    (hw : s.work.pop? = some (sig, work)) :
    (s.setWork work).backlog blocks R + 1 = s.backlog blocks R := by
  rw [backlog, backlog, Queue.toList_of_pop? hw, List.length_cons]
  exact Nat.add_right_comm _ _ 1

/-- What a visit adds to the queue was expected. -/
theorem VisitOutcome.backlog (hA : A.Coherent) (hblocks : ∀ sig block, A.Block sig block →
      block = blocks sig)
    (hw : s.work.pop? = some (sig, work)) (hR : ∀ t, A.Reaches sig t → t ∈ R)
    (ho : VisitOutcome A sig ((s.setWork work).mark sig) s' (.ok ())) :
    s'.backlog blocks R + 1 = s.backlog blocks R := by
  rw [← backlog_setWork blocks R hw, Nat.add_left_inj]
  cases ho with
  | nowhere _ _ hadds | again _ _ _ hadds =>
    have hwork : s'.work.toList = work.toList := hadds.work.trans (List.append_nil _)
    have hscanned : s'.scanned = s.scanned := hadds.scanned
    rw [Session.backlog, hwork, hscanned]
    rfl
  | @scan m b block hm hnew hdraws hadds =>
    -- The callees of the method go from the sum into the queue.
    have hwork : s'.work.toList = work.toList ++ CallEdge.callees block := hadds.work
    have hnew : m.signature ∉ s.scanned.toList := hnew
    have hscanned : s'.scanned.toList.toFinset = insert m.signature s.scanned.toList.toFinset := by
      have hinsert : s'.scanned = s.scanned.insert m.signature := hadds.scanned
      rw [hinsert, OrderedSet.toList_insert_of_not_mem hnew]
      ext t
      simp
    have hmem : m.signature ∈ R \ s.scanned.toList.toFinset := by
      rw [Finset.mem_sdiff, List.mem_toFinset]
      exact ⟨hR _ hm.reaches, hnew⟩
    have hblock : block = blocks m.signature := hblocks _ _ ⟨m, b, hm.self hA, hdraws⟩
    rw [Session.backlog, hwork, hscanned, Finset.sdiff_insert, List.length_append, hblock,
      add_assoc, Finset.add_sum_erase _ (fun sig => (CallEdge.callees (blocks sig)).length) hmem]
    rfl

/-! ### The traversal -/

section

variable (hP : P.Follows start A) (hA : A.Coherent) {Q : ClassName → Level → Prop}
  {roots : ClassName → Prop} {ds : List Diagnostic}
include hP hA

theorem drain_survey {R : Set Signature} (hR : A.Closed roots R) (fuel : Nat)
    (patience : Option Nat) (h : Survey P start A limit Q roots R ds s) :
    Ends (drain P limit fuel patience) s
      (fun _ s' => Survey P start A limit Q roots R ds s' ∧ s'.work.toList = []) fun _ _ => True :=
  drain_ends (fun _ _ _ h hw hv => h.drop hw hv)
    (fun _ _ _ h hw hv => (h.visit hP hA hR hw hv).mono (fun _ _ => And.left) fun _ _ _ => trivial)
    (fun _ _ => trivial) (fun _ _ => trivial) fuel patience h

/-- Every round takes one signature off the backlog. So a traversal that is not called off fails
    only if the backlog is too long for the fuel, or something that is wanted is in the way. -/
theorem drain_backlog (hblocks : ∀ sig block, A.Block sig block → block = blocks sig)
    (hR : A.Closed roots R) (fuel : Nat) (h : Survey P start A limit Q roots R ds s) :
    Ends (drain P limit fuel none) s
      (fun _ s' => s.backlog blocks R < fuel + s'.backlog blocks R)
      fun _ _ => fuel ≤ s.backlog blocks R ∨ ∃ t, A.Wants roots R t ∧ ¬A.Smooth limit t := by
  -- On the fuel. A round takes one unit of it, and one signature of the backlog.
  induction fuel generalizing s with
  | zero => exact .inl (Nat.zero_le _)
  | succ fuel ih =>
    unfold Ends
    rw [drain]
    simp only [reduceCtorEq, if_false]
    rcases hw : s.work.pop? with _ | ⟨sig, work⟩
    · exact Nat.lt_add_of_pos_left (Nat.succ_pos fuel)
    · by_cases hv : sig ∈ s.visited.toList
      · simp only [OrderedSet.contains_iff_mem_toList.2 hv, if_true]
        have hcount := backlog_setWork blocks R hw
        refine (ih (h.drop hw hv)).mono (fun _ s' hlt => ?_) fun _ _ herror => ?_
        · omega
        · exact herror.imp_left fun hle => by omega
      · simp only [OrderedSet.contains_iff_mem_toList, hv, if_false]
        have hround := h.visit hP hA hR hw hv
        have hmem : sig ∈ s.work.toList := by
          rw [Queue.toList_of_pop? hw]
          exact List.mem_cons_self
        rcases hr : visit P limit sig ((s.setWork work).mark sig) with ⟨e | u, s₁⟩
        · have hE := hround.error hr
          simp only [setWork, mark] at hr
          simp only [hr]
          exact .inr hE
        · obtain ⟨h₁, ho⟩ := hround.ok hr
          have hcount := ho.backlog hA hblocks hw (h.licensed sig (.inl hmem))
          simp only [setWork, mark] at hr
          simp only [hr]
          refine (ih h₁).mono (fun _ s' hlt => ?_) fun _ _ herror => ?_
          · omega
          · exact herror.imp_left fun hle => by omega

end

/-! ### The whole analysis -/

theorem signaturesLoaded_ingest (s : Session σ) (paths : List StagedPath) :
    (s.ingest paths).signaturesLoaded = s.signaturesLoaded := by
  induction paths generalizing s with
  | nil => rfl
  | cons p paths ih =>
    refine (ih (s.ingestPath p)).trans ?_
    unfold ingestPath
    split
    · rfl
    · rfl
    · dsimp only
      split <;> rfl

theorem stable_loaded (P : Provider σ) (s : Session σ) :
    Stable P (fun _ => True) fun s' => s'.loaded = s.loaded where
  signatures := trivial
  bodies := trivial
  congr h hcore := (congrArg (fun core => core.2.2.2.1) hcore).trans h
  note _ h := h
  resolveClass _ _ _ h := h
  body _ h := h
  remember h _ _ _ := h

section

variable (hP : P.Follows source A) (hA : A.Coherent)
  (hb : ∀ b ∈ options.builtins, b.level.IsValid)
include hP hA hb

/-- The phases before the traversal go as it was told, or the provider fails on one of the classes
    that are asked for. -/
theorem ends_analyze {fuel : Nat} {patience : Option Nat} {Q : Session σ → Prop}
    {E : AnalysisError → Session σ → Prop}
    (hdrain : ∀ s, Stage P source A options.withDefaults (catalogOf options.rules paths)
        (forecast A options paths) s →
      Ends (drain P fuel fuel patience) s (fun _ s' => Q s'.augmentEntryPoints) E)
    (hload : ∀ name ∈ (forecast A options paths).bodies.toList, A.Breaks name .signatures →
      ∀ e s, E e s)
    (hbuiltin : ∀ b ∈ options.builtins, A.Breaks b.name b.level → ∀ e s, E e s) :
    Ends (analyze P fuel patience) ((new options source).ingest paths) (fun _ => Q) E := by
  have h := stage_ingest P A options source paths
  have hfresh : ((new options source).ingest paths).signaturesLoaded = false :=
    signaturesLoaded_ingest _ paths
  simp only [analyze, traverse, ends_bind, ends_get, ends_ite, ends_modify, hfresh, Bool.not_false,
    not_true_eq_false, false_implies, and_true, forall_const]
  refine (loadSignatures_stage hP hA h (fun _ _ _ => List.not_mem_nil)).mono (fun _ s₁ h₁ => ?_) ?_
  · refine (loadBuiltins_stage hP hA h₁.detectEntryPoints hb).mono (fun _ s₂ h₂ => ?_) ?_
    · refine (seed_stage hP hA h₂).mono (fun _ s₃ h₃ => hdrain s₃ h₃) ?_
      rintro e s' ⟨name, hn, hbreaks⟩
      exact hload name hn hbreaks e s'
    · rintro e s' ⟨b, hmem, hbreaks⟩
      exact hbuiltin b hmem hbreaks e s'
  · rintro e s' ⟨name, hn, hbreaks⟩
    exact hload name ((mem_bodies_forecast ..).2 (.inl hn)) hbreaks e s'

end

/-- What an analysis of a fresh session has come to. -/
structure Concluded (P : Provider σ) (source : σ) (A : Oracle) (options : Options)
    (paths : List StagedPath) (fuel : Nat) (s : Session σ) : Prop where
  survey : Survey P source A fuel
    (fun name level => (name, level) ∈ (forecast A options paths).requests)
    (· ∈ (forecast A options paths).bodies.toList) Set.univ (forecast A options paths).diagnostics s
  work : s.work.toList = []
  catalog : s.catalog = catalogOf options.rules paths
  loaded : s.loaded.toList = (forecast A options paths).loaded
  entries : s.entries = ((s.loaded.toList.filterMap fun c =>
    s.resolver.classes[c.name]?.filter (·.level = .bodies)).flatMap Class.initializers).foldl
      EntryPoints.add (forecast A options paths).entries

theorem closed_univ (A : Oracle) (roots : ClassName → Prop) : A.Closed roots Set.univ :=
  ⟨fun _ _ => trivial, fun _ _ _ => trivial⟩

theorem findKernels_concluded (hP : P.Follows source A) (hA : A.Coherent)
    (hb : ∀ b ∈ options.builtins, b.level.IsValid) {fuel : Nat} {patience : Option Nat}
    (h : findKernels P fuel patience ((new options source).ingest paths) = (.ok (), s)) :
    Concluded P source A options paths fuel s := by
  refine (ends_analyze (Q := Concluded P source A options paths fuel) (E := fun _ _ => True) hP hA
    hb (fun s₁ h₁ => ?_) (fun _ _ _ _ _ => trivial) fun _ _ _ _ _ => trivial).ok
    (findKernels_eq_ok_iff.1 h)
  have hsurvey := h₁.survey fuel hA.toGraded rfl (closed_univ A _)
  refine ((drain_survey hP hA (closed_univ A _) fuel patience hsurvey).and
    (((stable_steady P s₁).drain_keeps fuel fuel patience s₁ (.refl s₁)).and
      ((stable_loaded P s₁).drain_keeps fuel fuel patience s₁ rfl))).mono ?_ fun _ _ _ => trivial
  rintro _ s₂ ⟨⟨h₂, hwork⟩, hsteady, hloaded⟩
  refine ⟨{ h₂ with knows := ⟨h₂.knows.resolver, h₂.knows.resolved⟩ }, hwork,
    hsteady.catalog.trans h₁.catalog, ?_, ?_⟩
  · exact (congrArg Array.toList hloaded).trans h₁.loaded
  · rw [augmentEntryPoints, hsteady.entries, h₁.entries]

/-! ### Success -/

/-- An analysis gets through, if the methods of the classes in `names` are its seeds and those in
    `R` are to be scanned: nothing is in the way, and the fuel is enough. -/
structure Feasible (A : Oracle) (blocks : Signature → List CallEdge) (fuel : Nat)
    (builtins : List Builtin) (names : List ClassName) (R : Finset Signature) : Prop where
  loads : ∀ name ∈ names, ¬A.Breaks name .signatures
  loadsBuiltins : ∀ b ∈ builtins, ¬A.Breaks b.name b.level
  closed : A.Closed (· ∈ names) R
  smooth : ∀ sig, A.Wants (· ∈ names) R sig → A.Smooth fuel sig
  enough : (names.flatMap A.signatures).length +
    ∑ sig ∈ R, (CallEdge.callees (blocks sig)).length < fuel

theorem Stage.backlog_eq {opts : Options} {cat : Catalog} {f : Forecast}
    (h : Stage P start A opts cat f s) :
    s.backlog blocks R = f.work.length + ∑ sig ∈ R, (CallEdge.callees (blocks sig)).length := by
  rw [backlog, h.work, h.scanned]
  simp

section

variable (hP : P.Follows source A) (hA : A.Coherent)
  (hb : ∀ b ∈ options.builtins, b.level.IsValid)
  (hblocks : ∀ sig block, A.Block sig block → block = blocks sig)
include hP hA hb hblocks

theorem Feasible.findKernels_eq_ok {fuel : Nat} (h : Feasible A blocks fuel options.builtins
      (forecast A options paths).bodies.toList R) :
    ∃ s, findKernels P fuel none ((new options source).ingest paths) = (.ok (), s) := by
  have hends : Ends (analyze P fuel none) ((new options source).ingest paths) (fun _ _ => True)
      fun _ _ => False := by
    refine ends_analyze hP hA hb (fun s₁ h₁ => ?_) (fun name hn hbreaks => ?_)
      fun b hmem hbreaks => ?_
    · have hsurvey := h₁.survey fuel hA.toGraded rfl h.closed
      refine (drain_backlog hP hA hblocks h.closed fuel hsurvey).mono (fun _ _ _ => trivial) ?_
      rintro e s' (hle | ⟨t, hwants, hnot⟩)
      · rw [h₁.backlog_eq] at hle
        exact absurd h.enough (Nat.not_lt.2 hle)
      · exact hnot (h.smooth t hwants)
    · exact absurd hbreaks (h.loads name hn)
    · exact absurd hbreaks (h.loadsBuiltins b hmem)
  rcases hrun : analyze P fuel none ((new options source).ingest paths) with ⟨e | u, s⟩
  · exact (hends.error hrun).elim
  · exact ⟨s, findKernels_eq_ok_iff.2 hrun⟩

/-- An analysis that has got through is one that does. -/
theorem Concluded.feasible {fuel : Nat} (h : Concluded P source A options paths fuel s)
    (hs : findKernels P fuel none ((new options source).ingest paths) = (.ok (), s)) :
    Feasible A blocks fuel options.builtins (forecast A options paths).bodies.toList
      s.scanned.toList.toFinset := by
  have hcoe : (s.scanned.toList.toFinset : Set Signature) = {sig | sig ∈ s.scanned.toList} := by
    ext sig
    simp
  have hclosed : A.Closed (· ∈ (forecast A options paths).bodies.toList)
      s.scanned.toList.toFinset := by
    rw [hcoe]
    exact h.survey.toExplored.closed hA h.work
  -- What was asked for and cannot be had is unavailable, or else the analysis would have failed.
  have hunbroken {name : ClassName} {level : Level}
      (hreq : (name, level) ∈ (forecast A options paths).requests) : ¬A.Breaks name level := by
    rintro ⟨e, he, hu⟩
    obtain ⟨e', he', rfl⟩ := Oracle.demand_eq_error.1 he
    rw [AnalysisError.isUnavailable_ofProvider, (h.survey.served.missed (.inl hreq) he').1] at hu
    cases hu
  refine ⟨fun name hn => hunbroken ?_, fun b hmem => hunbroken ?_, hclosed, fun sig hsig => ?_, ?_⟩
  · rw [requests_forecast]
    exact List.mem_append_right _ (List.mem_map.2 ⟨name, hn, rfl⟩)
  · rw [requests_forecast]
    exact List.mem_append_left _ (List.mem_append_right _ (List.mem_map.2 ⟨b, hmem, rfl⟩))
  · rw [hcoe] at hsig
    exact (h.survey.smooth hA h.work hsig).1
  · -- When the traversal is done, nothing is left of the backlog.
    have hdone : s.backlog blocks s.scanned.toList.toFinset = 0 := by
      simp [backlog, h.work]
    refine (ends_analyze (Q := fun s' => s' = s → _) (E := fun _ _ => True) hP hA hb
      (fun s₁ h₁ => ?_) (fun _ _ _ _ _ => trivial) fun _ _ _ _ _ => trivial).ok
      (findKernels_eq_ok_iff.1 hs) rfl
    have hsurvey := h₁.survey fuel hA.toGraded rfl hclosed
    refine (drain_backlog hP hA hblocks hclosed fuel hsurvey).mono ?_ fun _ _ _ => trivial
    rintro _ s₂ hlt rfl
    have hlt : s₁.backlog blocks s₂.scanned.toList.toFinset <
        fuel + s₂.backlog blocks s₂.scanned.toList.toFinset := hlt
    have hdone : s₂.backlog blocks s₂.scanned.toList.toFinset = 0 := hdone
    rw [hdone, h₁.backlog_eq] at hlt
    exact hlt

end

end KernelReach.Session
