import KernelReach.Proofs.Session.Integrity
import KernelReach.Proofs.Session.Restart

/-!
# The order of ingestion

The order in which files are ingested is the order in which the classes are asked for, and so it
decides at which level a class is asked for first, which misses are kept at which level, and what is
remembered when a call is scanned. None of this can be seen in the result, except that its lists are
in another order (`AnalysisResult.SameUpToOrder`).

What a result consists of is known from the forecast and from the set of methods that were scanned.
The forecast depends on the ingested files by way of the set of root classes (`IsRoot`), and the set
of methods is the least one that is closed under calls. Whether an analysis succeeds depends on the
same (`Feasible`).
-/

namespace KernelReach

/-- The results differ at most in the order of their lists. -/
structure AnalysisResult.SameUpToOrder (r r' : AnalysisResult) : Prop where
  reachable : r.reachable.Perm r'.reachable
  edges : r.edges.Perm r'.edges
  entryPoints : r.entryPoints.Perm r'.entryPoints
  kernelClasses : r.kernelClasses.Perm r'.kernelClasses
  classes : r.classes.Perm r'.classes
  diagnostics : r.diagnostics.Perm r'.diagnostics

/-! ### Lists -/

namespace OrderedSet

variable {α : Type} [DecidableEq α] [Hashable α] {s t : OrderedSet α}

theorem perm_toList (h : ∀ a, a ∈ s.toList ↔ a ∈ t.toList) : s.toList.Perm t.toList :=
  (List.perm_ext_iff_of_nodup s.nodup_toList t.nodup_toList).2 h

theorem contains_eq_of_perm (h : s.toList.Perm t.toList) (a : α) : s.contains a = t.contains a := by
  rw [Bool.eq_iff_iff, contains_iff_mem_toList, contains_iff_mem_toList, h.mem_iff]

end OrderedSet

/-- Lists are permutations of each other if they agree on the elements of every key. -/
theorem perm_of_filter_eq {α β : Type} [DecidableEq α] [DecidableEq β] (key : α → β) {l l' : List α}
    (h : ∀ k, l.filter (key · = k) = l'.filter (key · = k)) : l.Perm l' := by
  refine List.perm_iff_count.2 fun a => ?_
  have hkey : decide (key a = key a) = true := decide_eq_true rfl
  rw [← List.count_filter (p := fun b => decide (key b = key a)) hkey, h,
    List.count_filter (p := fun b => decide (key b = key a)) hkey]

theorem filter_eraseDupsBy {α : Type} {rel : α → α → Bool} {p : α → Bool}
    (h : ∀ a b, rel a b = true → p a = p b) (l : List α) :
    (l.eraseDupsBy rel).filter p = (l.filter p).eraseDupsBy rel := by
  -- Erasing takes elements from the tail before it goes on, so the induction is on the length.
  induction hn : l.length using Nat.strong_induction_on generalizing l with
  | _ n ih =>
    cases l with
    | nil => rfl
    | cons a l =>
      have hlt : (l.filter (decide <| rel · a = false)).length < n := by
        have hle := List.length_filter_le (decide <| rel · a = false) l
        rw [List.length_cons] at hn
        omega
      rw [List.eraseDupsBy_cons]
      by_cases hp : p a = true
      · rw [List.filter_cons_of_pos hp, List.filter_cons_of_pos hp, List.eraseDupsBy_cons,
          ih _ hlt _ rfl, List.filter_filter, List.filter_filter]
        simp only [Bool.and_comm]
      · -- Nothing that is picked out is erased because of `a`.
        rw [List.filter_cons_of_neg hp, List.filter_cons_of_neg hp, ih _ hlt _ rfl,
          List.filter_filter]
        congr 1
        refine List.filter_congr fun b _ => ?_
        rcases hb : p b with _ | _
        · rfl
        · have hrel : rel b a = false := by
            by_contra hrel
            exact hp (h b a (Bool.not_eq_false _ ▸ hrel) ▸ hb)
          simp [hrel]

/-- Where a condition picks out a part of a list, nothing is contributed by the rest. -/
theorem flatMap_filter_eq {α β : Type} (p : α → Prop) [DecidablePred p] (f : α → List β)
    (l : List α) : (l.filter (p ·)).flatMap f = l.flatMap fun a => if p a then f a else [] := by
  induction l with
  | nil => rfl
  | cons a l ih => by_cases hp : p a <;> simp [hp, ih]

/-- What a class contributes to the entry points, if it is known at the level in the end. -/
def Oracle.points (A : Oracle) (opts : Options) (name : ClassName) (level : Level) :
    List EntryPoint :=
  ((A.class? name .signatures).bind opts.kernel?).toList ++
    if level = .bodies then (A.class? name .bodies).toList.flatMap Class.initializers else []

namespace Session

variable {σ : Type} {P : Provider σ} {A : Oracle} {s s' : Session σ} {options : Options}
  {rules : PackageRules} {paths paths' : List StagedPath} {source source' : σ} {fuel : Nat}
  {name : ClassName} {level : Level}

/-- The entry points in an application class are what that class contributes, each method once. -/
theorem Concluded.filter_entries (hA : A.Coherent) (h : Concluded P source A options paths fuel s)
    (hn : name ∈ s.catalog.application.toList) :
    s.entries.toList.filter (·.method.owner = name) =
      (A.points options.withDefaults name (s.resolver.level name)).eraseDupsBy
        (·.method == ·.method) := by
  have hkernel {b : ClassName} {p : EntryPoint}
      (hp : p ∈ ((A.class? b .signatures).bind options.withDefaults.kernel?).toList) :
      p.method.owner = b := by
    obtain ⟨c, hc, hp⟩ := Option.bind_eq_some_iff.1 (Option.mem_toList.1 hp)
    exact Oracle.owner_of_kernel? hA hc hp
  have hinitializer {b : ClassName} {p : EntryPoint} (hp : p ∈ if s.resolver.level b = .bodies then
      (A.class? b .bodies).toList.flatMap Class.initializers else []) : p.method.owner = b := by
    split_ifs at hp
    · obtain ⟨c, hc, hp⟩ := List.mem_flatMap.1 hp
      exact Oracle.owner_of_initializer hA (Option.mem_toList.1 hc) hp
    · cases hp
  -- Every part of the list comes from one class, and so do the points with the same method.
  rw [h.entries_eq hA, filter_eraseDupsBy, List.filter_append, List.filterMap_filterMap,
    List.filterMap_eq_flatMap_toList, List.filterMap_eq_flatMap_toList, List.flatMap_assoc,
    flatMap_filter_eq, filter_flatMap_eq s.catalog.application.nodup_toList hn,
    filter_flatMap_eq s.catalog.application.nodup_toList hn, Oracle.points]
  · intro p hp
    simpa using hinitializer hp
  · intro b _ hne p hp
    simpa [hinitializer hp] using hne
  · intro p hp
    simpa using hkernel hp
  · intro b _ hne p hp
    simpa [hkernel hp] using hne
  · intro p q heq
    rw [beq_iff_eq.1 heq]

/-! ### The forecast -/

theorem mem_application_catalogOf :
    name ∈ (catalogOf rules paths).application.toList ↔ ∃ p ∈ paths, p.Admits rules name := by
  rw [application_catalogOf, List.mem_eraseDups, List.mem_filter, List.mem_filterMap]
  simp only [StagedPath.admits_iff, decide_eq_true_eq]
  constructor
  · rintro ⟨⟨p, hp, hc⟩, hi⟩
    exact ⟨p, hp, hc, hi⟩
  · rintro ⟨p, hp, hc, hi⟩
    exact ⟨⟨p, hp, hc⟩, hi⟩

/-- The classes whose methods are the seeds are the root classes. -/
theorem mem_bodies_forecast_iff (hA : A.Coherent) :
    name ∈ (forecast A options paths).bodies.toList ↔ IsRoot options.rules paths name := by
  rw [mem_bodies_forecast, mem_application_catalogOf]
  refine ⟨?_, fun hr => hr.imp_right .inl⟩
  rintro (hn | hn | ⟨p, hp, rfl⟩)
  · exact .inl hn
  · exact .inr hn
  · -- The entry points are methods of application classes.
    rw [entries_forecast, loaded_forecast] at hp
    have hp := (EntryPoints.mem_of_mem_foldl_add hp).resolve_left List.not_mem_nil
    obtain ⟨c, hc, hp⟩ := List.mem_filterMap.1 hp
    obtain ⟨n, hn, hc⟩ := List.mem_filterMap.1 hc
    rw [Oracle.owner_of_kernel? hA hc hp]
    exact .inl (mem_application_catalogOf.1 hn)

theorem mem_requests_forecast_iff (hA : A.Coherent) :
    (name, level) ∈ (forecast A options paths).requests ↔
      IsRoot options.rules paths name ∧ level = .signatures ∨
        ∃ b ∈ options.builtins, b.name = name ∧ b.level = level := by
  rw [requests_forecast]
  simp only [List.mem_append, List.mem_map, Prod.mk.injEq, mem_bodies_forecast_iff hA,
    mem_application_catalogOf]
  constructor
  · rintro ((⟨n, hn, rfl, rfl⟩ | hb) | ⟨n, hn, rfl, rfl⟩)
    · exact .inl ⟨.inl hn, rfl⟩
    · exact .inr hb
    · exact .inl ⟨hn, rfl⟩
  · rintro (⟨hn, rfl⟩ | hb)
    · exact .inr ⟨name, hn, rfl, rfl⟩
    · exact .inl (.inr hb)

section

variable (hp : paths.Perm paths')
include hp

/-- The root classes do not depend on the order. -/
theorem isRoot_of_perm (rules : PackageRules) : IsRoot rules paths = IsRoot rules paths' := by
  funext name
  simp only [IsRoot, hp.mem_iff]

theorem mem_ignored_iff (rules : PackageRules) :
    name ∈ (catalogOf rules paths).ignored.toList ↔
      name ∈ (catalogOf rules paths').ignored.toList := by
  simp only [ignored_catalogOf, List.mem_eraseDups, List.mem_filter, List.mem_filterMap, hp.mem_iff]

theorem bodies_perm (hA : A.Coherent) :
    (forecast A options paths).bodies.toList.Perm (forecast A options paths').bodies.toList := by
  refine OrderedSet.perm_toList fun name => ?_
  rw [mem_bodies_forecast_iff hA, mem_bodies_forecast_iff hA, isRoot_of_perm hp]

end

/-! ### Success -/

theorem Feasible.perm {blocks : Signature → List CallEdge} {builtins : List Builtin}
    {names names' : List ClassName} {R : Finset Signature}
    (h : Feasible A blocks fuel builtins names R) (hp : names.Perm names') :
    Feasible A blocks fuel builtins names' R := by
  have hroots : (· ∈ names) = (· ∈ names') := by
    funext name
    exact propext hp.mem_iff
  exact {
    loads := fun name hn => h.loads name (hp.mem_iff.2 hn)
    loadsBuiltins := h.loadsBuiltins
    closed := hroots ▸ h.closed
    smooth := hroots ▸ h.smooth
    enough := (hp.flatMap_right A.signatures).length_eq ▸ h.enough }

section

variable (hP : P.Follows source A) (hP' : P.Follows source' A) (hA : A.Coherent)
  (hb : ∀ b ∈ options.builtins, b.level.IsValid) (hp : paths.Perm paths')
include hP hP' hA hb hp

/-- What gets through gets through in another order. -/
theorem exists_findKernels_eq_ok
    (h : findKernels P fuel none ((new options source).ingest paths) = (.ok (), s)) :
    ∃ s', findKernels P fuel none ((new options source').ingest paths') = (.ok (), s') := by
  obtain ⟨blocks, hall⟩ := Oracle.exists_blocks hA.toGraded
  have hblocks (sig : Signature) (block : List CallEdge) (hblock : A.Block sig block) :
      block = blocks sig := by
    simpa using hall [sig] [block] (.cons hblock .nil)
  -- The seeds are listed in another order, and the backlog is as long as before.
  have hfeasible := (findKernels_concluded hP hA hb h).feasible hP hA hb hblocks h
  exact (hfeasible.perm (bodies_perm hp hA)).findKernels_eq_ok hP' hA hb hblocks

/-- What is scanned is scanned in another order, for it is the least that is closed under calls. -/
theorem scanned_subset
    (h : findKernels P fuel none ((new options source).ingest paths) = (.ok (), s))
    (h' : findKernels P fuel none ((new options source').ingest paths') = (.ok (), s')) :
    {sig | sig ∈ s.scanned.toList} ⊆ {sig | sig ∈ s'.scanned.toList} := by
  have hclosed := (isLeast_scanned hP' hA hb h').1
  rw [← isRoot_of_perm hp] at hclosed
  exact (isLeast_scanned hP hA hb h).2 hclosed

end

/-! ### The result -/

section

variable (hA : A.Coherent) (hp : paths.Perm paths')
  (h : Concluded P source A options paths fuel s)
  (h' : Concluded P source' A options paths' fuel s')
  (hs : s.scanned.toList.Perm s'.scanned.toList)
include hA h h' hs

omit hp in
/-- The edges are those of the methods that were scanned. -/
theorem Concluded.edges_perm : s.edges.toList.Perm s'.edges.toList := by
  obtain ⟨f, hf⟩ := Oracle.exists_blocks hA.toGraded
  obtain ⟨blocks, hedges, hblocks⟩ := h.survey.blocks
  obtain ⟨blocks', hedges', hblocks'⟩ := h'.survey.blocks
  rw [hedges, hedges', hf _ _ hblocks, hf _ _ hblocks']
  exact hs.flatMap_right f

include hp

omit hA hs in
theorem Concluded.application_perm :
    s.catalog.application.toList.Perm s'.catalog.application.toList := by
  rw [h.catalog, h'.catalog]
  refine OrderedSet.perm_toList fun name => ?_
  simp only [mem_application_catalogOf, hp.mem_iff]

/-- The resolvers were asked for the same. -/
theorem Concluded.served : ∃ Q, s.resolver.Served A Q ∧ s'.resolver.Served A Q := by
  have hscanned : {sig | sig ∈ s.scanned.toList} = {sig | sig ∈ s'.scanned.toList} := by
    ext sig
    exact hs.mem_iff
  have hroots : (· ∈ (forecast A options paths).bodies.toList) =
      (· ∈ (forecast A options paths').bodies.toList) := by
    funext name
    exact propext (bodies_perm hp hA).mem_iff
  refine ⟨_, h.survey.served_wants hA h.work, (h'.survey.served_wants hA h'.work).congr ?_⟩
  intro name level
  rw [mem_requests_forecast_iff hA, mem_requests_forecast_iff hA, isRoot_of_perm hp, hscanned,
    hroots]

theorem Concluded.level_eq (name : ClassName) : s.resolver.level name = s'.resolver.level name := by
  obtain ⟨Q, hserved, hserved'⟩ := h.served hA hp h' hs
  exact hserved.level_eq hserved' h.survey.resolver h'.survey.resolver name

theorem Concluded.mem_requested_iff :
    name ∈ s.resolver.requested.toList ↔ name ∈ s'.resolver.requested.toList := by
  obtain ⟨Q, hserved, hserved'⟩ := h.served hA hp h' hs
  rw [hserved.requested, hserved'.requested]

theorem Concluded.entries_perm : s.entries.toList.Perm s'.entries.toList := by
  have happ := h.application_perm hp h'
  refine perm_of_filter_eq (·.method.owner) fun name => ?_
  by_cases hn : name ∈ s.catalog.application.toList
  · rw [h.filter_entries hA hn, h'.filter_entries hA (happ.mem_iff.1 hn), h.level_eq hA hp h' hs]
  · -- There are no entry points outside of the application.
    rw [List.filter_eq_nil_iff.2, List.filter_eq_nil_iff.2]
    · rintro q hq hname
      exact hn (happ.mem_iff.2 (of_decide_eq_true hname ▸ (h'.owner_mem hA hq).1))
    · rintro q hq hname
      exact hn (of_decide_eq_true hname ▸ (h.owner_mem hA hq).1)

theorem Concluded.kernelClasses_perm : s.entries.kernelClasses.Perm s'.entries.kernelClasses := by
  refine OrderedSet.perm_toList fun name => ?_
  rw [OrderedSet.mem_toList_ofList, OrderedSet.mem_toList_ofList]
  exact ((h.entries_perm hA hp h' hs).map _).mem_iff

theorem Concluded.classReport_eq (hn : name ∈ s.resolver.requested.toList) :
    s.classReport name = s'.classReport name := by
  have happ := OrderedSet.contains_eq_of_perm (h.application_perm hp h') name
  have hrules : s.catalog.rules = s'.catalog.rules := by
    rw [h.catalog, h'.catalog, catalogOf, catalogOf, Catalog.rules_addAll, Catalog.rules_addAll]
  -- Only a class that is not known has its miss in the report.
  have hreason : s.resolver.level name = .none →
      s.resolver.unavailable? name = s'.resolver.unavailable? name := by
    obtain ⟨Q, hserved, hserved'⟩ := h.served hA hp h' hs
    exact hserved.unavailable?_eq hserved' h.survey.resolver h'.survey.resolver hA.toGraded hn
  unfold classReport
  rw [(h.kernelClasses_perm hA hp h' hs).contains_eq, hs.any_eq, happ, hrules,
    ← h.level_eq hA hp h' hs name]
  by_cases hl : s.resolver.level name = .none
  · simp only [hreason hl]
  · simp only [hl, if_false]

theorem Concluded.classes_perm : s.classify.Perm s'.classify := by
  refine (List.perm_ext_iff_of_nodup s.nodup_classify.of_map s'.nodup_classify.of_map).2 fun c => ?_
  rw [mem_classify, mem_classify, h.catalog, h'.catalog]
  -- First the classes that the filter kept out, then those that were asked for.
  refine or_congr (exists_congr fun name => ?_) (exists_congr fun name => ?_)
  · rw [mem_ignored_iff hp, h.mem_requested_iff hA hp h' hs]
  · rw [← h.mem_requested_iff hA hp h' hs]
    exact and_congr_right fun hn => by rw [h.classReport_eq hA hp h' hs hn]

theorem Concluded.diagnostics_perm : s.diagnostics.toList.Perm s'.diagnostics.toList := by
  have happ := h.application_perm hp h'
  have hlate : (fun name => !s.catalog.application.contains name) =
      fun name => !s'.catalog.application.contains name := by
    funext name
    rw [OrderedSet.contains_eq_of_perm happ]
  rw [h.diagnostics_eq, h'.diagnostics_eq, hlate]
  refine .append (.append (.append (.append (.append ?_ ?_) ?_) (.refl _)) ?_) ?_
  · exact hp.flatMap_right _
  · exact happ.flatMap_right _
  · exact (happ.filterMap _).flatMap_right _
  · exact ((bodies_perm hp hA).filter _).flatMap_right _
  · exact hs.flatMap_right _

end

/-- Over a coherent provider, let the same files be ingested in another order. An analysis that is
    not called off fails in both orders or succeeds in both, and if it succeeds, then the results
    differ at most in the order of their lists. -/
theorem findKernels_perm {A : Oracle} {source source' : σ} (hP : P.Follows source A)
    (hP' : P.Follows source' A) (hA : A.Coherent) {options : Options}
    (hb : ∀ b ∈ options.builtins, b.level.IsValid) {paths paths' : List StagedPath}
    (hp : paths.Perm paths') (fuel : Nat) :
    let run := findKernels P fuel none ((new options source).ingest paths)
    let run' := findKernels P fuel none ((new options source').ingest paths')
    (run.1 = .ok () ↔ run'.1 = .ok ()) ∧
      (run.1 = .ok () → run.2.result.SameUpToOrder run'.2.result) := by
  intro run run'
  have hiff : run.1 = .ok () ↔ run'.1 = .ok () := by
    constructor
    · intro hok
      obtain ⟨s, hs⟩ := exists_findKernels_eq_ok hP hP' hA hb hp (Prod.ext hok rfl)
      exact congrArg Prod.fst hs
    · intro hok
      obtain ⟨s, hs⟩ := exists_findKernels_eq_ok hP' hP hA hb hp.symm (Prod.ext hok rfl)
      exact congrArg Prod.fst hs
  refine ⟨hiff, fun hok => ?_⟩
  have h : run = (.ok (), run.2) := Prod.ext hok rfl
  have h' : run' = (.ok (), run'.2) := Prod.ext (hiff.1 hok) rfl
  -- Apart from the forecast, all depends on the set of methods that were scanned.
  have hend := findKernels_concluded hP hA hb h
  have hend' := findKernels_concluded hP' hA hb h'
  have hs : run.2.scanned.toList.Perm run'.2.scanned.toList := OrderedSet.perm_toList fun sig =>
    ⟨fun hsig => scanned_subset hP hP' hA hb hp h h' hsig,
      fun hsig => scanned_subset hP' hP hA hb hp.symm h' h hsig⟩
  exact ⟨hs, hend.edges_perm hA hend' hs, hend.entries_perm hA hp hend' hs,
    hend.kernelClasses_perm hA hp hend' hs, hend.classes_perm hA hp hend' hs,
    hend.diagnostics_perm hA hp hend' hs⟩

/-- In the small program with a staged class that cannot be had and one that the filter keeps out,
    it does not matter which comes first. -/
theorem findKernels_perm_sample :
    let run := findKernels Sample.oracle.toProvider 9 none ((new Sample.strictOptions ()).ingest
      [⟨"app/K.class", none⟩, ⟨"app/Gone.class", none⟩, ⟨"app/Sub.class", none⟩])
    let run' := findKernels Sample.oracle.toProvider 9 none ((new Sample.strictOptions ()).ingest
      [⟨"app/Sub.class", none⟩, ⟨"app/Gone.class", none⟩, ⟨"app/K.class", none⟩])
    run.1 = .ok () ∧ run'.1 = .ok () ∧ run.2.result.SameUpToOrder run'.2.result := by
  have hok : (findKernels Sample.oracle.toProvider 9 none ((new Sample.strictOptions ()).ingest
      [⟨"app/K.class", none⟩, ⟨"app/Gone.class", none⟩, ⟨"app/Sub.class", none⟩])).1 =
        .ok () := by cbv
  have hfollows := Sample.oracle.follows_toProvider
  have hbuiltins : ∀ b ∈ Sample.strictOptions.builtins, b.level.IsValid := by decide
  obtain ⟨hiff, hsame⟩ := findKernels_perm hfollows hfollows Sample.coherent_oracle hbuiltins
    (List.reverse_perm [⟨"app/Sub.class", none⟩, ⟨"app/Gone.class", none⟩, ⟨"app/K.class", none⟩]) 9
  exact ⟨hok, hiff.1 hok, hsame hok⟩

end Session

end KernelReach
