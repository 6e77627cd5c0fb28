import KernelReach.Proofs.Session.Conclusion

/-!
# The entry points of an analysis

The entry points are found at two times: those of the kernels before the traversal, in the classes
that were loaded, and the initializers after it, in the classes whose bodies are known by then. Over
a coherent provider both lists can be told from its answers (`Concluded.entries_eq`), for the
classes are kept as the provider has them, and the bodies of every application class with a method
are known in the end, because its methods are the seeds of the traversal (`Concluded.level_of_mem`).
-/

namespace KernelReach

/-! ### Lists of entry points -/

/-- An entry point is added unless its method is one already. -/
theorem EntryPoints.toList_foldl_add (points : List EntryPoint) :
    (points.foldl add {}).toList = points.eraseDupsBy (·.method == ·.method) := by
  -- Of the points to come, those count whose methods are not there yet.
  suffices H : ∀ e : EntryPoints, (points.foldl add e).toList = e.toList ++
      (points.filter (·.method ∉ e.methods.toList)).eraseDupsBy (·.method == ·.method) by
    have hempty := H {}
    rwa [List.filter_eq_self.2 fun p _ => by simp] at hempty
  induction points with
  | nil =>
    intro e
    exact (List.append_nil _).symm
  | cons p points ih =>
    intro e
    rw [List.foldl_cons, ih, add]
    by_cases hp : p.method ∈ e.methods.toList
    · simp [OrderedSet.contains_iff_mem_toList.2 hp, hp]
    · simp [OrderedSet.contains_iff_mem_toList, hp, List.eraseDupsBy_cons, toList, Bool.and_comm]

theorem EntryPoints.mem_of_mem_foldl_add {points : List EntryPoint} {e : EntryPoints}
    {p : EntryPoint} (h : p ∈ (points.foldl add e).toList) : p ∈ e.toList ∨ p ∈ points := by
  induction points generalizing e with
  | nil => exact .inl h
  | cons q points ih =>
    rcases ih h with hp | hp
    · rcases mem_toList_add hp with hp | rfl
      · exact .inl hp
      · exact .inr List.mem_cons_self
    · exact .inr (List.mem_cons_of_mem q hp)

theorem EntryPoints.kernelClasses_eq (e : EntryPoints) :
    e.kernelClasses = (e.toList.map (·.method.owner)).eraseDups :=
  OrderedSet.toList_ofList _

theorem Class.initializers_eq (c : Class) :
    c.initializers = c.methods.filterMap fun m =>
      if m.signature.name = "<init>" then some ⟨m.signature, .constructor⟩
      else if m.signature.name = "<clinit>" then some ⟨m.signature, .staticInitializer⟩
      else none := by
  simp [initializers, Signature.isConstructor, Signature.isStaticInitializer,
    Signature.constructorName, Signature.staticInitializerName]

theorem Options.kernel?_eq (o : Options) (c : Class) :
    o.kernel? c = if o.marker ∈ c.interfaces
      then (c.methods.find? (·.signature.name = o.entryMethod)).map (⟨·.signature, .kernel⟩)
      else none := by
  simp [kernel?, Class.implements, Class.methodNamed?, beq_eq_decide]

theorem Class.exists_of_mem_initializers {c : Class} {p : EntryPoint} (h : p ∈ c.initializers) :
    ∃ m ∈ c.methods, m.signature = p.method := by
  obtain ⟨m, hm, hp⟩ := List.mem_filterMap.1 h
  refine ⟨m, hm, ?_⟩
  split_ifs at hp <;> cases hp <;> rfl

theorem Options.exists_of_kernel? {opts : Options} {c : Class} {p : EntryPoint}
    (h : opts.kernel? c = some p) : ∃ m ∈ c.methods, m.signature = p.method := by
  unfold Options.kernel? at h
  split_ifs at h
  obtain ⟨m, hm, rfl⟩ := Option.map_eq_some_iff.1 h
  exact ⟨m, List.mem_of_find?_eq_some hm, rfl⟩

/-- A class declares its methods as its own, so its entry points are in it. -/
theorem Oracle.owner_of_kernel? {A : Oracle} (hA : A.Coherent) {opts : Options} {name : ClassName}
    {c : Class} {p : EntryPoint} (hc : A.class? name .signatures = some c)
    (hp : opts.kernel? c = some p) : p.method.owner = name := by
  obtain ⟨m, hm, hsig⟩ := Options.exists_of_kernel? hp
  rw [← hsig, hA.owner_eq Level.isValid_signatures (class?_eq_some.1 hc) hm]

theorem Oracle.owner_of_initializer {A : Oracle} (hA : A.Coherent) {name : ClassName} {c : Class}
    {p : EntryPoint} (hc : A.class? name .bodies = some c) (hp : p ∈ c.initializers) :
    p.method.owner = name := by
  obtain ⟨m, hm, hsig⟩ := Class.exists_of_mem_initializers hp
  rw [← hsig, hA.owner_eq Level.isValid_bodies (class?_eq_some.1 hc) hm]

/-! ### What complaints are about -/

theorem ClassName.ext {a b : ClassName} (h : a.text = b.text) : a = b :=
  congrArg ClassName.mk h

theorem Session.StagedPath.kind_of_mem_complaints {p : StagedPath} {d : Diagnostic}
    (h : d ∈ p.complaints) : d.kind = .ingest := by
  unfold complaints at h
  cases hp : p.error <;> simp_all

theorem Oracle.of_mem_missing {A : Oracle} {kind : DiagnosticKind} {name : ClassName}
    {level : Level} {d : Diagnostic} (h : d ∈ A.missing kind name level) :
    d.kind = kind ∧ d.subject = name.text := by
  unfold missing at h
  split at h
  · cases h
  · split_ifs at h
    · cases List.mem_singleton.1 h
      exact ⟨rfl, rfl⟩
    · cases h

theorem Options.of_mem_complaints {o : Options} {c : Class} {d : Diagnostic}
    (h : d ∈ o.complaints c) : d.kind = .entryPoint ∧ d.subject = c.name.text := by
  unfold complaints at h
  split_ifs at h
  · cases List.mem_singleton.1 h
    exact ⟨rfl, rfl⟩
  · cases h

theorem Oracle.kind_of_mem_complaints {A : Oracle} {sig : Signature} {d : Diagnostic}
    (h : d ∈ A.complaints sig) : d.kind = .scan := by
  unfold complaints at h
  split at h
  · cases h
  split at h
  · cases h
  split at h
  · cases h
  · unfold Body.complaints at h
    obtain ⟨fault, -, rfl⟩ := by simpa using h
    rfl

/-- No class is known better than with its bodies. -/
theorem Resolver.Sound.level_eq_bodies {σ : Type} {P : Provider σ} {start : σ} {A : Oracle}
    {r : Resolver σ} {name : ClassName} (h : r.Sound P start A) (hl : .bodies ≤ r.level name) :
    r.level name = .bodies := by
  rcases hc : r.classes[name]? with _ | c
  · rw [Resolver.level_eq_none hc] at hl
    exact absurd hl (by decide)
  · rw [Resolver.level_eq_of_getElem? hc] at hl ⊢
    exact (h.classes name c hc).1.eq_bodies hl

namespace Session

variable {σ : Type} {P : Provider σ} {A : Oracle} {s : Session σ} {options : Options}
  {paths : List StagedPath} {source : σ} {fuel : Nat} {name : ClassName}

/-! ### The classes of the application -/

theorem application_catalogOf (rules : PackageRules) (paths : List StagedPath) :
    (catalogOf rules paths).application.toList =
      ((paths.filterMap StagedPath.class?).filter (rules.classify · = .include)).eraseDups :=
  (Catalog.addAll_new rules _).1

theorem ignored_catalogOf (rules : PackageRules) (paths : List StagedPath) :
    (catalogOf rules paths).ignored.toList =
      ((paths.filterMap StagedPath.class?).filter (rules.classify · = .exclude)).eraseDups :=
  (Catalog.addAll_new rules _).2

theorem mem_requests_forecast (hn : name ∈ (catalogOf options.rules paths).application.toList) :
    (name, .signatures) ∈ (forecast A options paths).requests := by
  rw [requests_forecast]
  exact List.mem_append_left _ (List.mem_append_left _ (List.mem_map.2 ⟨name, hn, rfl⟩))

section

variable (hA : A.Coherent) (h : Concluded P source A options paths fuel s)
include hA h

/-- The bodies of an application class that has a method are known in the end, if they can be
    had. -/
theorem Concluded.level_of_mem {c : Class}
    (hn : name ∈ (catalogOf options.rules paths).application.toList)
    (hc : A.resolve name .bodies = .ok c) (hm : c.methods ≠ []) :
    s.resolver.level name = .bodies := by
  obtain ⟨m, hm⟩ := List.exists_mem_of_ne_nil _ hm
  have ho := hA.owner_eq Level.isValid_bodies hc hm
  have hseed : A.Seeds (· ∈ (forecast A options paths).bodies.toList) m.signature := by
    obtain ⟨_, d, rfl, hd, hmem⟩ := (Oracle.seeds_iff_of_has hA.toGraded
      (Oracle.has_of_bodies hc)).2 (List.mem_map_of_mem hm)
    exact ⟨_, d, (mem_bodies_forecast ..).2 (.inl hn), hd, hmem⟩
  -- The method is a seed, and its lookup has asked for the bodies.
  have hrequest := (h.survey.smooth hA h.work (.seed hseed)).2 _ _ .named
  rw [ho] at hrequest
  exact h.survey.resolver.level_eq_bodies (h.survey.served.kept hrequest hc)

/-- The classes that are searched for initializers are as the provider has them with their
    bodies. -/
theorem Concluded.reached_eq :
    (s.loaded.toList.filterMap fun c => s.resolver.classes[c.name]?.filter (·.level = .bodies)) =
      (s.catalog.application.toList.filter (s.resolver.level · = .bodies)).filterMap
        (A.class? · .bodies) := by
  rw [h.loaded, loaded_forecast, h.catalog, List.filterMap_filterMap, List.filterMap_filter]
  refine List.filterMap_congr fun name _ => ?_
  have hname {c : Class} (hc : A.class? name .signatures = some c) : c.name = name :=
    hA.name_eq Level.isValid_signatures (Oracle.class?_eq_some.1 hc)
  by_cases hl : s.resolver.level name = .bodies
  · -- The class is kept with its bodies, so it can be had with them and with its signatures.
    rcases hd : s.resolver.classes[name]? with _ | d
    · rw [Resolver.level_eq_none hd] at hl
      exact absurd hl (by decide)
    have hlevel : d.level = .bodies := by rwa [Resolver.level_eq_of_getElem? hd] at hl
    have hres := (h.survey.resolver.classes name d hd).2
    rw [hlevel] at hres
    obtain ⟨c, hc, -⟩ := hA.ok_of_le Level.isValid_signatures Level.isValid_bodies (by decide) hres
    have hc := Oracle.class?_eq_some.2 hc
    simp [hc, hname hc, hd, hlevel, hl, Oracle.class?_eq_some.2 hres]
  · rcases hc : A.class? name .signatures with _ | c
    · simp [hl]
    · simp only [Option.bind_some, hname hc, hl, decide_false, Bool.false_eq_true, if_false]
      refine Option.filter_eq_none_iff.2 fun d hd => ?_
      rw [Resolver.level_eq_of_getElem? hd] at hl
      simpa using hl

/-- The entry points, in the order in which they are found. -/
theorem Concluded.entries_eq :
    s.entries.toList =
      ((s.catalog.application.toList.filterMap (A.class? · .signatures)).filterMap
          options.withDefaults.kernel? ++
        ((s.catalog.application.toList.filter (s.resolver.level · = .bodies)).filterMap
          (A.class? · .bodies)).flatMap Class.initializers).eraseDupsBy (·.method == ·.method) := by
  -- The initializers are added to the kernels, which were added to nothing.
  rw [← EntryPoints.toList_foldl_add, List.foldl_append, ← h.reached_eq hA, h.entries,
    entries_forecast, h.loaded, loaded_forecast, h.catalog]

/-- An entry point is a method of an application class that can be had. -/
theorem Concluded.owner_mem {p : EntryPoint} (hp : p ∈ s.entries.toList) :
    p.method.owner ∈ s.catalog.application.toList ∧
      ∃ c, A.resolve p.method.owner .signatures = .ok c := by
  rw [h.entries_eq hA, ← EntryPoints.toList_foldl_add] at hp
  have hp := (EntryPoints.mem_of_mem_foldl_add hp).resolve_left List.not_mem_nil
  rcases List.mem_append.1 hp with hp | hp
  · obtain ⟨c, hc, hp⟩ := List.mem_filterMap.1 hp
    obtain ⟨name, hn, hc⟩ := List.mem_filterMap.1 hc
    rw [Oracle.owner_of_kernel? hA hc hp]
    exact ⟨hn, c, Oracle.class?_eq_some.1 hc⟩
  · obtain ⟨c, hc, hp⟩ := List.mem_flatMap.1 hp
    obtain ⟨name, hn, hc⟩ := List.mem_filterMap.1 hc
    obtain ⟨d, hd, -⟩ := hA.ok_of_le Level.isValid_signatures Level.isValid_bodies (by decide)
      (Oracle.class?_eq_some.1 hc)
    rw [Oracle.owner_of_initializer hA hc hp]
    exact ⟨(List.mem_filter.1 hn).1, d, hd⟩

end

/-! ### What there is to say about a class -/

/-- All that an analysis has to say, in order. -/
theorem Concluded.diagnostics_eq (h : Concluded P source A options paths fuel s) :
    s.diagnostics.toList = paths.flatMap StagedPath.complaints ++
      s.catalog.application.toList.flatMap (A.missing .resolve · .signatures) ++
      (s.catalog.application.toList.filterMap (A.class? · .signatures)).flatMap
        options.withDefaults.complaints ++
      options.builtins.flatMap (fun b => A.missing .builtin b.name b.level) ++
      ((forecast A options paths).bodies.toList.filter
        (!s.catalog.application.contains ·)).flatMap (A.missing .resolve · .signatures) ++
      s.scanned.toList.flatMap A.complaints := by
  rw [h.catalog]
  exact h.survey.diagnostics

section

variable (h : Concluded P source A options paths fuel s)
  (hn : name ∈ s.catalog.application.toList)
include h hn

/-- An application class is reported as missing if it is, and once. -/
theorem Concluded.filter_resolve :
    s.diagnostics.toList.filter (fun d => d.kind = .resolve ∧ d.subject = name.text) =
      A.missing .resolve name .signatures := by
  rw [h.diagnostics_eq]
  simp only [List.filter_append]
  rw [filter_flatMap_eq_nil (l := paths), filter_flatMap_eq s.catalog.application.nodup_toList hn,
    filter_flatMap_eq_nil (f := options.withDefaults.complaints),
    filter_flatMap_eq_nil (l := options.builtins), filter_flatMap_eq_nil,
    filter_flatMap_eq_nil (f := A.complaints)]
  · simp
  · intro sig _ d hd
    simp [Oracle.kind_of_mem_complaints hd]
  · -- The classes that are reported later do not belong to the application.
    intro b hb d hd
    have hout : b ∉ s.catalog.application.toList := by
      simpa [OrderedSet.contains_iff_mem_toList, ← Bool.not_eq_true] using (List.mem_filter.1 hb).2
    have hne : b ≠ name := fun heq => hout (heq ▸ hn)
    simpa [Oracle.of_mem_missing hd] using mt ClassName.ext hne
  · intro b _ d hd
    simp [Oracle.of_mem_missing hd]
  · intro c _ d hd
    simp [Options.of_mem_complaints hd]
  · intro d hd
    simp [Oracle.of_mem_missing hd]
  · intro b _ hne d hd
    simpa [Oracle.of_mem_missing hd] using mt ClassName.ext hne
  · intro p _ d hd
    simp [StagedPath.kind_of_mem_complaints hd]

/-- An application class that is marked as a kernel is reported if it has no entry method, and
    once. -/
theorem Concluded.filter_entryPoint (hA : A.Graded) {c : Class}
    (hc : A.resolve name .signatures = .ok c) :
    s.diagnostics.toList.filter (fun d => d.kind = .entryPoint ∧ d.subject = name.text) =
      options.withDefaults.complaints c := by
  rw [h.diagnostics_eq, List.filterMap_eq_flatMap_toList, List.flatMap_assoc]
  simp only [List.filter_append]
  have habout {b : ClassName} {d : Diagnostic} (hd : d ∈ (A.class? b .signatures).toList.flatMap
      options.withDefaults.complaints) : d.kind = .entryPoint ∧ d.subject = b.text := by
    obtain ⟨c', hc', hd⟩ := List.mem_flatMap.1 hd
    have hb := Oracle.class?_eq_some.1 (Option.mem_toList.1 hc')
    rw [← hA.name_eq Level.isValid_signatures hb]
    exact Options.of_mem_complaints hd
  rw [filter_flatMap_eq_nil (l := paths), filter_flatMap_eq_nil (l := s.catalog.application.toList),
    filter_flatMap_eq s.catalog.application.nodup_toList hn,
    filter_flatMap_eq_nil (l := options.builtins), filter_flatMap_eq_nil,
    filter_flatMap_eq_nil (f := A.complaints)]
  · simp [Oracle.class?_eq_some.2 hc]
  · intro sig _ d hd
    simp [Oracle.kind_of_mem_complaints hd]
  · intro b _ d hd
    simp [Oracle.of_mem_missing hd]
  · intro b _ d hd
    simp [Oracle.of_mem_missing hd]
  · intro d hd
    simp [habout hd]
  · intro b _ hne d hd
    simpa [habout hd] using mt ClassName.ext hne
  · intro b _ d hd
    simp [Oracle.of_mem_missing hd]
  · intro p _ d hd
    simp [StagedPath.kind_of_mem_complaints hd]

end

/-- Over a coherent provider, the entry points of an analysis that succeeds are, each method once,
    the entry methods of the application classes that list the marker, and then the constructors and
    static initializers of the application classes whose bodies are known in the end, both in the
    order of the catalog and of the declarations. The bodies of every application class that has a
    method are known in the end, if they can be had. A class that lists the marker and has no entry
    method is reported once, and so is an application class that cannot be had with its signatures.
    The kernel classes are the classes of the entry points, each once, and they all belong to the
    application. -/
theorem entryPoints_exact {A : Oracle} {source : σ} (hP : P.Follows source A) (hA : A.Coherent)
    {options : Options} (hb : ∀ b ∈ options.builtins, b.level.IsValid) {paths : List StagedPath}
    {fuel : Nat} {patience : Option Nat}
    (h : findKernels P fuel patience ((new options source).ingest paths) = (.ok (), s)) :
    let marker := if options.marker.text = "" then Options.defaultMarker else options.marker
    let entryMethod :=
      if options.entryMethod = "" then Options.defaultEntryMethod else options.entryMethod
    let apps := s.result.applicationClasses
    let kernels : List EntryPoint :=
      (apps.filterMap (A.class? · .signatures)).filterMap fun c =>
        if marker ∈ c.interfaces
        then (c.methods.find? (·.signature.name = entryMethod)).map (⟨·.signature, .kernel⟩)
        else none
    let initializers : List EntryPoint :=
      ((apps.filter (s.resolver.level · = .bodies)).filterMap (A.class? · .bodies)).flatMap fun c =>
        c.methods.filterMap fun m =>
          if m.signature.name = "<init>" then some ⟨m.signature, .constructor⟩
          else if m.signature.name = "<clinit>" then some ⟨m.signature, .staticInitializer⟩
          else none
    apps = ((paths.filterMap StagedPath.class?).filter
      (options.rules.classify · = .include)).eraseDups ∧
    s.result.entryPoints = (kernels ++ initializers).eraseDupsBy (·.method == ·.method) ∧
    (∀ name ∈ apps, ∀ c, A.resolve name .bodies = .ok c → c.methods ≠ [] →
      s.resolver.level name = .bodies) ∧
    (∀ name ∈ apps, ∀ c, A.resolve name .signatures = .ok c → marker ∈ c.interfaces →
      (∀ m ∈ c.methods, m.signature.name ≠ entryMethod) →
      s.result.diagnostics.filter (fun d => d.kind = .entryPoint ∧ d.subject = name.text) =
        [⟨.entryPoint, name.text, "implements " ++ marker.text ++ " but declares no " ++
          entryMethod ++ " method"⟩]) ∧
    (∀ name ∈ apps, ∀ e, A.resolve name .signatures = .error e →
      s.result.diagnostics.filter (fun d => d.kind = .resolve ∧ d.subject = name.text) =
        [⟨.resolve, name.text, e.message⟩]) ∧
    s.result.kernelClasses = (s.result.entryPoints.map (·.method.owner)).eraseDups ∧
    ∀ name ∈ s.result.kernelClasses, name ∈ apps := by
  intro marker entryMethod apps kernels initializers
  have hend := findKernels_concluded hP hA hb h
  have hcatalog : ∀ name ∈ apps, name ∈ (catalogOf options.rules paths).application.toList :=
    fun name hn => hend.catalog ▸ hn
  refine ⟨?_, ?_, ?_, ?_, ?_, s.entries.kernelClasses_eq, ?_⟩
  · rw [← application_catalogOf, ← hend.catalog]
    rfl
  · refine (hend.entries_eq hA).trans ?_
    rw [funext options.withDefaults.kernel?_eq, funext Class.initializers_eq]
    rfl
  · intro name hn c hc hm
    exact hend.level_of_mem hA (hcatalog name hn) hc hm
  · intro name hn c hc hmarker hentry
    refine (hend.filter_entryPoint hn hA.toGraded hc).trans ?_
    have hcomplaint : c.implements options.withDefaults.marker ∧
        c.methodNamed? options.withDefaults.entryMethod = none :=
      ⟨List.contains_iff_mem.2 hmarker,
        List.find?_eq_none.2 fun m hm => by rw [beq_iff_eq]; exact hentry m hm⟩
    rw [Options.complaints, if_pos hcomplaint, hA.name_eq Level.isValid_signatures hc]
    rfl
  · intro name hn e he
    have hu := (hend.survey.served.missed (.inl (mem_requests_forecast (hcatalog name hn))) he).1
    have hdemand := Oracle.demand_eq_error.2 ⟨e, he, rfl⟩
    refine (hend.filter_resolve hn).trans ?_
    rw [Oracle.missing_of_error hdemand (by rwa [AnalysisError.isUnavailable_ofProvider]),
      AnalysisError.ofProvider, if_pos hu]
    rfl
  · intro name hn
    obtain ⟨p, hp, rfl⟩ := List.mem_map.1 (OrderedSet.mem_toList_ofList.1 hn)
    exact (hend.owner_mem hA hp).1

end Session

namespace Sample

/-- The first of three classes is a kernel and has both kinds of initializers, the second is not
    one, and the third is one without the entry method. -/
def entryClasses : List Class :=
  [{ name := ⟨"app.K"⟩, level := .bodies, flags := .isPublic, superclass := none
     interfaces := [⟨"api.Kernel"⟩]
     methods := [⟨signature "app.K" "<clinit>", .isStatic, some ⟨[], none⟩⟩,
      ⟨signature "app.K" "<init>", .isPublic, some ⟨[], none⟩⟩,
      ⟨signature "app.K" "run", .isPublic, some ⟨[], none⟩⟩] },
   { name := ⟨"app.Helper"⟩, level := .bodies, flags := .isPublic, superclass := none
     interfaces := []
     methods := [⟨signature "app.Helper" "<init>", .isPublic, some ⟨[], none⟩⟩,
      ⟨signature "app.Helper" "run", .isPublic, some ⟨[], none⟩⟩] },
   { name := ⟨"app.Idle"⟩, level := .bodies, flags := .isPublic, superclass := none
     interfaces := [⟨"api.Kernel"⟩]
     methods := [⟨signature "app.Idle" "walk", .isPublic, some ⟨[], none⟩⟩] }]

/-- The answers of a provider that has the classes. -/
def entryOracle : Oracle := .ofClasses entryClasses

/-- The staged files of the classes, and that of a class that cannot be had. -/
def entryPaths : List Session.StagedPath :=
  [⟨"app/K.class", none⟩, ⟨"app/Helper.class", none⟩, ⟨"app/Gone.class", none⟩,
    ⟨"app/Idle.class", none⟩]

end Sample

namespace Session

/-- The entry method of the kernel comes before the initializers of both classes. -/
theorem entryPoints_exact_sample :
    let run := findKernels Sample.entryOracle.toProvider 9 none
      ((new Sample.options ()).ingest Sample.entryPaths)
    run.1 = .ok () ∧
    run.2.result.applicationClasses = [⟨"app.K"⟩, ⟨"app.Helper"⟩, ⟨"app.Gone"⟩, ⟨"app.Idle"⟩] ∧
    run.2.result.entryPoints =
      [⟨Sample.signature "app.K" "run", .kernel⟩,
        ⟨Sample.signature "app.K" "<clinit>", .staticInitializer⟩,
        ⟨Sample.signature "app.K" "<init>", .constructor⟩,
        ⟨Sample.signature "app.Helper" "<init>", .constructor⟩] ∧
    run.2.result.kernelClasses = [⟨"app.K"⟩, ⟨"app.Helper"⟩] ∧
    run.2.result.diagnostics.filter (fun d => d.kind = .entryPoint ∧ d.subject = "app.Idle") =
      [⟨.entryPoint, "app.Idle", "implements api.Kernel but declares no run method"⟩] ∧
    run.2.result.diagnostics.filter (fun d => d.kind = .resolve ∧ d.subject = "app.Gone") =
      [⟨.resolve, "app.Gone", "app.Gone: class not found"⟩] := by
  intro run
  have hok : run.1 = .ok () := by
    change (findKernels Sample.entryOracle.toProvider 9 none
      ((new Sample.options ()).ingest Sample.entryPaths)).1 = .ok ()
    cbv
  have hrun : run = (.ok (), run.2) := Prod.ext hok rfl
  have happs : ((Sample.entryPaths.filterMap StagedPath.class?).filter
      (Sample.options.rules.classify · = .include)).eraseDups =
        [⟨"app.K"⟩, ⟨"app.Helper"⟩, ⟨"app.Gone"⟩, ⟨"app.Idle"⟩] := by cbv
  obtain ⟨hlist, hpoints, hlevel, hidle, hmissing, hkernels, -⟩ := entryPoints_exact
    Sample.entryOracle.follows_toProvider (Oracle.coherent_ofClasses (by decide)) (by decide) hrun
  rw [hlist, happs] at hpoints hlevel hidle hmissing
  have hK := hlevel ⟨"app.K"⟩ (by simp) _ rfl (by decide)
  have hHelper := hlevel ⟨"app.Helper"⟩ (by simp) _ rfl (by decide)
  have hIdle := hlevel ⟨"app.Idle"⟩ (by simp) _ rfl (by decide)
  have hentries : run.2.result.entryPoints =
      [⟨Sample.signature "app.K" "run", .kernel⟩,
        ⟨Sample.signature "app.K" "<clinit>", .staticInitializer⟩,
        ⟨Sample.signature "app.K" "<init>", .constructor⟩,
        ⟨Sample.signature "app.Helper" "<init>", .constructor⟩] := by
    refine hpoints.trans ?_
    -- Whatever is known of the class that cannot be had, it has no initializers.
    by_cases hGone : run.2.resolver.level ⟨"app.Gone"⟩ = .bodies
    · simp only [List.filter_cons, List.filter_nil, hK, hHelper, hIdle, hGone, decide_true, if_true]
      decide +kernel
    · simp only [List.filter_cons, List.filter_nil, hK, hHelper, hIdle, hGone, decide_true, if_true,
        decide_false, Bool.false_eq_true, if_false]
      decide +kernel
  rw [hentries] at hkernels
  exact ⟨hok, hlist.trans happs, hentries, hkernels.trans (by decide +kernel),
    hidle ⟨"app.Idle"⟩ (by simp) _ rfl (by decide) (by decide),
    hmissing ⟨"app.Gone"⟩ (by simp) _ rfl⟩

end Session

end KernelReach
