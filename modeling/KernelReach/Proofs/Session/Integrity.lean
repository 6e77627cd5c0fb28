import KernelReach.Proofs.Session.Entry
import KernelReach.Report.OfResult

/-!
# The parts of a result fit together

The reports on classes are put together after the fact, from the catalog, the requests of the
resolver, the entry points and the methods that were scanned. When an analysis of a fresh session
has succeeded, the result refers to nothing that is not in it (`AnalysisResult.Consistent`): the
classes of the methods and of the kernels are reported as classes to be emitted, the calls begin at
methods that are reachable, and those that are followed end at one.
-/

namespace KernelReach

section

variable {α β : Type} {rel : α → β → Prop} {as : List α} {bs : List β}

theorem forall₂_exists_right {a : α} (h : List.Forall₂ rel as bs) (ha : a ∈ as) :
    ∃ b ∈ bs, rel a b := by
  induction h with
  | nil => cases ha
  | cons hrel _ ih =>
    rcases List.mem_cons.1 ha with rfl | ha
    · exact ⟨_, List.mem_cons_self, hrel⟩
    · obtain ⟨b, hb, hab⟩ := ih ha
      exact ⟨b, List.mem_cons_of_mem _ hb, hab⟩

theorem forall₂_exists_left {b : β} (h : List.Forall₂ rel as bs) (hb : b ∈ bs) :
    ∃ a ∈ as, rel a b :=
  forall₂_exists_right h.flip hb

end

/-- The parts of the result refer to each other. -/
structure AnalysisResult.Consistent (r : AnalysisResult) : Prop where
  /-- There is one report on a class. -/
  nodup : (r.classes.map ClassReport.name).Nodup
  /-- The class of a method is known with its bodies, and is to be emitted. -/
  reachable : ∀ sig ∈ r.reachable, ∃ c ∈ r.classes,
    c.name = sig.owner ∧ c.disposition = .emit ∧ c.level = .bodies
  /-- A kernel class is to be emitted. -/
  kernels : ∀ name ∈ r.kernelClasses, ∃ c ∈ r.classes, c.name = name ∧ c.disposition = .emit
  /-- No other class is. -/
  emitted : ∀ c ∈ r.classes, c.disposition = .emit → c.name ∈ r.kernelClasses ∨
    c.level = .bodies ∧ ∃ sig ∈ r.reachable, sig.owner = c.name
  caller : ∀ e ∈ r.edges, e.caller ∈ r.reachable
  callee : ∀ e ∈ r.edges, e.status = .followed ↔ e.callee ∈ r.reachable
  /-- A class of which nothing is known is ignored, and no other class is. -/
  ignored : ∀ c ∈ r.classes, c.level = .none ↔ c.disposition = .ignored

/-- What is asked of an analysis of the small program whose filter keeps out all of its classes but
    the kernel and a class that cannot be had. -/
def Sample.strictOptions : Options :=
  { options with rules := ⟨[⟨"app.K"⟩, ⟨"app.Gone"⟩], [], ["app."]⟩ }

namespace Session

variable {σ : Type} {P : Provider σ} {A : Oracle} {s : Session σ} {options : Options}
  {paths : List StagedPath} {source : σ} {fuel : Nat} {name : ClassName}

/-! ### Reports on classes -/

/-- The report is on an ingested class that the filter kept out, or on a class that was asked
    for. -/
theorem mem_classify {c : ClassReport} :
    c ∈ s.classify ↔
      (∃ name ∈ s.catalog.ignored.toList, name ∉ s.resolver.requested.toList ∧
        c = ⟨name, .none, .ignored, false, false, "excluded by package filter"⟩) ∨
      ∃ name ∈ s.resolver.requested.toList, c = s.classReport name := by
  unfold classify
  simp only [List.mem_append, List.mem_map, List.mem_filter, Bool.not_eq_true',
    ← Bool.not_eq_true, OrderedSet.contains_iff_mem_toList, and_assoc, eq_comm (a := c)]

@[simp]
theorem classReport_name (s : Session σ) (name : ClassName) : (s.classReport name).name = name := by
  unfold classReport
  dsimp only
  split_ifs <;> rfl

@[simp]
theorem classReport_level (s : Session σ) (name : ClassName) :
    (s.classReport name).level = s.resolver.level name := by
  unfold classReport
  dsimp only
  split_ifs <;> rfl

theorem classReport_ignored_iff :
    (s.classReport name).disposition = .ignored ↔ s.resolver.level name = .none := by
  unfold classReport
  dsimp only
  split_ifs with hl <;> simp [hl]

theorem classReport_emit_iff :
    (s.classReport name).disposition = .emit ↔ s.resolver.level name ≠ .none ∧
      (name ∈ s.entries.kernelClasses ∨
        s.resolver.level name = .bodies ∧ ∃ sig ∈ s.scanned.toList, sig.owner = name) := by
  unfold classReport
  simp only [List.contains_iff_mem, List.any_eq_true, decide_eq_true_eq]
  split_ifs with hl he
  · simp [hl]
  · exact iff_of_true rfl ⟨hl, he⟩
  · exact iff_of_false (by simp) fun h => he h.2

theorem nodup_classify (s : Session σ) : (s.classify.map ClassReport.name).Nodup := by
  have hexcluded : s.classify.map ClassReport.name =
      s.catalog.ignored.toList.filter (!s.resolver.requested.contains ·) ++
        s.resolver.requested.toList := by
    simp [classify, Function.comp_def]
  -- The first part of the list leaves out what was asked for.
  rw [hexcluded, List.nodup_append]
  refine ⟨s.catalog.ignored.nodup_toList.filter _, s.resolver.requested.nodup_toList, ?_⟩
  rintro a ha b hb rfl
  have hcontains := OrderedSet.contains_iff_mem_toList.2 hb
  simp [hcontains] at ha

/-- A class that was asked for and is known is reported with its level. -/
theorem exists_report (hr : name ∈ s.resolver.requested.toList) (hl : s.resolver.level name ≠ .none)
    (he : name ∈ s.entries.kernelClasses ∨
      s.resolver.level name = .bodies ∧ ∃ sig ∈ s.scanned.toList, sig.owner = name) :
    ∃ c ∈ s.result.classes,
      c.name = name ∧ c.disposition = .emit ∧ c.level = s.resolver.level name :=
  ⟨s.classReport name, mem_classify.2 (.inr ⟨name, hr, rfl⟩), classReport_name s name,
    classReport_emit_iff.2 ⟨hl, he⟩, classReport_level s name⟩

/-! ### The graph -/

section

variable {start : σ} {roots : ClassName → Prop} {R : Set Signature}
  (h : Orderly P start A roots R s)
include h

/-- A method that was scanned leads to itself. -/
theorem Orderly.exists_leadsTo {sig : Signature} (hsig : sig ∈ s.scanned.toList) :
    ∃ m b, A.LeadsTo sig m b := by
  obtain ⟨blocks, -, hblocks⟩ := h.blocks
  obtain ⟨_, -, m, b, hm, -⟩ := forall₂_exists_right hblocks hsig
  exact ⟨m, b, hm⟩

/-- An edge is drawn for a call in the body of a method that was scanned. -/
theorem Orderly.exists_draws {e : CallEdge} (he : e ∈ s.edges.toList) :
    ∃ sig ∈ s.scanned.toList, ∃ m b, A.LeadsTo sig m b ∧ ∃ call ∈ b.calls, A.Draws sig call e := by
  obtain ⟨blocks, hedges, hblocks⟩ := h.blocks
  rw [hedges] at he
  obtain ⟨block, hblock, he⟩ := List.mem_flatten.1 he
  obtain ⟨sig, hsig, m, b, hm, hdraws⟩ := forall₂_exists_left hblocks hblock
  exact ⟨sig, hsig, m, b, hm, forall₂_exists_left hdraws he⟩

/-- A call is followed if and only if it leads to a method that was scanned. -/
theorem Orderly.followed_iff (hA : A.Coherent) (hw : s.work.toList = []) {e : CallEdge}
    (he : e ∈ s.edges.toList) : e.status = .followed ↔ e.callee ∈ s.scanned.toList := by
  obtain ⟨sig, hsig, m, b, hm, call, hcall, hdraw⟩ := h.exists_draws he
  have hverdict := hdraw.verdict
  generalize e.callee = callee, e.status = status at hverdict ⊢
  constructor
  · rintro rfl
    cases hverdict with
    | followed hn => exact (h.toExplored.closed hA hw).call hsig hm ⟨call, hcall, hn.reaches⟩
  · intro hc
    -- A method that was scanned can be had, so there is no complaint about it.
    obtain ⟨n, b', hn⟩ := h.exists_leadsTo hc
    cases hverdict with
    | followed => rfl
    | declined hd => exact absurd hn.toResolves (hd.not_resolves hA.toGraded)
    | noBody hn' herror =>
      rw [hn'.unique hn.toResolves, hn.body] at herror
      cases herror

end

/-! ### The whole result -/

section

variable (hA : A.Coherent) (h : Concluded P source A options paths fuel s)
include hA h

/-- The class of a method that was scanned is known with its bodies. -/
theorem Concluded.level_of_scanned {sig : Signature} (hsig : sig ∈ s.scanned.toList) :
    sig.owner ∈ s.resolver.requested.toList ∧ s.resolver.level sig.owner = .bodies := by
  obtain ⟨m, b, hm⟩ := h.survey.toOrderly.exists_leadsTo hsig
  obtain ⟨c, hc⟩ := hm.exists_class
  -- It was asked for when the method was looked up, under its own name or under another one.
  have hrequest : s.Requests A (fun name level =>
      (name, level) ∈ (forecast A options paths).requests) sig.owner .bodies := by
    obtain ⟨u, hu, rfl | ⟨n, hn, rfl⟩⟩ := h.survey.looked sig (h.survey.marked sig hsig)
    · exact .inr ⟨u, hu, .named⟩
    · exact .inr ⟨u, hu, (hn.declaring hA).2⟩
  exact ⟨(h.survey.served.requested _).2 ⟨_, hrequest⟩,
    h.survey.resolver.level_eq_bodies (h.survey.served.kept hrequest hc)⟩

/-- A kernel class was asked for, and is known. -/
theorem Concluded.level_of_kernel (hn : name ∈ s.entries.kernelClasses) :
    name ∈ s.resolver.requested.toList ∧ s.resolver.level name ≠ .none := by
  obtain ⟨p, hp, rfl⟩ := List.mem_map.1 (OrderedSet.mem_toList_ofList.1 hn)
  obtain ⟨happ, c, hc⟩ := h.owner_mem hA hp
  rw [h.catalog] at happ
  have hrequest : s.Requests A (fun name level =>
      (name, level) ∈ (forecast A options paths).requests) p.method.owner .signatures :=
    .inl (mem_requests_forecast happ)
  -- It was loaded with its signatures, so it is known with them at least.
  refine ⟨(h.survey.served.requested _).2 ⟨_, hrequest⟩, fun hnone => ?_⟩
  have hle := h.survey.served.kept hrequest hc
  rw [hnone] at hle
  exact absurd hle (by decide)

theorem Concluded.consistent : s.result.Consistent where
  nodup := s.nodup_classify
  reachable := by
    intro sig hsig
    obtain ⟨hr, hl⟩ := h.level_of_scanned hA hsig
    obtain ⟨c, hc, hname, hemit, hlevel⟩ := exists_report hr (by rw [hl]; decide)
      (.inr ⟨hl, sig, hsig, rfl⟩)
    exact ⟨c, hc, hname, hemit, hlevel.trans hl⟩
  kernels := by
    intro name hn
    obtain ⟨hr, hl⟩ := h.level_of_kernel hA hn
    obtain ⟨c, hc, hname, hemit, -⟩ := exists_report hr hl (.inl hn)
    exact ⟨c, hc, hname, hemit⟩
  emitted := by
    intro c hc hemit
    rcases mem_classify.1 hc with ⟨name, -, -, rfl⟩ | ⟨name, -, rfl⟩
    · cases hemit
    · rw [classReport_name, classReport_level]
      exact (classReport_emit_iff.1 hemit).2
  caller := by
    intro e he
    obtain ⟨sig, hsig, m, b, -, call, -, hdraw⟩ := h.survey.toOrderly.exists_draws he
    rw [hdraw.caller]
    exact hsig
  callee := fun e he => h.survey.toOrderly.followed_iff hA h.work he
  ignored := by
    intro c hc
    rcases mem_classify.1 hc with ⟨name, -, -, rfl⟩ | ⟨name, -, rfl⟩
    · exact iff_of_true rfl rfl
    · rw [classReport_level, classReport_ignored_iff]

end

/-- Over a coherent provider, the parts of the result of an analysis that succeeds fit together. All
    staged classes that the filter keeps out are reported, and the counts of the report on the run
    are the lengths of its lists and the number of calls that are not followed. -/
theorem result_consistent {A : Oracle} {source : σ} (hP : P.Follows source A) (hA : A.Coherent)
    {options : Options} (hb : ∀ b ∈ options.builtins, b.level.IsValid) {paths : List StagedPath}
    {fuel : Nat} {patience : Option Nat}
    (h : findKernels P fuel patience ((new options source).ingest paths) = (.ok (), s)) :
    s.result.Consistent ∧
    (∀ p ∈ paths, ∀ name, p.error = none → ClassName.ofPath? p.path = some name →
      options.rules.classify name = .exclude → ∃ c ∈ s.result.classes, c.name = name) ∧
    ∀ info : RunInfo,
      let run := (Report.ofResult s.result info).run
      run.kernelCount = s.result.kernelClasses.length ∧
      run.classCount = s.result.classes.length ∧
      run.methodCount = s.result.reachable.length ∧
      run.edgeCount = s.result.edges.length ∧
      run.diagnosticCount = s.result.diagnostics.length ∧
      run.unavailableCount = (s.result.edges.filter (·.status ≠ .followed)).length := by
  have hend := findKernels_concluded hP hA hb h
  refine ⟨hend.consistent hA, ?_, fun info => ⟨rfl, rfl, rfl, rfl, rfl, ?_⟩⟩
  · intro p hp name herror hpath hexclude
    have hignored : name ∈ s.catalog.ignored.toList := by
      rw [hend.catalog, ignored_catalogOf, List.mem_eraseDups, List.mem_filter, List.mem_filterMap]
      exact ⟨⟨p, hp, by simp [StagedPath.class?, herror, hpath]⟩, by simp [hexclude]⟩
    -- The class may have been asked for all the same, because a call or a superclass named it.
    by_cases hr : name ∈ s.resolver.requested.toList
    · exact ⟨s.classReport name, mem_classify.2 (.inr ⟨name, hr, rfl⟩), classReport_name s name⟩
    · exact ⟨_, mem_classify.2 (.inl ⟨name, hignored, hr, rfl⟩), rfl⟩
  · have hcount : s.edges.toList.countP (·.status.isUnavailable) =
        (s.edges.toList.filter (·.status ≠ .followed)).length := by
      rw [List.countP_eq_length_filter]
      congr 2
      funext e
      cases e.status <;> rfl
    exact congrArg Nat.cast hcount

/-- Of the staged classes that the filter keeps out, one is reached by a call and one is not, and
    both are reported. -/
theorem result_consistent_sample :
    let run := findKernels Sample.oracle.toProvider 9 none ((new Sample.strictOptions ()).ingest
      [⟨"app/K.class", none⟩, ⟨"app/Sub.class", none⟩, ⟨"app/Lone.class", none⟩])
    run.1 = .ok () ∧ run.2.result.Consistent ∧
    (∃ c ∈ run.2.result.classes, c.name = ⟨"app.Sub"⟩) ∧
    (∃ c ∈ run.2.result.classes, c.name = ⟨"app.Lone"⟩) ∧
    ∀ info, (Report.ofResult run.2.result info).run.unavailableCount =
      (run.2.result.edges.filter (·.status ≠ .followed)).length := by
  have hok : (findKernels Sample.oracle.toProvider 9 none ((new Sample.strictOptions ()).ingest
      [⟨"app/K.class", none⟩, ⟨"app/Sub.class", none⟩, ⟨"app/Lone.class", none⟩])).1 =
        .ok () := by cbv
  obtain ⟨hconsistent, hexcluded, hcounts⟩ := result_consistent
    Sample.oracle.follows_toProvider Sample.coherent_oracle (by decide) (Prod.ext hok rfl)
  refine ⟨hok, hconsistent, ?_, ?_, fun info => (hcounts info).2.2.2.2.2⟩
  · exact hexcluded ⟨"app/Sub.class", none⟩ (by simp) _ rfl (by cbv) (by cbv)
  · exact hexcluded ⟨"app/Lone.class", none⟩ (by simp) _ rfl (by cbv) (by cbv)

end Session

end KernelReach
