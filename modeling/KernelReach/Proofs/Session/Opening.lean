import KernelReach.Proofs.Session.Ledger

/-!
# Before the traversal

The phases before the traversal, and the seeds with which it begins, can be told in advance from the
answers of a coherent provider: which classes are in the catalog and in which order, which of them
are loaded, which methods are entry points, which requests are made and what there is to say. This
is put down as a `Stage`, and each phase leads from one stage to the next or fails because the
provider does (`Oracle.Breaks`).
-/

namespace KernelReach

namespace Oracle

variable {A : Oracle} {name : ClassName} {level : Level}

/-- The class as it can be had at the level. -/
def class? (A : Oracle) (name : ClassName) (level : Level) : Option Class :=
  (A.resolve name level).toOption

/-- What there is to say if the class is unavailable at the level. -/
def missing (A : Oracle) (kind : DiagnosticKind) (name : ClassName) (level : Level) :
    List Diagnostic :=
  match A.demand name level with
  | .ok _ => []
  | .error e => if e.isUnavailable then [⟨kind, name.text, e.message⟩] else []

/-- The provider fails when it is asked for the class at the level. -/
def Breaks (A : Oracle) (name : ClassName) (level : Level) : Prop :=
  ∃ e, A.demand name level = .error e ∧ e.isUnavailable = false

/-- The methods of the class. -/
def signatures (A : Oracle) (name : ClassName) : List Signature :=
  ((A.class? name .signatures).map fun c => c.methods.map Method.signature).getD []

theorem class?_eq_some {c : Class} :
    A.class? name level = some c ↔ A.resolve name level = .ok c := by
  unfold class?
  cases A.resolve name level <;> simp [Except.toOption]

theorem missing_of_ok {kind : DiagnosticKind} {c : Class} (h : A.resolve name level = .ok c) :
    A.missing kind name level = [] := by
  rw [missing, demand_eq_ok.2 h]

theorem missing_of_error {kind : DiagnosticKind} {e : AnalysisError}
    (h : A.demand name level = .error e) (hu : e.isUnavailable = true) :
    A.missing kind name level = [⟨kind, name.text, e.message⟩] := by
  simp only [missing, h, hu, if_true]

theorem class?_of_error {e : AnalysisError} (h : A.demand name level = .error e) :
    A.class? name level = none := by
  obtain ⟨e', he', -⟩ := demand_eq_error.1 h
  rw [class?, he']
  rfl

/-- At which level a class is looked at makes no difference to the list of its methods. -/
theorem Has.signatures_eq (hA : A.Graded) {c : Class} (h : A.Has name c) :
    A.signatures name = c.methods.map Method.signature := by
  obtain ⟨d, hd, -, hm⟩ := h.signatures hA
  rw [Oracle.signatures, class?_eq_some.2 hd]
  simpa [Function.comp_def, Method.entry] using congrArg (List.map Prod.fst) hm

theorem mem_flatMap_signatures {names : List ClassName} {sig : Signature} :
    sig ∈ names.flatMap A.signatures ↔ A.Seeds (· ∈ names) sig := by
  simp only [List.mem_flatMap, Seeds, signatures]
  constructor
  · rintro ⟨name, hn, hsig⟩
    rcases hc : A.class? name .signatures with _ | c
    · simp [hc] at hsig
    · rw [hc, Option.map_some, Option.getD_some, List.mem_map] at hsig
      exact ⟨name, c, hn, class?_eq_some.1 hc, hsig⟩
  · rintro ⟨name, c, hn, hc, hsig⟩
    refine ⟨name, hn, ?_⟩
    rw [class?_eq_some.2 hc, Option.map_some, Option.getD_some, List.mem_map]
    exact hsig

end Oracle

/-! ### Entry points -/

namespace Options

/-- The entry point of a class, if it is a kernel. -/
def kernel? (o : Options) (c : Class) : Option EntryPoint :=
  if c.implements o.marker then
    (c.methodNamed? o.entryMethod).map fun m => ⟨m.signature, .kernel⟩
  else none

/-- What there is to say about a class that is marked as a kernel and has no entry method. -/
def complaints (o : Options) (c : Class) : List Diagnostic :=
  if c.implements o.marker ∧ c.methodNamed? o.entryMethod = none then
    [⟨.entryPoint, c.name.text,
      "implements " ++ o.marker.text ++ " but declares no " ++ o.entryMethod ++ " method"⟩]
  else []

end Options

/-! ### Staged files -/

namespace Session.StagedPath

/-- The class whose file is staged. -/
def class? (p : StagedPath) : Option ClassName :=
  match p.error with
  | some _ => none
  | none => ClassName.ofPath? p.path

/-- What there is to say about a file that could not be staged. -/
def complaints (p : StagedPath) : List Diagnostic :=
  (p.error.map fun message => ⟨.ingest, p.path, message⟩).toList

theorem admits_iff {rules : PackageRules} {p : StagedPath} {name : ClassName} :
    p.Admits rules name ↔ p.class? = some name ∧ rules.classify name = .include := by
  unfold Admits class?
  cases p.error <;> simp

end Session.StagedPath

namespace Catalog

/-- The catalog after the classes were ingested. -/
def addAll (c : Catalog) (names : List ClassName) : Catalog := names.foldl add c

theorem rules_addAll (c : Catalog) (names : List ClassName) : (c.addAll names).rules = c.rules := by
  induction names generalizing c with
  | nil => rfl
  | cons name names ih => exact (ih (c.add name)).trans (c.rules_add name)

theorem runtime_addAll (c : Catalog) (names : List ClassName) :
    (c.addAll names).runtime = c.runtime := by
  induction names generalizing c with
  | nil => rfl
  | cons name names ih => exact (ih (c.add name)).trans (c.runtime_add name)

/-- The application classes are listed in the order in which they were first ingested, and so are
    the classes that the rules keep out. -/
theorem addAll_new (rules : PackageRules) (names : List ClassName) :
    ((new rules).addAll names).application.toList =
        (names.filter (rules.classify · = .include)).eraseDups ∧
      ((new rules).addAll names).ignored.toList =
        (names.filter (rules.classify · = .exclude)).eraseDups := by
  suffices H : ∀ (names done : List ClassName) (c : Catalog), c.rules = rules →
      c.application.toList = (done.filter (rules.classify · = .include)).eraseDups →
      c.ignored.toList = (done.filter (rules.classify · = .exclude)).eraseDups →
      (c.addAll names).application.toList =
          ((done ++ names).filter (rules.classify · = .include)).eraseDups ∧
        (c.addAll names).ignored.toList =
          ((done ++ names).filter (rules.classify · = .exclude)).eraseDups from
    H names [] (new rules) rfl rfl rfl
  -- The catalog lists what was ingested before, which is `done`.
  intro names
  induction names with
  | nil =>
    intro done c _ happ hign
    rw [List.append_nil]
    exact ⟨happ, hign⟩
  | cons name names ih =>
    intro done c hrules happ hign
    have hnext := ih (done ++ [name]) (c.add name) ((c.rules_add name).trans hrules)
    rw [List.append_assoc, List.singleton_append] at hnext
    refine hnext ?_ ?_
    · rw [List.filter_append]
      rcases hcl : rules.classify name with _ | _
      · simpa [add, hrules, hcl] using OrderedSet.toList_insert_eraseDups happ name
      · simpa [add, hrules, hcl] using happ
    · rw [List.filter_append]
      rcases hcl : rules.classify name with _ | _
      · simpa [add, hrules, hcl] using hign
      · simpa [add, hrules, hcl] using OrderedSet.toList_insert_eraseDups hign name

end Catalog

namespace Session

/-! ### What can be told in advance -/

/-- What a session is known to hold before its first visit. -/
structure Forecast where
  requests : List (ClassName × Level) := []
  loaded : List Class := []
  entries : EntryPoints := {}
  bodies : OrderedSet ClassName := ∅
  work : List Signature := []
  diagnostics : List Diagnostic := []

namespace Forecast

/-- The application classes are loaded. -/
def load (f : Forecast) (A : Oracle) (names : List ClassName) : Forecast :=
  { f with
    requests := f.requests ++ names.map (·, .signatures)
    loaded := f.loaded ++ names.filterMap (A.class? · .signatures)
    diagnostics := f.diagnostics ++ names.flatMap (A.missing .resolve · .signatures) }

/-- The entry points are found. -/
def detect (f : Forecast) (opts : Options) (classes : List Class) : Forecast :=
  { f with
    entries := (classes.filterMap opts.kernel?).foldl EntryPoints.add f.entries
    diagnostics := f.diagnostics ++ classes.flatMap opts.complaints }

/-- The platform classes are loaded. -/
def loadBuiltins (f : Forecast) (A : Oracle) (builtins : List Builtin) : Forecast :=
  { f with
    requests := f.requests ++ builtins.map fun b => (b.name, b.level)
    diagnostics := f.diagnostics ++ builtins.flatMap fun b => A.missing .builtin b.name b.level }

/-- The classes are called for whose methods are the seeds. -/
def enlist (f : Forecast) (cat : Catalog) : Forecast :=
  { f with
    bodies := ((f.bodies.insertAll cat.application.toList).insertAll
      cat.runtime.toList).insertAll (f.entries.toList.map (·.method.owner)) }

/-- The methods of the classes are queued. -/
def seed (f : Forecast) (A : Oracle) (cat : Catalog) (names : List ClassName) : Forecast :=
  { f with
    requests := f.requests ++ names.map (·, .signatures)
    work := f.work ++ names.flatMap A.signatures
    diagnostics := f.diagnostics ++ (names.filter (!cat.application.contains ·)).flatMap
      (A.missing .resolve · .signatures) }

variable (f : Forecast) (A : Oracle)

theorem load_nil : f.load A [] = f := by
  simp [load]

theorem loadBuiltins_nil : f.loadBuiltins A [] = f := by
  simp [loadBuiltins]

theorem seed_nil (cat : Catalog) : f.seed A cat [] = f := by
  simp [seed]

theorem load_append (names names' : List ClassName) :
    f.load A (names ++ names') = (f.load A names).load A names' := by
  simp [load]

theorem detect_append (opts : Options) (classes classes' : List Class) :
    f.detect opts (classes ++ classes') = (f.detect opts classes).detect opts classes' := by
  simp [detect]

theorem loadBuiltins_append (builtins builtins' : List Builtin) :
    f.loadBuiltins A (builtins ++ builtins') =
      (f.loadBuiltins A builtins).loadBuiltins A builtins' := by
  simp [loadBuiltins]

theorem seed_append (cat : Catalog) (names names' : List ClassName) :
    f.seed A cat (names ++ names') = (f.seed A cat names).seed A cat names' := by
  simp [seed]

end Forecast

variable {σ : Type} {P : Provider σ} {start : σ} {A : Oracle} {s : Session σ} {opts : Options}
  {cat : Catalog} {f : Forecast} {name : ClassName} {level : Level}

/-- The session holds what the forecast says, and nothing was visited yet. -/
structure Stage (P : Provider σ) (start : σ) (A : Oracle) (opts : Options) (cat : Catalog)
    (f : Forecast) (s : Session σ) : Prop where
  sound : s.resolver.Sound P start A
  served : s.resolver.Served A fun name level => (name, level) ∈ f.requests
  options : s.options = opts
  catalog : s.catalog = cat
  loaded : s.loaded.toList = f.loaded
  entries : s.entries = f.entries
  bodies : s.bodies = f.bodies
  work : s.work.toList = f.work
  diagnostics : s.diagnostics.toList = f.diagnostics
  resolved : s.resolved = ∅
  visited : s.visited = ∅
  scanned : s.scanned = ∅
  edges : s.edges = #[]

theorem stage_new (P : Provider σ) (A : Oracle) (options : Options) (source : σ) :
    Stage P source A options.withDefaults (.new options.rules) {} (new options source) where
  sound := Resolver.sound_new P source A
  served := (Resolver.served_new A source).congr fun _ _ => by simp
  options := rfl
  catalog := rfl
  loaded := rfl
  entries := rfl
  bodies := rfl
  work := rfl
  diagnostics := rfl
  resolved := rfl
  visited := rfl
  scanned := rfl
  edges := rfl

theorem Stage.note (h : Stage P start A opts cat f s) (e : Event) :
    Stage P start A opts cat f (s.note e) :=
  { h with sound := h.sound.note e, served := h.served.note e }

theorem Stage.diagnose (h : Stage P start A opts cat f s) (d : Diagnostic) :
    Stage P start A opts cat { f with diagnostics := f.diagnostics ++ [d] }
      (s.diagnose d.kind d.subject d.message) := by
  refine { h.note (.diagnosed d) with diagnostics := ?_ }
  change (s.diagnostics.push d).toList = _
  rw [Array.toList_push, h.diagnostics]

/-! ### Staged files -/

theorem Stage.ingestPath (h : Stage P start A opts cat f s) (p : StagedPath) :
    Stage P start A opts (cat.addAll p.class?.toList)
      { f with diagnostics := f.diagnostics ++ p.complaints } (s.ingestPath p) := by
  unfold Session.ingestPath StagedPath.class? StagedPath.complaints
  rcases p.error with _ | message
  · simp only [Option.map_none, Option.toList_none, List.append_nil]
    rcases ClassName.ofPath? p.path with _ | name
    · exact h
    · have hadd : Stage P start A opts (cat.add name) f { s with catalog := s.catalog.add name } :=
        { h with catalog := congrArg (Catalog.add · name) h.catalog }
      dsimp only
      split
      · exact hadd.note _
      · exact hadd
  · exact h.diagnose ⟨.ingest, p.path, message⟩

theorem Stage.ingest (h : Stage P start A opts cat f s) (paths : List StagedPath) :
    Stage P start A opts (cat.addAll (paths.filterMap StagedPath.class?))
      { f with diagnostics := f.diagnostics ++ paths.flatMap StagedPath.complaints }
      (s.ingest paths) := by
  induction paths generalizing cat f s with
  | nil => simpa [Session.ingest, Catalog.addAll] using h
  | cons p paths ih =>
    have hnext := ih (h.ingestPath p)
    have hcat : (cat.addAll p.class?.toList).addAll (paths.filterMap StagedPath.class?) =
        cat.addAll ((p :: paths).filterMap StagedPath.class?) := by
      rcases hp : p.class? with _ | name <;> simp [Catalog.addAll, hp]
    rw [hcat, List.append_assoc] at hnext
    exact hnext

/-! ### One request -/

section

variable (hP : P.Follows start A) (hA : A.Coherent)
include hP hA

/-- A request that gets through is served. -/
theorem Stage.ask (h : Stage P start A opts cat f s) (name : ClassName) (hl : level.IsValid)
    (hu : ∀ e, (s.resolver.resolveClass P name level).1 = .error e → e.isUnavailable = true) :
    Stage P start A opts cat { f with requests := f.requests ++ [(name, level)] }
      (s.setResolver (s.resolver.resolveClass P name level).2) := by
  refine { h with
    sound := h.sound.resolveClass hP.classes hA.toGraded hl name
    served := (h.served.resolveClass hP.classes hA.toGraded h.sound hl name hu).congr
      fun n l => ?_ }
  simp

/-- A class that is not there is reported. -/
theorem Stage.ask_missing (h : Stage P start A opts cat f s) (kind : DiagnosticKind)
    (hl : level.IsValid) {e : AnalysisError}
    (he : (s.resolver.resolveClass P name level).1 = .error e) (hu : e.isUnavailable = true) :
    Stage P start A opts cat { f with
      requests := f.requests ++ [(name, level)]
      diagnostics := f.diagnostics ++ A.missing kind name level }
      ((s.setResolver (s.resolver.resolveClass P name level).2).diagnose kind name.text
        e.message) := by
  have hd := (h.sound.resolveClass_error_iff hP.classes hA.toGraded hl name).1 he
  have hasked := h.ask hP hA name hl fun e' he' => by
    rw [he, Except.error.injEq] at he'
    rwa [← he']
  rw [Oracle.missing_of_error hd hu]
  exact hasked.diagnose ⟨kind, name.text, e.message⟩

theorem Stage.breaks (h : Stage P start A opts cat f s) (hl : level.IsValid) {e : AnalysisError}
    (he : (s.resolver.resolveClass P name level).1 = .error e) (hu : e.isUnavailable = false) :
    A.Breaks name level :=
  ⟨e, (h.sound.resolveClass_error_iff hP.classes hA.toGraded hl name).1 he, hu⟩

theorem Stage.missing_of_ok (h : Stage P start A opts cat f s) (kind : DiagnosticKind)
    (hl : level.IsValid) {c : Class}
    (hc : (s.resolver.resolveClass P name level).1 = .ok c) : A.missing kind name level = [] := by
  obtain ⟨d, hd⟩ := (h.sound.resolveClass_ok_iff hP.classes hA.toGraded hl name).1 ⟨c, hc⟩
  exact Oracle.missing_of_ok hd

/-! ### The phases -/

/-- A class that was not asked for before is loaded as the provider has it. -/
theorem loadClass_stage (h : Stage P start A opts cat f s)
    (hnew : ∀ level, (name, level) ∉ f.requests) :
    Ends (loadClass P name) s (fun _ s' => Stage P start A opts cat (f.load A [name]) s')
      fun _ _ => A.Breaks name .signatures := by
  simp only [loadClass, ends_bind, ends_modify, ends_ask]
  have h₁ := h.note (.loadingSignatures name)
  have hl := Level.isValid_signatures
  split
  case h_1 c hc =>
    -- The resolver does not have the class yet, so the answer is not one from a higher level.
    have hfst := h₁.sound.resolveClass_fst hP.classes hA.toGraded hl name
    rw [hc, Resolver.best?_eq_none.2 fun d hd => absurd (h₁.served.asked hd) (hnew d.level)] at hfst
    have hclass := Oracle.class?_eq_some.2 (Oracle.demand_eq_ok.1 hfst.symm)
    have hasked := h₁.ask hP hA name hl fun e he => by
      rw [hc] at he
      cases he
    have hmissing := h₁.missing_of_ok hP hA .resolve hl hc
    refine { hasked with loaded := ?_, diagnostics := ?_ }
    · simpa [Forecast.load, hclass] using hasked.loaded
    · simpa [Forecast.load, hmissing] using hasked.diagnostics
  case h_2 e he =>
    rw [ends_ite, ends_modify, ends_throw]
    refine ⟨fun hu => ?_, fun hu => h₁.breaks hP hA hl he (by simpa using hu)⟩
    have hd := (h₁.sound.resolveClass_error_iff hP.classes hA.toGraded hl name).1 he
    simpa [Forecast.load, Oracle.class?_of_error hd] using h₁.ask_missing hP hA .resolve hl he hu

/-- The application classes are loaded in the order of the catalog. -/
theorem loadSignatures_stage (h : Stage P start A opts cat f s)
    (hnew : ∀ name ∈ cat.application.toList, ∀ level, (name, level) ∉ f.requests) :
    Ends (loadSignatures P) s
      (fun _ s' => Stage P start A opts cat (f.load A cat.application.toList) s')
      fun _ _ => ∃ name ∈ cat.application.toList, A.Breaks name .signatures := by
  obtain rfl := h.catalog
  simp only [loadSignatures, ends_bind, ends_modify, ends_get]
  refine Ends.forM (I := fun done s' => Stage P start A opts s.catalog (f.load A done) s') ?_
    (fun _ => id) (by rw [Forecast.load_nil]; exact { h with })
  intro done name rest hl s₁ h₁
  have hmem : name ∈ s.catalog.application.toList := by
    rw [hl]
    exact List.mem_append_right done List.mem_cons_self
  rw [Forecast.load_append]
  refine (loadClass_stage hP hA h₁ fun level hr => ?_).mono (fun _ _ => id)
    fun _ _ hbreaks => ⟨name, hmem, hbreaks⟩
  -- No class is twice in the catalog.
  have hdone : name ∉ done := by
    have hnodup := s.catalog.application.nodup_toList
    rw [hl] at hnodup
    exact fun hd => (List.nodup_append.1 hnodup).2.2 name hd name List.mem_cons_self rfl
  rcases List.mem_append.1 hr with hr | hr
  · exact hnew name hmem level hr
  · obtain ⟨n, hn, heq⟩ := List.mem_map.1 hr
    exact hdone ((Prod.mk.inj heq).1 ▸ hn)

/-- The platform classes are loaded. -/
theorem loadBuiltins_stage (h : Stage P start A opts cat f s)
    (hb : ∀ b ∈ opts.builtins, b.level.IsValid) :
    Ends (loadBuiltins P) s
      (fun _ s' => Stage P start A opts cat (f.loadBuiltins A opts.builtins) s')
      fun _ _ => ∃ b ∈ opts.builtins, A.Breaks b.name b.level := by
  obtain rfl := h.options
  simp only [loadBuiltins, ends_bind, ends_get]
  refine Ends.forM (I := fun done s' => Stage P start A s.options cat (f.loadBuiltins A done) s') ?_
    (fun _ => id) (by rw [Forecast.loadBuiltins_nil]; exact h)
  intro done b rest hl s₁ h₁
  have hmem : b ∈ s.options.builtins := by
    rw [hl]
    exact List.mem_append_right done List.mem_cons_self
  rw [Forecast.loadBuiltins_append]
  simp only [loadBuiltin, ends_bind, ends_ask]
  split
  case h_1 c hc =>
    have hasked := h₁.ask hP hA b.name (hb b hmem) fun e he => by
      rw [hc] at he
      cases he
    have hmissing := h₁.missing_of_ok hP hA .builtin (hb b hmem) hc
    refine { hasked with diagnostics := ?_ }
    simpa [Forecast.loadBuiltins, hmissing] using hasked.diagnostics
  case h_2 e he =>
    rw [ends_ite, ends_modify, ends_throw]
    refine ⟨fun hu => ?_, fun hu => ⟨b, hmem, h₁.breaks hP hA (hb b hmem) he (by simpa using hu)⟩⟩
    have hreported := h₁.ask_missing hP hA .builtin (hb b hmem) he hu
    refine { hreported with diagnostics := ?_ }
    simpa [Forecast.loadBuiltins] using hreported.diagnostics

/-- The methods of one class are queued. A class of the application was reported before. -/
theorem seedClass_stage (h : Stage P start A opts cat f s) (name : ClassName) :
    Ends (seedClass P name) s (fun _ s' => Stage P start A opts cat (f.seed A cat [name]) s')
      fun _ _ => A.Breaks name .signatures := by
  simp only [seedClass, ends_bind, ends_ask]
  have hl := Level.isValid_signatures
  split
  case h_1 c hc =>
    have hasked := h.ask hP hA name hl fun e he => by
      rw [hc] at he
      cases he
    have hmissing := h.missing_of_ok hP hA .resolve hl hc
    have hhas := h.sound.resolveClass_ok hP.classes hA.toGraded hl name hc
    have hsigs := Oracle.Has.signatures_eq hA.toGraded hhas
    refine { hasked with work := ?_, diagnostics := ?_ }
    · rw [Queue.toList_pushAll, hasked.work]
      simp [Forecast.seed, hsigs]
    · rw [hasked.diagnostics]
      by_cases happ : cat.application.contains name = true <;> simp [Forecast.seed, happ, hmissing]
  case h_2 e he =>
    have hd := (h.sound.resolveClass_error_iff hP.classes hA.toGraded hl name).1 he
    have hsigs : A.signatures name = [] := by rw [Oracle.signatures, Oracle.class?_of_error hd]; rfl
    simp only [ends_ite, ends_bind, ends_throw, ends_get, ends_pure, ends_modify, Bool.not_eq_true',
      Bool.not_eq_false]
    refine ⟨fun hu => h.breaks hP hA hl he hu, fun hu => ⟨fun happ => ?_, fun happ => ?_⟩⟩
    · have hreported := h.ask_missing hP hA .resolve hl he hu
      have happ : cat.application.contains name = false := h.catalog ▸ happ
      refine { hreported with work := ?_, diagnostics := ?_ }
      · simpa [Forecast.seed, hsigs] using hreported.work
      · simpa [Forecast.seed, happ] using hreported.diagnostics
    · -- A class of the application was reported when it was loaded.
      have hasked := h.ask hP hA name hl fun e' he' => by
        rw [he, Except.error.injEq] at he'
        rwa [← he']
      have happ : cat.application.contains name = true := h.catalog ▸ happ
      refine { hasked with work := ?_, diagnostics := ?_ }
      · simpa [Forecast.seed, hsigs] using hasked.work
      · simpa [Forecast.seed, happ] using hasked.diagnostics

/-- The methods of the classes are queued that are called for. -/
theorem seed_stage (h : Stage P start A opts cat f s) :
    Ends (seed P) s
      (fun _ s' => Stage P start A opts cat
        ((f.enlist cat).seed A cat (f.enlist cat).bodies.toList) s')
      fun _ _ => ∃ name ∈ (f.enlist cat).bodies.toList, A.Breaks name .signatures := by
  have h₀ : Stage P start A opts cat (f.enlist cat) s.enlist := by
    refine { h with bodies := ?_ }
    rw [Session.enlist, Forecast.enlist, h.bodies, h.catalog, h.entries]
  rw [ends_seed, h₀.bodies]
  refine Ends.forM
    (I := fun done s' => Stage P start A opts cat ((f.enlist cat).seed A cat done) s') ?_
    (fun _ => id) (by rw [Forecast.seed_nil]; exact h₀)
  intro done name rest hl s₁ h₁
  rw [Forecast.seed_append]
  refine (seedClass_stage hP hA h₁ name).mono (fun _ _ => id) fun _ _ hbreaks => ⟨name, ?_, hbreaks⟩
  rw [hl]
  exact List.mem_append_right done List.mem_cons_self

end

/-- The entry method of a class is found, if it is a kernel. -/
theorem Stage.detectKernel (h : Stage P start A opts cat f s) (c : Class) :
    Stage P start A opts cat (f.detect opts [c]) (s.detectKernel c) := by
  obtain rfl := h.options
  unfold Session.detectKernel Forecast.detect Options.kernel? Options.complaints
  dsimp only
  by_cases hc : c.implements s.options.marker = true
  · rcases hm : c.methodNamed? s.options.entryMethod with _ | m
    · simpa [hc, hm] using h.diagnose ⟨.entryPoint, c.name.text, _⟩
    · simp only [hc, if_true]
      refine { h with entries := ?_, diagnostics := ?_ }
      · simp [hc, hm, h.entries]
      · simp [hm, h.diagnostics]
  · simpa [hc] using h

theorem Stage.detectEntryPoints (h : Stage P start A opts cat f s) :
    Stage P start A opts cat (f.detect opts f.loaded) s.detectEntryPoints := by
  suffices H : ∀ (classes : List Class) (f : Forecast) (s : Session σ),
      Stage P start A opts cat f s →
      Stage P start A opts cat (f.detect opts classes) (classes.foldl Session.detectKernel s) by
    rw [Session.detectEntryPoints, h.loaded]
    exact H f.loaded f s h
  intro classes
  induction classes with
  | nil =>
    intro f s h
    simpa [Forecast.detect] using h
  | cons c classes ih =>
    intro f s h
    have hnext := ih _ _ (h.detectKernel c)
    rwa [← Forecast.detect_append] at hnext

end Session

end KernelReach
