import KernelReach.Proofs.Session.Reachability

/-!
# From the staged files to the report

The phases before the traversal prepare it: the staged files give the application classes, the
classes are resolved to signatures, and the entry points are found in them. What they leave behind
is `Ready`. The catalog holds the application and the runtime classes (`IsRoot`), and the entry
points add no class to them, for a class declares its methods as its own. So the seeds of the
traversal are the methods of these classes (`Ready.mem_bodies_enlist`).
-/

namespace KernelReach

namespace Catalog

theorem rules_add (c : Catalog) (name : ClassName) : (c.add name).rules = c.rules := by
  unfold add
  cases c.rules.classify name <;> rfl

theorem runtime_add (c : Catalog) (name : ClassName) : (c.add name).runtime = c.runtime := by
  unfold add
  cases c.rules.classify name <;> rfl

theorem mem_application_add {c : Catalog} {name n : ClassName} :
    n ∈ (c.add name).application.toList ↔
      n ∈ c.application.toList ∨ n = name ∧ c.rules.classify name = .include := by
  unfold add
  cases c.rules.classify name <;> simp

end Catalog

theorem EntryPoints.mem_toList_add {e : EntryPoints} {p q : EntryPoint}
    (h : p ∈ (e.add q).toList) : p ∈ e.toList ∨ p = q := by
  unfold add at h
  split at h
  · exact .inl h
  · simpa [toList] using h

namespace Session

variable {σ : Type} {P : Provider σ} {start : σ} {A : Oracle} {s s' : Session σ}
  {rules : PackageRules} {paths : List StagedPath}

/-! ### The catalog -/

/-- The staged file is that of the class `name`, and the rules let the class in. -/
def StagedPath.Admits (rules : PackageRules) (p : StagedPath) (name : ClassName) : Prop :=
  p.error = none ∧ ClassName.ofPath? p.path = some name ∧ rules.classify name = .include

/-- The class belongs to the application, one of whose files is staged, or to the runtime. -/
def IsRoot (rules : PackageRules) (paths : List StagedPath) (name : ClassName) : Prop :=
  (∃ p ∈ paths, p.Admits rules name) ∨ name ∈ rules.runtime

/-- The session is prepared for a traversal of what was staged. -/
structure Ready (P : Provider σ) (start : σ) (A : Oracle) (rules : PackageRules)
    (paths : List StagedPath) (s : Session σ) : Prop where
  knows : Knows P start A s
  rules_eq : s.catalog.rules = rules
  application : ∀ name, name ∈ s.catalog.application.toList ↔ ∃ p ∈ paths, p.Admits rules name
  runtime : ∀ name, name ∈ s.catalog.runtime.toList ↔ name ∈ rules.runtime
  loaded : ∀ c ∈ s.loaded.toList, ∃ name, IsRoot rules paths name ∧ A.Has name c
  entries : ∀ p ∈ s.entries.toList, IsRoot rules paths p.method.owner
  builtins : ∀ b ∈ s.options.builtins, b.level.IsValid
  bodies : s.bodies.toList = []
  work : s.work.toList = []
  visited : s.visited.toList = []
  scanned : s.scanned.toList = []

theorem ready_new (P : Provider σ) (start : σ) (A : Oracle) {options : Options}
    (hb : ∀ b ∈ options.builtins, b.level.IsValid) :
    Ready P start A options.rules [] (new options start) where
  knows := ⟨Resolver.sound_new P start A, fun sig o h => by simp [new] at h⟩
  rules_eq := rfl
  application _ := by simp [new, Catalog.new]
  runtime _ := OrderedSet.mem_toList_ofList
  loaded _ h := absurd h List.not_mem_nil
  entries _ h := absurd h List.not_mem_nil
  builtins := hb
  bodies := rfl
  work := rfl
  visited := rfl
  scanned := rfl

theorem Ready.setResolver {r : Resolver σ} (h : Ready P start A rules paths s)
    (hr : r.Sound P start A) : Ready P start A rules paths (s.setResolver r) :=
  { h with knows := h.knows.setResolver hr }

theorem Ready.diagnose (h : Ready P start A rules paths s) (kind : DiagnosticKind)
    (subject message : String) : Ready P start A rules paths (s.diagnose kind subject message) :=
  { h with knows := h.knows.diagnose kind subject message }

theorem isRoot_append {more : List StagedPath} {name : ClassName} (h : IsRoot rules paths name) :
    IsRoot rules (paths ++ more) name := by
  refine h.imp_left ?_
  rintro ⟨p, hp, ha⟩
  exact ⟨p, List.mem_append_left more hp, ha⟩

/-- The catalog takes in the class of one more staged file, if there is one. -/
theorem Ready.setCatalog (h : Ready P start A rules paths s) {c : Catalog} {p : StagedPath}
    (hrules : c.rules = s.catalog.rules) (hruntime : c.runtime = s.catalog.runtime)
    (happ : ∀ name, name ∈ c.application.toList ↔
      name ∈ s.catalog.application.toList ∨ p.Admits rules name) :
    Ready P start A rules (paths ++ [p]) { s with catalog := c } :=
  { h with
    knows := ⟨h.knows.resolver, h.knows.resolved⟩
    rules_eq := hrules.trans h.rules_eq
    application := fun name => by simp [happ, h.application, or_and_right, exists_or]
    runtime := fun name => by rw [hruntime, h.runtime]
    loaded := fun d hd => (h.loaded d hd).imp fun _ hn => hn.imp_left isRoot_append
    entries := fun e he => isRoot_append (h.entries e he) }

theorem Ready.ingestPath (h : Ready P start A rules paths s) (p : StagedPath) :
    Ready P start A rules (paths ++ [p]) (s.ingestPath p) := by
  unfold Session.ingestPath
  split
  case h_1 message he =>
    refine (h.diagnose .ingest p.path message).setCatalog rfl rfl fun name => ?_
    change name ∈ s.catalog.application.toList ↔ name ∈ s.catalog.application.toList ∨ _
    simp [StagedPath.Admits, he]
  case h_2 he hn =>
    refine h.setCatalog rfl rfl fun name => ?_
    simp [StagedPath.Admits, hn]
  case h_3 name he hn =>
    have hadd : Ready P start A rules (paths ++ [p]) { s with catalog := s.catalog.add name } := by
      refine h.setCatalog (s.catalog.rules_add name) (s.catalog.runtime_add name) fun n => ?_
      rw [Catalog.mem_application_add, h.rules_eq]
      simp only [StagedPath.Admits, he, hn, Option.some.injEq, true_and]
      rw [@eq_comm _ n]
      exact or_congr_right (and_congr_right fun hn => hn ▸ Iff.rfl)
    dsimp only
    split
    · exact hadd.setResolver (hadd.knows.resolver.note _)
    · exact hadd

theorem Ready.ingest (h : Ready P start A rules paths s) (more : List StagedPath) :
    Ready P start A rules (paths ++ more) (s.ingest more) := by
  induction more generalizing paths s with
  | nil => simpa [Session.ingest] using h
  | cons p more ih =>
    have := ih (h.ingestPath p)
    rwa [List.append_assoc] at this

/-! ### The phases before the traversal -/

section

variable (hP : P.Follows start A) (hA : A.Coherent)
include hP hA

theorem loadSignatures_ready (h : Ready P start A rules paths s) :
    Ends (loadSignatures P) s (fun _ s' => Ready P start A rules paths s') fun _ _ => True := by
  simp only [loadSignatures, ends_bind, ends_modify, ends_get]
  refine Ends.forM (I := fun _ s' => Ready P start A rules paths s') ?_ (fun _ => id)
    { h with knows := ⟨h.knows.resolver, h.knows.resolved⟩ }
  intro done name rest hl s₁ h₁
  have hname : IsRoot rules paths name := by
    refine .inl ((h.application name).1 ?_)
    rw [hl]
    exact List.mem_append_right done List.mem_cons_self
  simp only [loadClass, ends_bind, ends_modify, ends_ask]
  have h₂ : Ready P start A rules paths (s₁.note (.loadingSignatures name)) :=
    h₁.setResolver (h₁.knows.resolver.note _)
  have hs := h₂.knows.resolver
  have h₃ := h₂.setResolver (hs.resolveClass hP.classes hA.toGraded Level.isValid_signatures name)
  split
  case h_1 c hc =>
    have hhas := hs.resolveClass_ok hP.classes hA.toGraded Level.isValid_signatures name hc
    refine { h₃ with
      knows := ⟨h₃.knows.resolver, h₃.knows.resolved⟩
      loaded := fun d hd => ?_ }
    rw [Array.toList_push, List.mem_append, List.mem_singleton] at hd
    rcases hd with hd | rfl
    · exact h₃.loaded d hd
    · exact ⟨name, hname, hhas⟩
  case h_2 e _ =>
    rw [ends_ite]
    exact ⟨fun _ => h₃.diagnose .., fun _ => trivial⟩

theorem loadBuiltins_ready (h : Ready P start A rules paths s) :
    Ends (loadBuiltins P) s (fun _ s' => Ready P start A rules paths s') fun _ _ => True := by
  simp only [loadBuiltins, ends_bind, ends_get]
  refine Ends.forM (I := fun _ s' => Ready P start A rules paths s') ?_ (fun _ => id) h
  intro done b rest hl s₁ h₁
  have hb : b.level.IsValid := by
    refine h.builtins b ?_
    rw [hl]
    exact List.mem_append_right done List.mem_cons_self
  simp only [loadBuiltin, ends_bind, ends_ask]
  have h₂ := h₁.setResolver (h₁.knows.resolver.resolveClass hP.classes hA.toGraded hb b.name)
  split
  · exact h₂
  · rw [ends_ite]
    exact ⟨fun _ => h₂.diagnose .., fun _ => trivial⟩

end

/-- A method of a loaded class becomes an entry point. It belongs to that class. -/
theorem Ready.detectKernel (hA : A.Coherent) (h : Ready P start A rules paths s) {c : Class}
    {name : ClassName} (hname : IsRoot rules paths name) (hc : A.Has name c) :
    Ready P start A rules paths (s.detectKernel c) := by
  unfold Session.detectKernel
  dsimp only
  split
  · split
    case h_1 m hm =>
      refine { h with
        knows := ⟨h.knows.resolver, h.knows.resolved⟩
        entries := fun p hp => ?_ }
      rcases EntryPoints.mem_toList_add hp with hp | rfl
      · exact h.entries p hp
      · obtain ⟨l, hv, -, hc⟩ := hc
        rwa [hA.owner_eq hv hc (List.mem_of_find?_eq_some hm)]
    case h_2 => exact h.diagnose ..
  · exact h

theorem Ready.detectEntryPoints (hA : A.Coherent) (h : Ready P start A rules paths s) :
    Ready P start A rules paths s.detectEntryPoints := by
  have hfold (l : List Class) : ∀ s : Session σ, Ready P start A rules paths s →
      (∀ c ∈ l, ∃ name, IsRoot rules paths name ∧ A.Has name c) →
      Ready P start A rules paths (l.foldl Session.detectKernel s) := by
    induction l with
    | nil => exact fun s h _ => h
    | cons c l ih =>
      intro s h hl
      obtain ⟨name, hname, hc⟩ := hl c List.mem_cons_self
      exact ih _ (h.detectKernel hA hname hc) fun d hd => hl d (List.mem_cons_of_mem c hd)
  exact hfold s.loaded.toList s h h.loaded

/-! ### The seeds -/

/-- The entry points add no class to those of the catalog. -/
theorem Ready.mem_bodies_enlist (h : Ready P start A rules paths s) {name : ClassName} :
    name ∈ s.enlist.bodies.toList ↔ IsRoot rules paths name := by
  simp only [enlist, OrderedSet.mem_toList_insertAll, h.bodies, h.application, h.runtime,
    List.mem_map]
  refine ⟨?_, fun hr => .inl (hr.imp_left .inr)⟩
  rintro (((hn | hn) | hn) | ⟨p, hp, rfl⟩)
  · exact absurd hn List.not_mem_nil
  · exact .inl hn
  · exact .inr hn
  · exact h.entries p hp

section

variable (hP : P.Follows start A) (hA : A.Coherent)
include hP hA

/-- The methods of a class are queued. -/
theorem seedClass_queues (name : ClassName) (h : Knows P start A s) :
    Ends (seedClass P name) s
      (fun _ s' => Knows P start A s' ∧ Queues (A.Seeds (· = name)) s s') fun _ _ => True := by
  simp only [seedClass, ends_bind, ends_ask]
  have hs := h.resolver.resolveClass hP.classes hA.toGraded Level.isValid_signatures name
  split
  case h_1 c hc =>
    have hhas := h.resolver.resolveClass_ok hP.classes hA.toGraded Level.isValid_signatures name hc
    refine ⟨⟨hs, h.resolved⟩, fun sig => ?_, rfl, rfl⟩
    rw [Oracle.seeds_iff_of_has hA.toGraded hhas, Queue.toList_pushAll, List.mem_append]
    rfl
  case h_2 e he =>
    have hnone (sig : Signature) : ¬A.Seeds (· = name) sig := by
      rintro ⟨_, c, rfl, hc, -⟩
      obtain ⟨d, hd⟩ := (h.resolver.resolveClass_ok_iff hP.classes hA.toGraded
        Level.isValid_signatures _).2 ⟨c, hc⟩
      rw [he] at hd
      cases hd
    simp only [ends_ite, ends_bind, ends_throw, ends_get, ends_pure, ends_modify]
    have h₁ := h.setResolver hs
    exact ⟨fun _ => trivial, fun _ =>
      ⟨fun _ => ⟨h₁.diagnose .., Idle.queues ⟨rfl, rfl, rfl⟩ hnone⟩,
        fun _ => ⟨h₁, Idle.queues ⟨rfl, rfl, rfl⟩ hnone⟩⟩⟩

end

/-! ### The whole analysis -/

theorem inPhase_eq_ok {phase : Phase} {step : SessionM σ Unit}
    (h : inPhase phase step s = (.ok (), s')) : step s = (.ok (), s') := by
  have h' : ((step s).1.mapError (PhaseError.mk phase), (step s).2) = (.ok (), s') := h
  rcases hs : step s with ⟨e | u, s₁⟩
  · rw [hs] at h'
    cases h'
  · rw [hs] at h'
    cases h'
    rfl

/-- An analysis succeeds if all of its phases do. -/
theorem findKernels_eq_ok {fuel : Nat} {patience : Option Nat}
    (h : findKernels P fuel patience s = (.ok (), s')) :
    ∃ s₁ s₂ s₃, (s₁ = s ∨ loadSignatures P s = (.ok (), s₁)) ∧
      loadBuiltins P s₁.detectEntryPoints = (.ok (), s₂) ∧
      traverse P fuel patience s₂ = (.ok (), s₃) ∧ s' = s₃.augmentEntryPoints := by
  -- The phases after the first are the same whether or not it was made before.
  have hrest {s₁ : Session σ} (h : (do
      modify Session.detectEntryPoints
      inPhase .loadingBuiltins (loadBuiltins P)
      inPhase .buildingCallGraph (traverse P fuel patience)
      modify augmentEntryPoints : ExceptT PhaseError (StateM (Session σ)) Unit) s₁ =
        (.ok (), s')) :
      ∃ s₂ s₃, loadBuiltins P s₁.detectEntryPoints = (.ok (), s₂) ∧
        traverse P fuel patience s₂ = (.ok (), s₃) ∧ s' = s₃.augmentEntryPoints := by
    obtain ⟨_, _, h₁, h⟩ := bind_eq_ok h
    cases h₁
    obtain ⟨_, s₂, h₂, h⟩ := bind_eq_ok h
    obtain ⟨_, s₃, h₃, h⟩ := bind_eq_ok h
    cases h
    exact ⟨s₂, s₃, inPhase_eq_ok h₂, inPhase_eq_ok h₃, rfl⟩
  unfold findKernels at h
  obtain ⟨_, _, h₀, h⟩ := bind_eq_ok h
  cases h₀
  split at h
  · obtain ⟨_, s₁, h₁, h⟩ := bind_eq_ok h
    obtain ⟨s₂, s₃, h⟩ := hrest h
    exact ⟨s₁, s₂, s₃, .inr (inPhase_eq_ok h₁), h⟩
  · obtain ⟨s₂, s₃, h⟩ := hrest h
    exact ⟨s, s₂, s₃, .inl rfl, h⟩

end Session

end KernelReach
