import KernelReach.Proofs.Session.ScanLog

/-!
# What lookups keep, sessions keep

A session grows its call graph, and to do so it asks its resolver and remembers what comes of a
search. A property that is not about the graph and that these few steps keep is `Stable`, and then
the whole traversal keeps it, however it ends (`Stable.traverse_keeps`). If the property is only
about the resolver and the memory, it holds of every session that operations lead to
(`Lasting.reached`).

The levels at which classes are asked for are the two of the traversal and those of the platform
classes (`Options.Asks`).
-/

namespace KernelReach

/-- An analysis with these options asks for classes at that level. -/
def Options.Asks (o : Options) (level : Level) : Prop :=
  level = .signatures ∨ level = .bodies ∨ ∃ b ∈ o.builtins, b.level = level

namespace Session

variable {σ α : Type} {P : Provider σ} {admits : Level → Prop} {I : Session σ → Prop}
  {s s' : Session σ}

theorem Ends.and {x : SessionM σ α} {Q Q' : α → Session σ → Prop}
    {E E' : AnalysisError → Session σ → Prop} (h : Ends x s Q E) (h' : Ends x s Q' E') :
    Ends x s (fun a s' => Q a s' ∧ Q' a s') fun e s' => E e s' ∧ E' e s' := by
  rcases hx : x s with ⟨e | a, s'⟩
  · simpa only [Ends, hx] using ⟨h.error hx, h'.error hx⟩
  · simpa only [Ends, hx] using ⟨h.ok hx, h'.ok hx⟩

/-- The step keeps `I`, whether it succeeds or fails. -/
abbrev Keeps (I : Session σ → Prop) (x : SessionM σ α) : Prop :=
  ∀ s, I s → Ends x s (fun _ => I) fun _ => I

theorem Keeps.snd {x : SessionM σ α} (h : Keeps I x) (hs : I s) : I (x s).2 := by
  rcases hr : x s with ⟨e | a, s'⟩
  · exact (h s hs).error hr
  · exact (h s hs).ok hr

theorem Keeps.forM {f : α → SessionM σ PUnit} {l : List α} (h : ∀ a ∈ l, Keeps I (f a)) :
    Keeps I (l.forM f) := by
  intro s hs
  refine Ends.forM (I := fun _ => I) (fun done a rest hl s hs => ?_) (fun _ => id) hs
  exact h a (hl ▸ List.mem_append_right done List.mem_cons_self) s hs

/-- What a session has besides the call graph and its diagnostics. -/
def core (s : Session σ) : Options × Catalog × EntryPoints × Array Class × Resolver σ ×
    Std.HashMap Signature (Except AnalysisError Method) :=
  (s.options, s.catalog, s.entries, s.loaded, s.resolver, s.resolved)

/-- The property is about the core of a session, and lookups keep it if they ask at levels that
    `admits` lets pass. -/
structure Stable (P : Provider σ) (admits : Level → Prop) (I : Session σ → Prop) : Prop where
  signatures : admits .signatures
  bodies : admits .bodies
  congr {s s' : Session σ} : I s → s'.core = s.core → I s'
  note {s : Session σ} (e : Event) : I s → I (s.setResolver (s.resolver.note e))
  resolveClass {s : Session σ} (name : ClassName) {level : Level} : admits level → I s →
    I (s.setResolver (s.resolver.resolveClass P name level).2)
  body {s : Session σ} (m : Method) : I s → I (s.setResolver (s.resolver.body P m).2)
  remember {s : Session σ} {fuel : Nat} {sig : Signature} {o : Except AnalysisError Method}
    {r : Resolver σ} : I s →
    (s.resolver.note (.resolvingToBodies sig.owner)).Located P fuel sig o r →
    (∀ e, o = .error e → e.isUnavailable = true) → I (s.setResolver r) →
      I ((s.setResolver r).remember sig o)

namespace Stable

/-! ### Lookups -/

section

variable (h : Stable P admits I)
include h

theorem setResolver_of_resolveBodies {r r' : Resolver σ} {name : ClassName}
    {a : Except AnalysisError Class} (hr : r.resolveBodies P name = (a, r'))
    (hs : I (s.setResolver r)) : I (s.setResolver r') := by
  have hkeeps := h.resolveClass name h.bodies hs
  rwa [show (s.setResolver r).resolver.resolveClass P name .bodies = _ from hr] at hkeeps

/-- A search comes down to requests for superclasses. -/
theorem setResolver_of_resolveMethod {r r' : Resolver σ} {fuel : Nat} {sig : Signature}
    {a : Except AnalysisError Method} (hr : r.resolveMethod P fuel sig = (a, r'))
    (hs : I (s.setResolver r)) : I (s.setResolver r') := by
  have hasks : ∀ ask ∈ (Resolver.Request.resolveMethod fuel sig).asks P r, ask.2 = .signatures := by
    intro ask ha
    rw [Resolver.Request.asks] at ha
    split at ha
    · split at ha
      · obtain ⟨_, _, rfl⟩ := List.mem_map.1 ha
        rfl
      · exact absurd ha List.not_mem_nil
    · exact absurd ha List.not_mem_nil
  have hperform := (Resolver.Request.resolveMethod fuel sig).perform_eq P r
  rw [show r' = (Resolver.Request.resolveMethod fuel sig).perform P r from
    (congrArg Prod.snd hr).symm, hperform]
  refine Resolver.askAll_keeps (I := fun r => I (s.setResolver r)) (fun ask ha r hr => ?_) hs
  rw [hasks ask ha]
  exact h.resolveClass ask.1 h.signatures hr

theorem setResolver_of_located {r r' : Resolver σ} {fuel : Nat} {sig : Signature}
    {o : Except AnalysisError Method} (hl : r.Located P fuel sig o r')
    (hs : I (s.setResolver r)) : I (s.setResolver r') := by
  cases hl with
  | noClass h₁ => exact h.setResolver_of_resolveBodies h₁ hs
  | noMethod h₁ h₂ | notConcrete h₁ h₂ | declared h₁ h₂ =>
    exact h.setResolver_of_resolveMethod h₂ (h.setResolver_of_resolveBodies h₁ hs)
  | noOwner h₁ h₂ _ _ h₃ =>
    have hs₂ := h.setResolver_of_resolveMethod h₂ (h.setResolver_of_resolveBodies h₁ hs)
    exact h.setResolver_of_resolveBodies h₃ hs₂
  | inherited h₁ h₂ _ _ h₃ h₄ =>
    have hs₂ := h.setResolver_of_resolveMethod h₂ (h.setResolver_of_resolveBodies h₁ hs)
    exact h.setResolver_of_resolveMethod h₄ (h.setResolver_of_resolveBodies h₃ hs₂)

theorem diagnose (kind : DiagnosticKind) (subject message : String) (hs : I s) :
    I (s.diagnose kind subject message) :=
  h.congr (h.note (.diagnosed ⟨kind, subject, message⟩) hs) rfl

theorem fullyResolve_keeps (fuel : Nat) (sig : Signature) : Keeps I (fullyResolve P fuel sig) := by
  intro s hs
  have hn := h.note (.resolvingToBodies sig.owner) hs
  refine (fullyResolve_ends P fuel sig s).mono ?_ ?_
  · rintro o s' (⟨-, rfl⟩ | ⟨-, hu, r, rfl, hr⟩)
    · exact hs
    · exact h.remember hs hr hu (h.setResolver_of_located hr hn)
  · rintro e s' ⟨-, -, r, rfl, hr⟩
    exact h.setResolver_of_located hr hn

/-! ### The traversal -/

theorem scanCall_keeps (fuel : Nat) (caller : Signature) (offset : Nat) (c : Invocation) :
    Keeps I (scanCall P fuel caller offset c) := by
  intro s hs
  simp only [scanCall, ends_bind, ends_modify]
  have h₀ : I { s with bodies := s.bodies.insert c.target.owner } := h.congr hs rfl
  refine (h.fullyResolve_keeps fuel c.target _ h₀).mono ?_ fun _ _ => id
  intro o s₁ h₁
  cases o with
  | error e => exact h.congr h₁ rfl
  | ok callee =>
    simp only [ends_bind, ends_ask]
    have h₂ := h.body callee h₁
    split
    · rw [ends_ite]
      exact ⟨fun _ => h.congr h₂ rfl, fun _ => h₂⟩
    · exact h.congr h₂ rfl

theorem scan_keeps (fuel : Nat) (caller : Signature) (b : Body) :
    Keeps I (scan P fuel caller b) := by
  intro s hs
  simp only [scan, ends_bind]
  have hcalls (i : Instruction) : Keeps I (scanInstruction P fuel caller i) := by
    unfold scanInstruction
    split
    · exact h.scanCall_keeps fuel caller i.offset _
    · exact fun _ => id
  refine (Keeps.forM (fun i _ => hcalls i) s hs).mono (fun _ s₁ h₁ => ?_) fun _ _ => id
  split
  · exact h.diagnose _ _ _ h₁
  · exact h₁

theorem scanMethod_keeps (fuel : Nat) (m : Method) : Keeps I (scanMethod P fuel m) := by
  intro s hs
  simp only [scanMethod, ends_bind, ends_ask]
  have h₁ := h.body m hs
  split
  · rw [ends_ite]
    exact ⟨fun _ => h.note _ h₁, fun _ => h₁⟩
  · simp only [ends_bind, ends_modify]
    exact h.scan_keeps fuel m.signature _ _ (h.congr (h.note (.scanning m.signature) h₁) rfl)

theorem visit_keeps (fuel : Nat) (sig : Signature) : Keeps I (visit P fuel sig) := by
  intro s hs
  rw [ends_visit]
  refine (h.fullyResolve_keeps fuel sig s hs).mono (fun o s₁ h₁ => ?_) fun _ _ => id
  cases o with
  | error e => exact h.note _ h₁
  | ok m =>
    exact ⟨fun _ _ => h₁, fun _ _ => h.scanMethod_keeps fuel m _ (h.congr h₁ rfl),
      fun _ => h.scanMethod_keeps fuel m _ h₁⟩

theorem seed_keeps : Keeps I (seed P) := by
  intro s hs
  rw [ends_seed]
  refine Keeps.forM (fun name _ s hs => ?_) _ (h.congr hs rfl)
  simp only [seedClass, ends_bind, ends_ask]
  have h₁ := h.resolveClass name h.signatures hs
  split
  · exact h.congr h₁ rfl
  · simp only [ends_ite, ends_bind, ends_throw, ends_get, ends_pure, ends_modify]
    exact ⟨fun _ => h₁, fun _ => ⟨fun _ => h.diagnose _ _ _ h₁, fun _ => h₁⟩⟩

theorem drain_keeps (limit fuel : Nat) (patience : Option Nat) :
    Keeps I (drain P limit fuel patience) := by
  intro s hs
  refine (drain_ends (fun s _ _ hs _ _ => h.congr hs rfl) (fun s sig work hs _ _ => ?_)
    (fun _ => id) (fun _ => id) fuel patience hs).mono (fun _ _ h => h.1) fun _ _ => id
  exact h.visit_keeps limit sig _ (h.congr hs rfl)

/-- However a traversal ends, the property still holds. -/
theorem traverse_keeps (fuel : Nat) (patience : Option Nat) :
    Keeps I (traverse P fuel patience) := by
  intro s hs
  rw [traverse, ends_bind]
  exact (h.seed_keeps s hs).mono (fun _ s₁ h₁ => h.drain_keeps fuel fuel patience s₁ h₁)
    fun _ _ => id

end

end Stable

/-! ### Every session -/

/-- The property is about the options, the resolver and the memory of a session, and lookups keep
    it. -/
structure Lasting (P : Provider σ) (admits : Level → Prop) (I : Session σ → Prop) : Prop extends
    Stable P admits I where
  keeps {s s' : Session σ} : I s → s'.options = s.options → s'.resolver = s.resolver →
    s'.resolved = s.resolved → I s'

namespace Lasting

section

variable (h : Lasting P admits I)
include h

theorem ingest_keeps (paths : List StagedPath) (hs : I s) : I (s.ingest paths) := by
  induction paths generalizing s with
  | nil => exact hs
  | cons p paths ih =>
    refine ih ?_
    unfold ingestPath
    split
    · exact h.diagnose _ _ _ hs
    · exact hs
    · dsimp only
      split
      · exact h.note _ (h.keeps hs rfl rfl rfl)
      · exact h.keeps hs rfl rfl rfl

theorem detectEntryPoints_keeps (hs : I s) : I s.detectEntryPoints := by
  unfold Session.detectEntryPoints
  induction s.loaded.toList generalizing s with
  | nil => exact hs
  | cons c cs ih =>
    refine ih ?_
    unfold detectKernel
    dsimp only
    split
    · split
      · exact h.keeps hs rfl rfl rfl
      · exact h.diagnose _ _ _ hs
    · exact hs

theorem loadSignatures_keeps : Keeps I (loadSignatures P) := by
  intro s hs
  simp only [loadSignatures, ends_bind, ends_modify, ends_get]
  refine Keeps.forM (fun name _ s hs => ?_) _ (h.keeps hs rfl rfl rfl)
  simp only [loadClass, ends_bind, ends_modify, ends_ask]
  have h₁ := h.resolveClass name h.signatures (h.note (.loadingSignatures name) hs)
  split
  · exact h.keeps h₁ rfl rfl rfl
  · rw [ends_ite]
    exact ⟨fun _ => h.diagnose _ _ _ h₁, fun _ => h₁⟩

theorem loadBuiltins_keeps (hb : ∀ b ∈ s.options.builtins, admits b.level) (hs : I s) :
    I (loadBuiltins P s).2 := by
  have hload : Keeps I (s.options.builtins.forM (loadBuiltin P)) := by
    refine Keeps.forM fun b hmem s hs => ?_
    simp only [loadBuiltin, ends_bind, ends_ask]
    have h₁ := h.resolveClass b.name (hb b hmem) hs
    split
    · exact h₁
    · rw [ends_ite]
      exact ⟨fun _ => h.diagnose _ _ _ h₁, fun _ => h₁⟩
  exact hload.snd hs

/-- The options do not change. -/
theorem and_options (o : Options) : Lasting P admits fun s => I s ∧ s.options = o where
  signatures := h.signatures
  bodies := h.bodies
  congr hs hcore := ⟨h.congr hs.1 hcore, (congrArg Prod.fst hcore).trans hs.2⟩
  note e hs := ⟨h.note e hs.1, hs.2⟩
  resolveClass name _ hl hs := ⟨h.resolveClass name hl hs.1, hs.2⟩
  body m hs := ⟨h.body m hs.1, hs.2⟩
  remember hs hl hu hr := ⟨h.remember hs.1 hl hu hr.1, hr.2⟩
  keeps hs ho hr hm := ⟨h.keeps hs.1 ho hr hm, ho.trans hs.2⟩

/-- The property holds of every session that operations lead to, if it holds at first. -/
theorem reached {options : Options} {source : σ} (hb : ∀ b ∈ options.builtins, admits b.level)
    (hnew : I (new options source)) (hs : Reached P options source s) : I s := by
  have h' := h.and_options options.withDefaults
  suffices H : I s ∧ s.options = options.withDefaults from H.1
  induction hs with
  | new => exact ⟨hnew, rfl⟩
  | ingest paths _ ih => exact h'.ingest_keeps paths ih
  | loadSignatures _ ih => exact h'.loadSignatures_keeps.snd ih
  | detectEntryPoints _ ih => exact h'.detectEntryPoints_keeps ih
  | loadBuiltins _ ih => exact h'.loadBuiltins_keeps (ih.2.symm ▸ hb) ih
  | traverse fuel patience _ _ ih => exact (h'.traverse_keeps fuel patience).snd ih
  | augmentEntryPoints _ ih => exact h'.keeps ih rfl rfl rfl

end

end Lasting

/-! ### What the other phases leave alone -/

/-- The call graph as far as it is built, with what is called for and what is still to be
    visited. -/
def graph (s : Session σ) : OrderedSet ClassName × Queue Signature × OrderedSet Signature ×
    OrderedSet Signature × Array CallEdge :=
  (s.bodies, s.work, s.visited, s.scanned, s.edges)

theorem graph_ingest (s : Session σ) (paths : List StagedPath) :
    (s.ingest paths).graph = s.graph := by
  induction paths generalizing s with
  | nil => rfl
  | cons p paths ih =>
    refine (ih (s.ingestPath p)).trans ?_
    unfold ingestPath
    split
    · rfl
    · rfl
    · dsimp only
      split <;> rfl

theorem graph_detectEntryPoints (s : Session σ) : s.detectEntryPoints.graph = s.graph := by
  have hfold (l : List Class) : ∀ s : Session σ, (l.foldl detectKernel s).graph = s.graph := by
    induction l with
    | nil => exact fun s => rfl
    | cons c l ih =>
      intro s
      refine (ih (s.detectKernel c)).trans ?_
      unfold detectKernel
      dsimp only
      split
      · split <;> rfl
      · rfl
  exact hfold s.loaded.toList s

theorem graph_loadSignatures (P : Provider σ) (s : Session σ) :
    (loadSignatures P s).2.graph = s.graph := by
  have hkeeps : Keeps (fun s' : Session σ => s'.graph = s.graph) (loadSignatures P) := by
    intro s' h
    simp only [loadSignatures, ends_bind, ends_modify, ends_get]
    refine Keeps.forM (fun name _ s' h => ?_) _ h
    simp only [loadClass, ends_bind, ends_modify, ends_ask]
    split
    · exact h
    · rw [ends_ite]
      exact ⟨fun _ => h, fun _ => h⟩
  exact hkeeps.snd rfl

theorem graph_loadBuiltins (P : Provider σ) (s : Session σ) :
    (loadBuiltins P s).2.graph = s.graph := by
  have hkeeps : Keeps (fun s' : Session σ => s'.graph = s.graph) (loadBuiltins P) := by
    intro s' h
    simp only [loadBuiltins, ends_bind, ends_get]
    refine Keeps.forM (fun b _ s' h => ?_) _ h
    simp only [loadBuiltin, ends_bind, ends_ask]
    split
    · exact h
    · rw [ends_ite]
      exact ⟨fun _ => h, fun _ => h⟩
  exact hkeeps.snd rfl

/-! ### What a traversal leaves alone -/

/-- What the session was asked to do, and what it found out before the traversal, are as before. -/
structure Steady (s s' : Session σ) : Prop where
  options : s'.options = s.options
  catalog : s'.catalog = s.catalog
  entries : s'.entries = s.entries

theorem stable_steady (P : Provider σ) (s : Session σ) : Stable P (fun _ => True) (Steady s) where
  signatures := trivial
  bodies := trivial
  congr h hcore := by
    simp only [core, Prod.mk.injEq] at hcore
    exact ⟨hcore.1.trans h.options, hcore.2.1.trans h.catalog, hcore.2.2.1.trans h.entries⟩
  note _ h := ⟨h.options, h.catalog, h.entries⟩
  resolveClass _ _ _ h := ⟨h.options, h.catalog, h.entries⟩
  body _ h := ⟨h.options, h.catalog, h.entries⟩
  remember _ _ _ h := ⟨h.options, h.catalog, h.entries⟩

theorem Steady.refl (s : Session σ) : Steady s s := ⟨rfl, rfl, rfl⟩

theorem traverse_steady (P : Provider σ) (fuel : Nat) (patience : Option Nat) (s : Session σ) :
    Steady s (traverse P fuel patience s).2 :=
  ((stable_steady P s).traverse_keeps fuel patience).snd (.refl s)

end Session

end KernelReach
