import KernelReach.Proofs.Session.Progress
import Mathlib.Data.List.Infix
import Mathlib.Data.Multiset.Bind

/-!
# Taking a traversal up again

A traversal that is called off can be taken up again, and so can one that is done. It loses nothing
by that, but it may gain something: a traversal begins with the methods of all classes whose bodies
are called for, and a class is called for as soon as a call names it. So the classes that were
called before are seeds of the next traversal, with all of their methods, whether these are called
or not.

* `Prepared`: the sessions in which no traversal was begun;
* `Resumed`: the sessions after traversals that were called off or done;
* `isLeast_reachable`: what an analysis reaches that is not called off;
* `resumed_same_iff`: what a traversal that is taken up again comes to, and when this is the same as
  if it had never been called off.
-/

namespace KernelReach.Session

variable {σ : Type} {P : Provider σ} {start : σ} {A : Oracle} {s s' t u : Session σ}

/-! ### The sessions -/

/-- The sessions to which the phases before the traversal lead, if they succeed. -/
inductive Prepared (P : Provider σ) (options : Options) (source : σ) : Session σ → Prop
  | new : Prepared P options source (new options source)
  | ingest {s : Session σ} (paths : List StagedPath) :
      Prepared P options source s → Prepared P options source (s.ingest paths)
  | loadSignatures {s s' : Session σ} : Prepared P options source s →
      loadSignatures P s = (.ok (), s') → Prepared P options source s'
  | detectEntryPoints {s : Session σ} :
      Prepared P options source s → Prepared P options source s.detectEntryPoints
  | loadBuiltins {s s' : Session σ} : Prepared P options source s →
      loadBuiltins P s = (.ok (), s') → Prepared P options source s'

/-- The sessions to which traversals lead from `s`, each of which was called off or came to its
    end. -/
inductive Resumed (P : Provider σ) (s : Session σ) : Session σ → Prop
  | start : Resumed P s s
  | traverse {s' : Session σ} (fuel : Nat) (patience : Option Nat) : Resumed P s s' →
      (traverse P fuel patience s').1 = .ok () ∨
        (traverse P fuel patience s').1 = .error .canceled →
      Resumed P s (traverse P fuel patience s').2

variable {options : Options} {source : σ}

theorem Prepared.reached (h : Prepared P options source s) : Reached P options source s := by
  induction h with
  | new => exact .new
  | ingest paths _ ih => exact .ingest paths ih
  | detectEntryPoints _ ih => exact .detectEntryPoints ih
  | @loadSignatures s s' _ hs ih =>
    have := ih.loadSignatures
    rwa [hs] at this
  | @loadBuiltins s s' _ hs ih =>
    have := ih.loadBuiltins
    rwa [hs] at this

theorem Prepared.ready (hP : P.Follows source A) (hA : A.Coherent)
    (hb : ∀ b ∈ options.builtins, b.level.IsValid) (h : Prepared P options source s) :
    ∃ paths, Ready P source A options.rules paths s := by
  induction h with
  | new => exact ⟨[], ready_new P source A hb⟩
  | ingest paths _ ih =>
    obtain ⟨before, h⟩ := ih
    exact ⟨before ++ paths, h.ingest paths⟩
  | detectEntryPoints _ ih => exact ih.imp fun _ h => h.detectEntryPoints hA
  | loadSignatures _ hs ih => exact ih.imp fun _ h => (loadSignatures_ready hP hA h).ok hs
  | loadBuiltins _ hs ih => exact ih.imp fun _ h => (loadBuiltins_ready hP hA h).ok hs

/-- Without a scan there are no edges. -/
theorem Prepared.edges_eq_nil (h : Prepared P options source s) (hs : s.scanned.toList = []) :
    s.edges.toList = [] := by
  obtain ⟨runs, hlog⟩ := h.reached.logged
  have hcallers := hlog.callers
  rw [hs] at hcallers
  rw [hlog.edges, List.map_eq_nil_iff.1 hcallers.symm, List.flatMap_nil]

/-! ### The classes that are called for -/

/-- The class belongs to the application or the runtime, or it has an entry point. -/
def Roots (s : Session σ) (name : ClassName) : Prop :=
  name ∈ s.catalog.application.toList ∨ name ∈ s.catalog.runtime.toList ∨
    ∃ p ∈ s.entries.toList, p.method.owner = name

/-- A call that was recorded names the class. -/
def Called (s : Session σ) (name : ClassName) : Prop :=
  ∃ e ∈ s.edges.toList, e.target.owner = name

theorem mem_bodies_enlist {name : ClassName} :
    name ∈ s.enlist.bodies.toList ↔ name ∈ s.bodies.toList ∨ s.Roots name := by
  simp [enlist, Roots, or_assoc]

theorem Steady.roots_iff (h : Steady s s') (name : ClassName) : s'.Roots name ↔ s.Roots name := by
  rw [Roots, Roots, h.catalog, h.entries]

/-- A visit that succeeds calls for the classes that the new edges name. -/
theorem VisitOutcome.names {sig : Signature} (h : VisitOutcome A sig s s' (.ok ())) :
    ∃ block, s'.edges.toList = s.edges.toList ++ block ∧ Names block s s' := by
  cases h with
  | nowhere _ _ hadds hnames | again _ _ _ hadds hnames => exact ⟨[], hadds.edges, hnames⟩
  | scan _ _ _ hadds hnames => exact ⟨_, hadds.edges, hnames⟩

/-- Besides the classes that were called for at the beginning, it is those that calls name. -/
def CallsFor (base : ClassName → Prop) (s : Session σ) : Prop :=
  ∀ name, name ∈ s.bodies.toList ↔ base name ∨ s.Called name

theorem traverse_callsFor (hP : P.Follows start A) (hA : A.Coherent) {base : ClassName → Prop}
    (hs : ∀ name, name ∈ s.enlist.bodies.toList ↔ base name ∨ s.Called name) (fuel : Nat)
    (patience : Option Nat) (ht : Tracked P start A s) :
    Ends (traverse P fuel patience) s
      (fun _ s' => CallsFor base s' ∧ s.edges.toList <+: s'.edges.toList)
      fun e s' => e = .canceled → CallsFor base s' ∧ s.edges.toList <+: s'.edges.toList := by
  have hsown {names : ClassName → Prop} {s₁ : Session σ} (h₁ : Sows A names s s₁) :
      CallsFor base s₁ ∧ s.edges.toList <+: s₁.edges.toList := by
    refine ⟨fun name => ?_, by rw [h₁.edges]⟩
    rw [h₁.bodies, hs, Called, Called, h₁.edges]
  rw [traverse, ends_bind]
  refine (seed_tracked hP hA ht).mono ?_ ?_
  · rintro _ s₁ ⟨ht₁, h₁⟩
    refine (drain_outcome hP hA
      (I := fun s' => CallsFor base s' ∧ s.edges.toList <+: s'.edges.toList) (J := fun _ => True)
      (fun _ _ _ h _ _ => h) ?_ (fun _ _ _ _ _ _ _ _ _ _ _ => trivial) fuel fuel patience ht₁
      (hsown h₁)).mono (fun _ _ h => h.2.1) ?_
    · rintro s₂ sig work s' - ⟨h, hle⟩ - - - ho
      obtain ⟨block, hedges, hnames⟩ := ho.names
      refine ⟨fun name => ?_, ?_⟩
      · have hbefore : name ∈ ((s₂.setWork work).mark sig).bodies.toList ↔
            base name ∨ s₂.Called name := h name
        rw [hnames, hbefore, Called, Called, hedges, or_assoc]
        simp only [List.mem_append, or_and_right, exists_or]
        rfl
      · rw [hedges]
        exact hle.trans (List.prefix_append ..)
    · rintro e s' h rfl
      obtain ⟨-, ⟨-, h'⟩ | ⟨hfault, -⟩⟩ := h (by simp)
      · exact h'
      · exact hfault.elim
  · rintro e s₁ ⟨-, _, -, h₁⟩ -
    exact hsown h₁

/-! ### What is reached in the end -/

/-- What is known of a session that can be taken up again: it has lost nothing, and the classes
    whose methods come next are those of `base` and those that were called. -/
structure Resumable (P : Provider σ) (start : σ) (A : Oracle) (base : ClassName → Prop)
    (s : Session σ) : Prop where
  tracked : Tracked P start A s
  roots : ∀ name, s.Roots name ↔ base name
  enlisted : ∀ name, name ∈ s.enlist.bodies.toList ↔ base name ∨ s.Called name
  orderly : ∀ R, A.Closed (· ∈ s.enlist.bodies.toList) R →
    Orderly P start A (fun _ => False) R s

variable {base : ClassName → Prop}

/-- A session in which no traversal was begun is at the beginning of every one. -/
theorem Prepared.resumable (hP : P.Follows source A) (hA : A.Coherent)
    (hb : ∀ b ∈ options.builtins, b.level.IsValid) (h : Prepared P options source s) :
    Resumable P source A s.Roots s := by
  obtain ⟨paths, hready⟩ := h.ready hP hA hb
  have hinformed := h.reached.informed hP.classes hA hb
  have hedges := h.edges_eq_nil hready.scanned
  refine ⟨⟨hinformed, by simp [hready.scanned]⟩, fun _ => Iff.rfl, fun name => ?_, fun R _ => ?_⟩
  · rw [mem_bodies_enlist, hready.bodies, Called, hedges]
    simp
  · refine ⟨⟨hinformed.knows hA.toGraded, by simp [hready.visited], ?_, by simp [hready.scanned],
      by simp [hready.scanned], by simp [hready.work]⟩,
      ⟨[], by simp [hedges], by simp [hready.scanned]⟩, by simp [hready.visited]⟩
    rintro sig ⟨_, _, hn, -⟩
    exact hn.elim

theorem Prepared.not_called (hP : P.Follows source A) (hA : A.Coherent)
    (hb : ∀ b ∈ options.builtins, b.level.IsValid) (h : Prepared P options source s)
    (name : ClassName) : ¬s.Called name := by
  obtain ⟨paths, hready⟩ := h.ready hP hA hb
  rw [Called, h.edges_eq_nil hready.scanned]
  simp

section

variable (hP : P.Follows start A) (hA : A.Coherent)
include hP hA

theorem Resumable.traverse {fuel : Nat} {patience : Option Nat} {o : Except AnalysisError Unit}
    (h : Resumable P start A base s) (hrun : traverse P fuel patience s = (o, t))
    (ho : o = .ok () ∨ o = .error .canceled) : Resumable P start A base t := by
  have hsteady : Steady s t := by
    have := traverse_steady P fuel patience s
    rwa [hrun] at this
  have horderly (R : Set Signature) (hR : A.Closed (· ∈ s.enlist.bodies.toList) R) :
      Tracked P start A t ∧ Orderly P start A (fun _ => False) R t := by
    have hends := traverse_orderly hP hA hR fuel patience h.tracked (h.orderly R hR)
    rcases ho with rfl | rfl
    · obtain ⟨ht, h', -⟩ := hends.ok hrun
      exact ⟨ht, h'.weaken⟩
    · exact hends.error hrun rfl
  obtain ⟨hcalls, hedges⟩ : CallsFor base t ∧ s.edges.toList <+: t.edges.toList := by
    have hends := traverse_callsFor hP hA h.enlisted fuel patience h.tracked
    rcases ho with rfl | rfl
    · exact hends.ok hrun
    · exact hends.error hrun rfl
  have hroots (name : ClassName) : t.Roots name ↔ base name :=
    (hsteady.roots_iff name).trans (h.roots name)
  have henlisted (name : ClassName) :
      name ∈ t.enlist.bodies.toList ↔ base name ∨ t.Called name := by
    rw [mem_bodies_enlist, hcalls, hroots]
    tauto
  have huniv : A.Closed (· ∈ s.enlist.bodies.toList) Set.univ :=
    ⟨fun _ _ => trivial, fun _ _ _ => trivial⟩
  refine ⟨(horderly Set.univ huniv).1, hroots, henlisted, fun R hR => (horderly R ?_).2⟩
  -- What was called before is still called, so there are no fewer seeds than before.
  refine hR.mono fun name hn => (henlisted name).2 ?_
  refine ((h.enlisted name).1 hn).imp_right ?_
  rintro ⟨e, he, hname⟩
  exact ⟨e, hedges.subset he, hname⟩

theorem Resumed.resumable (hr : Resumed P s s') (h : Resumable P start A base s) :
    Resumable P start A base s' := by
  induction hr with
  | start => exact h
  | traverse fuel patience _ ho ih => exact ih.traverse hP hA rfl ho

/-- A traversal that comes to its end reaches what the roots and the classes that were called before
    lead to, and has the edges of the methods that it reaches. -/
theorem Resumable.isLeast {fuel : Nat} {patience : Option Nat} (h : Resumable P start A base s)
    (hrun : Session.traverse P fuel patience s = (.ok (), t)) :
    IsLeast {R : Set Signature | A.Closed (fun name => base name ∨ s.Called name) R}
      {sig | sig ∈ t.scanned.toList} ∧
    ∃ blocks, t.edges.toList = blocks.flatten ∧ List.Forall₂ A.Block t.scanned.toList blocks := by
  have hroots : (fun name => base name ∨ s.Called name) = (· ∈ s.enlist.bodies.toList) :=
    funext fun name => propext (h.enlisted name).symm
  have hends (R : Set Signature) (hR : A.Closed (· ∈ s.enlist.bodies.toList) R) :=
    (traverse_orderly hP hA hR fuel patience h.tracked (h.orderly R hR)).ok hrun
  have huniv : A.Closed (· ∈ s.enlist.bodies.toList) Set.univ :=
    ⟨fun _ _ => trivial, fun _ _ _ => trivial⟩
  obtain ⟨-, h', hw⟩ := hends Set.univ huniv
  rw [hroots]
  exact ⟨⟨h'.toExplored.closed hA hw, fun R hR => (hends R hR).2.1.scanned⟩, h'.blocks⟩

end

/-- What an analysis has scanned when it is done. -/
theorem isLeast_scanned {paths : List StagedPath} (hP : P.Follows source A) (hA : A.Coherent)
    (hb : ∀ b ∈ options.builtins, b.level.IsValid) {fuel : Nat} {patience : Option Nat}
    (h : findKernels P fuel patience ((new options source).ingest paths) = (.ok (), s)) :
    IsLeast {R : Set Signature | A.Closed (IsRoot options.rules paths) R}
      {sig | sig ∈ s.scanned.toList} := by
  obtain ⟨s₁, s₂, s₃, h₁, h₂, h₃, rfl⟩ := findKernels_eq_ok h
  have hnew := (ready_new P source A hb).ingest paths
  have hready₁ : Ready P source A options.rules paths s₁ :=
    h₁.elim (fun he => he ▸ hnew) (loadSignatures_ready hP hA hnew).ok
  have hready₂ := (loadBuiltins_ready hP hA (hready₁.detectEntryPoints hA)).ok h₂
  have hprepared : Prepared P options source s₁ :=
    h₁.elim (fun he => he ▸ .ingest paths .new) (.loadSignatures (.ingest paths .new))
  have hresumable := (hprepared.detectEntryPoints.loadBuiltins h₂).resumable hP hA hb
  -- The seeds are the methods of the classes that were staged and of the runtime.
  have hroots : (fun name => s₂.Roots name ∨ s₂.Called name) = IsRoot options.rules paths :=
    funext fun name => propext ((hresumable.enlisted name).symm.trans hready₂.mem_bodies_enlist)
  have hleast := (hresumable.isLeast hP hA h₃).1
  rwa [hroots] at hleast

/-- Over a coherent provider, an analysis that succeeds reports as reachable the least set of
    methods that has what the methods of the application and the runtime classes lead to, and with
    every method what the calls in its body lead to. -/
theorem isLeast_reachable {paths : List StagedPath} {A : Oracle} {source : σ}
    (hP : P.Follows source A) (hA : A.Coherent) {options : Options}
    (hb : ∀ b ∈ options.builtins, b.level.IsValid) {fuel : Nat} {patience : Option Nat}
    (h : findKernels P fuel patience ((new options source).ingest paths) = (.ok (), s)) :
    IsLeast {R : Set Signature | A.Closed (IsRoot options.rules paths) R}
      {sig | sig ∈ s.result.reachable} :=
  isLeast_scanned hP hA hb h

/-- In the small program, the kernel and the method that it calls through a subclass are the least
    closed set. -/
theorem isLeast_reachable_sample :
    let roots := IsRoot Sample.options.rules Sample.paths
    (findKernels Sample.oracle.toProvider 9 none
      ((new Sample.options ()).ingest Sample.paths)).1 = .ok () ∧
    IsLeast {R : Set Signature | Sample.oracle.Closed roots R}
      {sig | sig ∈ [Sample.signature "app.K" "run", Sample.signature "app.Base" "work"]} := by
  have hrun :
      let x := findKernels Sample.oracle.toProvider 9 none
        ((new Sample.options ()).ingest Sample.paths)
      (x.1, x.2.result.reachable) =
        (.ok (), [Sample.signature "app.K" "run", Sample.signature "app.Base" "work"]) := by cbv
  obtain ⟨hok, hreachable⟩ := Prod.mk.inj hrun
  have hfind : findKernels Sample.oracle.toProvider 9 none
      ((new Sample.options ()).ingest Sample.paths) = (.ok (), _) := Prod.ext hok rfl
  have hleast := isLeast_reachable Sample.oracle.follows_toProvider Sample.coherent_oracle
    (by decide) hfind
  rw [hreachable] at hleast
  exact ⟨hok, hleast⟩

/-- More methods have more edges. -/
theorem flatMap_le_flatMap {f : Signature → List CallEdge} {l l' : List Signature} (hl : l.Nodup)
    (hle : l ⊆ l') : (l.flatMap f : Multiset CallEdge) ≤ (l'.flatMap f : Multiset CallEdge) := by
  have hm : (l : Multiset Signature) ≤ (l' : Multiset Signature) :=
    (Multiset.le_iff_subset (Multiset.coe_nodup.2 hl)).2 hle
  obtain ⟨rest, hrest⟩ := Multiset.le_iff_exists_add.1 hm
  rw [← Multiset.coe_bind, ← Multiset.coe_bind, hrest, Multiset.add_bind]
  exact Multiset.le_add_right _ _

end KernelReach.Session

/-! ### A class that is called for one of its methods -/

namespace KernelReach.Sample

/-- A kernel that calls one of the two methods of a class. -/
def helperClasses : List Class :=
  [{ name := ⟨"app.K"⟩, level := .bodies, flags := .isPublic, superclass := none
     interfaces := [⟨"api.Kernel"⟩]
     methods := [⟨signature "app.K" "run", .isPublic, some
      ⟨[call 0 (signature "app.Helper" "compute"), ⟨3, 0xb1, none⟩], none⟩⟩] },
   { name := ⟨"app.Helper"⟩, level := .bodies, flags := .isPublic, superclass := none
     interfaces := []
     methods := [⟨signature "app.Helper" "compute", .isPublic, some ⟨[⟨0, 0xb1, none⟩], none⟩⟩,
       ⟨signature "app.Helper" "spare", .isPublic, some ⟨[⟨0, 0xb1, none⟩], none⟩⟩] }]

/-- The answers of a provider that has the two classes. -/
def helperOracle : Oracle := .ofClasses helperClasses

theorem coherent_helperOracle : helperOracle.Coherent := Oracle.coherent_ofClasses (by decide)

/-- The session in which the traversal begins. -/
def helperSession : Session Unit :=
  (Session.loadBuiltins helperOracle.toProvider
    (Session.loadSignatures helperOracle.toProvider
      ((Session.new options ()).ingest paths)).2.detectEntryPoints).2

theorem prepared_helperSession :
    Session.Prepared helperOracle.toProvider options () helperSession := by
  have hload : (Session.loadSignatures helperOracle.toProvider
      ((Session.new options ()).ingest paths)).1 = .ok () := by cbv
  have hbuiltins : (Session.loadBuiltins helperOracle.toProvider
      (Session.loadSignatures helperOracle.toProvider
        ((Session.new options ()).ingest paths)).2.detectEntryPoints).1 = .ok () := by cbv
  exact .loadBuiltins (.detectEntryPoints (.loadSignatures (.ingest paths .new)
    (Prod.ext hload rfl))) (Prod.ext hbuiltins rfl)

/-- How the traversals end: one that is never called off, one that is called off after its first
    step, and those that take up the one and the other. -/
theorem helper_ends :
    let P := helperOracle.toProvider
    let whole := Session.traverse P 9 none helperSession
    let first := Session.traverse P 9 (some 1) helperSession
    whole.1 = .ok () ∧ first.1 = .error .canceled ∧
      (Session.traverse P 9 none first.2).1 = .ok () ∧
      (Session.traverse P 9 none whole.2).1 = .ok () := by
  refine ⟨by cbv, by cbv, by cbv, by cbv⟩

/-- What the traversals reach. -/
theorem helper_reachable :
    let P := helperOracle.toProvider
    let whole := Session.traverse P 9 none helperSession
    let first := Session.traverse P 9 (some 1) helperSession
    let run := signature "app.K" "run"
    let compute := signature "app.Helper" "compute"
    let spare := signature "app.Helper" "spare"
    whole.2.result.reachable = [run, compute] ∧
      (Session.traverse P 9 none first.2).2.result.reachable = [run, compute, spare] ∧
      (Session.traverse P 9 none whole.2).2.result.reachable = [run, compute, spare] := by
  refine ⟨by cbv, by cbv, by cbv⟩

end KernelReach.Sample

namespace KernelReach.Session

variable {σ : Type} {P : Provider σ} {s s' t u : Session σ}

/-- Over a coherent provider, let `u` be the session after a traversal that was never called off,
    and let `t` be the session after one that was taken up again, as often as you like, after it was
    called off or done. What is reachable in `u` is the least set that is closed for the classes of
    the application, the runtime and the entry points; what is reachable in `t` is the least set
    that is closed for these classes and those that were called before it was taken up for the last
    time. So nothing is lost, neither methods nor edges, and both are the same if and only if
    whatever the methods of the classes that were called lead to is reachable in `u` anyway. -/
theorem resumed_same_iff {A : Oracle} {source : σ} (hP : P.Follows source A) (hA : A.Coherent)
    {options : Options} (hb : ∀ b ∈ options.builtins, b.level.IsValid)
    (hs : Prepared P options source s) {fuel fuel' : Nat} {patience : Option Nat}
    (hu : traverse P fuel none s = (.ok (), u)) (hr : Resumed P s s')
    (ht : traverse P fuel' patience s' = (.ok (), t)) :
    IsLeast {R : Set Signature | A.Closed s.Roots R} {sig | sig ∈ u.result.reachable} ∧
    IsLeast {R : Set Signature | A.Closed (fun name => s.Roots name ∨ s'.Called name) R}
      {sig | sig ∈ t.result.reachable} ∧
    {sig | sig ∈ u.result.reachable} ⊆ {sig | sig ∈ t.result.reachable} ∧
    (u.result.edges : Multiset CallEdge) ≤ (t.result.edges : Multiset CallEdge) ∧
    ({sig | sig ∈ t.result.reachable} = {sig | sig ∈ u.result.reachable} ∧
        (t.result.edges : Multiset CallEdge) = (u.result.edges : Multiset CallEdge) ↔
      ∀ sig sig', A.Seeds s'.Called sig → A.Reaches sig sig' → sig' ∈ u.result.reachable) := by
  have hstart := hs.resumable hP hA hb
  have hresumed := hr.resumable hP hA hstart
  obtain ⟨hleast, blocks, hedges, hblocks⟩ := hstart.isLeast hP hA hu
  obtain ⟨hleast', blocks', hedges', hblocks'⟩ := hresumed.isLeast hP hA ht
  -- No call was recorded before the first traversal.
  have hroots : (fun name => s.Roots name ∨ s.Called name) = s.Roots :=
    funext fun name => propext (or_iff_left (hs.not_called hP hA hb name))
  rw [hroots] at hleast
  obtain ⟨f, hf⟩ := A.exists_blocks hA.toGraded
  replace hedges : u.edges.toList = u.scanned.toList.flatMap f := hedges.trans (hf _ _ hblocks)
  replace hedges' : t.edges.toList = t.scanned.toList.flatMap f := hedges'.trans (hf _ _ hblocks')
  have hsub : {sig | sig ∈ u.scanned.toList} ⊆ {sig | sig ∈ t.scanned.toList} :=
    hleast.2 (hleast'.1.mono fun _ => .inl)
  have hle {v w : Session σ} (hv : v.edges.toList = v.scanned.toList.flatMap f)
      (hw : w.edges.toList = w.scanned.toList.flatMap f)
      (h : {sig | sig ∈ v.scanned.toList} ⊆ {sig | sig ∈ w.scanned.toList}) :
      (v.edges.toList : Multiset CallEdge) ≤ (w.edges.toList : Multiset CallEdge) := by
    rw [hv, hw]
    exact flatMap_le_flatMap v.scanned.nodup_toList h
  refine ⟨hleast, hleast', hsub, hle hedges hedges' hsub, ⟨?_, fun h => ?_⟩⟩
  · rintro ⟨heq, -⟩ sig sig' ⟨name, c, hn, hc⟩ hreach
    have hmem : sig' ∈ {sig | sig ∈ t.result.reachable} :=
      hleast'.1.seed ⟨name, c, .inr hn, hc⟩ hreach
    rw [heq] at hmem
    exact hmem
  · -- What is reachable in `u` is closed for the classes that were called, too.
    have hclosed : A.Closed (fun name => s.Roots name ∨ s'.Called name)
        {sig | sig ∈ u.scanned.toList} := by
      refine ⟨?_, hleast.1.call⟩
      rintro sig sig' ⟨name, c, hn | hn, hc⟩ hreach
      · exact hleast.1.seed ⟨name, c, hn, hc⟩ hreach
      · exact h sig sig' ⟨name, c, hn, hc⟩ hreach
    have hsub' : {sig | sig ∈ t.scanned.toList} ⊆ {sig | sig ∈ u.scanned.toList} :=
      hleast'.2 hclosed
    exact ⟨hsub'.antisymm hsub, (hle hedges' hedges hsub').antisymm (hle hedges hedges' hsub)⟩

/-- The traversal of the two classes that was called off reaches the least set that is closed for
    the kernel and for `app.Helper`, which it had called, and that is more than it would have
    reached. -/
theorem resumed_same_iff_sample :
    let P := Sample.helperOracle.toProvider
    let s := Sample.helperSession
    let s' := (traverse P 9 (some 1) s).2
    let u := (traverse P 9 none s).2
    let t := (traverse P 9 none s').2
    IsLeast {R : Set Signature |
        Sample.helperOracle.Closed (fun name => s.Roots name ∨ s'.Called name) R}
      {sig | sig ∈ t.result.reachable} ∧
    (u.result.edges : Multiset CallEdge) ≤ (t.result.edges : Multiset CallEdge) ∧
    ¬∀ sig sig', Sample.helperOracle.Seeds s'.Called sig → Sample.helperOracle.Reaches sig sig' →
      sig' ∈ u.result.reachable := by
  intro P s s' u t
  obtain ⟨hwhole, hfirst, hsecond, -⟩ := Sample.helper_ends
  obtain ⟨hu, ht, -⟩ := Sample.helper_reachable
  obtain ⟨-, hleast, -, hedges, hsame⟩ := resumed_same_iff Sample.helperOracle.follows_toProvider
    Sample.coherent_helperOracle (by decide) Sample.prepared_helperSession
    (Prod.ext hwhole rfl : traverse P 9 none s = (.ok (), u))
    (.traverse 9 (some 1) .start (.inr hfirst))
    (Prod.ext hsecond rfl : traverse P 9 none s' = (.ok (), t))
  refine ⟨hleast, hedges, fun h => ?_⟩
  have hmem : Sample.signature "app.Helper" "spare" ∈ {sig | sig ∈ t.result.reachable} := by
    rw [show t.result.reachable = _ from ht]
    simp
  rw [(hsame.2 h).1, show u.result.reachable = _ from hu] at hmem
  revert hmem
  decide

/-- A traversal of the two classes has called `app.Helper` after its first step. If it is called off
    there and taken up again, or taken up again when it is done, it reaches the spare method, which
    nothing calls. -/
theorem resumed_differs :
    let P := Sample.helperOracle.toProvider
    let s := Sample.helperSession
    let whole := traverse P 9 none s
    let first := traverse P 9 (some 1) s
    let second := traverse P 9 none first.2
    let again := traverse P 9 none whole.2
    Prepared P Sample.options () s ∧
    (whole.1 = .ok () ∧ first.1 = .error .canceled ∧ second.1 = .ok () ∧ again.1 = .ok ()) ∧
    Sample.signature "app.Helper" "spare" ∉ whole.2.result.reachable ∧
    Sample.signature "app.Helper" "spare" ∈ second.2.result.reachable ∧
    Sample.signature "app.Helper" "spare" ∈ again.2.result.reachable := by
  obtain ⟨hwhole, hsecond, hagain⟩ := Sample.helper_reachable
  refine ⟨Sample.prepared_helperSession, Sample.helper_ends, ?_, ?_, ?_⟩
  · rw [hwhole]
    decide
  · rw [hsecond]
    decide
  · rw [hagain]
    decide

end KernelReach.Session
