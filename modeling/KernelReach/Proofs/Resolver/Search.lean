import KernelReach.Proofs.Resolver.Transparent
import Mathlib.Logic.Relation

/-!
# Where a method is found

The answers of a coherent provider say of every class whether it declares a method or passes the
question on to its superclass. Following the superclasses until one declares the method is a
relation between classes (`Oracle.Finds`), and the search of the resolver computes it
(`Sound.resolveMethod_ok`, `Sound.resolveMethod_error`).

The search remembers where it has been and gives up when the superclasses run in a circle. It does
not give up too early: each class passes the question on to one other class at most, so a search
that comes back to where it was never gets to a class that declares the method (`Finds.acyclic`).
-/

namespace KernelReach

/-! ### Method tables -/

theorem Method.isConcrete_congr {m n : Method} (h : m.entry = n.entry) :
    m.isConcrete = n.isConcrete :=
  congrArg (fun e => e.2.isConcrete) h

namespace Class

/-- The method table determines the method that `sig` refers to in a class, but for its body. -/
theorem map_entry_method? {c d : Class}
    (h : c.methods.map Method.entry = d.methods.map Method.entry) (sig : Signature) :
    (c.method? sig).map Method.entry = (d.method? sig).map Method.entry := by
  have heq (c : Class) : (c.method? sig).map Method.entry =
      (c.methods.map Method.entry).find? fun e =>
        e.1.name == sig.name && e.1.params == sig.params && e.1.result == sig.result := by
    rw [List.find?_map]
    rfl
  rw [heq, heq, h]

theorem method?_eq_none_iff {c d : Class}
    (h : c.methods.map Method.entry = d.methods.map Method.entry) (sig : Signature) :
    c.method? sig = none ↔ d.method? sig = none := by
  rw [← Option.map_eq_none_iff (f := Method.entry), map_entry_method? h, Option.map_eq_none_iff]

/-- A method of the class, which is called as `sig` is. -/
theorem method?_eq_some {c : Class} {sig : Signature} {m : Method} (h : c.method? sig = some m) :
    m ∈ c.methods ∧ m.signature = { sig with owner := m.signature.owner } := by
  refine ⟨List.mem_of_find?_eq_some h, ?_⟩
  have := List.find?_some h
  simp only [Bool.and_eq_true, beq_iff_eq] at this
  obtain ⟨⟨hn, hp⟩, hr⟩ := this
  rw [← hn, ← hp, ← hr]

/-- Its own signature refers to a method wherever `sig` does. -/
theorem method?_signature {c : Class} {sig : Signature} {m : Method} (h : c.method? sig = some m)
    (d : Class) : d.method? m.signature = d.method? sig := by
  rw [(method?_eq_some h).2]
  rfl

end Class

/-! ### The search -/

namespace Oracle

variable {A : Oracle} {sig : Signature} {name superclass owner : ClassName} {c d : Class}
  {m n : Method}

/-- The class `name` can be `c` for someone who asks for its method table. -/
def Has (A : Oracle) (name : ClassName) (c : Class) : Prop :=
  ∃ l, l.IsValid ∧ .signatures ≤ l ∧ A.resolve name l = .ok c

theorem has_of_bodies (h : A.resolve name .bodies = .ok c) : A.Has name c :=
  ⟨.bodies, Level.isValid_bodies, by decide, h⟩

/-- The class `name` declares a method that is called as `sig` is. -/
def Declares (A : Oracle) (sig : Signature) (name : ClassName) : Prop :=
  ∃ c, A.resolve name .signatures = .ok c ∧ (c.method? sig).isSome

/-- The class `name` declares no such method, and extends `superclass`. -/
def Passes (A : Oracle) (sig : Signature) (name superclass : ClassName) : Prop :=
  ∃ c, A.resolve name .signatures = .ok c ∧ c.method? sig = none ∧ c.superclass = some superclass

/-- From the class `name` upwards, `owner` is the first class that declares a method which is called
    as `sig` is. -/
inductive Finds (A : Oracle) (sig : Signature) : ClassName → ClassName → Prop
  | declared {name : ClassName} : A.Declares sig name → Finds A sig name name
  | inherited {name superclass owner : ClassName} :
      A.Passes sig name superclass → Finds A sig superclass owner → Finds A sig name owner

theorem Passes.not_declares (h : A.Passes sig name superclass) : ¬A.Declares sig name := by
  rintro ⟨d, hd, hm⟩
  obtain ⟨c, hc, hn, -⟩ := h
  rw [hc, Except.ok.injEq] at hd
  rw [← hd, hn] at hm
  exact absurd hm (by simp)

theorem Passes.unique {superclass' : ClassName} (h : A.Passes sig name superclass)
    (h' : A.Passes sig name superclass') : superclass = superclass' := by
  obtain ⟨c, hc, -, hs⟩ := h
  obtain ⟨d, hd, -, hs'⟩ := h'
  rw [hc, Except.ok.injEq] at hd
  rw [hd, hs', Option.some.injEq] at hs
  exact hs.symm

namespace Finds

theorem declares (h : A.Finds sig name owner) : A.Declares sig owner := by
  induction h with
  | declared hd => exact hd
  | inherited _ _ ih => exact ih

/-- A search can only begin at a class that there is. -/
theorem exists_resolve (h : A.Finds sig name owner) : ∃ c, A.resolve name .signatures = .ok c := by
  cases h with
  | declared hd => exact hd.imp fun _ => And.left
  | inherited hp => exact hp.imp fun _ => And.left

theorem unique {owner' : ClassName} (h : A.Finds sig name owner) (h' : A.Finds sig name owner') :
    owner = owner' := by
  induction h with
  | declared hd =>
    cases h' with
    | declared => rfl
    | inherited hp => exact absurd hd hp.not_declares
  | inherited hp _ ih =>
    cases h' with
    | declared hd => exact absurd hd hp.not_declares
    | inherited hp' h' => exact ih (hp.unique hp' ▸ h')

/-- A search that finds something does not come back to where it began. -/
theorem acyclic (h : A.Finds sig name owner) : ¬Relation.TransGen (A.Passes sig) name name := by
  induction h with
  | declared hd =>
    intro hcycle
    obtain ⟨_, hp, -⟩ := Relation.TransGen.head'_iff.1 hcycle
    exact hp.not_declares hd
  | inherited hp _ ih =>
    intro hcycle
    obtain ⟨_, hp', hrest⟩ := Relation.TransGen.head'_iff.1 hcycle
    rw [← hp.unique hp'] at hrest
    exact ih (Relation.TransGen.tail' hrest hp)

end Finds

/-! ### The answers at all levels agree -/

/-- At signatures and above, it makes no difference at which level a class is looked at. -/
theorem Has.signatures (hA : A.Graded) (h : A.Has name c) :
    ∃ d, A.resolve name .signatures = .ok d ∧ d.superclass = c.superclass ∧
      d.methods.map Method.entry = c.methods.map Method.entry := by
  obtain ⟨l, hv, hl, hc⟩ := h
  obtain ⟨d, hd, _, hs, _, hm⟩ := hA.ok_of_le Level.isValid_signatures hv hl hc
  exact ⟨d, hd, hs, hm (le_refl _)⟩

/-- The method that `sig` refers to in a class is the same at both levels, but for its body. -/
theorem Has.exists_method? (hA : A.Graded) (hc : A.Has name c) (hd : A.Has name d)
    (hm : c.method? sig = some m) : ∃ n, d.method? sig = some n ∧ n.entry = m.entry := by
  obtain ⟨c', hc', -, hcm⟩ := hc.signatures hA
  obtain ⟨d', hd', -, hdm⟩ := hd.signatures hA
  rw [hc', Except.ok.injEq] at hd'
  have heq := Class.map_entry_method? (hdm.symm.trans (hd' ▸ hcm)) sig
  rw [hm, Option.map_some] at heq
  exact Option.map_eq_some_iff.1 heq

theorem Has.declares_iff (hA : A.Graded) (h : A.Has name c) :
    A.Declares sig name ↔ (c.method? sig).isSome := by
  obtain ⟨d, hd, -, hm⟩ := h.signatures hA
  have heq : (d.method? sig).isSome = (c.method? sig).isSome := by
    simpa using congrArg Option.isSome (Class.map_entry_method? hm sig)
  simp only [Declares, hd, Except.ok.injEq, exists_eq_left', heq]

theorem Has.passes_iff (hA : A.Graded) (h : A.Has name c) :
    A.Passes sig name superclass ↔ c.method? sig = none ∧ c.superclass = some superclass := by
  obtain ⟨d, hd, hs, hm⟩ := h.signatures hA
  simp only [Passes, hd, Except.ok.injEq, exists_eq_left', hs, Class.method?_eq_none_iff hm]

theorem Has.finds_self (hA : A.Graded) (h : A.Has name c) (hm : c.method? sig = some m) :
    A.Finds sig name name :=
  .declared ((h.declares_iff hA).2 (by rw [hm]; rfl))

/-- A class that does not declare the method leaves the search to its superclass. -/
theorem Has.finds_iff (hA : A.Graded) (h : A.Has name c) (hm : c.method? sig = none) :
    A.Finds sig name owner ↔
      ∃ superclass, c.superclass = some superclass ∧ A.Finds sig superclass owner := by
  constructor
  · intro hf
    cases hf with
    | declared hd => simp [h.declares_iff hA, hm] at hd
    | inherited hp hf => exact ⟨_, ((h.passes_iff hA).1 hp).2, hf⟩
  · rintro ⟨superclass, hs, hf⟩
    exact .inherited ((h.passes_iff hA).2 ⟨hm, hs⟩) hf

end Oracle

/-! ### The search of the resolver -/

namespace Resolver

variable {σ : Type} {P : Provider σ} {start : σ} {A : Oracle} {r : Resolver σ} {sig : Signature}
  {name : ClassName} {c : Class}

/-- A class that is kept with its bodies can be searched. -/
theorem resolveMethod_eq (hA : A.Graded) (hc : A.resolve sig.owner .bodies = .ok c)
    (hk : r.classes[sig.owner]? = some c) (fuel : Nat) :
    r.resolveMethod P fuel sig = searchMethod P sig fuel [sig.owner] c r := by
  have hl : c.level = .bodies := hA.level_eq Level.isValid_bodies hc
  have hle : .signatures ≤ c.level := by rw [hl]; decide
  simp only [resolveMethod, hk, hle, if_true, hA.name_eq Level.isValid_bodies hc]

/-- A class that declares the method ends the search. -/
theorem eq_of_searchMethod {fuel : Nat} {seen : List ClassName} {m m' : Method} {r' : Resolver σ}
    (hm : c.method? sig = some m) (h : searchMethod P sig fuel seen c r = (.ok m', r')) :
    m' = m := by
  cases search_iff.2 h with
  | found hm' => exact Option.some.inj (hm'.symm.trans hm)
  | up hm' => simp [hm] at hm'

section

variable (hP : P.FollowsClasses start A) (hA : A.Graded)
include hP hA

/-- A class that the resolver does not answer with is one that the provider does not have. -/
theorem Sound.resolve_ne_ok {level : Level} {e : AnalysisError} {r' : Resolver σ}
    (h : r.Sound P start A) (hl : level.IsValid) (hr : r.resolveClass P name level = (.error e, r'))
    (d : Class) : A.resolve name level ≠ .ok d := by
  intro hd
  obtain ⟨d', hd'⟩ := (h.resolveClass_ok_iff hP hA hl name).2 ⟨d, hd⟩
  rw [hr] at hd'
  cases hd'

/-- What comes of a search that has got from the classes in `seen` to the class `name`: a method of
    the class that is found, or the complaint that no class is. -/
theorem Sound.search {fuel : Nat} {seen : List ClassName} {o : Except AnalysisError Method}
    {r' : Resolver σ} (h : r.Sound P start A) (hc : A.Has name c)
    (hseen : ∀ n ∈ seen, Relation.ReflTransGen (A.Passes sig) n name) :
    Search P sig fuel seen c r o r' → match o with
    | .ok m => ∃ owner d, A.Finds sig name owner ∧ A.Has owner d ∧ d.method? sig = some m
    | .error e => e ≠ .exhausted → ∀ owner, ¬A.Finds sig name owner := by
  -- What the search has seen leads to where it is, and this is all that it needs to know in order
  -- to give up when it comes back.
  intro hsearch
  induction hsearch generalizing name with
  | exhausted => exact fun he => absurd rfl he
  | found hm => exact ⟨name, _, hc.finds_self hA hm, hc, hm⟩
  | top hm hs =>
    intro _ owner hf
    obtain ⟨superclass, hs', -⟩ := (hc.finds_iff hA hm).1 hf
    simp [hs] at hs'
  | circle hm hs hin =>
    -- The superclasses run in a circle.
    intro _ owner hf
    have hp := (hc.passes_iff hA).2 ⟨hm, hs⟩
    obtain ⟨superclass, hs', hf⟩ := (hc.finds_iff hA hm).1 hf
    rw [hs, Option.some.injEq] at hs'
    exact (hs' ▸ hf).acyclic (Relation.TransGen.tail' (hseen _ hin) hp)
  | unavailable hm hs _ hr | failed hm hs _ hr =>
    -- Whatever the complaint is, the provider has no such class.
    intro _ owner hf
    obtain ⟨superclass, hs', hf⟩ := (hc.finds_iff hA hm).1 hf
    rw [hs, Option.some.injEq] at hs'
    obtain ⟨d, hd⟩ := hf.exists_resolve
    exact h.resolve_ne_ok hP hA Level.isValid_signatures hr d (hs' ▸ hd)
  | @up _ seen c r superclass d r₁ o r' hm hs _ hr _ ih =>
    have hp := (hc.passes_iff hA).2 ⟨hm, hs⟩
    have hsound := h.resolveClass hP hA Level.isValid_signatures superclass
    rw [hr] at hsound
    have hd := h.resolveClass_ok hP hA Level.isValid_signatures superclass (congrArg Prod.fst hr)
    have hfrom : ∀ n ∈ superclass :: seen, Relation.ReflTransGen (A.Passes sig) n superclass := by
      intro n hn
      rcases List.mem_cons.1 hn with rfl | hn
      · exact .refl
      · exact (hseen n hn).tail hp
    have hup := ih hsound hd hfrom
    cases o with
    | ok m =>
      obtain ⟨owner, d', hf, hd', hm'⟩ := hup
      exact ⟨owner, d', .inherited hp hf, hd', hm'⟩
    | error e =>
      intro he owner hf
      obtain ⟨superclass', hs', hf⟩ := (hc.finds_iff hA hm).1 hf
      rw [hs, Option.some.injEq] at hs'
      exact hup he owner (hs' ▸ hf)

theorem Sound.resolveMethod (h : r.Sound P start A) (hc : A.resolve sig.owner .bodies = .ok c)
    (hk : r.classes[sig.owner]? = some c) (fuel : Nat) :
    match (r.resolveMethod P fuel sig).1 with
    | .ok m => ∃ owner d, A.Finds sig sig.owner owner ∧ A.Has owner d ∧ d.method? sig = some m
    | .error e => e ≠ .exhausted → ∀ owner, ¬A.Finds sig sig.owner owner := by
  rw [resolveMethod_eq hA hc hk]
  refine h.search hP hA (Oracle.has_of_bodies hc) (fun n hn => ?_)
    (search_searchMethod P sig fuel [sig.owner] c r)
  rw [List.mem_singleton.1 hn]

/-- A class whose bodies were asked for is kept with them. -/
theorem Sound.of_resolveBodies {r' : Resolver σ} (h : r.Sound P start A)
    (hr : r.resolveBodies P name = (.ok c, r')) :
    A.resolve name .bodies = .ok c ∧ r'.classes[name]? = some c ∧ r'.Sound P start A := by
  have ha := answer_resolveClass P name .bodies r
  rw [show r.resolveClass P name .bodies = _ from hr] at ha
  have hs := ha.sound h hP hA Level.isValid_bodies
  obtain ⟨hc, hl⟩ := ha.getElem?_of_ok
  obtain ⟨hv, hres⟩ := hs.classes name c hc
  exact ⟨hv.eq_bodies hl ▸ hres, hc, hs⟩

theorem Sound.of_resolveBodies_error {r' : Resolver σ} {e : AnalysisError} (h : r.Sound P start A)
    (hr : r.resolveBodies P name = (.error e, r')) :
    (∀ c, A.resolve name .bodies ≠ .ok c) ∧ r'.Sound P start A := by
  have hs := h.resolveClass hP hA Level.isValid_bodies name
  rw [show r.resolveClass P name .bodies = _ from hr] at hs
  exact ⟨h.resolve_ne_ok hP hA Level.isValid_bodies hr, hs⟩

theorem Sound.of_resolveMethod {r' : Resolver σ} {o : Except AnalysisError Method} {fuel : Nat}
    (h : r.Sound P start A) (hr : r.resolveMethod P fuel sig = (o, r')) : r'.Sound P start A := by
  have hv : ∀ q ∈ [Request.resolveMethod fuel sig], q.IsValid := by simp [Request.IsValid]
  have hs := h.performAll hP hA hv
  rwa [show r.performAll P [.resolveMethod fuel sig] = _ from congrArg Prod.snd hr] at hs

end

section

variable (hP : P.FollowsClasses start A) (hA : A.Coherent)
include hP hA

variable {r' : Resolver σ} {fuel : Nat}

/-- A method that the resolver finds is one of the class that the search gets to. If that is the
    class where the search begins, the method comes from the class as it is kept. -/
theorem Sound.resolveMethod_ok {m : Method} (h : r.Sound P start A)
    (hc : A.resolve sig.owner .bodies = .ok c) (hk : r.classes[sig.owner]? = some c)
    (hr : r.resolveMethod P fuel sig = (.ok m, r')) :
    A.Finds sig sig.owner m.signature.owner ∧
      (∃ d, A.Has m.signature.owner d ∧ d.method? sig = some m) ∧
      (m.signature.owner = sig.owner → c.method? sig = some m) := by
  have hfound := h.resolveMethod hP hA.toGraded hc hk fuel
  simp only [hr] at hfound
  obtain ⟨owner, d, hf, ⟨l, hv, hl, hd⟩, hm⟩ := hfound
  have ho : m.signature.owner = owner := hA.owner_eq hv hd (Class.method?_eq_some hm).1
  rw [ho]
  refine ⟨hf, ⟨d, ⟨l, hv, hl, hd⟩, hm⟩, fun heq => ?_⟩
  -- The class where the search begins declares the method, so the search ends at once.
  have hdecl := hf.declares
  rw [heq, (Oracle.has_of_bodies hc).declares_iff hA.toGraded, Option.isSome_iff_exists] at hdecl
  obtain ⟨m', hm'⟩ := hdecl
  rw [resolveMethod_eq hA.toGraded hc hk] at hr
  rw [hm', eq_of_searchMethod hm' hr]

/-- If the resolver finds no method, no search gets anywhere. -/
theorem Sound.resolveMethod_error {e : AnalysisError} (h : r.Sound P start A)
    (hc : A.resolve sig.owner .bodies = .ok c) (hk : r.classes[sig.owner]? = some c)
    (hr : r.resolveMethod P fuel sig = (.error e, r')) (he : e ≠ .exhausted) (owner : ClassName) :
    ¬A.Finds sig sig.owner owner := by
  have hnone := h.resolveMethod hP hA.toGraded hc hk fuel
  simp only [hr] at hnone
  exact hnone he owner

end

end Resolver

end KernelReach
