import KernelReach.Proofs.Resolver.Served
import KernelReach.Proofs.Session.Termination

/-!
# Inherited methods

A search for a method walks from the class that the signature names to its superclass, to the
superclass of that, and so on, as the provider has them at signatures (`Oracle.Walks`). It ends at
the first class that declares the method, or where it cannot go on (`Oracle.Halts`). The resolver
makes this walk whatever it was asked before (`Sound.exists_ascends`), and all that it changes are
the classes on the way of which it did not know the method table.
-/

namespace KernelReach

/-- The method is called as `sig` is, whatever its owner: it has the same name, parameters and
    result. -/
def Method.IsCalled (m : Method) (sig : Signature) : Prop :=
  m.signature.name = sig.name ∧ m.signature.params = sig.params ∧ m.signature.result = sig.result

instance (m : Method) (sig : Signature) : Decidable (m.IsCalled sig) :=
  inferInstanceAs (Decidable (_ ∧ _ ∧ _))

namespace Class

theorem method?_eq_none_iff_forall {c : Class} {sig : Signature} :
    c.method? sig = none ↔ ∀ m ∈ c.methods, ¬m.IsCalled sig := by
  simp [method?, Method.IsCalled]

/-- Of the methods that are called so, the first is taken. -/
theorem method?_eq_some_iff {c : Class} {sig : Signature} {m : Method} :
    c.method? sig = some m ↔ ∃ before after, c.methods = before ++ m :: after ∧ m.IsCalled sig ∧
      ∀ m' ∈ before, ¬m'.IsCalled sig := by
  simp only [method?, Method.IsCalled, List.find?_eq_some_iff_append, Bool.and_eq_true, beq_iff_eq,
    Bool.not_eq_true', Bool.eq_false_iff, ne_eq, and_assoc]
  constructor
  · rintro ⟨hn, hp, hr, before, after, heq, hbefore⟩
    exact ⟨before, after, heq, hn, hp, hr, hbefore⟩
  · rintro ⟨before, after, heq, hn, hp, hr, hbefore⟩
    exact ⟨hn, hp, hr, before, after, heq, hbefore⟩

end Class

namespace Oracle

variable {A : Oracle} {sig : Signature} {name superclass : ClassName} {walked : List ClassName}
  {c : Class}

/-- A walk through the superclasses in search of a method, the last class first. Every class on the
    way declares no such method and extends the next one, which can be had and was not walked
    before. -/
inductive Walks (A : Oracle) (sig : Signature) : List ClassName → Prop
  | start : Walks A sig [sig.owner]
  | up {name superclass : ClassName} {walked : List ClassName} {c d : Class}
      (h : Walks A sig (name :: walked)) (hc : A.resolve name .signatures = .ok c)
      (hm : ∀ m ∈ c.methods, ¬m.IsCalled sig) (hs : c.superclass = some superclass)
      (hnew : superclass ∉ name :: walked) (hd : A.resolve superclass .signatures = .ok d) :
      Walks A sig (superclass :: name :: walked)

/-- What comes of a search that ends at the class `c`, which is the last of those walked. -/
inductive Halts (A : Oracle) (sig : Signature) (walked : List ClassName) (c : Class) :
    Except AnalysisError Method → Prop
  | found {m : Method} : c.method? sig = some m → Halts A sig walked c (.ok m)
  | top : c.method? sig = none → c.superclass = none →
      Halts A sig walked c (.error (.methodNotFound sig))
  | circle {superclass : ClassName} : c.method? sig = none → c.superclass = some superclass →
      superclass ∈ walked → Halts A sig walked c (.error (.methodNotFound sig))
  | unavailable {superclass : ClassName} {e : ProviderError} : c.method? sig = none →
      c.superclass = some superclass → superclass ∉ walked →
      A.resolve superclass .signatures = .error e → e.isUnavailable = true →
      Halts A sig walked c (.error (.superclassUnavailable sig superclass))
  | failed {superclass : ClassName} {e : ProviderError} : c.method? sig = none →
      c.superclass = some superclass → superclass ∉ walked →
      A.resolve superclass .signatures = .error e → e.isUnavailable = false →
      Halts A sig walked c (.error (.resolving superclass e.message))

namespace Walks

theorem passes (h : A.Walks sig (superclass :: name :: walked)) :
    A.Passes sig name superclass ∧ superclass ∉ name :: walked ∧
      ∃ d, A.resolve superclass .signatures = .ok d := by
  cases h with
  | up _ hc hm hs hnew hd =>
    exact ⟨⟨_, hc, Class.method?_eq_none_iff_forall.2 hm, hs⟩, hnew, _, hd⟩

theorem up_of_passes {d : Class} (h : A.Walks sig (name :: walked))
    (hp : A.Passes sig name superclass) (hnew : superclass ∉ name :: walked)
    (hd : A.resolve superclass .signatures = .ok d) :
    A.Walks sig (superclass :: name :: walked) := by
  obtain ⟨c, hc, hm, hs⟩ := hp
  exact .up h hc (Class.method?_eq_none_iff_forall.1 hm) hs hnew hd

/-- The part of a walk up to a class is a walk. -/
theorem of_suffix {walk : List ClassName} (h : A.Walks sig walk) (hs : name :: walked <:+ walk) :
    A.Walks sig (name :: walked) := by
  induction h with
  | start =>
    rcases List.suffix_cons_iff.1 hs with heq | hs
    · exact heq ▸ .start
    · cases List.suffix_nil.1 hs
  | up hw hc hm hsuper hnew hd ih =>
    rcases List.suffix_cons_iff.1 hs with heq | hs
    · exact heq ▸ .up hw hc hm hsuper hnew hd
    · exact ih hs

/-- There is one way to go on at most. -/
theorem unique {superclass' : ClassName} (h : A.Walks sig (superclass :: name :: walked))
    (h' : A.Walks sig (superclass' :: name :: walked)) : superclass = superclass' :=
  h.passes.1.unique h'.passes.1

theorem owner_suffix {walk : List ClassName} (h : A.Walks sig walk) : [sig.owner] <:+ walk := by
  induction h with
  | start => exact List.suffix_refl _
  | up _ _ _ _ _ _ ih => exact ih.trans (List.suffix_cons _ _)

/-- All walks are parts of one that cannot be taken further. -/
theorem suffix {walk : List ClassName} (h : A.Walks sig walk) (hw : A.Walks sig (name :: walked))
    (hend : ∀ superclass, ¬A.Walks sig (superclass :: name :: walked)) :
    walk <:+ name :: walked := by
  induction h with
  | start => exact hw.owner_suffix
  | @up n s v _ _ hv hc hm hs hnew hd ih =>
    -- The longer walk gets to `n` by way of `v`, too, and there is one way to go on from there.
    have hup : A.Walks sig (s :: n :: v) := .up hv hc hm hs hnew hd
    obtain ⟨before, hbefore⟩ := ih
    rcases List.eq_nil_or_concat' before with rfl | ⟨before, s', rfl⟩
    · exact absurd (hbefore ▸ hup) (hend s)
    · have hs' : s' :: n :: v <:+ name :: walked := ⟨before, by simpa using hbefore⟩
      exact hup.unique (hw.of_suffix hs') ▸ hs'

end Walks

namespace Halts

variable {o : Except AnalysisError Method}

/-- Where a search ends, the walk cannot be taken further. -/
theorem not_walks (hA : A.Graded) (hc : A.Has name c) (h : A.Halts sig (name :: walked) c o)
    (superclass : ClassName) : ¬A.Walks sig (superclass :: name :: walked) := by
  intro hup
  obtain ⟨hp, hnew, d, hd⟩ := hup.passes
  obtain ⟨hm, hs⟩ := (hc.passes_iff hA).1 hp
  cases h with
  | found hm' => simp [hm] at hm'
  | top _ hs' => simp [hs] at hs'
  | circle _ hs' hin =>
    rw [hs, Option.some.injEq] at hs'
    exact hnew (hs' ▸ hin)
  | unavailable _ hs' _ he | failed _ hs' _ he =>
    rw [hs, Option.some.injEq] at hs'
    rw [← hs', hd] at he
    cases he

theorem eq_ok_iff (h : A.Halts sig walked c o) {m : Method} :
    o = .ok m ↔ c.method? sig = some m := by
  cases h with
  | found hm => simp [hm]
  | top hm | circle hm | unavailable hm | failed hm => simp [hm]

/-- The method is not found if the walk ends at a class without superclass, comes back to a class,
    or gets to a superclass that is unavailable. -/
theorem notFound_iff (h : A.Halts sig walked c o) :
    (∃ e, o = .error e ∧ e.lack? = some .methodNotFound) ↔ c.method? sig = none ∧
      (c.superclass = none ∨ ∃ superclass, c.superclass = some superclass ∧ (superclass ∈ walked ∨
        ∃ e, A.resolve superclass .signatures = .error e ∧ e.isUnavailable = true)) := by
  cases h with
  | found hm => simp [hm]
  | top hm hs => simp [hm, hs, AnalysisError.lack?]
  | circle hm hs hin => simp [hm, hs, hin, AnalysisError.lack?]
  | unavailable hm hs _ he hu => simp [hm, hs, he, hu, AnalysisError.lack?]
  | failed hm hs hnew he hu => simp [hm, hs, hnew, he, hu, AnalysisError.lack?]

/-- The search fails if the provider fails at a superclass. -/
theorem failed_iff (h : A.Halts sig walked c o) :
    (∃ e, o = .error e ∧ e.lack? = none) ↔ c.method? sig = none ∧
      ∃ superclass, c.superclass = some superclass ∧ superclass ∉ walked ∧
        ∃ e, A.resolve superclass .signatures = .error e ∧ e.isUnavailable = false := by
  cases h with
  | found hm => simp [hm]
  | top hm hs => simp [hm, hs, AnalysisError.lack?]
  | circle hm hs hin => simp [hm, hs, hin, AnalysisError.lack?]
  | unavailable hm hs _ he hu => simp [hm, hs, he, hu, AnalysisError.lack?]
  | failed hm hs hnew he hu => simp [hm, hs, hnew, he, hu, AnalysisError.lack?]

end Halts

end Oracle

namespace Resolver

variable {σ : Type} {P : Provider σ} {start : σ} {A : Oracle} {r r' : Resolver σ} {sig : Signature}
  {name : ClassName} {level : Level} {c d : Class} {walked : List ClassName}
  {o : Except AnalysisError Method} {fuel : Nat}

theorem level_lt_of_lacks (hl : level.IsValid) (h : r.Lacks name level) : r.level name < level := by
  rcases hc : r.classes[name]? with _ | c
  · rw [level_eq_none hc]
    exact Int.lt_of_lt_of_le (by decide) hl.1
  · rw [level_eq_of_getElem? hc]
    exact h c hc

/-- The method tables of the classes are known. -/
def Tabled (r : Resolver σ) (names : List ClassName) : Prop :=
  ∀ n ∈ names, ∃ c, r.classes[n]? = some c ∧ .signatures ≤ c.level

/-- A search that begins with `r` has ended with `r'` at the class `name`, and `o` is what has come
    of it. The classes on the way of which the method table was not known are kept at signatures; no
    other class has changed. -/
structure Ascends (A : Oracle) (sig : Signature) (r : Resolver σ) (name : ClassName)
    (walked : List ClassName) (o : Except AnalysisError Method) (r' : Resolver σ) : Prop where
  walks : A.Walks sig (name :: walked)
  halts : ∃ c, r'.classes[name]? = some c ∧ .signatures ≤ c.level ∧
    A.Halts sig (name :: walked) c o
  classes : ∀ n, r'.classes[n]? = if n ∈ name :: walked ∧ r.level n < .signatures
    then (A.resolve n .signatures).toOption else r.classes[n]?

theorem Tabled.le_level (h : r.Tabled (name :: walked)) (hc : r.classes[name]? = some c) :
    .signatures ≤ c.level := by
  obtain ⟨d, hd, hl⟩ := h name List.mem_cons_self
  rw [hc, Option.some.injEq] at hd
  exact hd ▸ hl

/-- A search that ends where it is has nothing to raise. -/
theorem Tabled.ascends (h : r.Tabled (name :: walked)) (hw : A.Walks sig (name :: walked))
    (hc : r.classes[name]? = some c) (hclasses : r'.classes = r.classes)
    (hhalts : A.Halts sig (name :: walked) c o) : Ascends A sig r name walked o r' := by
  refine ⟨hw, ⟨c, hclasses ▸ hc, h.le_level hc, hhalts⟩, fun n => ?_⟩
  have hnot : ¬(n ∈ name :: walked ∧ r.level n < .signatures) := by
    rintro ⟨hn, hlt⟩
    obtain ⟨d, hd, hle⟩ := h n hn
    rw [level_eq_of_getElem? hd] at hlt
    exact not_lt_of_ge hle hlt
  rw [if_neg hnot, hclasses]

/-- A request that is answered by a class changes that class only, and only if it was not known well
    enough. -/
theorem Answer.getElem?_eq {a : Except AnalysisError Class} (ha : Answer P name level r a r')
    (hP : P.FollowsClasses start A) (h : r.Sound P start A) (hl : level.IsValid) (hd : a = .ok d)
    (n : ClassName) :
    r'.classes[n]? = if n = name ∧ r.level n < level then (A.resolve n level).toOption
      else r.classes[n]? := by
  cases ha with
  | missed | low | unavailable | fatal => cases hd
  | known hc hle =>
    have hknown : ¬(n = name ∧ r.level n < level) := by
      rintro ⟨rfl, hlt⟩
      rw [level_eq_of_getElem? hc] at hlt
      exact not_lt_of_ge hle hlt
    rw [if_neg hknown]
    rfl
  | found hopen hp _ =>
    rw [keep_classes, asked_classes, Std.HashMap.getElem?_insert]
    by_cases hn : n = name
    · subst hn
      rw [h.resolve_eq hP hl hp]
      simp [level_lt_of_lacks hl hopen.lacks, Except.toOption]
    · simp [hn, Ne.symm hn]

theorem Tabled.resolveClass {names : List ClassName} (h : r.Tabled names)
    (hr : r.resolveClass P name .signatures = (.ok d, r')) : r'.Tabled (name :: names) := by
  have ha := answer_resolveClass P name .signatures r
  have hkept {n : ClassName} {c : Class} (hc : r.classes[n]? = some c)
      (hl : .signatures ≤ c.level) :
      (r.resolveClass P name .signatures).2.classes[n]? = some c :=
    getElem?_resolveClass_of_le hc hl
  rw [hr] at ha hkept
  intro n hn
  rcases List.mem_cons.1 hn with rfl | hn
  · exact ⟨d, ha.getElem?_of_ok⟩
  · obtain ⟨c, hc, hl⟩ := h n hn
    exact ⟨c, hkept hc hl, hl⟩

theorem Sound.has (h : r.Sound P start A) (hc : r.classes[name]? = some c)
    (hl : .signatures ≤ c.level) : A.Has name c :=
  ⟨c.level, (h.classes name c hc).1, hl, (h.classes name c hc).2⟩

/-- The class from which a search goes on is one of those that it may raise. -/
theorem Sound.ascends_of_resolveClass {superclass : ClassName} {r₁ : Resolver σ}
    (hP : P.FollowsClasses start A) (h : r.Sound P start A)
    (hr : r.resolveClass P superclass .signatures = (.ok d, r₁))
    (hup : Ascends A sig r₁ name walked o r') (hmem : superclass ∈ name :: walked) :
    Ascends A sig r name walked o r' := by
  have ha := answer_resolveClass P superclass .signatures r
  rw [hr] at ha
  have hone := ha.getElem?_eq hP h Level.isValid_signatures rfl
  obtain ⟨hd, hdl⟩ := ha.getElem?_of_ok
  refine ⟨hup.walks, hup.halts, fun n => ?_⟩
  rw [hup.classes n]
  by_cases hn : n = superclass
  · -- The superclass is known once it was asked for, so what follows does not raise it again.
    subst hn
    have hnot : ¬r₁.level n < .signatures := by
      rw [level_eq_of_getElem? hd]
      exact not_lt_of_ge hdl
    rw [if_neg fun hlt => hnot hlt.2, hone]
    simp [hmem]
  · have hsame : r₁.classes[n]? = r.classes[n]? := by rw [hone, if_neg fun heq => hn heq.1]
    rw [level, hsame, ← level]

/-- A request that fails tells what the provider has said, and the table stays as it is. -/
theorem Sound.of_resolveClass_error {e : AnalysisError} (hP : P.FollowsClasses start A)
    (hA : A.Graded) (h : r.Sound P start A)
    (hr : r.resolveClass P name .signatures = (.error e, r')) :
    r'.classes = r.classes ∧
      ∃ e', A.resolve name .signatures = .error e' ∧ e = .ofProvider name e' := by
  have hclasses := classes_resolveClass_of_error (congrArg Prod.fst hr)
  rw [hr] at hclasses
  exact ⟨hclasses, Oracle.demand_eq_error.1
    ((h.resolveClass_error_iff hP hA Level.isValid_signatures _).1 (congrArg Prod.fst hr))⟩

/-- A search that is not cut off takes the walk to its end. -/
theorem Sound.exists_ascends {seen : List ClassName} (hP : P.FollowsClasses start A)
    (hA : A.Graded) (h : r.Sound P start A) (hseen : seen = name :: walked)
    (hw : A.Walks sig seen) (hknown : r.Tabled seen) (hc : r.classes[name]? = some c)
    (hsearch : Search P sig fuel seen c r o r') (ho : o ≠ .error .exhausted) :
    ∃ name' walked', Ascends A sig r name' walked' o r' ∧ ∀ n ∈ seen, n ∈ name' :: walked' := by
  -- The tables of the classes that were walked are known all the time.
  induction hsearch generalizing name walked with
  | exhausted => exact absurd rfl ho
  | found hm =>
    subst hseen
    exact ⟨name, walked, hknown.ascends hw hc rfl (.found hm), fun n hn => hn⟩
  | top hm hs =>
    subst hseen
    exact ⟨name, walked, hknown.ascends hw hc rfl (.top hm hs), fun n hn => hn⟩
  | circle hm hs hin =>
    subst hseen
    exact ⟨name, walked, hknown.ascends hw hc rfl (.circle hm hs hin), fun n hn => hn⟩
  | unavailable hm hs hnew hr hu =>
    subst hseen
    obtain ⟨hclasses, e, he, rfl⟩ := h.of_resolveClass_error hP hA hr
    rw [AnalysisError.isUnavailable_ofProvider] at hu
    exact ⟨name, walked, hknown.ascends hw hc hclasses (.unavailable hm hs hnew he hu),
      fun n hn => hn⟩
  | failed hm hs hnew hr hu =>
    subst hseen
    obtain ⟨hclasses, e, he, rfl⟩ := h.of_resolveClass_error hP hA hr
    rw [AnalysisError.isUnavailable_ofProvider] at hu
    rw [AnalysisError.ofProvider, if_neg (by simp [hu])]
    exact ⟨name, walked, hknown.ascends hw hc hclasses (.failed hm hs hnew he hu), fun n hn => hn⟩
  | @up _ _ _ r superclass d _ _ _ hm hs hnew hr _ ih =>
    subst hseen
    have hsound := h.resolveClass hP hA Level.isValid_signatures superclass
    have ha := answer_resolveClass P superclass .signatures r
    rw [hr] at hsound ha
    have hp : A.Passes sig name superclass :=
      ((h.has hc (hknown.le_level hc)).passes_iff hA).2 ⟨hm, hs⟩
    obtain ⟨d', hd'⟩ := (h.resolveClass_ok_iff hP hA Level.isValid_signatures superclass).1
      ⟨d, congrArg Prod.fst hr⟩
    obtain ⟨name', walked', hup, hmem⟩ := ih hsound rfl (hw.up_of_passes hp hnew hd')
      (hknown.resolveClass hr) ha.getElem?_of_ok.1 ho
    exact ⟨name', walked', h.ascends_of_resolveClass hP hr hup (hmem _ List.mem_cons_self),
      fun n hn => hmem n (List.mem_cons_of_mem _ hn)⟩

theorem Sound.exists_ascends_of_resolveMethod (hP : P.FollowsClasses start A) (hA : A.Graded)
    (h : r.Sound P start A) (hc : r.classes[sig.owner]? = some c) (hl : .signatures ≤ c.level)
    (hrun : r.resolveMethod P fuel sig = (o, r')) (ho : o ≠ .error .exhausted) :
    ∃ name walked, Ascends A sig r name walked o r' := by
  have hname : c.name = sig.owner := by
    obtain ⟨hv, hres⟩ := h.classes sig.owner c hc
    exact hA.name_eq hv hres
  simp only [Resolver.resolveMethod, hc, hl, if_true, hname] at hrun
  have hknown : r.Tabled [sig.owner] := fun n hn => ⟨c, List.mem_singleton.1 hn ▸ hc, hl⟩
  obtain ⟨name, walked, hup, -⟩ :=
    h.exists_ascends hP hA rfl .start hknown hc (search_iff.2 hrun) ho
  exact ⟨name, walked, hup⟩

/-- After any history of requests, a search for a method that begins at a class whose method table
    is known takes the walk through the superclasses to its end, of which all walks are parts. It
    finds the method if the last class declares it, as the first one there that is called so. It
    does not find it if the walk ends at a class without superclass, comes back to a class, or gets
    to a superclass that is unavailable, and it fails if the provider fails at a superclass. It is
    never cut off if it may look at all classes, and raises to signatures the classes on the way
    which were below. -/
theorem resolveMethod_inherits {P : Provider σ} {source : σ} {A : Oracle}
    (hP : P.FollowsClasses source A) (hA : A.Graded) (hfinite : (A.names Level.IsValid).Finite)
    {history : List Request} (hh : ∀ q ∈ history, q.IsValid) {sig : Signature} {c : Class}
    (hc : ((new source).performAll P history).classes[sig.owner]? = some c)
    (hl : .signatures ≤ c.level) :
    let r := (new source).performAll P history
    ∃ name walked last kept answer r',
      A.Walks sig (name :: walked) ∧ (∀ walk, A.Walks sig walk → walk <:+ name :: walked) ∧
      (∀ fuel, (A.names Level.IsValid).ncard < fuel → r.resolveMethod P fuel sig = (answer, r')) ∧
      A.resolve name .signatures = .ok last ∧ r'.classes[name]? = some kept ∧
      kept.methods.map Method.entry = last.methods.map Method.entry ∧
      (∀ m, answer = .ok m ↔ ∃ before after, kept.methods = before ++ m :: after ∧
        m.IsCalled sig ∧ ∀ m' ∈ before, ¬m'.IsCalled sig) ∧
      ((∃ e, answer = .error e ∧ e.lack? = some .methodNotFound) ↔
        (∀ m ∈ last.methods, ¬m.IsCalled sig) ∧
        (last.superclass = none ∨ ∃ superclass, last.superclass = some superclass ∧
          (superclass ∈ name :: walked ∨
            ∃ e, A.resolve superclass .signatures = .error e ∧ e.isUnavailable = true))) ∧
      ((∃ e, answer = .error e ∧ e.lack? = none) ↔ (∀ m ∈ last.methods, ¬m.IsCalled sig) ∧
        ∃ superclass, last.superclass = some superclass ∧ superclass ∉ name :: walked ∧
          ∃ e, A.resolve superclass .signatures = .error e ∧ e.isUnavailable = false) ∧
      ∀ n, r'.classes[n]? = if n ∈ name :: walked ∧ r.level n < .signatures
        then (A.resolve n .signatures).toOption else r.classes[n]? := by
  intro r
  have h : r.Sound P source A := (sound_new P source A).performAll hP hA hh
  -- One search that may look at all classes decides on the answer; more fuel changes nothing.
  rcases hrun : r.resolveMethod P ((A.names Level.IsValid).ncard + 1) sig with ⟨answer, r'⟩
  have hdrawn : r.Drawn P Level.IsValid source A :=
    ⟨h.source, fun name c hc => ⟨c.level, h.classes name c hc⟩⟩
  have hends : answer ≠ .error .exhausted :=
    (hdrawn.resolveMethod hP Level.isValid_signatures hfinite hrun).2.2 (Nat.lt_succ_self _)
  obtain ⟨name, walked, hup⟩ := h.exists_ascends_of_resolveMethod hP hA hc hl hrun hends
  obtain ⟨kept, hkept, hlevel, hhalts⟩ := hup.halts
  have hhas : A.Has name kept := (h.of_resolveMethod hP hA hrun).has hkept hlevel
  obtain ⟨last, hlast, hsuper, hmethods⟩ := hhas.signatures hA
  have hnone := Class.method?_eq_none_iff hmethods sig
  refine ⟨name, walked, last, kept, answer, r', hup.walks,
    fun walk hwalk => hwalk.suffix hup.walks (hhalts.not_walks hA hhas), fun fuel hfuel => ?_,
    hlast, hkept, hmethods.symm, fun m => hhalts.eq_ok_iff.trans Class.method?_eq_some_iff, ?_, ?_,
    hup.classes⟩
  · rw [resolveMethod_of_le hfuel (by rwa [hrun]), hrun]
  · rw [hhalts.notFound_iff, ← hnone, hsuper, Class.method?_eq_none_iff_forall]
  · rw [hhalts.failed_iff, ← hnone, hsuper, Class.method?_eq_none_iff_forall]

end Resolver

/-! ### A circle of two classes -/

namespace Sample

/-- A method that one class of the circle inherits from the other. -/
def inherited : Signature := signature "app.L" "run"

/-- A method that neither class of the circle declares. -/
def ghost : Signature := signature "app.L" "ghost"

theorem walks_circle {sig : Signature} (h : sig ∈ [inherited, ghost]) :
    circleOracle.Walks sig [⟨"app.K"⟩, ⟨"app.L"⟩] := by
  simp only [List.mem_cons, List.not_mem_nil, or_false] at h
  rcases h with rfl | rfl <;> exact .up .start rfl (by decide) rfl (by decide) rfl

theorem not_walks_circle (sig : Signature) (superclass : ClassName) :
    ¬circleOracle.Walks sig [superclass, ⟨"app.K"⟩, ⟨"app.L"⟩] := by
  intro hup
  cases hup with
  | up _ hc _ hs hnew _ =>
    obtain rfl := Except.ok.inj hc
    obtain rfl := Option.some.inj hs
    exact absurd hnew (by decide)

end Sample

namespace Resolver

/-- In the circle, a search finds the method of the other class, and one for a method that there is
    not comes back to where it began. The class on the way is raised. -/
theorem resolveMethod_inherits_circle :
    let P := Sample.circleOracle.toProvider
    let r := (new ()).performAll P [.resolveClass ⟨"app.L"⟩ .signatures]
    let classes := Sample.circleOracle.names Level.IsValid
    classes.Finite ∧
      (∃ r', (∀ fuel, classes.ncard < fuel → r.resolveMethod P fuel Sample.inherited =
          (.ok ⟨Sample.signature "app.K" "run", .isPublic, none⟩, r')) ∧
        r.level ⟨"app.K"⟩ = .none ∧ r'.level ⟨"app.K"⟩ = .signatures) ∧
      ∃ e r', (∀ fuel, classes.ncard < fuel →
          r.resolveMethod P fuel Sample.ghost = (.error e, r')) ∧
        e.lack? = some .methodNotFound ∧ r'.level ⟨"app.K"⟩ = .signatures := by
  intro P r classes
  have hP : P.FollowsClasses () Sample.circleOracle :=
    Sample.circleOracle.follows_toProvider.classes
  have hA : Sample.circleOracle.Graded := (Oracle.coherent_ofClasses (by decide)).toGraded
  have hfinite : classes.Finite := Oracle.finite_names_ofClasses _ _
  have hh : ∀ q ∈ [Request.resolveClass ⟨"app.L"⟩ .signatures], q.IsValid := by
    simp [Request.IsValid, Level.isValid_signatures]
  have hsound := sound_new P () Sample.circleOracle
  have ha := answer_resolveClass P ⟨"app.L"⟩ .signatures (new ())
  obtain ⟨c, hc⟩ := (hsound.resolveClass_ok_iff hP hA Level.isValid_signatures ⟨"app.L"⟩).2 ⟨_, rfl⟩
  have hbefore : r.level ⟨"app.K"⟩ = .none := by
    refine level_eq_none ((ha.getElem?_eq hP hsound Level.isValid_signatures hc ⟨"app.K"⟩).trans ?_)
    simp [new]
  rw [hc] at ha
  have hkept (sig : Signature) (hsig : sig.owner = ⟨"app.L"⟩) :
      r.classes[sig.owner]? = some c := hsig ▸ ha.getElem?_of_ok.1
  have hlevel := ha.getElem?_of_ok.2
  have hwalk {sig : Signature} {name : ClassName} {walked : List ClassName}
      (hsig : sig ∈ [Sample.inherited, Sample.ghost])
      (hw : Sample.circleOracle.Walks sig (name :: walked))
      (hall : ∀ walk, Sample.circleOracle.Walks sig walk → walk <:+ name :: walked) :
      name :: walked = [⟨"app.K"⟩, ⟨"app.L"⟩] :=
    (hw.suffix (Sample.walks_circle hsig) (Sample.not_walks_circle sig)).eq_of_length_le
      (hall _ (Sample.walks_circle hsig)).length_le
  refine ⟨hfinite, ?_, ?_⟩
  · obtain ⟨name, walked, last, kept, answer, r', hw, hall, hrun, hlast, hkept', -, hfound, -, -,
      hclasses⟩ := resolveMethod_inherits hP hA hfinite hh (hkept Sample.inherited rfl) hlevel
    obtain ⟨rfl, rfl⟩ := List.cons.inj (hwalk (by simp) hw hall)
    have hraised := hclasses ⟨"app.K"⟩
    rw [if_pos ⟨List.mem_cons_self, by rw [hbefore]; decide⟩] at hraised
    obtain rfl := Option.some.inj (hkept'.symm.trans hraised)
    obtain rfl := (hfound ⟨Sample.signature "app.K" "run", .isPublic, none⟩).2
      ⟨[], [], rfl, ⟨rfl, rfl, rfl⟩, by simp⟩
    exact ⟨r', hrun, hbefore, level_eq_of_getElem? hraised⟩
  · obtain ⟨name, walked, last, kept, answer, r', hw, hall, hrun, hlast, -, -, -, hnotFound, -,
      hclasses⟩ := resolveMethod_inherits hP hA hfinite hh (hkept Sample.ghost rfl) hlevel
    obtain ⟨rfl, rfl⟩ := List.cons.inj (hwalk (by simp) hw hall)
    obtain rfl := Except.ok.inj hlast
    obtain ⟨e, rfl, he⟩ := hnotFound.2 ⟨by decide, .inr ⟨⟨"app.L"⟩, rfl, .inl (by decide)⟩⟩
    refine ⟨e, r', hrun, he, ?_⟩
    have hraised := hclasses ⟨"app.K"⟩
    rw [if_pos ⟨List.mem_cons_self, by rw [hbefore]; decide⟩] at hraised
    exact level_eq_of_getElem? hraised

end Resolver

end KernelReach
