import KernelReach.Proofs.Resolver.Served
import KernelReach.Proofs.Session.Graph

/-!
# What a lookup asks for

Over a coherent provider it is settled which classes a lookup asks for and at which levels
(`Oracle.Consults`): the class that the signature names, with its bodies, the superclasses that are
searched, and the class of the method that is found, again with its bodies. It is settled, too,
whether a lookup gets through (`Oracle.Clear`), which it does not if the provider fails or if the
search takes more classes than it may.
-/

namespace KernelReach

namespace Oracle

variable {A : Oracle} {sig : Signature} {name owner : ClassName} {level : Level} {m : Method}
  {limit : Nat}

/-- The complaint about a class is never that a search was cut off. -/
theorem ne_exhausted_of_demand {e : AnalysisError} (h : A.demand name level = .error e) :
    e ≠ .exhausted := by
  obtain ⟨e', -, rfl⟩ := demand_eq_error.1 h
  rw [AnalysisError.ofProvider]
  split_ifs <;> simp

/-- A lookup of the signature asks for the class at that level. -/
inductive Consults (A : Oracle) (sig : Signature) : ClassName → Level → Prop
  | named : Consults A sig sig.owner .bodies
  | searched {name : ClassName} {c : Class} : A.resolve sig.owner .bodies = .ok c →
      Relation.ReflTransGen (A.Passes sig) sig.owner name → Consults A sig name .signatures
  | declaring {owner : ClassName} {c d : Class} {m : Method} :
      A.resolve sig.owner .bodies = .ok c → A.Finds sig sig.owner owner → A.Has owner d →
      d.method? sig = some m → m.isConcrete = true → Consults A sig owner .bodies

theorem consults_iff {c : Class} (hc : A.resolve sig.owner .bodies = .ok c) :
    A.Consults sig name level ↔ (name = sig.owner ∧ level = .bodies) ∨
      (level = .signatures ∧ Relation.ReflTransGen (A.Passes sig) sig.owner name) ∨
      level = .bodies ∧ A.Finds sig sig.owner name ∧
        ∃ d m, A.Has name d ∧ d.method? sig = some m ∧ m.isConcrete = true := by
  constructor
  · intro h
    cases h with
    | named => exact .inl ⟨rfl, rfl⟩
    | searched _ hpath => exact .inr (.inl ⟨rfl, hpath⟩)
    | declaring _ hf hd hm hn => exact .inr (.inr ⟨rfl, hf, _, _, hd, hm, hn⟩)
  · rintro (⟨rfl, rfl⟩ | ⟨rfl, hpath⟩ | ⟨rfl, hf, d, m, hd, hm, hn⟩)
    · exact .named
    · exact .searched hc hpath
    · exact .declaring hc hf hd hm hn

/-- Once the method is found, its class is all that is left to be asked for. -/
theorem or_consults_iff {c : Class} {q : Prop} (hc : A.resolve sig.owner .bodies = .ok c)
    (hf : A.Finds sig sig.owner owner) (hd : ∃ d, A.Has owner d ∧ d.method? sig = some m)
    (hm : m.isConcrete = true) :
    (q ∨ name = sig.owner ∧ level = .bodies ∨
        level = .signatures ∧ Relation.ReflTransGen (A.Passes sig) sig.owner name) ∨
      name = owner ∧ level = .bodies ↔ q ∨ A.Consults sig name level := by
  obtain ⟨d, hd, hdm⟩ := hd
  rw [consults_iff hc, or_assoc, or_assoc]
  refine or_congr_right (or_congr_right (or_congr_right ⟨?_, ?_⟩))
  · rintro ⟨rfl, rfl⟩
    exact ⟨rfl, hf, d, m, hd, hdm, hm⟩
  · rintro ⟨rfl, hf', -⟩
    exact ⟨hf'.unique hf, rfl⟩

/-- If the class cannot be had, nothing else is asked for. -/
theorem consults_iff_of_ne (hc : ∀ c, A.resolve sig.owner .bodies ≠ .ok c) :
    A.Consults sig name level ↔ name = sig.owner ∧ level = .bodies := by
  constructor
  · intro h
    cases h with
    | named => exact ⟨rfl, rfl⟩
    | searched hok | declaring hok => exact absurd hok (hc _)
  · rintro ⟨rfl, rfl⟩
    exact .named

/-- A search that has got to the class `name` by way of those in `seen` goes on to at least as many
    further classes. -/
def Overruns (A : Oracle) (sig : Signature) : Nat → List ClassName → ClassName → Prop
  | 0, _, _ => True
  | n + 1, seen, name => ∃ superclass d, A.Passes sig name superclass ∧ superclass ∉ seen ∧
      A.resolve superclass .signatures = .ok d ∧ Overruns A sig n (superclass :: seen) superclass

/-- A lookup of the signature gets through: the provider does not fail, and the search ends within
    the bound. -/
structure Clear (A : Oracle) (limit : Nat) (sig : Signature) : Prop where
  declines {e : AnalysisError} : A.Declines sig e → e.isUnavailable = true
  ends {c : Class} : A.resolve sig.owner .bodies = .ok c →
    ¬A.Overruns sig limit [sig.owner] sig.owner

theorem Finds.reflTransGen (h : A.Finds sig name owner) :
    Relation.ReflTransGen (A.Passes sig) name owner := by
  induction h with
  | declared _ => exact .refl
  | inherited hp _ ih => exact .head hp ih

/-- A method that is found is declared under its own signature by its own class. -/
theorem Resolves.finds_self (hA : A.Coherent) (h : A.Resolves sig m) :
    A.Finds m.signature m.signature.owner m.signature.owner := by
  obtain ⟨owner, c, hf, hc, hm⟩ := (h.self hA).exists_owner
  have ho := hA.owner_eq Level.isValid_bodies hc (Class.method?_eq_some hm).1
  rw [← ho] at hf
  exact hf

/-- The class that declares the method is asked for when a signature that refers to it is looked
    up. -/
theorem Resolves.declaring (hA : A.Coherent) (h : A.Resolves sig m) :
    A.Finds sig sig.owner m.signature.owner ∧ A.Consults sig m.signature.owner .bodies := by
  obtain ⟨c, hc⟩ := h.exists_class
  obtain ⟨owner, d, hf, hd, hm⟩ := h.exists_owner
  have ho := hA.owner_eq Level.isValid_bodies hd (Class.method?_eq_some hm).1
  rw [ho]
  exact ⟨hf, .declaring hc hf (has_of_bodies hd) hm h.isConcrete⟩

/-- Nothing more is asked for when the method is looked up under its own signature. -/
theorem Resolves.consults (hA : A.Coherent) (h : A.Resolves sig m)
    (hc : A.Consults m.signature name level) : A.Consults sig name level := by
  obtain ⟨c, hclass⟩ := h.exists_class
  obtain ⟨hf, hdeclaring⟩ := h.declaring hA
  have hself := h.finds_self hA
  cases hc with
  | named => exact hdeclaring
  | searched _ hpath =>
    have heq := (Resolver.reflTransGen_passes_iff_eq fun superclass hp =>
      hp.not_declares hself.declares).1 hpath
    exact heq ▸ .searched hclass hf.reflTransGen
  | declaring _ hf' => exact hself.unique hf' ▸ hdeclaring

theorem Resolves.clear (hA : A.Coherent) (h : A.Resolves sig m) (hc : A.Clear limit sig) :
    A.Clear limit m.signature := by
  obtain ⟨c, hclass⟩ := h.exists_class
  refine ⟨fun hd => absurd (h.self hA) (hd.not_resolves hA.toGraded), fun _ hover => ?_⟩
  cases limit with
  | zero => exact hc.ends hclass trivial
  | succ n =>
    obtain ⟨superclass, _, hp, -⟩ := hover
    exact hp.not_declares (h.finds_self hA).declares

/-- Nothing goes wrong with the signature, neither in its lookup nor when the body of the method is
    asked for. -/
structure Smooth (A : Oracle) (limit : Nat) (sig : Signature) : Prop extends A.Clear limit sig where
  not_fails : ¬A.Fails sig

theorem Resolves.smooth (hA : A.Coherent) (h : A.Resolves sig m) (hs : A.Smooth limit sig) :
    A.Smooth limit m.signature := by
  refine ⟨h.clear hA hs.toClear, fun hf => hs.not_fails ?_⟩
  rw [(h.self hA).fails_iff] at hf
  exact h.fails_iff.2 hf

end Oracle

/-! ### Searches of the resolver -/

namespace Resolver

variable {σ : Type} {P : Provider σ} {start : σ} {A : Oracle} {r r' : Resolver σ}
  {sig : Signature} {name : ClassName} {c : Class} {fuel : Nat} {Q : ClassName → Level → Prop}
  {o : Except AnalysisError Method}

/-- A search is cut off if it goes on to too many classes. -/
theorem Sound.exhausted_iff (hP : P.FollowsClasses start A) (hA : A.Graded)
    (h : r.Sound P start A) (hc : A.Has name c) {seen : List ClassName}
    (hsearch : Search P sig fuel seen c r o r') :
    o = .error .exhausted ↔ A.Overruns sig fuel seen name := by
  induction hsearch generalizing name with
  | exhausted => exact iff_of_true rfl trivial
  | found hm => simp [Oracle.Overruns, hc.passes_iff hA, hm]
  | top hm hs => simp [Oracle.Overruns, hc.passes_iff hA, hm, hs]
  | circle hm hs hin => simp [Oracle.Overruns, hc.passes_iff hA, hm, hs, hin]
  | unavailable hm hs _ hr =>
    have hne := h.resolve_ne_ok hP hA Level.isValid_signatures hr
    simp [Oracle.Overruns, hc.passes_iff hA, hm, hs, hne]
  | @failed _ _ _ _ superclass _ _ hm hs _ hr =>
    have hne := h.resolve_ne_ok hP hA Level.isValid_signatures hr
    have hx := Oracle.ne_exhausted_of_demand
      ((h.resolveClass_error_iff hP hA Level.isValid_signatures superclass).1
        (congrArg Prod.fst hr))
    simp [Oracle.Overruns, hc.passes_iff hA, hm, hs, hne, hx]
  | @up _ _ _ _ superclass d _ _ _ hm hs hnew hr _ ih =>
    have hsound := h.resolveClass hP hA Level.isValid_signatures superclass
    have hok := h.resolveClass_ok_iff hP hA Level.isValid_signatures superclass
    rw [hr] at hsound hok
    have hd := h.resolveClass_ok hP hA Level.isValid_signatures superclass (congrArg Prod.fst hr)
    obtain ⟨d', hd'⟩ := hok.1 ⟨d, rfl⟩
    rw [ih hsound hd]
    simp [Oracle.Overruns, hc.passes_iff hA, hm, hs, hnew, hd']

/-- A class that declares the method ends a search that begins with it. -/
theorem eq_of_resolveMethod (hA : A.Graded) (hc : A.resolve sig.owner .bodies = .ok c)
    (hk : r.classes[sig.owner]? = some c) (hd : A.Declares sig sig.owner)
    (h : r.resolveMethod P fuel sig = (o, r')) : r' = r := by
  rw [(Oracle.has_of_bodies hc).declares_iff hA, Option.isSome_iff_exists] at hd
  obtain ⟨m, hm⟩ := hd
  rw [resolveMethod_eq hA hc hk] at h
  cases search_iff.2 h with
  | exhausted | found | top | circle => rfl
  | unavailable hm' | failed hm' | up hm' => simp [hm] at hm'

section

variable (hP : P.FollowsClasses start A) (hA : A.Coherent) (h : r.Sound P start A)
include hP hA h

theorem Served.of_resolveBodies {a : Except AnalysisError Class} (hr : r.Served A Q)
    (h₁ : r.resolveBodies P name = (a, r')) (hu : ∀ e, a = .error e → e.isUnavailable = true) :
    r'.Served A fun n l => Q n l ∨ n = name ∧ l = .bodies := by
  have hr₁ := hr.resolveClass hP hA.toGraded h Level.isValid_bodies name
  rw [show r.resolveClass P name .bodies = _ from h₁] at hr₁
  exact hr₁ hu

/-- A class is raised and searched: it is asked for with its bodies, and the classes to which it
    passes the question on are asked for. -/
theorem Served.of_resolveMethod {r₁ r₂ : Resolver σ} (hr : r.Served A Q)
    (h₁ : r.resolveBodies P sig.owner = (.ok c, r₁)) (h₂ : r₁.resolveMethod P fuel sig = (o, r₂))
    (hu : ∀ e, o = .error e → e.isUnavailable = true) :
    r₂.Served A fun n l => Q n l ∨ n = sig.owner ∧ l = .bodies ∨
      l = .signatures ∧ Relation.ReflTransGen (A.Passes sig) sig.owner n := by
  obtain ⟨hc, hk, hs₁⟩ := h.of_resolveBodies hP hA.toGraded h₁
  -- A class that is known with its bodies counts as asked for with its signatures, too.
  have hlow := (hr.of_resolveBodies hP hA h h₁ nofun).lower hA.toGraded (.inr ⟨rfl, rfl⟩) hc
    Level.isValid_signatures (by decide)
  rw [resolveMethod_eq hA.toGraded hc hk] at h₂
  refine (hlow.search hP hA.toGraded hs₁ (Oracle.has_of_bodies hc) List.mem_cons_self ?_ ?_
    (search_iff.2 h₂) hu).congr fun n l => ?_
  · intro n hn
    exact .inr ⟨List.mem_singleton.1 hn, rfl⟩
  · intro n hn _ _
    exact .inl (List.mem_singleton.1 hn)
  · constructor
    · rintro (((hq | hq) | ⟨rfl, rfl⟩) | hq)
      · exact .inl hq
      · exact .inr (.inl hq)
      · exact .inr (.inr ⟨rfl, .refl⟩)
      · exact .inr (.inr hq)
    · rintro (hq | hq | hq)
      · exact .inl (.inl (.inl hq))
      · exact .inl (.inl (.inr hq))
      · exact .inr hq

/-- A lookup that gets through asks for what it has to ask for. -/
theorem Located.served (hl : Located P fuel sig r o r') (hr : r.Served A Q)
    (hu : ∀ e, o = .error e → e.isUnavailable = true) :
    r'.Served A fun n l => Q n l ∨ A.Consults sig n l := by
  have hne {e : AnalysisError} (he : (.error e : Except AnalysisError Method) = o) :
      e ≠ .exhausted := by
    rintro rfl
    cases hu _ he.symm
  cases hl with
  | noClass h₁ =>
    have hnone := (h.of_resolveBodies_error hP hA.toGraded h₁).1
    refine (hr.of_resolveBodies hP hA h h₁ fun e he =>
      hu e (congrArg _ (Except.error.inj he))).congr fun n l => ?_
    rw [Oracle.consults_iff_of_ne hnone]
  | noMethod h₁ h₂ =>
    obtain ⟨hc, hk, hs⟩ := h.of_resolveBodies hP hA.toGraded h₁
    refine (hr.of_resolveMethod hP hA h h₁ h₂ hu).congr fun n l => ?_
    have hnone := hs.resolveMethod_error hP hA hc hk h₂ (hne rfl) n
    simp only [Oracle.consults_iff hc, hnone, false_and, and_false, or_false]
  | notConcrete h₁ h₂ hn =>
    obtain ⟨hc, hk, hs⟩ := h.of_resolveBodies hP hA.toGraded h₁
    obtain ⟨hf, ⟨d, hd, hm⟩, -⟩ := hs.resolveMethod_ok hP hA hc hk h₂
    refine (hr.of_resolveMethod hP hA h h₁ h₂ nofun).congr fun n l => ?_
    rw [Oracle.consults_iff hc]
    -- The class of a method without a body is not asked for again.
    refine or_congr_right (or_congr_right (or_iff_left ?_).symm)
    rintro ⟨-, hf', d', m', hd', hm', hn'⟩
    obtain rfl := hf.unique hf'
    obtain ⟨m'', hm'', he⟩ := hd.exists_method? hA.toGraded hd' hm
    rw [hm', Option.some.injEq] at hm''
    rw [hm'', Method.isConcrete_congr he, hn] at hn'
    cases hn'
  | declared h₁ h₂ hn ho =>
    obtain ⟨hc, hk, hs⟩ := h.of_resolveBodies hP hA.toGraded h₁
    obtain ⟨hf, -, -⟩ := hs.resolveMethod_ok hP hA hc hk h₂
    refine (hr.of_resolveMethod hP hA h h₁ h₂ nofun).congr fun n l => ?_
    rw [Oracle.consults_iff hc]
    -- The class of the method is the one that the signature names.
    refine or_congr_right ⟨fun hq => hq.imp_right .inl, ?_⟩
    rintro (hq | hq | ⟨rfl, hf', -⟩)
    · exact .inl hq
    · exact .inr hq
    · exact .inl ⟨(hf.unique hf').symm.trans ho, rfl⟩
  | noOwner h₁ h₂ hn ho h₃ =>
    obtain ⟨hc, hk, hs⟩ := h.of_resolveBodies hP hA.toGraded h₁
    have hfound := hs.resolveMethod_ok hP hA hc hk h₂
    have hs₂ := hs.of_resolveMethod hP hA.toGraded h₂
    have hr₂ := hr.of_resolveMethod hP hA h h₁ h₂ nofun
    refine (hr₂.of_resolveBodies hP hA hs₂ h₃ fun e he =>
      hu e (congrArg _ (Except.error.inj he))).congr fun n l => ?_
    exact Oracle.or_consults_iff hc hfound.1 hfound.2.1 hn
  | inherited h₁ h₂ hn ho h₃ h₄ =>
    obtain ⟨hc, hk, hs⟩ := h.of_resolveBodies hP hA.toGraded h₁
    obtain ⟨hf, ⟨d', hd', hm⟩, -⟩ := hs.resolveMethod_ok hP hA hc hk h₂
    have hs₂ := hs.of_resolveMethod hP hA.toGraded h₂
    have hr₂ := hr.of_resolveMethod hP hA h h₁ h₂ nofun
    obtain ⟨hd, hkd, -⟩ := hs₂.of_resolveBodies hP hA.toGraded h₃
    -- The class that declares the method ends the second search without a further request.
    have hself := hd'.finds_self hA.toGraded ((Class.method?_signature hm d').trans hm)
    obtain rfl := eq_of_resolveMethod hA.toGraded hd hkd hself.declares h₄
    refine (hr₂.of_resolveBodies hP hA hs₂ h₃ nofun).congr fun n l => ?_
    exact Oracle.or_consults_iff hc hf ⟨d', hd', hm⟩ hn

/-- A search is cut off only if it goes on to too many classes. -/
theorem Sound.overruns_of_resolveMethod (hc : A.resolve sig.owner .bodies = .ok c)
    (hk : r.classes[sig.owner]? = some c) (hrun : r.resolveMethod P fuel sig = (o, r')) :
    o = .error .exhausted ↔ A.Overruns sig fuel [sig.owner] sig.owner := by
  rw [resolveMethod_eq hA.toGraded hc hk] at hrun
  exact h.exhausted_iff hP hA.toGraded (Oracle.has_of_bodies hc) (search_iff.2 hrun)

/-- A lookup that is cut off is one whose search goes on to too many classes. -/
theorem Located.exhausted_iff (hl : Located P fuel sig r o r') :
    o = .error .exhausted ↔ (∃ c, A.resolve sig.owner .bodies = .ok c) ∧
      A.Overruns sig fuel [sig.owner] sig.owner := by
  have hfound {c : Class} {m : Method} {r₁ r₂ : Resolver σ}
      (h₁ : r.resolveBodies P sig.owner = (.ok c, r₁))
      (h₂ : r₁.resolveMethod P fuel sig = (.ok m, r₂)) :
      ¬A.Overruns sig fuel [sig.owner] sig.owner := by
    obtain ⟨hc, hk, hs⟩ := h.of_resolveBodies hP hA.toGraded h₁
    rw [← hs.overruns_of_resolveMethod hP hA hc hk h₂]
    exact nofun
  cases hl with
  | noClass h₁ =>
    have hne := Oracle.ne_exhausted_of_demand (h.demand_of_resolveBodies hP hA h₁)
    refine iff_of_false (fun he => hne (Except.error.inj he)) ?_
    rintro ⟨⟨c, hc⟩, -⟩
    exact (h.of_resolveBodies_error hP hA.toGraded h₁).1 c hc
  | noMethod h₁ h₂ =>
    obtain ⟨hc, hk, hs⟩ := h.of_resolveBodies hP hA.toGraded h₁
    rw [hs.overruns_of_resolveMethod hP hA hc hk h₂, and_iff_right ⟨_, hc⟩]
  | notConcrete h₁ h₂ | declared h₁ h₂ => exact iff_of_false nofun fun hover => hfound h₁ h₂ hover.2
  | noOwner h₁ h₂ _ _ h₃ =>
    have hs₂ := (h.of_resolveBodies hP hA.toGraded h₁).2.2.of_resolveMethod hP hA.toGraded h₂
    have hne := Oracle.ne_exhausted_of_demand (hs₂.demand_of_resolveBodies hP hA h₃)
    exact iff_of_false (fun he => hne (Except.error.inj he)) fun hover => hfound h₁ h₂ hover.2
  | inherited h₁ h₂ _ _ h₃ h₄ =>
    obtain ⟨hc, hk, hs⟩ := h.of_resolveBodies hP hA.toGraded h₁
    obtain ⟨-, ⟨d', hd', hm⟩, -⟩ := hs.resolveMethod_ok hP hA hc hk h₂
    obtain ⟨hd, hkd, hs₃⟩ :=
      (hs.of_resolveMethod hP hA.toGraded h₂).of_resolveBodies hP hA.toGraded h₃
    have hself := hd'.finds_self hA.toGraded ((Class.method?_signature hm d').trans hm)
    have hnot := hfound h₁ h₂
    rw [hs₃.overruns_of_resolveMethod hP hA hd hkd h₄]
    refine iff_of_false (fun hover => ?_) fun hover => hnot hover.2
    -- The second search ends at once, if the first one has got anywhere.
    cases fuel with
    | zero => exact hnot trivial
    | succ fuel =>
      obtain ⟨_, _, hp, -⟩ := hover
      exact hp.not_declares hself.declares

/-- A lookup gets through exactly if it is clear that it does. -/
theorem Located.clear_iff (hl : Located P fuel sig r o r') :
    (∀ e, o = .error e → e.isUnavailable = true) ↔ A.Clear fuel sig := by
  have hcut := hl.exhausted_iff hP hA h
  constructor
  · intro hu
    have ho : o ≠ .error .exhausted := by
      intro ho
      cases hu _ ho
    refine ⟨fun hd => hu _ ((hl.answers hP hA h ho).unique hA.toGraded hd), fun hc hover => ?_⟩
    exact ho (hcut.2 ⟨⟨_, hc⟩, hover⟩)
  · rintro hclear e rfl
    have hne : e ≠ .exhausted := by
      rintro rfl
      obtain ⟨⟨c, hc⟩, hover⟩ := hcut.1 rfl
      exact hclear.ends hc hover
    exact hclear.declines (hl.answers hP hA h fun he => hne (Except.error.inj he))

end

end Resolver

end KernelReach
