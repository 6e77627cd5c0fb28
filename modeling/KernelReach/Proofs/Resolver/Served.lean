import KernelReach.Proofs.Collections
import KernelReach.Proofs.Resolver.History
import KernelReach.Proofs.Resolver.Search

/-!
# What requests leave behind

Over a coherent provider it does not matter in which order a resolver is asked. What it can tell
afterwards depends on which requests were made (`Served`): the classes that were asked for, the
level to which each of them is known (`Served.level_eq`), and why a class is missing
(`Served.unavailable?_eq`).

A search for a method asks for the superclasses up to the one where it ends. These are the classes
to which the question is passed on, whichever of them were asked for before (`Served.search`).
-/

namespace KernelReach.Resolver

variable {σ τ : Type} {P : Provider σ} {start : σ} {A : Oracle} {name : ClassName} {level : Level}
  {r r' : Resolver σ} {Q Q' : ClassName → Level → Prop}

theorem level_eq_of_getElem? {c : Class} (h : r.classes[name]? = some c) :
    r.level name = c.level := by
  rw [level, h]

theorem level_eq_none (h : r.classes[name]? = none) : r.level name = .none := by
  rw [level, h]

/-- The resolver was asked for the classes that `Q` names at the levels that `Q` says, and was
    answered. -/
structure Served (A : Oracle) (Q : ClassName → Level → Prop) (r : Resolver σ) : Prop where
  isValid {name : ClassName} {level : Level} : Q name level → level.IsValid
  requested (name : ClassName) : name ∈ r.requested.toList ↔ ∃ level, Q name level
  /-- What can be had is kept. -/
  kept {name : ClassName} {level : Level} {c : Class} : Q name level →
    A.resolve name level = .ok c → level ≤ r.level name
  /-- What cannot be had is unavailable, and is missed. -/
  missed {name : ClassName} {level : Level} {e : ProviderError} : Q name level →
    A.resolve name level = .error e → e.isUnavailable = true ∧ ∃ m, r.misses[name]? = some m
  /-- Nothing is kept at a level that was not asked for. -/
  asked {name : ClassName} {c : Class} : r.classes[name]? = some c → Q name c.level

theorem served_new (A : Oracle) (source : σ) : (new source).Served A fun _ _ => False where
  isValid h := h.elim
  requested name := by simp [new]
  kept h := h.elim
  missed h := h.elim
  asked h := by simp [new] at h

theorem Served.congr (h : r.Served A Q) (hQ : ∀ name level, Q name level ↔ Q' name level) :
    r.Served A Q' := by
  have heq : Q = Q' := by
    ext name level
    exact hQ name level
  exact heq ▸ h

/-- Only the requests, the classes and the misses count. -/
theorem Served.of_eq {r' : Resolver τ} (h : r.Served A Q) (hrequested : r'.requested = r.requested)
    (hclasses : r'.classes = r.classes) (hmisses : r'.misses = r.misses) : r'.Served A Q where
  isValid := h.isValid
  requested name := by rw [hrequested, h.requested]
  kept hq hc := by
    rw [level, hclasses]
    exact h.kept hq hc
  missed hq he := by
    rw [hmisses]
    exact h.missed hq he
  asked hc := by
    rw [hclasses] at hc
    exact h.asked hc

theorem Served.note (h : r.Served A Q) (e : Event) : (r.note e).Served A Q :=
  h.of_eq rfl rfl rfl

theorem Served.body (h : r.Served A Q) (m : Method) : (r.body P m).2.Served A Q :=
  h.of_eq rfl rfl rfl

/-! ### One more request -/

theorem Answer.requested_eq {a : Except AnalysisError Class} (h : Answer P name level r a r') :
    r'.requested = r.requested.insert name := by
  cases h <;> rfl

theorem Raises.level_le (h : r.Raises r') (name : ClassName) (hr : ∀ c, r'.classes[name]? = some c →
    c.level.IsValid) : r.level name ≤ r'.level name := by
  rcases hc : r.classes[name]? with _ | c
  · rw [level_eq_none hc]
    rcases hc' : r'.classes[name]? with _ | c'
    · rw [level_eq_none hc']
    · rw [level_eq_of_getElem? hc']
      exact le_trans (by decide) (hr c' hc').1
  · obtain ⟨c', hc', h⟩ := h name c hc
    rw [level_eq_of_getElem? hc, level_eq_of_getElem? hc']
    rcases h with rfl | h
    · exact le_refl _
    · exact le_of_lt h

/-- A miss is never given up. -/
theorem Answer.exists_miss {a : Except AnalysisError Class} {name' : ClassName}
    (h : Answer P name level r a r') (hm : ∃ m, r.misses[name']? = some m) :
    ∃ m, r'.misses[name']? = some m := by
  cases h with
  | known | missed | found | low | fatal => exact hm
  | @unavailable e s _ _ _ =>
    rw [keepMiss_misses, asked_misses, Std.HashMap.getElem?_insert]
    split_ifs
    · exact ⟨_, rfl⟩
    · exact hm

/-- A class that turns out to be unavailable is a miss. -/
theorem Answer.exists_miss_of_error {e : AnalysisError} (h : Answer P name level r (.error e) r')
    (hu : e.isUnavailable = true) : ∃ m, r'.misses[name]? = some m := by
  cases h with
  | missed _ hm => exact ⟨_, hm⟩
  | unavailable => exact ⟨_, Std.HashMap.getElem?_insert_self⟩
  | low | fatal => cases hu

section

variable (hP : P.FollowsClasses start A) (hA : A.Graded)
include hP hA

/-- A request that does not fail is served. -/
theorem Served.resolveClass (h : r.Served A Q) (hs : r.Sound P start A) (hl : level.IsValid)
    (name : ClassName)
    (hu : ∀ e, (r.resolveClass P name level).1 = .error e → e.isUnavailable = true) :
    (r.resolveClass P name level).2.Served A fun n l => Q n l ∨ n = name ∧ l = level := by
  have ha := answer_resolveClass P name level r
  have hs' := hs.resolveClass hP hA hl name
  refine ⟨?_, fun n => ?_, ?_, ?_, ?_⟩
  · rintro n l (hq | ⟨rfl, rfl⟩)
    · exact h.isValid hq
    · exact hl
  · rw [ha.requested_eq, OrderedSet.mem_toList_insert, h.requested]
    simp [exists_or]
  · rintro n l c (hq | ⟨rfl, rfl⟩) hc
    · exact le_trans (h.kept hq hc) ((raises_resolveClass P name level r).level_le n
        fun c' hc' => (hs'.classes n c' hc').1)
    · -- The provider has the class, so the answer is a class, and it is kept.
      obtain ⟨d, hd⟩ := (hs.resolveClass_ok_iff hP hA hl n).2 ⟨c, hc⟩
      rw [hd] at ha
      obtain ⟨hkept, hle⟩ := ha.getElem?_of_ok
      rwa [level_eq_of_getElem? hkept]
  · rintro n l e (hq | ⟨rfl, rfl⟩) he
    · exact (h.missed hq he).imp_right ha.exists_miss
    · have herror :=
        (hs.resolveClass_error_iff hP hA hl n).2 (Oracle.demand_eq_error.2 ⟨e, he, rfl⟩)
      have hue := hu _ herror
      rw [herror] at ha
      exact ⟨AnalysisError.isUnavailable_ofProvider n e ▸ hue, ha.exists_miss_of_error hue⟩
  · intro n c hc
    rcases ha.classes_eq with hsame | ⟨d, hd, hlacks, -, hinsert⟩
    · rw [hsame] at hc
      exact .inl (h.asked hc)
    · rw [hinsert, Std.HashMap.getElem?_insert] at hc
      split_ifs at hc with hn
      · -- A class that is new is one at the level of the request.
        cases hc
        refine .inr ⟨(eq_of_beq hn).symm, ?_⟩
        rw [hs.resolveClass_fst hP hA hl, best?_eq_none.2 hlacks] at hd
        exact hA.level_eq hl (Oracle.demand_eq_ok.1 hd)
      · exact .inl (h.asked hc)

end

/-- What was served at a level is served at every lower one. -/
theorem Served.lower {level' : Level} {c : Class} (hA : A.Graded) (h : r.Served A Q)
    (hq : Q name level) (hc : A.resolve name level = .ok c) (hl : level'.IsValid)
    (hle : level' ≤ level) :
    r.Served A fun n l => Q n l ∨ n = name ∧ l = level' := by
  refine ⟨?_, fun n => ?_, ?_, ?_, fun hd => .inl (h.asked hd)⟩
  · rintro n l (hq | ⟨rfl, rfl⟩)
    · exact h.isValid hq
    · exact hl
  · rw [h.requested]
    constructor
    · rintro ⟨l, hq⟩
      exact ⟨l, .inl hq⟩
    · rintro ⟨l, hq | ⟨rfl, -⟩⟩
      · exact ⟨l, hq⟩
      · exact ⟨level, hq⟩
  · rintro n l d (hq | ⟨rfl, rfl⟩) hd
    · exact h.kept hq hd
    · exact le_trans hle (h.kept hq hc)
  · rintro n l e (hq | ⟨rfl, rfl⟩) he
    · exact h.missed hq he
    · obtain ⟨d, hd, -⟩ := hA.ok_of_le hl (h.isValid hq) hle hc
      rw [hd] at he
      cases he

/-! ### What can be told -/

section

variable {P' : Provider τ} {start' : τ} {r' : Resolver τ} (h : r.Served A Q) (h' : r'.Served A Q)
  (hs : r.Sound P start A) (hs' : r'.Sound P' start' A)
include h h' hs hs'

theorem Served.level_le (name : ClassName) : r.level name ≤ r'.level name := by
  rcases hc : r.classes[name]? with _ | c
  · rw [level_eq_none hc]
    rcases hc' : r'.classes[name]? with _ | c'
    · rw [level_eq_none hc']
    · rw [level_eq_of_getElem? hc']
      exact le_trans (by decide) (hs'.classes name c' hc').1.1
  · rw [level_eq_of_getElem? hc]
    exact h'.kept (h.asked hc) (hs.classes name c hc).2

/-- The level to which a class is known depends on the requests alone. -/
theorem Served.level_eq (name : ClassName) : r.level name = r'.level name :=
  le_antisymm (h.level_le h' hs hs' name) (h'.level_le h hs' hs name)

omit hs hs' h' in
/-- A class that was asked for is known or missed. -/
theorem Served.exists_miss (hn : name ∈ r.requested.toList) (hl : r.level name = .none) :
    ∃ m, r.misses[name]? = some m := by
  obtain ⟨level, hq⟩ := (h.requested name).1 hn
  rcases hres : A.resolve name level with e | c
  · exact (h.missed hq hres).2
  · have hle := h.kept hq hres
    rw [hl] at hle
    exact absurd (le_trans (h.isValid hq).1 hle) (by decide)

/-- So does the reason why it is missing. -/
theorem Served.unavailable?_eq (hA : A.Graded) (hn : name ∈ r.requested.toList)
    (hl : r.level name = .none) : r.unavailable? name = r'.unavailable? name := by
  have hn' : name ∈ r'.requested.toList := by rwa [h'.requested, ← h.requested]
  obtain ⟨m, hm⟩ := h.exists_miss hn hl
  obtain ⟨m', hm'⟩ := h'.exists_miss hn' ((h.level_eq h' hs hs' name).symm.trans hl)
  obtain ⟨hv, hu, he⟩ := hs.misses name m hm
  obtain ⟨hv', hu', he'⟩ := hs'.misses name m' hm'
  -- Of two levels at which the class is missing, the reason at the lower one is that at the higher.
  have heq : m.error = m'.error := by
    rcases le_total m.level m'.level with hle | hle
    · exact Except.error.inj ((hA.error_of_le hv hv' hle hu he).symm.trans he')
    · exact (Except.error.inj ((hA.error_of_le hv' hv hle hu' he').symm.trans he)).symm
  rw [unavailable?, unavailable?, hm, hm', Option.map_some, Option.map_some, heq]

end

/-! ### Searches -/

/-- A class that does not pass a question on is the only one to which it gets. -/
theorem reflTransGen_passes_iff_eq {sig : Signature} {n : ClassName}
    (h : ∀ superclass, ¬A.Passes sig name superclass) :
    Relation.ReflTransGen (A.Passes sig) name n ↔ n = name := by
  constructor
  · intro hn
    rcases Relation.ReflTransGen.cases_head hn with rfl | ⟨superclass, hp, -⟩
    · rfl
    · exact absurd hp (h superclass)
  · rintro rfl
    exact .refl

/-- A class that passes it on to its superclass gets as far as that. -/
theorem reflTransGen_passes_iff {sig : Signature} {superclass n : ClassName}
    (h : A.Passes sig name superclass) :
    Relation.ReflTransGen (A.Passes sig) name n ↔
      n = name ∨ Relation.ReflTransGen (A.Passes sig) superclass n := by
  constructor
  · intro hn
    rcases Relation.ReflTransGen.cases_head hn with rfl | ⟨superclass', hp, hn⟩
    · exact .inl rfl
    · exact .inr (h.unique hp ▸ hn)
  · rintro (rfl | hn)
    · exact .refl
    · exact .head h hn

/-- A class that passes nothing on ends a search. -/
theorem Served.of_not_passes {sig : Signature} (h : r.Served A Q) (hQ : Q name .signatures)
    (hnone : ∀ superclass, ¬A.Passes sig name superclass) :
    r.Served A fun n l =>
      Q n l ∨ l = .signatures ∧ Relation.ReflTransGen (A.Passes sig) name n := by
  refine h.congr fun n l => ⟨.inl, ?_⟩
  rintro (hq | ⟨rfl, hn⟩)
  · exact hq
  · rwa [(reflTransGen_passes_iff_eq hnone).1 hn]

section

variable (hP : P.FollowsClasses start A) (hA : A.Graded)
include hP hA

/-- A search that has got to the class `name`, and neither fails nor is cut off, asks for the
    classes to which the question is passed on from there. -/
theorem Served.search {sig : Signature} {fuel : Nat} {seen : List ClassName} {c : Class}
    {o : Except AnalysisError Method} (h : r.Served A Q) (hs : r.Sound P start A)
    (hc : A.Has name c) (hname : name ∈ seen) (hQ : ∀ n ∈ seen, Q n .signatures)
    (hpath : ∀ n ∈ seen, ∀ n', A.Passes sig n n' → n = name ∨ n' ∈ seen)
    (hsearch : Search P sig fuel seen c r o r')
    (hu : ∀ e, o = .error e → e.isUnavailable = true) :
    r'.Served A fun n l =>
      Q n l ∨ l = .signatures ∧ Relation.ReflTransGen (A.Passes sig) name n := by
  -- The classes that were seen pass the question on to each other, up to the one where the search
  -- is.
  induction hsearch generalizing name Q with
  | exhausted => cases hu _ rfl
  | found hm =>
    refine h.of_not_passes (hQ name hname) fun superclass hp => ?_
    rw [((hc.passes_iff hA).1 hp).1] at hm
    cases hm
  | top _ hsuper =>
    refine h.of_not_passes (hQ name hname) fun superclass hp => ?_
    rw [((hc.passes_iff hA).1 hp).2] at hsuper
    cases hsuper
  | @circle _ seen _ _ _ hm hsuper hin =>
    -- The superclasses run in a circle, and all that are in it were seen.
    have hp := (hc.passes_iff hA).2 ⟨hm, hsuper⟩
    have hclosed {n : ClassName} (hn : Relation.ReflTransGen (A.Passes sig) name n) :
        n ∈ seen := by
      induction hn with
      | refl => exact hname
      | @tail n n' _ hstep ih =>
        rcases hpath n ih n' hstep with rfl | hn'
        · exact hp.unique hstep ▸ hin
        · exact hn'
    refine h.congr fun n l => ⟨.inl, ?_⟩
    rintro (hq | ⟨rfl, hn⟩)
    · exact hq
    · exact hQ n (hclosed hn)
  | @unavailable _ _ _ _ superclass e _ hm hsuper _ hr hue =>
    -- The superclass cannot be had, and passes nothing on.
    have hp := (hc.passes_iff hA).2 ⟨hm, hsuper⟩
    have hask := h.resolveClass hP hA hs Level.isValid_signatures superclass
    rw [hr] at hask
    refine (hask fun e' he' => Except.error.inj he' ▸ hue).congr fun n l => ?_
    have hnone : ∀ n', ¬A.Passes sig superclass n' := by
      rintro n' ⟨d, hd, -⟩
      exact hs.resolve_ne_ok hP hA Level.isValid_signatures hr d hd
    rw [reflTransGen_passes_iff hp, reflTransGen_passes_iff_eq hnone]
    constructor
    · rintro (hq | ⟨rfl, rfl⟩)
      · exact .inl hq
      · exact .inr ⟨rfl, .inr rfl⟩
    · rintro (hq | ⟨rfl, rfl | rfl⟩)
      · exact .inl hq
      · exact .inl (hQ n hname)
      · exact .inr ⟨rfl, rfl⟩
  | failed _ _ _ _ he => simp [he] at hu
  | @up _ seen _ _ superclass _ _ _ _ hm hsuper _ hr _ ih =>
    have hp := (hc.passes_iff hA).2 ⟨hm, hsuper⟩
    have hask := h.resolveClass hP hA hs Level.isValid_signatures superclass
    have hs₁ := hs.resolveClass hP hA Level.isValid_signatures superclass
    rw [hr] at hask hs₁
    have hd := hs.resolveClass_ok hP hA Level.isValid_signatures superclass (congrArg Prod.fst hr)
    refine (ih (hask fun _ he => by cases he) hs₁ hd List.mem_cons_self ?_ ?_ hu).congr
      fun n l => ?_
    · intro n hn
      rcases List.mem_cons.1 hn with rfl | hn
      · exact .inr ⟨rfl, rfl⟩
      · exact .inl (hQ n hn)
    · intro n hn n' hstep
      rcases List.mem_cons.1 hn with rfl | hn
      · exact .inl rfl
      · rcases hpath n hn n' hstep with rfl | hn'
        · exact .inr (hp.unique hstep ▸ List.mem_cons_self)
        · exact .inr (List.mem_cons_of_mem superclass hn')
    · rw [reflTransGen_passes_iff hp]
      constructor
      · rintro ((hq | ⟨rfl, rfl⟩) | ⟨rfl, hn⟩)
        · exact .inl hq
        · exact .inr ⟨rfl, .inr .refl⟩
        · exact .inr ⟨rfl, .inr hn⟩
      · rintro (hq | ⟨rfl, rfl | hn⟩)
        · exact .inl (.inl hq)
        · exact .inl (.inl (hQ n hname))
        · exact .inr ⟨rfl, hn⟩

end

end KernelReach.Resolver
