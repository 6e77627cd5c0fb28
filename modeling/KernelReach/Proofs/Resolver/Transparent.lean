import KernelReach.Proofs.Resolver.Answer

/-!
# The resolver hides nothing

Over a coherent provider the resolver is a window: what it has kept and what it has missed are
answers of the provider (`Sound`), and so a request is answered as the provider would answer it,
except that a class may be better than was asked for (`Sound.resolveClass_fst`).

The two caches of one class do not get into each other's way. A class that is kept could be had at
its level, so no miss is about a level up to it; a miss holds for all levels from its own on, and
never for a lower one.
-/

namespace KernelReach

/-- The complaint of the resolver about the answer `e` of its provider. -/
def AnalysisError.ofProvider (name : ClassName) (e : ProviderError) : AnalysisError :=
  if e.isUnavailable then .provider e else .resolving name e.message

theorem AnalysisError.isUnavailable_provider (e : ProviderError) :
    (AnalysisError.provider e).isUnavailable = e.isUnavailable := by
  cases e <;> rfl

theorem AnalysisError.isUnavailable_ofProvider (name : ClassName) (e : ProviderError) :
    (AnalysisError.ofProvider name e).isUnavailable = e.isUnavailable := by
  cases e <;> rfl

/-- The answer about a class in the words of the resolver. -/
def Oracle.demand (A : Oracle) (name : ClassName) (level : Level) : Except AnalysisError Class :=
  (A.resolve name level).mapError (AnalysisError.ofProvider name)

theorem Oracle.demand_eq_ok {A : Oracle} {name : ClassName} {level : Level} {c : Class} :
    A.demand name level = .ok c ↔ A.resolve name level = .ok c := by
  unfold demand
  cases A.resolve name level <;> simp [Except.mapError]

theorem Oracle.demand_eq_error {A : Oracle} {name : ClassName} {level : Level}
    {e : AnalysisError} :
    A.demand name level = .error e ↔
      ∃ e', A.resolve name level = .error e' ∧ e = .ofProvider name e' := by
  unfold demand
  cases A.resolve name level <;> simp [Except.mapError, eq_comm]

namespace Resolver

variable {σ : Type} {P : Provider σ} {start : σ} {A : Oracle} {name : ClassName} {level : Level}
  {r : Resolver σ}

/-- All that the resolver keeps are answers of `A`, to which the provider has kept so far. -/
structure Sound (P : Provider σ) (start : σ) (A : Oracle) (r : Resolver σ) : Prop where
  source : P.Leads Level.IsValid start r.source
  classes : ∀ (name : ClassName) (c : Class), r.classes[name]? = some c →
    c.level.IsValid ∧ A.resolve name c.level = .ok c
  misses : ∀ (name : ClassName) (m : Miss), r.misses[name]? = some m →
    m.level.IsValid ∧ m.error.isUnavailable = true ∧ A.resolve name m.level = .error m.error

theorem sound_new (P : Provider σ) (start : σ) (A : Oracle) : (new start).Sound P start A :=
  ⟨.start, fun name c h => by simp [new] at h, fun name m h => by simp [new] at h⟩

/-- The class that is kept, if it is good enough for the request. -/
def best? (r : Resolver σ) (name : ClassName) (level : Level) : Option Class :=
  r.classes[name]?.filter (level ≤ ·.level)

theorem best?_eq_some {c : Class} :
    r.best? name level = some c ↔ r.classes[name]? = some c ∧ level ≤ c.level := by
  simp [best?, Option.filter_eq_some_iff]

theorem best?_eq_none : r.best? name level = none ↔ r.Lacks name level := by
  simp [best?, Lacks, Option.filter_eq_none_iff]

/-- What a provider that follows `A` answers, it answers from its state on as well. -/
theorem Sound.resolve_eq (h : r.Sound P start A) (hP : P.FollowsClasses start A)
    (hl : level.IsValid) {a : Except ProviderError Class} {s : σ}
    (hp : P.resolve name level r.source = (a, s)) : A.resolve name level = a := by
  rw [← hP r.source h.source name level hl, hp]

theorem Sound.leads (h : r.Sound P start A) (hl : level.IsValid)
    {a : Except ProviderError Class} {s : σ}
    (hp : P.resolve name level r.source = (a, s)) : P.Leads Level.IsValid start s := by
  have := h.source.resolve name level hl
  rwa [hp] at this

/-- A request that is answered is answered from the classes that are kept or as `A` does. -/
theorem Answer.eq_demand {a : Except AnalysisError Class} {r' : Resolver σ}
    (ha : Answer P name level r a r') (h : r.Sound P start A) (hP : P.FollowsClasses start A)
    (hA : A.Graded) (hl : level.IsValid) :
    a = match r.best? name level with
      | some c => .ok c
      | none => A.demand name level := by
  cases ha with
  | known hc hle => rw [best?_eq_some.2 ⟨hc, hle⟩]
  | missed hlacks hm hle =>
    obtain ⟨hv, hu, he⟩ := h.misses _ _ hm
    have he' := hA.error_of_le hv hl hle hu he
    rw [best?_eq_none.2 hlacks]
    exact (Oracle.demand_eq_error.2 ⟨_, he', by simp [AnalysisError.ofProvider, hu]⟩).symm
  | found ho hp _ =>
    rw [best?_eq_none.2 ho.lacks]
    exact (Oracle.demand_eq_ok.2 (h.resolve_eq hP hl hp)).symm
  | low ho hp hlt =>
    -- The provider answers at the level that it is asked for.
    have heq := hA.level_eq hl (h.resolve_eq hP hl hp)
    exact absurd hlt (heq ▸ lt_irrefl _)
  | unavailable ho hp he | fatal ho hp he =>
    rw [best?_eq_none.2 ho.lacks]
    exact (Oracle.demand_eq_error.2 ⟨_, h.resolve_eq hP hl hp,
      by simp [AnalysisError.ofProvider, he]⟩).symm

theorem Sound.resolveClass_fst (h : r.Sound P start A) (hP : P.FollowsClasses start A)
    (hA : A.Graded) (hl : level.IsValid) (name : ClassName) :
    (r.resolveClass P name level).1 =
      match r.best? name level with
      | some c => .ok c
      | none => A.demand name level :=
  (answer_resolveClass P name level r).eq_demand h hP hA hl

/-- What a request adds to the caches is an answer of `A`. -/
theorem Answer.sound {a : Except AnalysisError Class} {r' : Resolver σ}
    (ha : Answer P name level r a r') (h : r.Sound P start A) (hP : P.FollowsClasses start A)
    (hA : A.Graded) (hl : level.IsValid) : r'.Sound P start A := by
  cases ha with
  | known | missed => exact ⟨h.source, h.classes, h.misses⟩
  | low ho hp | fatal ho hp => exact ⟨h.leads hl hp, h.classes, h.misses⟩
  | @found c s ho hp hle =>
    refine ⟨h.leads hl hp, fun n d hd => ?_, h.misses⟩
    rw [keep_classes, asked_classes, Std.HashMap.getElem?_insert] at hd
    split_ifs at hd with hn
    · have hc := h.resolve_eq hP hl hp
      have hcl := hA.level_eq hl hc
      cases hd
      rw [← eq_of_beq hn, hcl]
      exact ⟨hl, hc⟩
    · exact h.classes n d hd
  | @unavailable e s ho hp he =>
    refine ⟨h.leads hl hp, h.classes, fun n m hm => ?_⟩
    rw [keepMiss_misses, asked_misses, Std.HashMap.getElem?_insert] at hm
    split_ifs at hm with hn
    · cases hm
      rw [← eq_of_beq hn]
      exact ⟨hl, he, h.resolve_eq hP hl hp⟩
    · exact h.misses n m hm

theorem Sound.resolveClass (h : r.Sound P start A) (hP : P.FollowsClasses start A)
    (hA : A.Graded) (hl : level.IsValid) (name : ClassName) :
    (r.resolveClass P name level).2.Sound P start A :=
  (answer_resolveClass P name level r).sound h hP hA hl

theorem Sound.askAll (h : r.Sound P start A) (hP : P.FollowsClasses start A) (hA : A.Graded)
    {asks : List (ClassName × Level)} (hv : ∀ ask ∈ asks, ask.2.IsValid) :
    (r.askAll P asks).Sound P start A :=
  askAll_keeps (fun ask ha _ h => h.resolveClass hP hA (hv ask ha) ask.1) h

theorem Sound.performAll (h : r.Sound P start A) (hP : P.FollowsClasses start A)
    (hA : A.Graded) {history : List Request} (hv : ∀ q ∈ history, q.IsValid) :
    (r.performAll P history).Sound P start A := by
  rw [performAll_eq]
  exact h.askAll hP hA fun ask ha => isValid_of_mem_asksOf hv ha

/-! ### Answers -/

section

variable (h : r.Sound P start A) (hP : P.FollowsClasses start A) (hA : A.Graded)
  (hl : level.IsValid) (name : ClassName)
include h hP hA hl

/-- A class that the resolver answers with is an answer of the provider at that level or a higher
    one. -/
theorem Sound.resolveClass_ok {c : Class} (hc : (r.resolveClass P name level).1 = .ok c) :
    ∃ l, l.IsValid ∧ level ≤ l ∧ A.resolve name l = .ok c := by
  rw [h.resolveClass_fst hP hA hl] at hc
  rcases hb : r.best? name level with _ | d
  · rw [hb] at hc
    exact ⟨level, hl, le_refl _, Oracle.demand_eq_ok.1 hc⟩
  · rw [hb] at hc
    cases hc
    obtain ⟨hc, hle⟩ := best?_eq_some.1 hb
    obtain ⟨hv, hr⟩ := h.classes name c hc
    exact ⟨c.level, hv, hle, hr⟩

/-- The resolver has a class to answer with exactly where the provider has. -/
theorem Sound.resolveClass_ok_iff :
    (∃ c, (r.resolveClass P name level).1 = .ok c) ↔ ∃ c, A.resolve name level = .ok c := by
  constructor
  · rintro ⟨c, hc⟩
    obtain ⟨l, hv, hle, hr⟩ := h.resolveClass_ok hP hA hl name hc
    obtain ⟨d, hd, _⟩ := hA.ok_of_le hl hv hle hr
    exact ⟨d, hd⟩
  · rintro ⟨c, hc⟩
    rw [h.resolveClass_fst hP hA hl]
    cases r.best? name level with
    | none => exact ⟨c, Oracle.demand_eq_ok.2 hc⟩
    | some d => exact ⟨d, rfl⟩

/-- The complaints of the resolver are those about the answers of the provider. -/
theorem Sound.resolveClass_error_iff {e : AnalysisError} :
    (r.resolveClass P name level).1 = .error e ↔ A.demand name level = .error e := by
  rw [h.resolveClass_fst hP hA hl]
  rcases hb : r.best? name level with _ | d
  · exact Iff.rfl
  · -- A class that is kept could be had at every level up to its own.
    obtain ⟨hd, hle⟩ := best?_eq_some.1 hb
    obtain ⟨hv, hr⟩ := h.classes name d hd
    obtain ⟨c, hc, _⟩ := hA.ok_of_le hl hv hle hr
    rw [Oracle.demand_eq_ok.2 hc]
    simp

/-- A request at a lower level beforehand makes no difference to the answer. -/
theorem Sound.resolveClass_resolveClass {level' : Level} (hl' : level'.IsValid)
    (hle : level ≤ level') :
    ((r.resolveClass P name level).2.resolveClass P name level').1 =
      (r.resolveClass P name level').1 := by
  rw [(h.resolveClass hP hA hl name).resolveClass_fst hP hA hl', h.resolveClass_fst hP hA hl']
  rcases (answer_resolveClass P name level r).classes_eq with hcs | ⟨c, hc, hlacks, _, hcs⟩
  · rw [best?, best?, hcs]
  · -- The lower request has brought in a class at exactly its level.
    have hfirst : r.best? name level' = none :=
      best?_eq_none.2 fun d hd => lt_of_lt_of_le (hlacks d hd) hle
    have hans := h.resolveClass_fst hP hA hl name
    rw [hc, best?_eq_none.2 hlacks] at hans
    have hres := Oracle.demand_eq_ok.1 hans.symm
    have hlevel := hA.level_eq hl hres
    have hkept : (r.resolveClass P name level).2.classes[name]? = some c := by
      rw [hcs, Std.HashMap.getElem?_insert_self]
    rw [hfirst]
    by_cases heq : level' = level
    · rw [best?_eq_some.2 ⟨hkept, le_of_eq (heq.trans hlevel.symm)⟩, heq]
      exact hans
    · have hlacks' : (r.resolveClass P name level).2.Lacks name level' := by
        intro d hd
        rw [hkept, Option.some.injEq] at hd
        rw [← hd, hlevel]
        exact lt_of_le_of_ne hle (Ne.symm heq)
      rw [best?_eq_none.2 hlacks']

end

/-- After any history of requests, a further request has the answer of the provider: a class if and
    only if the provider has one at that level, and then a class that the provider has at that
    level or a higher one; the complaint that the class is unavailable if and only if the provider
    says so, for the reason that the provider gives; a failure if and only if the provider fails.
    And what was asked for at a lower level before makes no difference. -/
theorem resolveClass_transparent {P : Provider σ} {source : σ} {A : Oracle}
    (hP : P.FollowsClasses source A) (hA : A.Graded) {history : List Request}
    (hh : ∀ q ∈ history, q.IsValid) (name : ClassName) {level : Level} (hl : level.IsValid) :
    let r := (new source).performAll P history
    let answer := (r.resolveClass P name level).1
    ((∃ c, answer = .ok c) ↔ ∃ c, A.resolve name level = .ok c) ∧
    (∀ c, answer = .ok c → ∃ l, l.IsValid ∧ level ≤ l ∧ A.resolve name l = .ok c) ∧
    (∀ e, answer = .error e ∧ e.isUnavailable = true ↔
      ∃ e', e = .provider e' ∧ e'.isUnavailable = true ∧ A.resolve name level = .error e') ∧
    ((∃ e, answer = .error e ∧ e.isUnavailable = false) ↔
      ∃ e, A.resolve name level = .error e ∧ e.isUnavailable = false) ∧
    (∀ level', level'.IsValid → level ≤ level' →
      ((r.resolveClass P name level).2.resolveClass P name level').1 =
        (r.resolveClass P name level').1) := by
  intro r answer
  have h : r.Sound P source A := (sound_new P source A).performAll hP hA hh
  have herror {e : AnalysisError} : answer = .error e ↔
      ∃ e', A.resolve name level = .error e' ∧ e = .ofProvider name e' :=
    (h.resolveClass_error_iff hP hA hl name).trans Oracle.demand_eq_error
  refine ⟨h.resolveClass_ok_iff hP hA hl name, fun c => h.resolveClass_ok hP hA hl name,
    fun e => ⟨?_, ?_⟩, ⟨?_, ?_⟩, fun level' hl' => h.resolveClass_resolveClass hP hA hl name hl'⟩
  · rintro ⟨he, hu⟩
    obtain ⟨e', he', rfl⟩ := herror.1 he
    rw [AnalysisError.isUnavailable_ofProvider] at hu
    exact ⟨e', by simp [AnalysisError.ofProvider, hu], hu, he'⟩
  · rintro ⟨e', rfl, hu, he'⟩
    refine ⟨herror.2 ⟨e', he', by simp [AnalysisError.ofProvider, hu]⟩, ?_⟩
    rwa [AnalysisError.isUnavailable_provider]
  · rintro ⟨e, he, hu⟩
    obtain ⟨e', he', rfl⟩ := herror.1 he
    exact ⟨e', he', by rwa [AnalysisError.isUnavailable_ofProvider] at hu⟩
  · rintro ⟨e', he', hu⟩
    exact ⟨_, herror.2 ⟨e', he', rfl⟩, by rwa [AnalysisError.isUnavailable_ofProvider]⟩

/-- After a search through `app.Sub` and a miss, the class in which the search has ended can be had
    with the bodies that the provider has, and the missing class is missing for the provider's
    reason. -/
theorem resolveClass_transparent_sample :
    let P := Sample.oracle.toProvider
    let r := (new ()).performAll P [.resolveClass ⟨"app.Sub"⟩ .hierarchy,
      .resolveBodies ⟨"app.Gone"⟩, .resolveClass ⟨"app.Sub"⟩ .signatures,
      .resolveMethod 3 (Sample.signature "app.Sub" "work")]
    (∃ base, Sample.oracle.resolve ⟨"app.Base"⟩ .bodies = .ok base ∧
      (r.resolveClass P ⟨"app.Base"⟩ .bodies).1 = .ok base) ∧
    (r.resolveClass P ⟨"app.Gone"⟩ .hierarchy).1 =
      .error (.provider (.unavailable .classNotFound "app.Gone: class not found")) := by
  intro P r
  have hP : P.FollowsClasses () Sample.oracle := Sample.oracle.follows_toProvider.classes
  have hA : Sample.oracle.Graded := Sample.coherent_oracle.toGraded
  have hh : ∀ q ∈ [Request.resolveClass ⟨"app.Sub"⟩ .hierarchy, .resolveBodies ⟨"app.Gone"⟩,
      .resolveClass ⟨"app.Sub"⟩ .signatures,
      .resolveMethod 3 (Sample.signature "app.Sub" "work")], q.IsValid := by
    simp [Request.IsValid, Level.isValid_hierarchy, Level.isValid_signatures]
  constructor
  · obtain ⟨hok, hc, -⟩ := resolveClass_transparent hP hA hh ⟨"app.Base"⟩ Level.isValid_bodies
    obtain ⟨base, hbase⟩ := hok.2 ⟨_, rfl⟩
    obtain ⟨l, hv, hle, hl⟩ := hc base hbase
    exact ⟨base, hv.eq_bodies hle ▸ hl, hbase⟩
  · have h := resolveClass_transparent hP hA hh ⟨"app.Gone"⟩ Level.isValid_hierarchy
    exact ((h.2.2.1 _).2 ⟨_, rfl, rfl, rfl⟩).1

end Resolver

end KernelReach
