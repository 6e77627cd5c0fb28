import KernelReach.Proofs.Provider
import KernelReach.Reach.Resolver

/-!
# How the resolver answers

A request for a class is answered in one of six ways (`Resolver.Answer`): from a class or a miss
that is kept, or by the provider, whose answer is a class, a class that is not good enough, a miss
or a failure. A search for a method looks at one class after the other (`Resolver.Search`): at each
it finds the method, gives up or goes on to the superclass. Whatever the resolver is asked comes
down to requests for classes, those of a search being for superclasses (`searchPath`), so that the
resolver after any history of requests is the one that a list of requests for classes leads to
(`performAll_eq`). A property of resolvers is therefore one of all histories as soon as a single
request for a class keeps it.
-/

namespace KernelReach.Resolver

variable {σ : Type} {P : Provider σ} {name : ClassName} {level : Level} {r : Resolver σ}

/-- A resolver that has not been asked for anything. -/
def new (source : σ) : Resolver σ := { source }

/-! ### One request for a class -/

/-- The resolver after a request for `name` that needed no question. -/
def hit (r : Resolver σ) (name : ClassName) : Resolver σ :=
  { r with
    requested := r.requested.insert name
    stats.cacheHits := r.stats.cacheHits + 1 }

/-- The resolver after a question for `name` at `level` that has left the provider in the state
    `source`, and of which nothing is kept yet. -/
def asked (r : Resolver σ) (name : ClassName) (level : Level) (source : σ) : Resolver σ :=
  { r with
    source
    requested := r.requested.insert name
    stats := { r.stats with
      lookups := r.stats.lookups + 1
      upgrades := r.stats.upgrades + if r.classes.contains name then 1 else 0 }
    events := .resolving name level :: r.events }

/-- The resolver that keeps `c` as the class `name`. -/
def keep (r : Resolver σ) (name : ClassName) (c : Class) : Resolver σ :=
  { r with classes := r.classes.insert name c }

/-- The resolver that keeps `m` as the miss of the class `name`. -/
def keepMiss (r : Resolver σ) (name : ClassName) (m : Miss) : Resolver σ :=
  { r with
    misses := r.misses.insert name m
    stats.misses := r.stats.misses + 1 }


variable {s : σ} {c : Class} {m : Miss}

@[simp] theorem asked_classes : (r.asked name level s).classes = r.classes := rfl
@[simp] theorem asked_misses : (r.asked name level s).misses = r.misses := rfl
@[simp] theorem keep_classes : (r.keep name c).classes = r.classes.insert name c := rfl
@[simp] theorem keepMiss_misses : (r.keepMiss name m).misses = r.misses.insert name m := rfl

/-- No class that is kept is good enough for the request. -/
def Lacks (r : Resolver σ) (name : ClassName) (level : Level) : Prop :=
  ∀ c, r.classes[name]? = some c → c.level < level

/-- Nothing that is kept answers the request. -/
structure Open (r : Resolver σ) (name : ClassName) (level : Level) : Prop where
  lacks : r.Lacks name level
  lt_miss : ∀ m, r.misses[name]? = some m → level < m.level

/-- The answers to a request for `name` at `level`, with the resolver after it. -/
inductive Answer (P : Provider σ) (name : ClassName) (level : Level) (r : Resolver σ) :
    Except AnalysisError Class → Resolver σ → Prop
  /-- A class that is kept is good enough. -/
  | known {c : Class} : r.classes[name]? = some c → level ≤ c.level →
      Answer P name level r (.ok c) (r.hit name)
  /-- A miss that is kept says that the class is unavailable. -/
  | missed {m : Miss} : r.Lacks name level → r.misses[name]? = some m → m.level ≤ level →
      Answer P name level r (.error (.provider m.error)) (r.hit name)
  | found {c : Class} {s : σ} : r.Open name level →
      P.resolve name level r.source = (.ok c, s) → level ≤ c.level →
      Answer P name level r (.ok c) ((r.asked name level s).keep name c)
  /-- The provider knows less of the class than was asked for. -/
  | low {c : Class} {s : σ} : r.Open name level →
      P.resolve name level r.source = (.ok c, s) → c.level < level →
      Answer P name level r (.error (.belowLevel name c.level level)) (r.asked name level s)
  | unavailable {e : ProviderError} {s : σ} : r.Open name level →
      P.resolve name level r.source = (.error e, s) → e.isUnavailable = true →
      Answer P name level r (.error (.provider e))
        ((r.asked name level s).keepMiss name ⟨level, e⟩)
  | fatal {e : ProviderError} {s : σ} : r.Open name level →
      P.resolve name level r.source = (.error e, s) → e.isUnavailable = false →
      Answer P name level r (.error (.resolving name e.message)) (r.asked name level s)

theorem missed?_eq_none {r : Resolver σ} :
    r.missed? name level = none ↔ ∀ m, r.misses[name]? = some m → level < m.level := by
  unfold missed?
  cases r.misses[name]? with
  | none => simp
  | some m => simp

theorem missed?_eq_some {r : Resolver σ} {a : Except AnalysisError Class} :
    r.missed? name level = some a ↔
      ∃ m, r.misses[name]? = some m ∧ m.level ≤ level ∧ a = .error (.provider m.error) := by
  unfold missed?
  cases r.misses[name]? with
  | none => simp
  | some m => simp [eq_comm]

/-- A request that nothing answers goes to the provider. -/
theorem answer_lookUp (h : r.Open name level) :
    Answer P name level r
      (({ r with requested := r.requested.insert name } : Resolver σ).lookUp P name level).1
      (({ r with requested := r.requested.insert name } : Resolver σ).lookUp P name level).2 := by
  unfold lookUp
  rcases hp : P.resolve name level r.source with ⟨e | c, s⟩
  · by_cases he : e.isUnavailable = true
    · simp only [he, if_true]
      exact .unavailable h hp he
    · simp only [he]
      exact .fatal h hp (by simpa using he)
  · by_cases hl : c.level < level
    · simp only [hl, if_true]
      exact .low h hp hl
    · simp only [hl, if_false]
      exact .found h hp (not_lt.1 hl)

/-- A request is answered in one of the six ways. -/
theorem answer_resolveClass (P : Provider σ) (name : ClassName) (level : Level)
    (r : Resolver σ) :
    Answer P name level r (r.resolveClass P name level).1 (r.resolveClass P name level).2 := by
  -- The miss is looked at only where no class is good enough, so the two caches are split first.
  have hmiss (hc : r.Lacks name level)
      (heq : ({ r with requested := r.requested.insert name } : Resolver σ).cached? name level =
        r.missed? name level) :
      Answer P name level r (r.resolveClass P name level).1 (r.resolveClass P name level).2 := by
    unfold resolveClass
    rcases hm : r.missed? name level with _ | a
    · simp only [heq, hm]
      exact answer_lookUp ⟨hc, missed?_eq_none.1 hm⟩
    · simp only [heq, hm]
      obtain ⟨m, hmn, hl, rfl⟩ := missed?_eq_some.1 hm
      exact .missed hc hmn hl
  rcases hc : r.classes[name]? with _ | c
  · exact hmiss (by simp [Lacks, hc]) (by simp [cached?, hc, missed?])
  · by_cases hl : level ≤ c.level
    · unfold resolveClass
      simp only [cached?, hc, hl, if_true]
      exact .known hc hl
    · exact hmiss (by simpa [Lacks, hc] using hl) (by simp [cached?, hc, hl, missed?])

namespace Answer

variable {a : Except AnalysisError Class} {r' : Resolver σ}

/-- A request changes at most the class that it is about, and only if it is answered by a better
    one. -/
theorem classes_eq (h : Answer P name level r a r') :
    r'.classes = r.classes ∨
      ∃ c, a = .ok c ∧ r.Lacks name level ∧ level ≤ c.level ∧
        r'.classes = r.classes.insert name c := by
  cases h with
  | found ho _ hl => exact .inr ⟨_, rfl, ho.lacks, hl, rfl⟩
  | _ => exact .inl rfl

/-- A class that answers a request is kept. -/
theorem getElem?_of_ok {c : Class} (h : Answer P name level r (.ok c) r') :
    r'.classes[name]? = some c ∧ level ≤ c.level := by
  cases h with
  | known hc hl => exact ⟨hc, hl⟩
  | found _ _ hl => exact ⟨Std.HashMap.getElem?_insert_self, hl⟩

end Answer

/-! ### Searches -/

/-- The search for `sig` from a class on: how many classes it may look at, those it has looked at,
    the class, the resolver, what comes of it, and the resolver after it. -/
inductive Search (P : Provider σ) (sig : Signature) :
    Nat → List ClassName → Class → Resolver σ → Except AnalysisError Method → Resolver σ → Prop
  | exhausted {seen c r} : Search P sig 0 seen c r (.error .exhausted) r
  | found {fuel seen c r m} (hm : c.method? sig = some m) :
      Search P sig (fuel + 1) seen c r (.ok m) r
  /-- The class is the last of the chain. -/
  | top {fuel seen c r} (hm : c.method? sig = none) (hs : c.superclass = none) :
      Search P sig (fuel + 1) seen c r (.error (.methodNotFound sig)) r
  /-- The chain comes back to a class. -/
  | circle {fuel seen c r superclass} (hm : c.method? sig = none)
      (hs : c.superclass = some superclass) (hin : superclass ∈ seen) :
      Search P sig (fuel + 1) seen c r (.error (.methodNotFound sig)) r
  | unavailable {fuel seen c r superclass e r'} (hm : c.method? sig = none)
      (hs : c.superclass = some superclass) (hnew : superclass ∉ seen)
      (hr : r.resolveClass P superclass .signatures = (.error e, r'))
      (he : e.isUnavailable = true) :
      Search P sig (fuel + 1) seen c r (.error (.superclassUnavailable sig superclass)) r'
  | failed {fuel seen c r superclass e r'} (hm : c.method? sig = none)
      (hs : c.superclass = some superclass) (hnew : superclass ∉ seen)
      (hr : r.resolveClass P superclass .signatures = (.error e, r'))
      (he : e.isUnavailable = false) :
      Search P sig (fuel + 1) seen c r (.error e) r'
  /-- The search goes on at the superclass. -/
  | up {fuel seen c r superclass d r₁ o r'} (hm : c.method? sig = none)
      (hs : c.superclass = some superclass) (hnew : superclass ∉ seen)
      (hr : r.resolveClass P superclass .signatures = (.ok d, r₁))
      (h : Search P sig fuel (superclass :: seen) d r₁ o r') :
      Search P sig (fuel + 1) seen c r o r'

section

variable {sig : Signature} {fuel : Nat} {seen : List ClassName} {r' : Resolver σ}
  {o : Except AnalysisError Method}

theorem search_searchMethod (P : Provider σ) (sig : Signature) (fuel : Nat)
    (seen : List ClassName) (c : Class) (r : Resolver σ) :
    Search P sig fuel seen c r (searchMethod P sig fuel seen c r).1
      (searchMethod P sig fuel seen c r).2 := by
  induction fuel generalizing seen c r with
  | zero => exact .exhausted
  | succ fuel ih =>
    rw [searchMethod]
    rcases hm : c.method? sig with _ | m
    case some => exact .found hm
    rcases hs : c.superclass with _ | superclass
    case none => exact .top hm hs
    by_cases hin : superclass ∈ seen
    · simp only [List.contains_iff_mem.2 hin, if_true]
      exact .circle hm hs hin
    have hnew : seen.contains superclass = false := by simpa using hin
    simp only [hnew, Bool.false_eq_true, if_false]
    rcases hr : r.resolveClass P superclass .signatures with ⟨e | d, r'⟩
    · dsimp only
      split_ifs with he
      · exact .unavailable hm hs hin hr he
      · exact .failed hm hs hin hr (eq_false_of_ne_true he)
    · exact .up hm hs hin hr (ih _ d r')

/-- The search is what `searchMethod` does. -/
theorem search_iff :
    Search P sig fuel seen c r o r' ↔ searchMethod P sig fuel seen c r = (o, r') := by
  constructor
  · intro h
    induction h with
    | exhausted => rfl
    | found hm => simp [searchMethod, hm]
    | top hm hs => simp [searchMethod, hm, hs]
    | circle hm hs hin => simp [searchMethod, hm, hs, hin]
    | unavailable hm hs hnew hr he => simp [searchMethod, hm, hs, hnew, hr, he]
    | failed hm hs hnew hr he => simp [searchMethod, hm, hs, hnew, hr, he]
    | up hm hs hnew hr _ ih => simp [searchMethod, hm, hs, hnew, hr, ih]
  · intro h
    have hsearch := search_searchMethod P sig fuel seen c r
    rwa [h] at hsearch

end

/-! ### Histories -/

/-- Makes requests for classes one after the other. -/
def askAll (P : Provider σ) (asks : List (ClassName × Level)) (r : Resolver σ) : Resolver σ :=
  asks.foldl (fun r ask => (r.resolveClass P ask.1 ask.2).2) r

theorem askAll_append (asks asks' : List (ClassName × Level)) (r : Resolver σ) :
    r.askAll P (asks ++ asks') = (r.askAll P asks).askAll P asks' :=
  List.foldl_append ..

/-- What one request for a class keeps, all of them keep. -/
theorem askAll_keeps {I : Resolver σ → Prop} {asks : List (ClassName × Level)}
    (hI : ∀ ask ∈ asks, ∀ r, I r → I (r.resolveClass P ask.1 ask.2).2) (h : I r) :
    I (r.askAll P asks) := by
  induction asks generalizing r with
  | nil => exact h
  | cons ask asks ih =>
    exact ih (fun a ha => hI a (List.mem_cons_of_mem _ ha)) (hI ask List.mem_cons_self r h)

/-- The superclasses for which `searchMethod` asks, in order. -/
def searchPath (P : Provider σ) (sig : Signature) :
    (fuel : Nat) → (seen : List ClassName) → Class → Resolver σ → List ClassName
  | 0, _, _, _ => []
  | fuel + 1, seen, c, r =>
    match c.method? sig with
    | some _ => []
    | none =>
      match c.superclass with
      | none => []
      | some superclass =>
        if seen.contains superclass then []
        else
          match r.resolveClass P superclass .signatures with
          | (.ok c, r) => superclass :: searchPath P sig fuel (superclass :: seen) c r
          | (.error _, _) => [superclass]

/-- The requests for classes that a search makes. -/
def searchAsks (P : Provider σ) (sig : Signature) (fuel : Nat) (seen : List ClassName)
    (c : Class) (r : Resolver σ) : List (ClassName × Level) :=
  (searchPath P sig fuel seen c r).map (·, .signatures)

/-- A search changes the resolver only through its requests for superclasses. -/
theorem Search.eq_askAll {sig : Signature} {fuel : Nat} {seen : List ClassName} {r' : Resolver σ}
    {o : Except AnalysisError Method} (h : Search P sig fuel seen c r o r') :
    r' = r.askAll P (searchAsks P sig fuel seen c r) := by
  induction h with
  | exhausted => rfl
  | found hm => simp [searchAsks, searchPath, hm, askAll]
  | top hm hs => simp [searchAsks, searchPath, hm, hs, askAll]
  | circle hm hs hin => simp [searchAsks, searchPath, hm, hs, hin, askAll]
  | unavailable hm hs hnew hr | failed hm hs hnew hr =>
    simp [searchAsks, searchPath, hm, hs, hnew, hr, askAll]
  | up hm hs hnew hr _ ih => simp [searchAsks, searchPath, hm, hs, hnew, hr, askAll, ih]

/-- What a resolver can be asked for. -/
inductive Request
  | resolveClass (name : ClassName) (level : Level)
  | resolveBodies (name : ClassName)
  | resolveMethod (fuel : Nat) (sig : Signature)

namespace Request

/-- The resolver after a request. -/
def perform (P : Provider σ) (r : Resolver σ) : Request → Resolver σ
  | resolveClass name level => (r.resolveClass P name level).2
  | resolveBodies name => (r.resolveBodies P name).2
  | resolveMethod fuel sig => (r.resolveMethod P fuel sig).2

/-- The requests for classes that a request comes down to. -/
def asks (P : Provider σ) (r : Resolver σ) : Request → List (ClassName × Level)
  | resolveClass name level => [(name, level)]
  | resolveBodies name => [(name, .bodies)]
  | resolveMethod fuel sig =>
    match r.classes[sig.owner]? with
    | some c => if .signatures ≤ c.level then searchAsks P sig fuel [c.name] c r else []
    | none => []

theorem perform_eq (P : Provider σ) (r : Resolver σ) (q : Request) :
    q.perform P r = r.askAll P (q.asks P r) := by
  cases q with
  | resolveClass name level => rfl
  | resolveBodies name => rfl
  | resolveMethod fuel sig =>
    rw [perform, asks, Resolver.resolveMethod]
    cases r.classes[sig.owner]? with
    | none => rfl
    | some c =>
      by_cases hl : .signatures ≤ c.level
      · simp only [hl, if_true]
        exact (search_searchMethod P sig fuel [c.name] c r).eq_askAll
      · simp only [hl, if_false]
        rfl

/-- Classes are asked for at levels that a class can be resolved to. -/
def IsValid : Request → Prop
  | resolveClass _ level => level.IsValid
  | _ => True

theorem isValid_of_mem_asks {q : Request} (hq : q.IsValid) {ask : ClassName × Level}
    (h : ask ∈ q.asks P r) : ask.2.IsValid := by
  cases q with
  | resolveClass name level =>
    rw [asks, List.mem_singleton] at h
    exact h ▸ hq
  | resolveBodies name =>
    rw [asks, List.mem_singleton] at h
    exact h ▸ Level.isValid_bodies
  | resolveMethod fuel sig =>
    rw [asks] at h
    split at h
    · split at h
      · obtain ⟨_, _, rfl⟩ := List.mem_map.1 h
        exact Level.isValid_signatures
      · exact absurd h List.not_mem_nil
    · exact absurd h List.not_mem_nil

end Request

/-- Makes requests one after the other. -/
def performAll (P : Provider σ) (history : List Request) (r : Resolver σ) : Resolver σ :=
  history.foldl (fun r q => q.perform P r) r

/-- The requests for classes that a history comes down to. -/
def asksOf (P : Provider σ) : List Request → Resolver σ → List (ClassName × Level)
  | [], _ => []
  | q :: history, r => q.asks P r ++ asksOf P history (q.perform P r)

/-- The resolver after any history is the one that requests for classes lead to. -/
theorem performAll_eq (P : Provider σ) (history : List Request) (r : Resolver σ) :
    r.performAll P history = r.askAll P (asksOf P history r) := by
  induction history generalizing r with
  | nil => rfl
  | cons q history ih =>
    rw [asksOf, askAll_append, ← q.perform_eq]
    exact ih _

theorem isValid_of_mem_asksOf {history : List Request} (hv : ∀ q ∈ history, q.IsValid)
    {ask : ClassName × Level} (h : ask ∈ asksOf P history r) : ask.2.IsValid := by
  induction history generalizing r with
  | nil => exact absurd h List.not_mem_nil
  | cons q history ih =>
    rcases List.mem_append.1 h with h | h
    · exact Request.isValid_of_mem_asks (hv q List.mem_cons_self) h
    · exact ih (fun q hq => hv q (List.mem_cons_of_mem _ hq)) h

end KernelReach.Resolver
