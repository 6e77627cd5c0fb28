import KernelReach.Reach.Error
import KernelReach.Reach.Event
import KernelReach.Reach.OrderedSet
import Std.Data.HashMap

/-!
# The resolver

The resolver stands between the analysis and its provider. It keeps every class at the highest
level that was ever asked for, so that levels only go up, and it remembers what turned out to be
unavailable, so that a missing class costs one question to the provider. It also finds the method
that a call refers to, in the class that the call names or in one of its superclasses.
-/

namespace KernelReach

/-- Counts of the work of a resolver. -/
structure ResolverStats where
  /-- Questions to the provider. -/
  lookups : Nat := 0
  /-- Requests that needed no question. -/
  cacheHits : Nat := 0
  /-- Questions about a class that was known at a lower level. -/
  upgrades : Nat := 0
  /-- Questions answered with an unavailable class. -/
  misses : Nat := 0
  deriving DecidableEq, Repr

/-- A class that was unavailable, and the level at which it was asked for. -/
structure Miss where
  level : Level
  error : ProviderError
  deriving DecidableEq, Repr

/-- A resolver over a provider with the state `σ`. -/
structure Resolver (σ : Type) where
  /-- The state of the provider. -/
  source : σ
  classes : Std.HashMap ClassName Class := ∅
  misses : Std.HashMap ClassName Miss := ∅
  /-- Every class that was ever asked for. -/
  requested : OrderedSet ClassName := ∅
  stats : ResolverStats := {}
  /-- What happened so far, the last first. -/
  events : List Event := []

namespace Resolver

variable {σ : Type}

def level (r : Resolver σ) (name : ClassName) : Level :=
  match r.classes[name]? with
  | some c => c.level
  | none => .none

/-- Why a class is unavailable, if it was found to be. -/
def unavailable? (r : Resolver σ) (name : ClassName) : Option ProviderError :=
  r.misses[name]?.map Miss.error

/-- The classes that are known, in the order in which they were first asked for. -/
def known (r : Resolver σ) : List Class :=
  r.requested.toList.filterMap fun name => r.classes[name]?

def note (r : Resolver σ) (e : Event) : Resolver σ := { r with events := e :: r.events }

/-- The answer that an earlier miss gives: it holds for every level from its own on. -/
def missed? (r : Resolver σ) (name : ClassName) (level : Level) :
    Option (Except AnalysisError Class) :=
  match r.misses[name]? with
  | some m => if m.level ≤ level then some (.error (.provider m.error)) else none
  | none => none

/-- The answer about a class that needs no question to the provider. A class that is known is
    good for every level up to its own. -/
def cached? (r : Resolver σ) (name : ClassName) (level : Level) :
    Option (Except AnalysisError Class) :=
  match r.classes[name]? with
  | some c => if level ≤ c.level then some (.ok c) else r.missed? name level
  | none => r.missed? name level

/-- Asks the provider for a class and keeps the answer. -/
def lookUp (P : Provider σ) (name : ClassName) (level : Level) (r : Resolver σ) :
    Except AnalysisError Class × Resolver σ :=
  let stats := { r.stats with
    lookups := r.stats.lookups + 1
    upgrades := r.stats.upgrades + if r.classes.contains name then 1 else 0 }
  let (answer, source) := P.resolve name level r.source
  let r := { r with source, stats, events := .resolving name level :: r.events }
  match answer with
  | .ok c =>
    if c.level < level then (.error (.belowLevel name c.level level), r)
    else (.ok c, { r with classes := r.classes.insert name c })
  | .error e =>
    if e.isUnavailable then
      (.error (.provider e), { r with
        stats := { stats with misses := stats.misses + 1 }
        misses := r.misses.insert name ⟨level, e⟩ })
    else (.error (.resolving name e.message), r)

/-- The class `name`, resolved to `level` or higher. -/
def resolveClass (P : Provider σ) (name : ClassName) (level : Level) (r : Resolver σ) :
    Except AnalysisError Class × Resolver σ :=
  let r := { r with requested := r.requested.insert name }
  match r.cached? name level with
  | some answer => (answer, { r with stats.cacheHits := r.stats.cacheHits + 1 })
  | none => r.lookUp P name level

/-- The class `name` with the bodies of its methods. -/
def resolveBodies (P : Provider σ) (name : ClassName) (r : Resolver σ) :
    Except AnalysisError Class × Resolver σ :=
  r.resolveClass P name .bodies

/-- Looks for the method `sig` in the class `c` and then in its superclasses, each of which is
    raised to signatures. `seen` holds the classes that were searched; the search ends where the
    chain of superclasses ends or comes back to one of them. -/
def searchMethod (P : Provider σ) (sig : Signature) :
    (fuel : Nat) → (seen : List ClassName) → Class → Resolver σ →
      Except AnalysisError Method × Resolver σ
  | 0, _, _, r => (.error .exhausted, r)
  | fuel + 1, seen, c, r =>
    match c.method? sig with
    | some m => (.ok m, r)
    | none =>
      match c.superclass with
      | none => (.error (.methodNotFound sig), r)
      | some superclass =>
        if seen.contains superclass then (.error (.methodNotFound sig), r)
        else
          match r.resolveClass P superclass .signatures with
          | (.ok c, r) => searchMethod P sig fuel (superclass :: seen) c r
          | (.error e, r) =>
            if e.isUnavailable then (.error (.superclassUnavailable sig superclass), r)
            else (.error e, r)

/-- The method that `sig` refers to: declared by its class or inherited. The class has to be at
    signatures already, and no bodies are loaded. -/
def resolveMethod (P : Provider σ) (fuel : Nat) (sig : Signature) (r : Resolver σ) :
    Except AnalysisError Method × Resolver σ :=
  match r.classes[sig.owner]? with
  | some c =>
    if .signatures ≤ c.level then searchMethod P sig fuel [c.name] c r
    else (.error (.levelTooLow sig), r)
  | none => (.error (.levelTooLow sig), r)

def body (P : Provider σ) (m : Method) (r : Resolver σ) :
    Except AnalysisError Body × Resolver σ :=
  let (answer, source) := P.retrieveBody m r.source
  (answer.mapError .provider, { r with source })

end Resolver

end KernelReach
