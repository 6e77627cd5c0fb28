import KernelReach.Proofs.Resolver.Answer
import KernelReach.Proofs.Session.Step
import KernelReach.Reach.Traversal

/-!
# Looking up methods

What a session does in order to find the method behind a signature concerns only its resolver and
its memory of earlier lookups. It comes down to one search of the resolver
(`Resolver.Located`), which is made at most once for a signature.

* `Resolver.Advances`: the provider is called, and nothing is scanned;
* `AnalysisError.IsExpected`: how a search can fail. It never fails because the class in which it
  looks is not known well enough, for that class was raised before;
* `fullyResolve_ends`: the rule for a lookup.
-/

namespace KernelReach

/-- The method whose scan begins, if that is what happens. -/
def Event.scanned? : Event → Option Signature
  | scanning sig => some sig
  | _ => none

namespace AnalysisError

/-- The provider failed, or answered with less than was asked for. -/
def IsFault : AnalysisError → Prop
  | provider (.fatal _) | resolving .. | belowLevel .. => True
  | _ => False

/-- Something is unavailable, the provider is at fault, or the bound on the search was reached. -/
def IsExpected (e : AnalysisError) : Prop :=
  e.isUnavailable = true ∨ e.IsFault ∨ e = .exhausted

theorem isExpected_provider (e : ProviderError) : (provider e).IsExpected := by
  cases e with
  | unavailable => exact .inl rfl
  | fatal => exact .inr (.inl trivial)

end AnalysisError

namespace Resolver

variable {σ : Type} {P : Provider σ} {name : ClassName} {level : Level} {r r' : Resolver σ}

/-! ### What a search leaves alone -/

/-- The provider was called, and no scan was begun. -/
structure Advances (P : Provider σ) (r r' : Resolver σ) : Prop where
  source : P.Leads (fun _ => True) r.source r'.source
  scans : r'.events.filterMap Event.scanned? = r.events.filterMap Event.scanned?

theorem Advances.refl (P : Provider σ) (r : Resolver σ) : r.Advances P r := ⟨.start, rfl⟩

theorem Advances.trans {r₁ r₂ r₃ : Resolver σ} (h : r₁.Advances P r₂) (h' : r₂.Advances P r₃) :
    r₁.Advances P r₃ :=
  ⟨h.source.trans h'.source, h'.scans.trans h.scans⟩

theorem advances_note {e : Event} (he : e.scanned? = none) : r.Advances P (r.note e) :=
  ⟨.start, by simp [note, he]⟩

theorem Answer.advances {a : Except AnalysisError Class} (h : Answer P name level r a r') :
    r.Advances P r' := by
  have hleads {b : Except ProviderError Class} {s : σ}
      (hp : P.resolve name level r.source = (b, s)) : P.Leads (fun _ => True) r.source s := by
    have := (Provider.Leads.start : P.Leads (fun _ => True) r.source _).resolve name level trivial
    rwa [hp] at this
  cases h with
  | known | missed => exact ⟨.start, rfl⟩
  | found _ hp | low _ hp | unavailable _ hp | fatal _ hp => exact ⟨hleads hp, rfl⟩

theorem advances_resolveClass (P : Provider σ) (name : ClassName) (level : Level)
    (r : Resolver σ) : r.Advances P (r.resolveClass P name level).2 :=
  (answer_resolveClass P name level r).advances

theorem advances_resolveMethod (P : Provider σ) (fuel : Nat) (sig : Signature)
    (r : Resolver σ) : r.Advances P (r.resolveMethod P fuel sig).2 := by
  rw [show (r.resolveMethod P fuel sig).2 = _ from (Request.resolveMethod fuel sig).perform_eq P r]
  exact askAll_keeps (fun ask _ _ h => h.trans (advances_resolveClass P ask.1 ask.2 _))
    (Advances.refl P r)

theorem advances_body (P : Provider σ) (m : Method) (r : Resolver σ) :
    r.Advances P (r.body P m).2 :=
  ⟨Provider.Leads.start.retrieveBody m, rfl⟩

/-! ### How a search can fail -/

theorem Answer.isExpected {e : AnalysisError} (h : Answer P name level r (.error e) r') :
    e.IsExpected := by
  cases h with
  | missed | unavailable => exact AnalysisError.isExpected_provider _
  | low | fatal => exact .inr (.inl trivial)

theorem isExpected_of_resolveClass {e : AnalysisError}
    (h : r.resolveClass P name level = (.error e, r')) : e.IsExpected := by
  have ha := answer_resolveClass P name level r
  rw [h] at ha
  exact ha.isExpected

theorem Search.isExpected {sig : Signature} {fuel : Nat} {seen : List ClassName} {c : Class}
    {o : Except AnalysisError Method} (h : Search P sig fuel seen c r o r') :
    ∀ e, o = .error e → e.IsExpected := by
  induction h with
  | exhausted => exact fun e he => Except.error.inj he ▸ .inr (.inr rfl)
  | found => exact fun e he => by cases he
  | top | circle | unavailable => exact fun e he => Except.error.inj he ▸ .inl rfl
  | failed _ _ _ hr => exact fun e he => Except.error.inj he ▸ isExpected_of_resolveClass hr
  | up _ _ _ _ _ ih => exact ih

theorem isExpected_of_resolveMethod {sig : Signature} {fuel : Nat} {c : Class}
    {e : AnalysisError} (hc : r.classes[sig.owner]? = some c) (hl : .signatures ≤ c.level)
    (h : r.resolveMethod P fuel sig = (.error e, r')) : e.IsExpected := by
  simp only [resolveMethod, hc, hl, if_true] at h
  exact (search_iff.2 h).isExpected e rfl

/-! ### One search -/

/-- The ways in which the search for the concrete method behind `sig` can go, with the resolver
    after it. -/
inductive Located (P : Provider σ) (fuel : Nat) (sig : Signature) (r : Resolver σ) :
    Except AnalysisError Method → Resolver σ → Prop
  | noClass {e : AnalysisError} {r₁ : Resolver σ} :
      r.resolveBodies P sig.owner = (.error e, r₁) → Located P fuel sig r (.error e) r₁
  | noMethod {c : Class} {e : AnalysisError} {r₁ r₂ : Resolver σ} :
      r.resolveBodies P sig.owner = (.ok c, r₁) →
      r₁.resolveMethod P fuel sig = (.error e, r₂) → Located P fuel sig r (.error e) r₂
  | notConcrete {c : Class} {m : Method} {r₁ r₂ : Resolver σ} :
      r.resolveBodies P sig.owner = (.ok c, r₁) →
      r₁.resolveMethod P fuel sig = (.ok m, r₂) → m.isConcrete = false →
      Located P fuel sig r (.error (.noBody m.signature)) r₂
  | declared {c : Class} {m : Method} {r₁ r₂ : Resolver σ} :
      r.resolveBodies P sig.owner = (.ok c, r₁) →
      r₁.resolveMethod P fuel sig = (.ok m, r₂) → m.isConcrete = true →
      m.signature.owner = sig.owner → Located P fuel sig r (.ok m) r₂
  | noOwner {c : Class} {m : Method} {e : AnalysisError} {r₁ r₂ r₃ : Resolver σ} :
      r.resolveBodies P sig.owner = (.ok c, r₁) →
      r₁.resolveMethod P fuel sig = (.ok m, r₂) → m.isConcrete = true →
      m.signature.owner ≠ sig.owner →
      r₂.resolveBodies P m.signature.owner = (.error e, r₃) → Located P fuel sig r (.error e) r₃
  /-- The class that declares the method is raised, and searched in its turn. -/
  | inherited {c d : Class} {m : Method} {o : Except AnalysisError Method}
      {r₁ r₂ r₃ r₄ : Resolver σ} :
      r.resolveBodies P sig.owner = (.ok c, r₁) →
      r₁.resolveMethod P fuel sig = (.ok m, r₂) → m.isConcrete = true →
      m.signature.owner ≠ sig.owner →
      r₂.resolveBodies P m.signature.owner = (.ok d, r₃) →
      r₃.resolveMethod P fuel m.signature = (o, r₄) → Located P fuel sig r o r₄

theorem advances_of_resolveBodies {a : Except AnalysisError Class}
    (h : r.resolveBodies P name = (a, r')) : r.Advances P r' := by
  have := advances_resolveClass P name .bodies r
  rwa [show r.resolveClass P name .bodies = _ from h] at this

theorem advances_of_resolveMethod {sig : Signature} {fuel : Nat} {a : Except AnalysisError Method}
    (h : r.resolveMethod P fuel sig = (a, r')) : r.Advances P r' := by
  have := advances_resolveMethod P fuel sig r
  rwa [h] at this

theorem Located.advances {sig : Signature} {fuel : Nat} {o : Except AnalysisError Method}
    (h : Located P fuel sig r o r') : r.Advances P r' := by
  cases h with
  | noClass h₁ => exact advances_of_resolveBodies h₁
  | noMethod h₁ h₂ | notConcrete h₁ h₂ | declared h₁ h₂ =>
    exact (advances_of_resolveBodies h₁).trans (advances_of_resolveMethod h₂)
  | noOwner h₁ h₂ _ _ h₃ =>
    exact ((advances_of_resolveBodies h₁).trans (advances_of_resolveMethod h₂)).trans
      (advances_of_resolveBodies h₃)
  | inherited h₁ h₂ _ _ h₃ h₄ =>
    exact ((advances_of_resolveBodies h₁).trans (advances_of_resolveMethod h₂)).trans
      ((advances_of_resolveBodies h₃).trans (advances_of_resolveMethod h₄))

/-- A class that was raised is known well enough to be searched. -/
theorem isExpected_of_resolveBodies {sig : Signature} {fuel : Nat} {c : Class} {r'' : Resolver σ}
    {e : AnalysisError} (h : r.resolveBodies P sig.owner = (.ok c, r'))
    (h' : r'.resolveMethod P fuel sig = (.error e, r'')) : e.IsExpected := by
  have ha := answer_resolveClass P sig.owner .bodies r
  rw [show r.resolveClass P sig.owner .bodies = _ from h] at ha
  obtain ⟨hc, hl⟩ := ha.getElem?_of_ok
  exact isExpected_of_resolveMethod hc (le_trans (by decide) hl) h'

theorem Located.isExpected {sig : Signature} {fuel : Nat} {e : AnalysisError}
    (h : Located P fuel sig r (.error e) r') : e.IsExpected := by
  cases h with
  | noClass h₁ => exact isExpected_of_resolveClass h₁
  | noMethod h₁ h₂ => exact isExpected_of_resolveBodies h₁ h₂
  | notConcrete => exact .inl rfl
  | noOwner _ _ _ _ h₃ => exact isExpected_of_resolveClass h₃
  | inherited _ _ _ _ h₃ h₄ => exact isExpected_of_resolveBodies h₃ h₄

end Resolver

namespace Session

variable {σ : Type} {P : Provider σ} {s : Session σ}

@[simp]
theorem ends_liftExcept_ok {α : Type} {a : α} {Q : α → Session σ → Prop}
    {E : AnalysisError → Session σ → Prop} :
    Ends (resolveToBody.liftExcept (.ok a)) s Q E ↔ Q a s := Iff.rfl

/-- Finding a method is a matter of the resolver. -/
theorem resolveToBody_ends (P : Provider σ) (fuel : Nat) (sig : Signature) (s : Session σ) :
    Ends (resolveToBody P fuel sig) s
      (fun m s' => ∃ r, s' = s.setResolver r ∧
        (s.resolver.note (.resolvingToBodies sig.owner)).Located P fuel sig (.ok m) r)
      fun e s' => ∃ r, s' = s.setResolver r ∧
        (s.resolver.note (.resolvingToBodies sig.owner)).Located P fuel sig (.error e) r := by
  simp only [resolveToBody, ends_bind, ends_modify, ends_ask, ends_discard, note_eq,
    setResolver_resolver, setResolver_setResolver]
  rcases h₁ : (s.resolver.note (.resolvingToBodies sig.owner)).resolveBodies P sig.owner with
    ⟨e | c, r₁⟩
  · exact ⟨r₁, rfl, .noClass h₁⟩
  simp only [ends_liftExcept_ok, setResolver_resolver, setResolver_setResolver]
  rcases h₂ : r₁.resolveMethod P fuel sig with ⟨e | m, r₂⟩
  · exact ⟨r₂, rfl, .noMethod h₁ h₂⟩
  simp only [ends_liftExcept_ok, Bool.not_eq_true', ends_ite]
  refine ⟨fun hm => ⟨r₂, rfl, .notConcrete h₁ h₂ hm⟩, fun hm => ⟨fun ho => ?_, fun ho => ?_⟩⟩
  · exact ⟨r₂, rfl, .declared h₁ h₂ (by simpa using hm) ho⟩
  simp only [ends_bind, ends_ask, ends_discard, setResolver_resolver, setResolver_setResolver]
  rcases h₃ : r₂.resolveBodies P m.signature.owner with ⟨e | d, r₃⟩
  · exact ⟨r₃, rfl, .noOwner h₁ h₂ (by simpa using hm) ho h₃⟩
  simp only [ends_liftExcept_ok, setResolver_resolver, setResolver_setResolver]
  rcases h₄ : r₃.resolveMethod P fuel m.signature with ⟨e | m', r₄⟩ <;>
    exact ⟨r₄, rfl, .inherited h₁ h₂ (by simpa using hm) ho h₃ h₄⟩

@[simp]
theorem ends_attempt {α : Type} {x : SessionM σ α}
    {Q : Except AnalysisError α → Session σ → Prop} {E : AnalysisError → Session σ → Prop} :
    Ends (fullyResolve.attempt x) s Q E ↔
      Ends x s (fun a s' => Q (.ok a) s') fun e s' => Q (.error e) s' := by
  unfold Ends fullyResolve.attempt
  rcases x s with ⟨e | a, s'⟩ <;> exact Iff.rfl

/-- The session that remembers `o` as what `sig` leads to. -/
def remember (s : Session σ) (sig : Signature) (o : Except AnalysisError Method) : Session σ :=
  { s with resolved := s.resolved.insert sig o }

/-- A signature that was looked up before is not looked up again. Any other is searched for, and
    what comes of it is remembered unless it is a failure. -/
theorem fullyResolve_ends (P : Provider σ) (fuel : Nat) (sig : Signature) (s : Session σ) :
    Ends (fullyResolve P fuel sig) s
      (fun o s' => s.resolved[sig]? = some o ∧ s' = s ∨
        s.resolved[sig]? = none ∧ (∀ e, o = .error e → e.isUnavailable = true) ∧
        ∃ r, s' = (s.setResolver r).remember sig o ∧
          (s.resolver.note (.resolvingToBodies sig.owner)).Located P fuel sig o r)
      fun e s' => s.resolved[sig]? = none ∧ e.isUnavailable = false ∧
        ∃ r, s' = s.setResolver r ∧
          (s.resolver.note (.resolvingToBodies sig.owner)).Located P fuel sig (.error e) r := by
  simp only [fullyResolve, ends_bind, ends_get]
  rcases hm : s.resolved[sig]? with _ | o
  · simp only [ends_bind, ends_attempt]
    refine (resolveToBody_ends P fuel sig s).mono ?_ ?_
    · rintro m s' ⟨r, rfl, hr⟩
      exact .inr ⟨trivial, fun e he => (by cases he), r, rfl, hr⟩
    · rintro e s' ⟨r, rfl, hr⟩
      simp only [Bool.not_eq_true', ends_ite]
      refine ⟨fun hu => ⟨trivial, hu, r, rfl, hr⟩,
        fun hu => .inr ⟨trivial, fun e' he => ?_, r, rfl, hr⟩⟩
      cases he
      simpa using hu
  · exact .inl ⟨rfl, rfl⟩

end Session

end KernelReach
