import KernelReach.Proofs.Resolver.Search
import KernelReach.Proofs.Session.Lookup

/-!
# What a signature leads to

Over a coherent provider it is settled from the start which signatures lead to code
(`Oracle.LeadsTo`): the class that the signature names and the class that declares the method can be
had with their bodies, the method is concrete and its body can be had. A session finds out no more
and no less. Its memory of earlier lookups holds such facts only (`Session.Knows`), and a lookup
gives the answer that the provider has settled (`Session.fullyResolve_knows`), whatever was asked
before.
-/

namespace KernelReach

namespace Oracle

variable {A : Oracle} {sig : Signature} {m n : Method} {b b' : Body}

/-- The signature refers to the concrete method `m`, which its class declares or inherits. -/
structure Resolves (A : Oracle) (sig : Signature) (m : Method) : Prop where
  exists_class : ∃ c, A.resolve sig.owner .bodies = .ok c
  exists_owner : ∃ owner c, A.Finds sig sig.owner owner ∧ A.resolve owner .bodies = .ok c ∧
    c.method? sig = some m
  isConcrete : m.isConcrete = true

/-- The signature refers to the concrete method `m`, and `b` is the body of that. -/
structure LeadsTo (A : Oracle) (sig : Signature) (m : Method) (b : Body) : Prop extends
    A.Resolves sig m where
  body : A.retrieveBody m = .ok b

/-- It is true of the signature what came of its lookup. -/
def Settles (A : Oracle) (sig : Signature) : Except AnalysisError Method → Prop
  | .ok m => A.Resolves sig m
  | .error _ => ∀ m, ¬A.Resolves sig m

theorem Resolves.unique (h : A.Resolves sig m) (h' : A.Resolves sig n) : m = n := by
  obtain ⟨owner, c, hf, hc, hm⟩ := h.exists_owner
  obtain ⟨owner', c', hf', hc', hn⟩ := h'.exists_owner
  obtain rfl := hf.unique hf'
  rw [hc, Except.ok.injEq] at hc'
  rw [hc', hn, Option.some.injEq] at hm
  exact hm.symm

/-- A method that a signature refers to is the one that its own signature refers to. -/
theorem Resolves.self (hA : A.Coherent) (h : A.Resolves sig m) : A.Resolves m.signature m := by
  obtain ⟨owner, c, hf, hc, hm⟩ := h.exists_owner
  have ho := hA.owner_eq Level.isValid_bodies hc (Class.method?_eq_some hm).1
  have hm' : c.method? m.signature = some m := (Class.method?_signature hm c).trans hm
  refine ⟨⟨c, ho ▸ hc⟩, ⟨owner, c, ?_, hc, hm'⟩, h.isConcrete⟩
  rw [ho]
  exact (has_of_bodies hc).finds_self hA.toGraded hm'

theorem LeadsTo.unique (h : A.LeadsTo sig m b) (h' : A.LeadsTo sig n b') : m = n ∧ b = b' := by
  obtain rfl := h.toResolves.unique h'.toResolves
  exact ⟨rfl, Except.ok.inj (h.body.symm.trans h'.body)⟩

theorem LeadsTo.self (hA : A.Coherent) (h : A.LeadsTo sig m b) : A.LeadsTo m.signature m b :=
  ⟨h.toResolves.self hA, h.body⟩

end Oracle

/-! ### Searches of the resolver -/

namespace Resolver

variable {σ : Type} {P : Provider σ} {start : σ} {A : Oracle} {r r' : Resolver σ}
  {sig : Signature} {m : Method} {o : Except AnalysisError Method} {e : AnalysisError} {fuel : Nat}

theorem Sound.note (h : r.Sound P start A) (e : Event) : (r.note e).Sound P start A :=
  ⟨h.source, h.classes, h.misses⟩

theorem Sound.body (h : r.Sound P start A) (m : Method) : (r.body P m).2.Sound P start A :=
  ⟨h.source.retrieveBody m, h.classes, h.misses⟩

theorem Sound.body_fst (h : r.Sound P start A) (hP : P.FollowsBodies start A) (m : Method) :
    (r.body P m).1 = (A.retrieveBody m).mapError .provider := by
  rw [← hP r.source h.source m]
  rfl

theorem Located.sound (hl : Located P fuel sig r o r') (hP : P.FollowsClasses start A)
    (hA : A.Graded) (h : r.Sound P start A) : r'.Sound P start A := by
  cases hl with
  | noClass h₁ => exact (h.of_resolveBodies_error hP hA h₁).2
  | noMethod h₁ h₂ | notConcrete h₁ h₂ | declared h₁ h₂ =>
    exact (h.of_resolveBodies hP hA h₁).2.2.of_resolveMethod hP hA h₂
  | noOwner h₁ h₂ _ _ h₃ =>
    have hs := (h.of_resolveBodies hP hA h₁).2.2.of_resolveMethod hP hA h₂
    exact (hs.of_resolveBodies_error hP hA h₃).2
  | inherited h₁ h₂ _ _ h₃ h₄ =>
    have hs := (h.of_resolveBodies hP hA h₁).2.2.of_resolveMethod hP hA h₂
    exact (hs.of_resolveBodies hP hA h₃).2.2.of_resolveMethod hP hA h₄

section

variable (hP : P.FollowsClasses start A) (hA : A.Coherent) (h : r.Sound P start A)
include hP hA h

/-- A method that is found is the one that the signature refers to. -/
theorem Located.resolves (hl : Located P fuel sig r (.ok m) r') : A.Resolves sig m := by
  cases hl with
  | @declared c _ r₁ _ h₁ h₂ hm ho =>
    obtain ⟨hc, hk, hs⟩ := h.of_resolveBodies hP hA.toGraded h₁
    obtain ⟨hf, -, hd⟩ := hs.resolveMethod_ok hP hA hc hk h₂
    exact ⟨⟨c, hc⟩, ⟨_, c, hf, ho ▸ hc, hd ho⟩, hm⟩
  | @inherited c d n _ r₁ r₂ r₃ r₄ h₁ h₂ hn ho h₃ h₄ =>
    obtain ⟨hc, hk, hs⟩ := h.of_resolveBodies hP hA.toGraded h₁
    obtain ⟨hf, ⟨d', hd', hn'⟩, -⟩ := hs.resolveMethod_ok hP hA hc hk h₂
    obtain ⟨hd, hkd, hs₃⟩ :=
      (hs.of_resolveMethod hP hA.toGraded h₂).of_resolveBodies hP hA.toGraded h₃
    -- The class that declares the method ends the second search.
    have hsig := Class.method?_signature hn' d
    obtain ⟨n', hn', he⟩ := hd'.exists_method? hA.toGraded (A.has_of_bodies hd) hn'
    have hself := (A.has_of_bodies hd).finds_self hA.toGraded (hsig.trans hn')
    obtain ⟨hf', -, hm⟩ := hs₃.resolveMethod_ok hP hA hd hkd h₄
    have hm := hm (hf'.unique hself)
    rw [hsig, hn', Option.some.injEq] at hm
    refine ⟨⟨c, hc⟩, ⟨_, d, hf, hd, hm ▸ hn'⟩, ?_⟩
    rw [← hm, Method.isConcrete_congr he, hn]

/-- If no method is found, the signature refers to none. -/
theorem Located.not_resolves (hl : Located P fuel sig r (.error e) r') (he : e ≠ .exhausted) :
    ¬A.Resolves sig m := by
  intro hres
  obtain ⟨owner, d, hf, hd, hm⟩ := hres.exists_owner
  cases hl with
  | noClass h₁ =>
    obtain ⟨c, hc⟩ := hres.exists_class
    exact (h.of_resolveBodies_error hP hA.toGraded h₁).1 c hc
  | noMethod h₁ h₂ =>
    obtain ⟨hc, hk, hs⟩ := h.of_resolveBodies hP hA.toGraded h₁
    exact hs.resolveMethod_error hP hA hc hk h₂ he owner hf
  | notConcrete h₁ h₂ hn =>
    obtain ⟨hc, hk, hs⟩ := h.of_resolveBodies hP hA.toGraded h₁
    obtain ⟨hf', ⟨d', hd', hn'⟩, -⟩ := hs.resolveMethod_ok hP hA hc hk h₂
    obtain rfl := hf.unique hf'
    -- The search may have seen the method without its body, but not with other flags.
    obtain ⟨m', hm', he⟩ := hd'.exists_method? hA.toGraded (A.has_of_bodies hd) hn'
    rw [hm, Option.some.injEq] at hm'
    rw [← Method.isConcrete_congr he, ← hm', hres.isConcrete] at hn
    cases hn
  | noOwner h₁ h₂ _ _ h₃ =>
    obtain ⟨hc, hk, hs⟩ := h.of_resolveBodies hP hA.toGraded h₁
    obtain ⟨hf', -, -⟩ := hs.resolveMethod_ok hP hA hc hk h₂
    have hs₂ := hs.of_resolveMethod hP hA.toGraded h₂
    exact (hs₂.of_resolveBodies_error hP hA.toGraded h₃).1 d (hf.unique hf' ▸ hd)
  | inherited h₁ h₂ _ _ h₃ h₄ =>
    obtain ⟨hc, hk, hs⟩ := h.of_resolveBodies hP hA.toGraded h₁
    obtain ⟨-, ⟨d', hd', hn'⟩, -⟩ := hs.resolveMethod_ok hP hA hc hk h₂
    obtain ⟨hd, hkd, hs₃⟩ :=
      (hs.of_resolveMethod hP hA.toGraded h₂).of_resolveBodies hP hA.toGraded h₃
    -- A second search, in the class that declares the method, cannot fail.
    have hself := hd'.finds_self hA.toGraded ((Class.method?_signature hn' d').trans hn')
    exact hs₃.resolveMethod_error hP hA hd hkd h₄ he _ hself

theorem Located.settles (hl : Located P fuel sig r o r') (ho : o ≠ .error .exhausted) :
    A.Settles sig o := by
  cases o with
  | ok m => exact hl.resolves hP hA h
  | error e => exact fun m => hl.not_resolves hP hA h fun he => ho (he ▸ rfl)

end

end Resolver

/-! ### Lookups of a session -/

namespace Session

variable {σ : Type} {P : Provider σ} {start : σ} {A : Oracle} {s : Session σ}

/-- What the session keeps and remembers are answers of `A`. -/
structure Knows (P : Provider σ) (start : σ) (A : Oracle) (s : Session σ) : Prop where
  resolver : s.resolver.Sound P start A
  resolved : ∀ (sig : Signature) (o : Except AnalysisError Method), s.resolved[sig]? = some o →
    A.Settles sig o

theorem Knows.setResolver {r : Resolver σ} (h : Knows P start A s) (hr : r.Sound P start A) :
    Knows P start A (s.setResolver r) :=
  ⟨hr, h.resolved⟩

theorem Knows.remember {sig : Signature} {o : Except AnalysisError Method} (h : Knows P start A s)
    (ho : A.Settles sig o) : Knows P start A (s.remember sig o) := by
  refine ⟨h.resolver, fun sig' o' ho' => ?_⟩
  rw [Session.remember, Std.HashMap.getElem?_insert] at ho'
  split_ifs at ho' with hs
  · cases ho'
    rwa [← eq_of_beq hs]
  · exact h.resolved sig' o' ho'

theorem Knows.note (h : Knows P start A s) (e : Event) : Knows P start A (s.note e) :=
  h.setResolver (h.resolver.note e)

theorem Knows.diagnose (h : Knows P start A s) (kind : DiagnosticKind) (subject message : String) :
    Knows P start A (s.diagnose kind subject message) :=
  ⟨h.resolver.note _, h.resolved⟩

/-- The queue and the two sets of the traversal are as before. -/
structure Idle (s s' : Session σ) : Prop where
  work : s'.work = s.work
  visited : s'.visited = s.visited
  scanned : s'.scanned = s.scanned

/-- A lookup gives the method that the signature refers to, or says truly that there is none. -/
theorem fullyResolve_knows (hP : P.FollowsClasses start A) (hA : A.Coherent) (fuel : Nat)
    (sig : Signature) (h : Knows P start A s) :
    Ends (fullyResolve P fuel sig) s
      (fun o s' => A.Settles sig o ∧ Knows P start A s' ∧ Idle s s') fun _ _ => True := by
  refine (fullyResolve_ends P fuel sig s).mono ?_ fun _ _ _ => trivial
  rintro o s' (⟨ho, rfl⟩ | ⟨-, hu, r, rfl, hr⟩)
  · exact ⟨h.resolved sig o ho, h, rfl, rfl, rfl⟩
  · -- What is remembered is not the complaint that the search was cut off, for that is a failure.
    have hn := h.resolver.note (.resolvingToBodies sig.owner)
    have ho : A.Settles sig o := hr.settles hP hA hn fun ho => absurd (hu _ ho) (by decide)
    exact ⟨ho, (h.setResolver (hr.sound hP hA.toGraded hn)).remember ho, rfl, rfl, rfl⟩

end Session

end KernelReach
