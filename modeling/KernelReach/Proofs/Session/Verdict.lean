import KernelReach.Proofs.Session.Resolution
import KernelReach.Proofs.Session.Stable
import Mathlib.Data.List.Forall2

/-!
# Why a signature leads to no method

It is settled by the answers of a coherent provider not only which method a signature refers to, but
also what the complaint is if there is none (`Oracle.Declines`): the class that the signature names
cannot be had, the search through its superclasses stops (`Oracle.Stops`), the method has no body,
or its class cannot be had. So a lookup has one outcome, whatever was asked before
(`Oracle.Answers.unique`), and a session remembers nothing else (`Session.Informed`).

What an edge says about a call is settled in the same way (`Oracle.Verdict`), and so are the edges
of a method (`Oracle.rightUnique_block`).
-/

namespace KernelReach

namespace Oracle

variable {A : Oracle} {sig : Signature} {name superclass owner : ClassName} {seen : List ClassName}
  {e e' : AnalysisError}

/-! ### Searches that come to nothing -/

/-- A search that has got to the class `name` by way of those in `seen` comes to nothing, and `e` is
    the complaint. -/
inductive Stops (A : Oracle) (sig : Signature) : List ClassName → ClassName → AnalysisError → Prop
  | top {seen : List ClassName} {name : ClassName} {c : Class} :
      A.resolve name .signatures = .ok c → c.method? sig = none → c.superclass = none →
      Stops A sig seen name (.methodNotFound sig)
  | circle {seen : List ClassName} {name superclass : ClassName} :
      A.Passes sig name superclass → superclass ∈ seen → Stops A sig seen name (.methodNotFound sig)
  | unavailable {seen : List ClassName} {name superclass : ClassName} {e : ProviderError} :
      A.Passes sig name superclass → superclass ∉ seen →
      A.resolve superclass .signatures = .error e → e.isUnavailable = true →
      Stops A sig seen name (.superclassUnavailable sig superclass)
  | failed {seen : List ClassName} {name superclass : ClassName} {e : ProviderError} :
      A.Passes sig name superclass → superclass ∉ seen →
      A.resolve superclass .signatures = .error e → e.isUnavailable = false →
      Stops A sig seen name (.resolving superclass e.message)
  | above {seen : List ClassName} {name superclass : ClassName} {e : AnalysisError} :
      A.Passes sig name superclass → superclass ∉ seen →
      Stops A sig (superclass :: seen) superclass e → Stops A sig seen name e

theorem Passes.superclass_eq {c : Class} (h : A.Passes sig name superclass)
    (hc : A.resolve name .signatures = .ok c) : c.superclass = some superclass := by
  obtain ⟨d, hd, -, hs⟩ := h
  rw [hc, Except.ok.injEq] at hd
  rw [hd, hs]

/-- A class that passes the question on finds what its superclass finds. -/
theorem Passes.finds (h : A.Passes sig name superclass) (hf : A.Finds sig name owner) :
    A.Finds sig superclass owner := by
  cases hf with
  | declared hd => exact absurd hd h.not_declares
  | inherited hp hf => exact h.unique hp ▸ hf

theorem Stops.resolve_eq_ok (h : A.Stops sig seen name e) :
    ∃ c, A.resolve name .signatures = .ok c := by
  cases h with
  | top hc => exact ⟨_, hc⟩
  | circle hp | unavailable hp | failed hp | above hp => exact hp.imp fun _ => And.left

/-- There is one complaint at most. -/
theorem Stops.unique (h : A.Stops sig seen name e) (h' : A.Stops sig seen name e') : e = e' := by
  induction h with
  | top hc _ hs =>
    cases h' with
    | top | circle => rfl
    | unavailable hp | failed hp | above hp =>
      rw [hp.superclass_eq hc] at hs
      cases hs
  | circle hp hin =>
    cases h' with
    | top | circle => rfl
    | unavailable hp' hout | failed hp' hout | above hp' hout =>
      exact absurd (hp.unique hp' ▸ hin) hout
  | unavailable hp hout he hu =>
    cases h' with
    | top hc _ hs =>
      rw [hp.superclass_eq hc] at hs
      cases hs
    | circle hp' hin => exact absurd (hp'.unique hp ▸ hin) hout
    | unavailable hp' => rw [hp.unique hp']
    | failed hp' _ he' hu' =>
      rw [← hp.unique hp', he, Except.error.injEq] at he'
      rw [he', hu'] at hu
      cases hu
    | above hp' _ hstop =>
      obtain ⟨c, hc⟩ := hstop.resolve_eq_ok
      rw [← hp.unique hp', he] at hc
      cases hc
  | failed hp hout he hu =>
    cases h' with
    | top hc _ hs =>
      rw [hp.superclass_eq hc] at hs
      cases hs
    | circle hp' hin => exact absurd (hp'.unique hp ▸ hin) hout
    | unavailable hp' _ he' hu' =>
      rw [← hp.unique hp', he, Except.error.injEq] at he'
      rw [he', hu'] at hu
      cases hu
    | failed hp' _ he' =>
      obtain rfl := hp.unique hp'
      rw [he, Except.error.injEq] at he'
      rw [he']
    | above hp' _ hstop =>
      obtain ⟨c, hc⟩ := hstop.resolve_eq_ok
      rw [← hp.unique hp', he] at hc
      cases hc
  | above hp hout hstop ih =>
    obtain ⟨d, hd⟩ := hstop.resolve_eq_ok
    cases h' with
    | top hc _ hs =>
      rw [hp.superclass_eq hc] at hs
      cases hs
    | circle hp' hin => exact absurd (hp'.unique hp ▸ hin) hout
    | unavailable hp' _ he' | failed hp' _ he' =>
      rw [← hp.unique hp', hd] at he'
      cases he'
    | above hp' _ hstop' => exact ih (hp.unique hp' ▸ hstop')

/-- A search that stops would not have found anything. -/
theorem Stops.not_finds (h : A.Stops sig seen name e)
    (hseen : ∀ n ∈ seen, Relation.ReflTransGen (A.Passes sig) n name) :
    ¬A.Finds sig name owner := by
  induction h with
  | top hc hm hs =>
    intro hf
    cases hf with
    | declared hd =>
      obtain ⟨d, hd, hsome⟩ := hd
      rw [hc, Except.ok.injEq] at hd
      rw [← hd, hm] at hsome
      cases hsome
    | inherited hp =>
      rw [hp.superclass_eq hc] at hs
      cases hs
  | circle hp hin => exact fun hf => hf.acyclic (.head' hp (hseen _ hin))
  | unavailable hp _ he | failed hp _ he =>
    intro hf
    obtain ⟨c, hc⟩ := (hp.finds hf).exists_resolve
    rw [hc] at he
    cases he
  | above hp _ _ ih =>
    intro hf
    refine ih (fun n hn => ?_) (hp.finds hf)
    rcases List.mem_cons.1 hn with rfl | hn
    · exact .refl
    · exact (hseen n hn).tail hp

/-! ### Lookups that come to nothing -/

/-- The signature refers to no concrete method that can be had, and `e` is the complaint. -/
inductive Declines (A : Oracle) (sig : Signature) : AnalysisError → Prop
  | noClass {e : AnalysisError} : A.demand sig.owner .bodies = .error e → Declines A sig e
  | noMethod {c : Class} {e : AnalysisError} : A.resolve sig.owner .bodies = .ok c →
      A.Stops sig [sig.owner] sig.owner e → Declines A sig e
  | notConcrete {c d : Class} {owner : ClassName} {m : Method} :
      A.resolve sig.owner .bodies = .ok c → A.Finds sig sig.owner owner → A.Has owner d →
      d.method? sig = some m → m.isConcrete = false → Declines A sig (.noBody m.signature)
  | noOwner {c d : Class} {owner : ClassName} {m : Method} {e : AnalysisError} :
      A.resolve sig.owner .bodies = .ok c → A.Finds sig sig.owner owner → A.Has owner d →
      d.method? sig = some m → m.isConcrete = true → A.demand owner .bodies = .error e →
      Declines A sig e

/-- What comes of a lookup of the signature. -/
def Answers (A : Oracle) (sig : Signature) : Except AnalysisError Method → Prop
  | .ok m => A.Resolves sig m
  | .error e => A.Declines sig e

theorem Stops.not_finds_owner (h : A.Stops sig [sig.owner] sig.owner e) :
    ¬A.Finds sig sig.owner owner :=
  h.not_finds fun n hn => by rw [List.mem_singleton.1 hn]

theorem demand_bodies_ne_error {c : Class} (h : A.resolve name .bodies = .ok c) :
    A.demand name .bodies ≠ .error e := by
  rw [demand_eq_ok.2 h]
  simp

theorem Declines.unique (hA : A.Graded) (h : A.Declines sig e) (h' : A.Declines sig e') :
    e = e' := by
  -- Whatever is found is the same method but for its body, so that it is concrete or not.
  have hentry {d d' : Class} {o o' : ClassName} {m m' : Method} (hf : A.Finds sig sig.owner o)
      (hf' : A.Finds sig sig.owner o') (hd : A.Has o d) (hd' : A.Has o' d')
      (hm : d.method? sig = some m) (hm' : d'.method? sig = some m') : m'.entry = m.entry := by
    obtain rfl := hf.unique hf'
    obtain ⟨n, hn, he⟩ := hd.exists_method? hA hd' hm
    rw [hm', Option.some.injEq] at hn
    rw [hn, he]
  cases h with
  | noClass he =>
    cases h' with
    | noClass he' => exact Except.error.inj (he.symm.trans he')
    | noMethod hc | notConcrete hc | noOwner hc => exact absurd he (demand_bodies_ne_error hc)
  | noMethod hc hstop =>
    cases h' with
    | noClass he' => exact absurd he' (demand_bodies_ne_error hc)
    | noMethod _ hstop' => exact hstop.unique hstop'
    | notConcrete _ hf | noOwner _ hf => exact absurd hf hstop.not_finds_owner
  | notConcrete hc hf hd hm hn =>
    cases h' with
    | noClass he' => exact absurd he' (demand_bodies_ne_error hc)
    | noMethod _ hstop => exact absurd hf hstop.not_finds_owner
    | notConcrete _ hf' hd' hm' => rw [(Prod.mk.inj (hentry hf hf' hd hd' hm hm')).1]
    | noOwner _ hf' hd' hm' hn' =>
      rw [Method.isConcrete_congr (hentry hf hf' hd hd' hm hm'), hn] at hn'
      cases hn'
  | noOwner hc hf hd hm hn he =>
    cases h' with
    | noClass he' => exact absurd he' (demand_bodies_ne_error hc)
    | noMethod _ hstop => exact absurd hf hstop.not_finds_owner
    | notConcrete _ hf' hd' hm' hn' =>
      rw [Method.isConcrete_congr (hentry hf hf' hd hd' hm hm'), hn] at hn'
      cases hn'
    | noOwner _ hf' _ _ _ he' =>
      rw [hf.unique hf'] at he
      exact Except.error.inj (he.symm.trans he')

theorem Declines.not_resolves (hA : A.Graded) {m : Method} (h : A.Declines sig e) :
    ¬A.Resolves sig m := by
  intro hres
  obtain ⟨c, hc⟩ := hres.exists_class
  obtain ⟨owner, d, hf, hd, hm⟩ := hres.exists_owner
  cases h with
  | noClass he => exact demand_bodies_ne_error hc he
  | noMethod _ hstop => exact hstop.not_finds_owner hf
  | notConcrete _ hf' hd' hm' hn =>
    obtain rfl := hf.unique hf'
    obtain ⟨n, hn', he⟩ := hd'.exists_method? hA (has_of_bodies hd) hm'
    rw [hm, Option.some.injEq] at hn'
    rw [← Method.isConcrete_congr he, ← hn', hres.isConcrete] at hn
    cases hn
  | noOwner _ hf' _ _ _ he =>
    obtain rfl := hf.unique hf'
    exact demand_bodies_ne_error hd he

/-- A lookup has one outcome. -/
theorem Answers.unique (hA : A.Graded) {o o' : Except AnalysisError Method} (h : A.Answers sig o)
    (h' : A.Answers sig o') : o = o' := by
  cases o with
  | ok m =>
    cases o' with
    | ok n => rw [Resolves.unique h h']
    | error e' => exact absurd h (Declines.not_resolves hA h')
  | error e =>
    cases o' with
    | ok n => exact absurd h' (Declines.not_resolves hA h)
    | error e' => rw [Declines.unique hA h h']

theorem Answers.settles (hA : A.Graded) {o : Except AnalysisError Method} (h : A.Answers sig o) :
    A.Settles sig o := by
  cases o with
  | ok m => exact h
  | error e => exact fun m => Declines.not_resolves hA h

/-! ### Edges -/

/-- What the edge of a call of `target` says: the method to which the call leads, or why there is
    none. -/
inductive Verdict (A : Oracle) (target : Signature) : Signature → EdgeStatus → Prop
  | followed {m : Method} {b : Body} : A.LeadsTo target m b → Verdict A target m.signature .followed
  | declined {e : AnalysisError} : A.Declines target e →
      Verdict A target target (.unavailable e.message)
  | noBody {m : Method} {e : ProviderError} : A.Resolves target m → A.retrieveBody m = .error e →
      Verdict A target target (.unavailable (AnalysisError.provider e).message)

theorem Verdict.unique (hA : A.Graded) {target callee callee' : Signature}
    {status status' : EdgeStatus} (h : A.Verdict target callee status)
    (h' : A.Verdict target callee' status') : callee = callee' ∧ status = status' := by
  cases h with
  | followed hm =>
    cases h' with
    | followed hm' => exact ⟨by rw [(hm.unique hm').1], rfl⟩
    | declined hd => exact absurd hm.toResolves (hd.not_resolves hA)
    | noBody hm' he =>
      rw [← hm.toResolves.unique hm', hm.body] at he
      cases he
  | declined hd =>
    cases h' with
    | followed hm => exact absurd hm.toResolves (hd.not_resolves hA)
    | declined hd' => exact ⟨rfl, by rw [hd.unique hA hd']⟩
    | noBody hm => exact absurd hm (hd.not_resolves hA)
  | noBody hm he =>
    cases h' with
    | followed hm' =>
      rw [hm.unique hm'.toResolves, hm'.body] at he
      cases he
    | declined hd => exact absurd hm (hd.not_resolves hA)
    | noBody hm' he' =>
      rw [hm.unique hm', he', Except.error.injEq] at he
      exact ⟨rfl, by rw [he]⟩

/-- The edge is that of the call in the body of `caller`. -/
structure Draws (A : Oracle) (caller : Signature) (call : Nat × Invocation) (edge : CallEdge) :
    Prop where
  caller : edge.caller = caller
  offset : edge.offset = call.1
  kind : edge.kind = call.2.kind
  target : edge.target = call.2.target
  verdict : A.Verdict call.2.target edge.callee edge.status

theorem rightUnique_draws (hA : A.Graded) (caller : Signature) :
    Relator.RightUnique (A.Draws caller) := by
  intro call edge edge' h h'
  obtain ⟨hcallee, hstatus⟩ := h.verdict.unique hA h'.verdict
  cases edge
  cases edge'
  simp only [CallEdge.mk.injEq]
  exact ⟨h.caller.trans h'.caller.symm, h.target.trans h'.target.symm, hcallee,
    h.kind.trans h'.kind.symm, h.offset.trans h'.offset.symm, hstatus⟩

/-- The edges are those of a scan of the method with the signature `sig`. -/
def Block (A : Oracle) (sig : Signature) (edges : List CallEdge) : Prop :=
  ∃ m b, A.LeadsTo sig m b ∧ List.Forall₂ (A.Draws sig) b.calls edges

/-- The edges of a method are settled, too. -/
theorem rightUnique_block (hA : A.Graded) : Relator.RightUnique A.Block := by
  rintro sig edges edges' ⟨m, b, hm, h⟩ ⟨m', b', hm', h'⟩
  obtain ⟨-, rfl⟩ := hm.unique hm'
  exact List.right_unique_forall₂' (rightUnique_draws hA sig) h h'

/-- The edges of a list of methods depend on the methods alone. -/
theorem exists_blocks (hA : A.Graded) : ∃ f : Signature → List CallEdge,
    ∀ sigs blocks, List.Forall₂ A.Block sigs blocks → blocks.flatten = sigs.flatMap f := by
  classical
  have hone (sig : Signature) : ∃ edges, ∀ block, A.Block sig block → block = edges := by
    by_cases h : ∃ block, A.Block sig block
    · obtain ⟨edges, he⟩ := h
      exact ⟨edges, fun block hb => rightUnique_block hA hb he⟩
    · exact ⟨[], fun block hb => absurd ⟨block, hb⟩ h⟩
  choose f hf using hone
  refine ⟨f, fun sigs blocks h => ?_⟩
  induction h with
  | nil => rfl
  | cons hb _ ih => rw [List.flatten_cons, List.flatMap_cons, hf _ _ hb, ih]

end Oracle

/-! ### Searches of the resolver -/

namespace Resolver

variable {σ : Type} {P : Provider σ} {start : σ} {A : Oracle} {r r' : Resolver σ}
  {sig : Signature} {name : ClassName} {c : Class} {e : AnalysisError} {fuel : Nat}

/-- A search that fails has the complaint that the provider has settled. -/
theorem Sound.stops {seen : List ClassName} {o : Except AnalysisError Method}
    (hP : P.FollowsClasses start A) (hA : A.Graded) (h : r.Sound P start A) (hc : A.Has name c)
    (hsearch : Search P sig fuel seen c r o r') (ho : o = .error e) (he : e ≠ .exhausted) :
    A.Stops sig seen name e := by
  induction hsearch generalizing name with
  | exhausted => exact absurd (Except.error.inj ho).symm he
  | found => cases ho
  | top hm hs =>
    cases ho
    obtain ⟨d, hd, hsuper, hmethods⟩ := hc.signatures hA
    exact .top hd ((Class.method?_eq_none_iff hmethods sig).2 hm) (hsuper.trans hs)
  | circle hm hs hin =>
    cases ho
    exact .circle ((hc.passes_iff hA).2 ⟨hm, hs⟩) hin
  | unavailable hm hs hnew hr hu =>
    cases ho
    obtain ⟨e', he', rfl⟩ := Oracle.demand_eq_error.1
      ((h.resolveClass_error_iff hP hA Level.isValid_signatures _).1 (congrArg Prod.fst hr))
    rw [AnalysisError.isUnavailable_ofProvider] at hu
    exact .unavailable ((hc.passes_iff hA).2 ⟨hm, hs⟩) hnew he' hu
  | failed hm hs hnew hr hu =>
    cases ho
    obtain ⟨e', he', rfl⟩ := Oracle.demand_eq_error.1
      ((h.resolveClass_error_iff hP hA Level.isValid_signatures _).1 (congrArg Prod.fst hr))
    rw [AnalysisError.isUnavailable_ofProvider] at hu
    rw [AnalysisError.ofProvider, if_neg (by simp [hu])]
    exact .failed ((hc.passes_iff hA).2 ⟨hm, hs⟩) hnew he' hu
  | @up _ _ _ _ superclass _ _ _ _ hm hs hnew hr _ ih =>
    have hsound := h.resolveClass hP hA Level.isValid_signatures superclass
    rw [hr] at hsound
    have hd := h.resolveClass_ok hP hA Level.isValid_signatures superclass (congrArg Prod.fst hr)
    exact .above ((hc.passes_iff hA).2 ⟨hm, hs⟩) hnew (ih hsound hd ho)

section

variable (hP : P.FollowsClasses start A) (hA : A.Coherent) (h : r.Sound P start A)
include hP hA h

theorem Sound.demand_of_resolveBodies (hr : r.resolveBodies P name = (.error e, r')) :
    A.demand name .bodies = .error e :=
  (h.resolveClass_error_iff hP hA.toGraded Level.isValid_bodies name).1 (congrArg Prod.fst hr)

/-- A lookup comes to what the provider has settled. -/
theorem Located.answers {o : Except AnalysisError Method} (hl : Located P fuel sig r o r')
    (ho : o ≠ .error .exhausted) : A.Answers sig o := by
  cases o with
  | ok m => exact hl.resolves hP hA h
  | error e =>
    have he : e ≠ .exhausted := fun he => ho (he ▸ rfl)
    cases hl with
    | noClass h₁ => exact .noClass (h.demand_of_resolveBodies hP hA h₁)
    | noMethod h₁ h₂ =>
      obtain ⟨hc, hk, hs⟩ := h.of_resolveBodies hP hA.toGraded h₁
      rw [resolveMethod_eq hA.toGraded hc hk] at h₂
      exact .noMethod hc
        (hs.stops hP hA.toGraded (Oracle.has_of_bodies hc) (search_iff.2 h₂) rfl he)
    | notConcrete h₁ h₂ hn =>
      obtain ⟨hc, hk, hs⟩ := h.of_resolveBodies hP hA.toGraded h₁
      obtain ⟨hf, ⟨d, hd, hm⟩, -⟩ := hs.resolveMethod_ok hP hA hc hk h₂
      exact .notConcrete hc hf hd hm hn
    | noOwner h₁ h₂ hn _ h₃ =>
      obtain ⟨hc, hk, hs⟩ := h.of_resolveBodies hP hA.toGraded h₁
      obtain ⟨hf, ⟨d, hd, hm⟩, -⟩ := hs.resolveMethod_ok hP hA hc hk h₂
      have hs₂ := hs.of_resolveMethod hP hA.toGraded h₂
      exact .noOwner hc hf hd hm hn (hs₂.demand_of_resolveBodies hP hA h₃)
    | inherited h₁ h₂ _ _ h₃ h₄ =>
      -- The second search begins where the method is declared, and cannot fail.
      obtain ⟨hc, hk, hs⟩ := h.of_resolveBodies hP hA.toGraded h₁
      obtain ⟨-, ⟨d', hd', hn'⟩, -⟩ := hs.resolveMethod_ok hP hA hc hk h₂
      obtain ⟨hd, hkd, hs₃⟩ :=
        (hs.of_resolveMethod hP hA.toGraded h₂).of_resolveBodies hP hA.toGraded h₃
      have hself := hd'.finds_self hA.toGraded ((Class.method?_signature hn' d').trans hn')
      exact absurd hself (hs₃.resolveMethod_error hP hA hd hkd h₄ he _)

end

end Resolver

/-! ### What a session remembers -/

namespace Session

variable {σ : Type} {P : Provider σ} {start : σ} {A : Oracle} {s : Session σ}

/-- What the session keeps are answers of `A`, and what it remembers is what comes of lookups. -/
structure Informed (P : Provider σ) (start : σ) (A : Oracle) (s : Session σ) : Prop where
  resolver : s.resolver.Sound P start A
  resolved : ∀ (sig : Signature) (o : Except AnalysisError Method), s.resolved[sig]? = some o →
    A.Answers sig o
  expected : ∀ (sig : Signature) (e : AnalysisError), s.resolved[sig]? = some (.error e) →
    e.isUnavailable = true

theorem Informed.knows (hA : A.Graded) (h : Informed P start A s) : Knows P start A s :=
  ⟨h.resolver, fun sig o ho => (h.resolved sig o ho).settles hA⟩

theorem lasting_informed (hP : P.FollowsClasses start A) (hA : A.Coherent) :
    Lasting P Level.IsValid (Informed P start A) where
  signatures := Level.isValid_signatures
  bodies := Level.isValid_bodies
  congr h hcore := by
    simp only [core, Prod.mk.injEq] at hcore
    obtain ⟨-, -, -, -, hr, hm⟩ := hcore
    exact ⟨hr ▸ h.resolver, hm ▸ h.resolved, hm ▸ h.expected⟩
  note e h := ⟨h.resolver.note e, h.resolved, h.expected⟩
  resolveClass name _ hl h :=
    ⟨h.resolver.resolveClass hP hA.toGraded hl name, h.resolved, h.expected⟩
  body m h := ⟨h.resolver.body m, h.resolved, h.expected⟩
  remember {s fuel sig o r} h hl hu hr := by
    have ho : o ≠ .error .exhausted := fun ho => absurd (hu _ ho) (by decide)
    have hcases {sig' : Signature} {o' : Except AnalysisError Method}
        (ho' : ((s.setResolver r).remember sig o).resolved[sig']? = some o') :
        sig' = sig ∧ o' = o ∨ s.resolved[sig']? = some o' := by
      rw [Session.remember, Std.HashMap.getElem?_insert] at ho'
      split_ifs at ho' with heq
      · exact .inl ⟨(eq_of_beq heq).symm, (Option.some.inj ho').symm⟩
      · exact .inr ho'
    refine ⟨hr.resolver, fun sig' o' ho' => ?_, fun sig' e he => ?_⟩
    · rcases hcases ho' with ⟨rfl, rfl⟩ | ho'
      · exact hl.answers hP hA (h.resolver.note _) ho
      · exact h.resolved sig' o' ho'
    · rcases hcases he with ⟨-, he⟩ | he
      · exact hu e he.symm
      · exact h.expected sig' e he
  keeps h _ hr hm := ⟨hr ▸ h.resolver, hm ▸ h.resolved, hm ▸ h.expected⟩

theorem informed_new (P : Provider σ) (A : Oracle) (options : Options) (source : σ) :
    Informed P source A (new options source) :=
  ⟨Resolver.sound_new P source A, fun sig o h => by simp [new] at h,
    fun sig e h => by simp [new] at h⟩

/-- Every session knows and remembers what comes from the provider. -/
theorem Reached.informed {options : Options} {source : σ} (hP : P.FollowsClasses source A)
    (hA : A.Coherent) (hb : ∀ b ∈ options.builtins, b.level.IsValid)
    (h : Reached P options source s) : Informed P source A s :=
  (lasting_informed hP hA).reached hb (informed_new P A options source) h

/-- A lookup comes to what the provider has settled. -/
theorem fullyResolve_answers (hP : P.FollowsClasses start A) (hA : A.Coherent) (fuel : Nat)
    (sig : Signature) (h : Informed P start A s) :
    Ends (fullyResolve P fuel sig) s
      (fun o _ => A.Answers sig o ∧ ∀ e, o = .error e → e.isUnavailable = true)
      fun e _ => e.isUnavailable = false ∧ (e ≠ .exhausted → A.Declines sig e) := by
  have hn := h.resolver.note (.resolvingToBodies sig.owner)
  refine (fullyResolve_ends P fuel sig s).mono ?_ ?_
  · rintro o s' (⟨ho, rfl⟩ | ⟨-, hu, r, rfl, hr⟩)
    · exact ⟨h.resolved sig o ho, fun e he => h.expected sig e (he ▸ ho)⟩
    · exact ⟨hr.answers hP hA hn fun ho => absurd (hu _ ho) (by decide), hu⟩
  · rintro e s' ⟨-, hu, r, rfl, hr⟩
    exact ⟨hu, fun he => hr.answers hP hA hn fun ho => he (Except.error.inj ho)⟩

end Session

end KernelReach
