import KernelReach.Proofs.Session.Complaint
import KernelReach.Proofs.Session.Ledger

/-!
# What an analysis does not ask for

An analysis reads no more of a program than it needs. There is a reason for every call of the
provider (`Oracle.Justifies`): the class belongs to the application or the runtime, it is a platform
class, or a signature is looked up that the methods which were scanned so far make the session want.
The reasons are never taken back, for what was scanned stays scanned, so that a session which has
called the provider for a reason only (`Session.Frugal`) goes on to do so whether a step succeeds
or fails.

It follows what a class that is known with its bodies is known for (`Oracle.Warrants`), and where
the classes that were asked for come from (`findKernels_lazy`).
-/

namespace KernelReach

namespace Oracle

variable {A : Oracle} {roots : ClassName → Prop} {builtins : List Builtin} {R R' : Set Signature}
  {sig t : Signature} {name origin : ClassName} {level : Level} {m : Method}

/-! ### Reasons -/

/-- An invocation in the body of a method in `R` names the signature. -/
def Targets (A : Oracle) (R : Set Signature) (sig : Signature) : Prop :=
  ∃ caller ∈ R, ∃ m b, A.LeadsTo caller m b ∧ sig ∈ b.targets

/-- The header of the class `name` says that it extends `superclass`. -/
def Extends (A : Oracle) (name superclass : ClassName) : Prop :=
  ∃ c, A.resolve name .hierarchy = .ok c ∧ c.superclass = some superclass

/-- If the methods in `R` are scanned, there is a reason to ask for the class at that level. -/
inductive Needs (A : Oracle) (roots : ClassName → Prop) (builtins : List Builtin)
    (R : Set Signature) : ClassName → Level → Prop
  | root {name : ClassName} : roots name → Needs A roots builtins R name .signatures
  | builtin {b : Builtin} : b ∈ builtins → Needs A roots builtins R b.name b.level
  | lookup {sig : Signature} {name : ClassName} {level : Level} : A.Wants roots R sig →
      A.Consults sig name level → Needs A roots builtins R name level

/-- There is a reason for the call: its class is needed, or it asks for the body of a method that
    was looked up. -/
def Justifies (A : Oracle) (roots : ClassName → Prop) (builtins : List Builtin)
    (R : Set Signature) : Provider.Call → Prop
  | .resolve name level _ => A.Needs roots builtins R name level
  | .retrieveBody m _ => ∃ sig, A.Wants roots R sig ∧ A.Resolves sig m

theorem Justifies.mono {call : Provider.Call} (h : A.Justifies roots builtins R call)
    (hle : R ⊆ R') : A.Justifies roots builtins R' call := by
  cases call with
  | resolve name level answer =>
    cases h with
    | root hr => exact .root hr
    | builtin hb => exact .builtin hb
    | lookup hs hc => exact .lookup (hs.mono hle) hc
  | retrieveBody m answer =>
    obtain ⟨sig, hs, hm⟩ := h
    exact ⟨sig, hs.mono hle, hm⟩

/-- There is a reason to know the bodies of the class: it belongs to the application or the runtime,
    an invocation names it, it declares the concrete method to which an invocation leads, or it is a
    platform class whose bodies are asked for. -/
def Warrants (A : Oracle) (roots : ClassName → Prop) (builtins : List Builtin) (R : Set Signature)
    (name : ClassName) : Prop :=
  roots name ∨ (∃ t, A.Targets R t ∧ t.owner = name) ∨
    (∃ t m, A.Targets R t ∧ A.Resolves t m ∧ m.signature.owner = name) ∨
    ∃ b ∈ builtins, b.name = name ∧ b.level = .bodies

/-- The class belongs to the application or the runtime, is a platform class, or is named by an
    invocation. -/
def Mentions (A : Oracle) (roots : ClassName → Prop) (builtins : List Builtin) (R : Set Signature)
    (name : ClassName) : Prop :=
  roots name ∨ (∃ b ∈ builtins, b.name = name) ∨ ∃ t, A.Targets R t ∧ t.owner = name

/-! ### What reasons come to -/

/-- A seed is declared by the class that it names. -/
theorem Seeds.declares (hA : A.Coherent) (h : A.Seeds roots sig) :
    roots sig.owner ∧ A.Finds sig sig.owner sig.owner := by
  obtain ⟨name, c, hr, hc, m, hm, rfl⟩ := h
  have ho := hA.owner_eq Level.isValid_signatures hc hm
  obtain ⟨n, hn⟩ : ∃ n, c.method? m.signature = some n := by
    rw [← Option.isSome_iff_exists, Class.method?, List.find?_isSome]
    exact ⟨m, hm, by simp⟩
  rw [ho]
  exact ⟨hr, .declared ⟨c, hc, by rw [hn]; rfl⟩⟩

/-- A method that a signature refers to has that signature if the class that it names declares
    it. -/
theorem Resolves.signature_eq (hA : A.Coherent) (h : A.Resolves sig m)
    (hself : A.Finds sig sig.owner sig.owner) : m.signature = sig := by
  obtain ⟨owner, c, hf, hc, hm⟩ := h.exists_owner
  have ho := hA.owner_eq Level.isValid_bodies hc (Class.method?_eq_some hm).1
  rw [(Class.method?_eq_some hm).2, ho, ← hself.unique hf]

/-- A signature that is looked up is a seed, is named by an invocation, or is that of the method to
    which an invocation leads. -/
theorem Wants.cases (hA : A.Coherent) (h : A.Wants roots R sig) :
    A.Seeds roots sig ∨ A.Targets R sig ∨
      ∃ t m, A.Targets R t ∧ A.Resolves t m ∧ m.signature = sig := by
  induction h with
  | seed hs => exact .inl hs
  | target hc hm ht => exact .inr (.inl ⟨_, hc, _, _, hm, ht⟩)
  | @callee sig m _ hm ih =>
    rcases ih with hs | ht | ⟨t, n, ht, hn, rfl⟩
    · rw [hm.signature_eq hA (hs.declares hA).2]
      exact .inl hs
    · exact .inr (.inr ⟨sig, m, ht, hm, rfl⟩)
    · -- The method to which the invocation leads refers to itself.
      rw [hm.unique (hn.self hA)]
      exact .inr (.inr ⟨t, n, ht, hn, rfl⟩)

theorem Passes.extends (hA : A.Graded) {superclass : ClassName} (h : A.Passes sig name superclass) :
    A.Extends name superclass := by
  obtain ⟨c, hc, -, hs⟩ := h
  obtain ⟨d, hd, -, hsuper, -⟩ :=
    hA.ok_of_le Level.isValid_hierarchy Level.isValid_signatures (by decide) hc
  exact ⟨d, hd, hsuper.trans hs⟩

theorem reflTransGen_extends (hA : A.Graded)
    (h : Relation.ReflTransGen (A.Passes sig) origin name) :
    Relation.ReflTransGen A.Extends origin name :=
  Relation.ReflTransGen.mono (fun _ _ => Passes.extends hA) _ _ h

/-- A signature is looked up in a class that is mentioned, or in one of its superclasses. -/
theorem Wants.exists_mentions (hA : A.Coherent) (h : A.Wants roots R sig) :
    ∃ origin, A.Mentions roots builtins R origin ∧
      Relation.ReflTransGen A.Extends origin sig.owner := by
  rcases h.cases hA with hs | ht | ⟨t, m, ht, hm, rfl⟩
  · exact ⟨sig.owner, .inl (hs.declares hA).1, .refl⟩
  · exact ⟨sig.owner, .inr (.inr ⟨sig, ht, rfl⟩), .refl⟩
  · exact ⟨t.owner, .inr (.inr ⟨t, ht, rfl⟩),
      reflTransGen_extends hA.toGraded (hm.declaring hA).1.reflTransGen⟩

theorem Consults.extends (hA : A.Graded) (h : A.Consults sig name level) :
    Relation.ReflTransGen A.Extends sig.owner name := by
  cases h with
  | named => exact .refl
  | searched _ hpath => exact reflTransGen_extends hA hpath
  | declaring _ hf => exact reflTransGen_extends hA hf.reflTransGen

/-- A call for which there is a reason is about a class that is mentioned, or about one of its
    superclasses. -/
theorem Justifies.exists_mentions (hA : A.Coherent) {call : Provider.Call}
    (h : A.Justifies roots builtins R call) :
    ∃ origin, A.Mentions roots builtins R origin ∧
      Relation.ReflTransGen A.Extends origin call.subject := by
  cases call with
  | resolve name level answer =>
    cases h with
    | root hr => exact ⟨name, .inl hr, .refl⟩
    | @builtin b hb => exact ⟨b.name, .inr (.inl ⟨b, hb, rfl⟩), .refl⟩
    | lookup hs hc =>
      obtain ⟨origin, hmention, hpath⟩ := hs.exists_mentions hA
      exact ⟨origin, hmention, hpath.trans (hc.extends hA.toGraded)⟩
  | retrieveBody m answer =>
    obtain ⟨sig, hs, hm⟩ := h
    obtain ⟨origin, hmention, hpath⟩ := hs.exists_mentions hA
    exact ⟨origin, hmention, hpath.trans ((hm.declaring hA).2.extends hA.toGraded)⟩

/-- The class that declares the concrete method which a lookup finds. -/
theorem Consults.resolves (hA : A.Coherent) {c : Class} (h : A.Consults sig name .bodies)
    (hc : A.resolve name .bodies = .ok c) :
    name = sig.owner ∨ ∃ m, A.Resolves sig m ∧ m.signature.owner = name := by
  cases h with
  | named => exact .inl rfl
  | @declaring _ c' d m hclass hf hd hm hconcrete =>
    obtain ⟨n, hn, he⟩ := hd.exists_method? hA.toGraded (has_of_bodies hc) hm
    refine .inr ⟨n, ⟨⟨c', hclass⟩, ⟨name, c, hf, hc, hn⟩, ?_⟩, ?_⟩
    · rw [Method.isConcrete_congr he, hconcrete]
    · exact hA.owner_eq Level.isValid_bodies hc (Class.method?_eq_some hn).1

/-- A class that can be had with its bodies, and whose bodies are needed, is one whose bodies there
    is a reason to know. -/
theorem Needs.warrants (hA : A.Coherent) {c : Class} (h : A.Needs roots builtins R name .bodies)
    (hc : A.resolve name .bodies = .ok c) : A.Warrants roots builtins R name := by
  generalize hl : Level.bodies = level at h
  cases h with
  | root => cases hl
  | @builtin b hb => exact .inr (.inr (.inr ⟨b, hb, rfl, hl.symm⟩))
  | @lookup sig _ _ hs hconsults =>
    subst hl
    rcases hs.cases hA with hs | ht | ⟨t, m, ht, hm, rfl⟩
    · obtain ⟨hroot, hself⟩ := hs.declares hA
      rcases hconsults.resolves hA hc with rfl | ⟨m, hm, rfl⟩
      · exact .inl hroot
      · rw [hm.signature_eq hA hself]
        exact .inl hroot
    · rcases hconsults.resolves hA hc with rfl | ⟨m, hm, rfl⟩
      · exact .inr (.inl ⟨sig, ht, rfl⟩)
      · exact .inr (.inr (.inl ⟨sig, m, ht, hm, rfl⟩))
    · -- The signature is that of a method, which refers to itself.
      refine .inr (.inr (.inl ⟨t, m, ht, hm, ?_⟩))
      rcases hconsults.resolves hA hc with rfl | ⟨n, hn, rfl⟩
      · rfl
      · rw [hn.unique (hm.self hA)]

end Oracle

/-! ### Questions to the resolver -/

namespace Resolver

variable {σ : Type} {P : Provider σ} {start : σ × List Provider.Call} {A : Oracle}
  {J : Provider.Call → Prop} {r r' : Resolver (σ × List Provider.Call)} {sig : Signature}
  {name : ClassName} {level : Level} {c : Class} {fuel : Nat} {o : Except AnalysisError Method}

/-- The provider was called for the reasons in `J` only, and was asked for every class that is kept
    at the level at which it is. -/
structure Frugal (P : Provider σ) (start : σ × List Provider.Call) (A : Oracle)
    (J : Provider.Call → Prop) (r : Resolver (σ × List Provider.Call)) : Prop extends
    r.Sound P.recorded start A where
  justified : ∀ call ∈ r.source.2, J call
  asked : ∀ name c, r.classes[name]? = some c →
    ∃ answer, .resolve name c.level answer ∈ r.source.2

theorem Frugal.mono {J' : Provider.Call → Prop} (h : r.Frugal P start A J)
    (hJ : ∀ call, J call → J' call) : r.Frugal P start A J' :=
  { h with justified := fun call hc => hJ call (h.justified call hc) }

theorem Frugal.note (h : r.Frugal P start A J) (e : Event) : (r.note e).Frugal P start A J :=
  ⟨h.toSound.note e, h.justified, h.asked⟩

/-- A call that is entered in the journal takes nothing out of it. -/
theorem Frugal.push {call : Provider.Call} (h : r.Frugal P start A J)
    (hs : r'.Sound P.recorded start A) (hsource : r'.source.2 = r.source.2 ++ [call])
    (hcall : J call) (hclasses : r'.classes = r.classes) : r'.Frugal P start A J := by
  refine ⟨hs, fun call' hc => ?_, fun name c hc => ?_⟩
  · rw [hsource, List.mem_append, List.mem_singleton] at hc
    rcases hc with hc | rfl
    · exact h.justified call' hc
    · exact hcall
  · rw [hclasses] at hc
    obtain ⟨answer, ha⟩ := h.asked name c hc
    exact ⟨answer, hsource ▸ List.mem_append_left _ ha⟩

theorem Frugal.body {m : Method} (h : r.Frugal P start A J)
    (hJ : ∀ answer, J (.retrieveBody m answer)) : (r.body P.recorded m).2.Frugal P start A J :=
  h.push (h.toSound.body m) rfl (hJ _) rfl

section

variable (hP : P.recorded.Follows start A) (hA : A.Graded)
include hP hA

theorem Frugal.resolveClass (h : r.Frugal P start A J) (hl : level.IsValid)
    (hJ : ∀ answer, J (.resolve name level answer)) :
    (r.resolveClass P.recorded name level).2.Frugal P start A J := by
  have hs := h.toSound.resolveClass hP.classes hA hl name
  have ha := answer_resolveClass P.recorded name level r
  generalize (r.resolveClass P.recorded name level).1 = a,
    (r.resolveClass P.recorded name level).2 = r' at hs ha ⊢
  cases ha with
  | known | missed => exact ⟨hs, h.justified, h.asked⟩
  | low _ hp | unavailable _ hp | fatal _ hp =>
    exact h.push hs (Provider.journal_of_resolve hp) (hJ _) rfl
  | @found c s _ hp =>
    have hjournal := Provider.journal_of_resolve hp
    -- The class that is new is at the level of the request.
    have hlevel : c.level = level := by
      refine hA.level_eq hl ((hP.classes _ h.source name level hl).symm.trans ?_)
      rw [hp]
    have hasked : (r.asked name level s).Frugal P start A J :=
      h.push ⟨hs.source, h.classes, h.misses⟩ hjournal (hJ _) rfl
    refine ⟨hs, hasked.justified, fun n d hd => ?_⟩
    rw [keep_classes, asked_classes, Std.HashMap.getElem?_insert] at hd
    split_ifs at hd with hn
    · cases hd
      rw [← eq_of_beq hn, hlevel]
      exact ⟨_, hjournal ▸ List.mem_append_right _ List.mem_cons_self⟩
    · exact hasked.asked n d hd

/-- A search from the class `name` upwards. -/
theorem Frugal.search {fuel : Nat} {seen : List ClassName} {o : Except AnalysisError Method}
    (h : r.Frugal P start A J) (hc : A.Has name c)
    (hJ : ∀ n, Relation.ReflTransGen (A.Passes sig) name n →
      ∀ answer, J (.resolve n .signatures answer))
    (hsearch : Search P.recorded sig fuel seen c r o r') : r'.Frugal P start A J := by
  induction hsearch generalizing name with
  | exhausted | found | top | circle => exact h
  | @unavailable _ _ _ _ superclass _ _ hm hs _ hr | @failed _ _ _ _ superclass _ _ hm hs _ hr =>
    have hp : A.Passes sig name superclass := (hc.passes_iff hA).2 ⟨hm, hs⟩
    have hask := h.resolveClass hP hA Level.isValid_signatures (hJ superclass (.single hp))
    rwa [hr] at hask
  | @up _ _ _ _ superclass _ _ _ _ hm hs _ hr _ ih =>
    have hp : A.Passes sig name superclass := (hc.passes_iff hA).2 ⟨hm, hs⟩
    have hask := h.resolveClass hP hA Level.isValid_signatures (hJ superclass (.single hp))
    rw [hr] at hask
    have hd := h.toSound.resolveClass_ok hP.classes hA Level.isValid_signatures superclass
      (congrArg Prod.fst hr)
    exact ih hask hd fun n hn => hJ n (.head hp hn)

end

section

variable (hP : P.recorded.Follows start A) (hA : A.Coherent)
include hP hA

theorem Frugal.of_resolveBodies {a : Except AnalysisError Class} (h : r.Frugal P start A J)
    (hJ : ∀ answer, J (.resolve name .bodies answer))
    (hr : r.resolveBodies P.recorded name = (a, r')) : r'.Frugal P start A J := by
  have hask := h.resolveClass hP hA.toGraded Level.isValid_bodies hJ
  rwa [show r.resolveClass P.recorded name .bodies = _ from hr] at hask

/-- A lookup asks for what it has to ask for, however it ends. -/
theorem Located.frugal (hl : Located P.recorded fuel sig r o r') (h : r.Frugal P start A J)
    (hJ : ∀ name level, A.Consults sig name level → ∀ answer, J (.resolve name level answer)) :
    r'.Frugal P start A J := by
  -- The first two questions are the same in all cases but one.
  have hsearch {c : Class} {o : Except AnalysisError Method}
      {r₁ r₂ : Resolver (σ × List Provider.Call)}
      (h₁ : r.resolveBodies P.recorded sig.owner = (.ok c, r₁))
      (h₂ : r₁.resolveMethod P.recorded fuel sig = (o, r₂)) : r₂.Frugal P start A J := by
    have hf₁ := h.of_resolveBodies hP hA (hJ _ _ .named) h₁
    obtain ⟨hc, hk, -⟩ := h.toSound.of_resolveBodies hP.classes hA.toGraded h₁
    rw [resolveMethod_eq hA.toGraded hc hk] at h₂
    exact hf₁.search hP hA.toGraded (Oracle.has_of_bodies hc)
      (fun n hn => hJ n .signatures (.searched hc hn)) (search_iff.2 h₂)
  -- The class of a concrete method is raised.
  have hdeclaring {c : Class} {m : Method} {r₁ r₂ : Resolver (σ × List Provider.Call)}
      (h₁ : r.resolveBodies P.recorded sig.owner = (.ok c, r₁))
      (h₂ : r₁.resolveMethod P.recorded fuel sig = (.ok m, r₂)) (hm : m.isConcrete = true) :
      A.Consults sig m.signature.owner .bodies := by
    obtain ⟨hc, hk, hs⟩ := h.toSound.of_resolveBodies hP.classes hA.toGraded h₁
    obtain ⟨hf, ⟨d, hd, hdm⟩, -⟩ := hs.resolveMethod_ok hP.classes hA hc hk h₂
    exact .declaring hc hf hd hdm hm
  cases hl with
  | noClass h₁ => exact h.of_resolveBodies hP hA (hJ _ _ .named) h₁
  | noMethod h₁ h₂ | notConcrete h₁ h₂ | declared h₁ h₂ => exact hsearch h₁ h₂
  | noOwner h₁ h₂ hm _ h₃ =>
    exact (hsearch h₁ h₂).of_resolveBodies hP hA (hJ _ _ (hdeclaring h₁ h₂ hm)) h₃
  | inherited h₁ h₂ hm _ h₃ h₄ =>
    have hf₃ := (hsearch h₁ h₂).of_resolveBodies hP hA (hJ _ _ (hdeclaring h₁ h₂ hm)) h₃
    obtain ⟨hd, hkd, -⟩ := (hsearch h₁ h₂).toSound.of_resolveBodies hP.classes hA.toGraded h₃
    -- The class that declares the method ends the second search without a further question.
    obtain ⟨hc, hk, hs⟩ := h.toSound.of_resolveBodies hP.classes hA.toGraded h₁
    obtain ⟨-, ⟨d', hd', hdm⟩, -⟩ := hs.resolveMethod_ok hP.classes hA hc hk h₂
    have hself := hd'.finds_self hA.toGraded ((Class.method?_signature hdm d').trans hdm)
    rwa [eq_of_resolveMethod hA.toGraded hd hkd hself.declares h₄]

end

end Resolver

/-! ### The steps of a session -/

namespace Session

variable {σ : Type} {P : Provider σ} {start : σ × List Provider.Call} {A : Oracle}
  {roots : ClassName → Prop} {builtins : List Builtin} {s s' : Session (σ × List Provider.Call)}
  {sig : Signature}

/-- The methods that were scanned. -/
def scope (s : Session σ) : Set Signature := {sig | sig ∈ s.scanned.toList}

/-- The session has called its provider for a reason only, and what is in its queue is a reason,
    too. -/
structure Frugal (P : Provider σ) (start : σ × List Provider.Call) (A : Oracle)
    (roots : ClassName → Prop) (builtins : List Builtin) (s : Session (σ × List Provider.Call)) :
    Prop where
  builtins_eq : s.options.builtins = builtins
  resolver : s.resolver.Frugal P start A (A.Justifies roots builtins s.scope)
  resolved : ∀ sig o, s.resolved[sig]? = some o → A.Settles sig o
  work : ∀ sig ∈ s.work.toList, A.Wants roots s.scope sig

theorem Frugal.setResolver {r : Resolver (σ × List Provider.Call)}
    (h : Frugal P start A roots builtins s)
    (hr : r.Frugal P start A (A.Justifies roots builtins s.scope)) :
    Frugal P start A roots builtins (s.setResolver r) :=
  ⟨h.builtins_eq, hr, h.resolved, h.work⟩

theorem Frugal.note (h : Frugal P start A roots builtins s) (e : Event) :
    Frugal P start A roots builtins (s.note e) :=
  h.setResolver (h.resolver.note e)

theorem Frugal.diagnose (h : Frugal P start A roots builtins s) (kind : DiagnosticKind)
    (subject message : String) :
    Frugal P start A roots builtins (s.diagnose kind subject message) :=
  ⟨h.builtins_eq, h.resolver.note _, h.resolved, h.work⟩

theorem Frugal.remember {o : Except AnalysisError Method} (h : Frugal P start A roots builtins s)
    (ho : A.Settles sig o) : Frugal P start A roots builtins (s.remember sig o) :=
  ⟨h.builtins_eq, h.resolver, (Knows.remember ⟨h.resolver.toSound, h.resolved⟩ ho).resolved, h.work⟩

/-- The more is scanned, the more reasons there are. -/
theorem Frugal.beginScan (h : Frugal P start A roots builtins s) (sig : Signature) :
    Frugal P start A roots builtins (s.beginScan sig) := by
  have hle : s.scope ⊆ (s.beginScan sig).scope := fun u hu =>
    OrderedSet.mem_toList_insert.2 (.inl hu)
  exact ⟨h.builtins_eq, (h.resolver.note _).mono fun _ hc => hc.mono hle, h.resolved,
    fun u hu => (h.work u hu).mono hle⟩

/-- The methods in `l` are queued. -/
theorem Frugal.pushAll {work : Queue Signature} {l : List Signature}
    (h : Frugal P start A roots builtins s) (hwork : work.toList = s.work.toList ++ l)
    (hl : ∀ sig ∈ l, A.Wants roots s.scope sig) :
    Frugal P start A roots builtins (s.setWork work) := by
  refine ⟨h.builtins_eq, h.resolver, h.resolved, fun sig hsig => ?_⟩
  rw [setWork, hwork, List.mem_append] at hsig
  exact hsig.elim (h.work sig) (hl sig)

section

variable (hP : P.recorded.Follows start A) (hA : A.Coherent)
include hP hA

theorem fullyResolve_frugal (fuel : Nat) (h : Frugal P start A roots builtins s)
    (hsig : A.Wants roots s.scope sig) :
    Ends (fullyResolve P.recorded fuel sig) s
      (fun o s' => A.Settles sig o ∧ Frugal P start A roots builtins s' ∧ s'.scope = s.scope)
      fun _ => Frugal P start A roots builtins := by
  have hn := h.resolver.note (.resolvingToBodies sig.owner)
  have hJ : ∀ name level, A.Consults sig name level →
      ∀ answer, A.Justifies roots builtins s.scope (.resolve name level answer) :=
    fun _ _ hc _ => .lookup hsig hc
  refine ((fullyResolve_ends P.recorded fuel sig s).and
    (fullyResolve_knows hP.classes hA fuel sig ⟨h.resolver.toSound, h.resolved⟩)).mono ?_ ?_
  · rintro o s' ⟨⟨-, rfl⟩ | ⟨-, -, r, rfl, hr⟩, ho, -⟩
    · exact ⟨ho, h, rfl⟩
    · exact ⟨ho, (h.setResolver (hr.frugal hP hA hn hJ)).remember ho, rfl⟩
  · rintro e s' ⟨⟨-, -, r, rfl, hr⟩, -⟩
    exact h.setResolver (hr.frugal hP hA hn hJ)

theorem scanCall_frugal (fuel : Nat) (caller : Signature) (offset : Nat) (c : Invocation)
    (h : Frugal P start A roots builtins s) (hc : A.Wants roots s.scope c.target) :
    Ends (scanCall P.recorded fuel caller offset c) s
      (fun _ s' => Frugal P start A roots builtins s' ∧ s'.scope = s.scope)
      fun _ => Frugal P start A roots builtins := by
  simp only [scanCall, ends_bind, ends_modify]
  have h₀ : Frugal P start A roots builtins { s with bodies := s.bodies.insert c.target.owner } :=
    ⟨h.builtins_eq, h.resolver, h.resolved, h.work⟩
  refine (fullyResolve_frugal hP hA fuel h₀ hc).mono ?_ fun _ _ => id
  rintro o s₁ ⟨ho, h₁, hscope⟩
  have hscope : s₁.scope = s.scope := hscope
  cases o with
  | error e => exact ⟨⟨h₁.builtins_eq, h₁.resolver, h₁.resolved, h₁.work⟩, hscope⟩
  | ok callee =>
    have hc₁ : A.Wants roots s₁.scope c.target := hscope ▸ hc
    have h₂ := h₁.setResolver (h₁.resolver.body fun _ => ⟨c.target, hc₁, ho⟩)
    simp only [ends_bind, ends_ask]
    rcases (s₁.resolver.body P.recorded callee).1 with e | b
    · simp only [ends_ite, ends_modify, ends_throw]
      exact ⟨fun _ => ⟨⟨h₂.builtins_eq, h₂.resolver, h₂.resolved, h₂.work⟩, hscope⟩, fun _ => h₂⟩
    · have h₃ := h₂.pushAll (Queue.toList_push _ callee.signature) (by simpa using .callee hc₁ ho)
      exact ⟨⟨h₃.builtins_eq, h₃.resolver, h₃.resolved, h₃.work⟩, hscope⟩

theorem scan_frugal (fuel : Nat) (caller : Signature) {b : Body}
    (h : Frugal P start A roots builtins s) (hb : ∀ t ∈ b.targets, A.Wants roots s.scope t) :
    Ends (scan P.recorded fuel caller b) s (fun _ => Frugal P start A roots builtins)
      fun _ => Frugal P start A roots builtins := by
  simp only [scan, ends_bind]
  refine Ends.forM (I := fun _ s' => Frugal P start A roots builtins s' ∧ s'.scope = s.scope)
    ?_ ?_ ⟨h, rfl⟩
  · rintro done i rest hl s₁ ⟨h₁, hscope⟩
    unfold scanInstruction
    rcases hi : i.invoke with _ | c
    · exact ⟨h₁, hscope⟩
    · have hc : c.target ∈ b.targets := by simp [Body.targets, Body.calls, hl, hi]
      refine (scanCall_frugal hP hA fuel caller i.offset c h₁ (hscope ▸ hb _ hc)).mono ?_
        fun _ _ => id
      rintro _ s₂ ⟨h₂, hscope'⟩
      exact ⟨h₂, hscope'.trans hscope⟩
  · rintro s₁ ⟨h₁, -⟩
    rcases b.fault with _ | fault
    · exact h₁
    · exact h₁.diagnose ..

theorem scanMethod_frugal (fuel : Nat) {m : Method} (h : Frugal P start A roots builtins s)
    (hsig : A.Wants roots s.scope sig) (hm : A.Resolves sig m) :
    Ends (scanMethod P.recorded fuel m) s (fun _ => Frugal P start A roots builtins)
      fun _ => Frugal P start A roots builtins := by
  have h₁ := h.setResolver (h.resolver.body fun _ => ⟨sig, hsig, hm⟩)
  simp only [scanMethod, ends_bind, ends_ask, h.resolver.toSound.body_fst hP.bodies]
  rcases hb : A.retrieveBody m with e | b
  · simp only [Except.mapError, ends_ite, ends_modify, ends_throw]
    exact ⟨fun _ => h₁.note _, fun _ => h₁⟩
  · simp only [Except.mapError, ends_bind, ends_modify]
    -- The calls in the body are reasons from now on.
    refine scan_frugal hP hA fuel m.signature (h₁.beginScan m.signature) fun t ht => ?_
    exact .target (OrderedSet.mem_toList_insert.2 (.inr rfl)) ⟨hm.self hA, hb⟩ ht

theorem visit_frugal (fuel : Nat) (h : Frugal P start A roots builtins s)
    (hsig : A.Wants roots s.scope sig) :
    Ends (visit P.recorded fuel sig) s (fun _ => Frugal P start A roots builtins)
      fun _ => Frugal P start A roots builtins := by
  rw [ends_visit]
  refine (fullyResolve_frugal hP hA fuel h hsig).mono ?_ fun _ _ => id
  rintro o s₁ ⟨ho, h₁, hscope⟩
  cases o with
  | error e => exact h₁.note _
  | ok m =>
    have hsig₁ : A.Wants roots s₁.scope sig := hscope ▸ hsig
    have hmark : Frugal P start A roots builtins (s₁.mark m.signature) :=
      ⟨h₁.builtins_eq, h₁.resolver, h₁.resolved, h₁.work⟩
    exact ⟨fun _ _ => h₁, fun _ _ => scanMethod_frugal hP hA fuel hmark hsig₁ ho,
      fun _ => scanMethod_frugal hP hA fuel h₁ hsig₁ ho⟩

theorem drain_frugal (limit fuel : Nat) (patience : Option Nat)
    (h : Frugal P start A roots builtins s) :
    Ends (drain P.recorded limit fuel patience) s (fun _ => Frugal P start A roots builtins)
      fun _ => Frugal P start A roots builtins := by
  have hpop {s : Session (σ × List Provider.Call)} {sig : Signature} {work : Queue Signature}
      (h : Frugal P start A roots builtins s) (hw : s.work.pop? = some (sig, work)) :
      Frugal P start A roots builtins (s.setWork work) ∧ A.Wants roots s.scope sig := by
    have htoList := Queue.toList_of_pop? hw
    refine ⟨⟨h.builtins_eq, h.resolver, h.resolved, fun u hu => h.work u ?_⟩, h.work sig ?_⟩
    · rw [htoList]
      exact List.mem_cons_of_mem sig hu
    · rw [htoList]
      exact List.mem_cons_self
  refine (drain_ends (I := Frugal P start A roots builtins)
    (E := fun _ => Frugal P start A roots builtins) (fun s sig work h hw _ => (hpop h hw).1)
    (fun s sig work h hw _ => ?_) (fun _ => id) (fun _ => id) fuel patience h).mono
    (fun _ _ => And.left) fun _ _ => id
  obtain ⟨h₁, hsig⟩ := hpop h hw
  exact visit_frugal hP hA limit ⟨h₁.builtins_eq, h₁.resolver, h₁.resolved, h₁.work⟩ hsig

/-! ### The phases of an analysis -/

variable {rules : PackageRules} {paths : List StagedPath}

theorem seedClass_frugal {name : ClassName} (hroot : roots name)
    (h : Frugal P start A roots builtins s) :
    Ends (seedClass P.recorded name) s (fun _ => Frugal P start A roots builtins)
      fun _ => Frugal P start A roots builtins := by
  have h₁ := h.setResolver (h.resolver.resolveClass hP hA.toGraded Level.isValid_signatures
    fun _ => .root hroot)
  simp only [seedClass, ends_bind, ends_ask]
  split
  case h_1 c hc =>
    have hhas := h.resolver.toSound.resolveClass_ok hP.classes hA.toGraded
      Level.isValid_signatures name hc
    refine h₁.pushAll (Queue.toList_pushAll _ _) fun sig hsig => .seed ?_
    obtain ⟨_, d, rfl, hd⟩ := (Oracle.seeds_iff_of_has hA.toGraded hhas).2 hsig
    exact ⟨_, d, hroot, hd⟩
  case h_2 e _ =>
    simp only [ends_ite, ends_bind, ends_throw, ends_get, ends_pure, ends_modify]
    exact ⟨fun _ => h₁, fun _ => ⟨fun _ => h₁.diagnose .., fun _ => h₁⟩⟩

theorem traverse_frugal (fuel : Nat) (patience : Option Nat)
    (hready : Ready P.recorded start A rules paths s)
    (h : Frugal P start A (IsRoot rules paths) builtins s) :
    Ends (traverse P.recorded fuel patience) s
      (fun _ => Frugal P start A (IsRoot rules paths) builtins)
      fun _ => Frugal P start A (IsRoot rules paths) builtins := by
  rw [traverse, ends_bind, ends_seed]
  have hseeds : Keeps (Frugal P start A (IsRoot rules paths) builtins)
      (s.enlist.bodies.toList.forM (seedClass P.recorded)) :=
    .forM fun name hn s hs => seedClass_frugal hP hA (hready.mem_bodies_enlist.1 hn) hs
  exact (hseeds s.enlist ⟨h.builtins_eq, h.resolver, h.resolved, h.work⟩).mono
    (fun _ _ h₁ => drain_frugal hP hA fuel fuel patience h₁) fun _ _ => id

theorem loadSignatures_frugal (hready : Ready P.recorded start A rules paths s)
    (h : Frugal P start A (IsRoot rules paths) builtins s) :
    Ends (loadSignatures P.recorded) s (fun _ => Frugal P start A (IsRoot rules paths) builtins)
      fun _ => Frugal P start A (IsRoot rules paths) builtins := by
  simp only [loadSignatures, ends_bind, ends_modify, ends_get]
  have hloads : Keeps (Frugal P start A (IsRoot rules paths) builtins)
      (s.catalog.application.toList.forM (loadClass P.recorded)) := by
    refine .forM fun name hn s hs => ?_
    have h₀ := hs.note (.loadingSignatures name)
    have h₁ := h₀.setResolver (h₀.resolver.resolveClass hP hA.toGraded Level.isValid_signatures
      fun _ => .root (.inl ((hready.application name).1 hn)))
    simp only [loadClass, ends_bind, ends_modify, ends_ask]
    split
    · exact ⟨h₁.builtins_eq, h₁.resolver, h₁.resolved, h₁.work⟩
    · simp only [ends_ite, ends_modify, ends_throw]
      exact ⟨fun _ => h₁.diagnose .., fun _ => h₁⟩
  exact hloads _ ⟨h.builtins_eq, h.resolver, h.resolved, h.work⟩

theorem loadBuiltins_frugal (hready : Ready P.recorded start A rules paths s)
    (h : Frugal P start A roots builtins s) :
    Ends (loadBuiltins P.recorded) s (fun _ => Frugal P start A roots builtins)
      fun _ => Frugal P start A roots builtins := by
  simp only [loadBuiltins, ends_bind, ends_get]
  have hloads : Keeps (Frugal P start A roots builtins)
      (s.options.builtins.forM (loadBuiltin P.recorded)) := by
    refine .forM fun b hb s' hs' => ?_
    have hneeds : b ∈ builtins := h.builtins_eq ▸ hb
    have h₁ := hs'.setResolver (hs'.resolver.resolveClass hP hA.toGraded (hready.builtins b hb)
      fun _ => .builtin hneeds)
    simp only [loadBuiltin, ends_bind, ends_ask]
    split
    · exact h₁
    · simp only [ends_ite, ends_modify, ends_throw]
      exact ⟨fun _ => h₁.diagnose .., fun _ => h₁⟩
  exact hloads s h

end

theorem Frugal.detectEntryPoints (h : Frugal P start A roots builtins s) :
    Frugal P start A roots builtins s.detectEntryPoints := by
  have hstep (s : Session (σ × List Provider.Call)) (c : Class)
      (h : Frugal P start A roots builtins s) :
      Frugal P start A roots builtins (s.detectKernel c) := by
    unfold detectKernel
    dsimp only
    split
    · split
      · exact ⟨h.builtins_eq, h.resolver, h.resolved, h.work⟩
      · exact h.diagnose ..
    · exact h
  have hfold (l : List Class) : ∀ s : Session (σ × List Provider.Call),
      Frugal P start A roots builtins s →
        Frugal P start A roots builtins (l.foldl detectKernel s) := by
    induction l with
    | nil => exact fun s h => h
    | cons c l ih => exact fun s h => ih _ (hstep s c h)
  exact hfold s.loaded.toList s h

/-- Every phase starts from a session that is prepared for it, and keeps the books, whether it
    succeeds or fails. -/
theorem analyze_frugal {rules : PackageRules} {paths : List StagedPath}
    (hP : P.recorded.Follows start A) (hA : A.Coherent) (fuel : Nat) (patience : Option Nat)
    (hready : Ready P.recorded start A rules paths s)
    (h : Frugal P start A (IsRoot rules paths) builtins s) :
    Ends (analyze P.recorded fuel patience) s
      (fun _ => Frugal P start A (IsRoot rules paths) builtins)
      fun _ => Frugal P start A (IsRoot rules paths) builtins := by
  have hrest {s : Session (σ × List Provider.Call)}
      (hready : Ready P.recorded start A rules paths s)
      (h : Frugal P start A (IsRoot rules paths) builtins s) :
      Ends (loadBuiltins P.recorded) s.detectEntryPoints (fun _ s' =>
        Ends (traverse P.recorded fuel patience) s'
          (fun _ s' => Frugal P start A (IsRoot rules paths) builtins s'.augmentEntryPoints)
          fun _ => Frugal P start A (IsRoot rules paths) builtins)
        fun _ => Frugal P start A (IsRoot rules paths) builtins := by
    have hready₁ := hready.detectEntryPoints hA
    refine ((loadBuiltins_ready hP hA hready₁).and
      (loadBuiltins_frugal hP hA hready₁ h.detectEntryPoints)).mono ?_ fun _ _ => And.right
    rintro _ s₂ ⟨hready₂, h₂⟩
    refine (traverse_frugal hP hA fuel patience hready₂ h₂).mono (fun _ s₃ h₃ => ?_) fun _ _ => id
    exact ⟨h₃.builtins_eq, h₃.resolver, h₃.resolved, h₃.work⟩
  simp only [analyze, ends_bind, ends_get, ends_ite, ends_modify]
  refine ⟨fun _ => ?_, fun _ => hrest hready h⟩
  refine ((loadSignatures_ready hP hA hready).and (loadSignatures_frugal hP hA hready h)).mono ?_
    fun _ _ => And.right
  rintro _ s₁ ⟨hready₁, h₁⟩
  exact hrest hready₁ h₁

/-- A session that has only ingested staged files has called for nothing. -/
theorem frugal_ingest_new (P : Provider σ) (A : Oracle) (roots : ClassName → Prop)
    (options : Options) (source : σ) (paths : List StagedPath) :
    Frugal P (source, []) A roots options.builtins ((new options (source, [])).ingest paths) := by
  have hnew : Frugal P (source, []) A roots options.builtins (new options (source, [])) := by
    refine ⟨rfl, ⟨Resolver.sound_new _ _ _, ?_, ?_⟩, ?_, ?_⟩
    · exact fun _ hc => absurd hc List.not_mem_nil
    · exact fun _ _ hc => by simp [new] at hc
    · exact fun _ _ ho => by simp [new] at ho
    · exact fun _ hw => absurd hw List.not_mem_nil
  refine List.foldlRecOn paths ingestPath hnew fun s h p _ => ?_
  unfold ingestPath
  split
  · exact h.diagnose ..
  · exact h
  · dsimp only
    split
    · exact ⟨h.builtins_eq, h.resolver.note _, h.resolved, h.work⟩
    · exact ⟨h.builtins_eq, h.resolver, h.resolved, h.work⟩

section

variable (h : Frugal P start A roots builtins s) {name : ClassName}
include h

/-- A class that is known was asked for at the level to which it is known. -/
theorem Frugal.exists_asked (hl : s.resolver.level name ≠ .none) :
    ∃ c answer, A.resolve name c.level = .ok c ∧ c.level.IsValid ∧ s.resolver.level name = c.level ∧
      .resolve name c.level answer ∈ s.journal := by
  rcases hc : s.resolver.classes[name]? with _ | c
  · exact absurd (Resolver.level_eq_none hc) hl
  · obtain ⟨answer, ha⟩ := h.resolver.asked name c hc
    obtain ⟨hv, hres⟩ := h.resolver.classes name c hc
    exact ⟨c, answer, hres, hv, Resolver.level_eq_of_getElem? hc, ha⟩

theorem Frugal.warrants (hA : A.Coherent) (hl : s.resolver.level name = .bodies) :
    A.Warrants roots builtins s.scope name := by
  have hne : s.resolver.level name ≠ .none := by
    rw [hl]
    decide
  obtain ⟨c, answer, hc, -, hlevel, ha⟩ := h.exists_asked hne
  have hneeds : A.Needs roots builtins s.scope name c.level := h.resolver.justified _ ha
  rw [← hlevel, hl] at hneeds hc
  exact hneeds.warrants hA hc

theorem Frugal.level_le (hA : A.Coherent) (hn : ¬A.Warrants roots builtins s.scope name) :
    s.resolver.level name ≤ .signatures := by
  by_cases hl : s.resolver.level name = .none
  · rw [hl]
    decide
  · obtain ⟨c, answer, -, hv, hlevel, -⟩ := h.exists_asked hl
    have hne : c.level ≠ .bodies := fun hb => hn (h.warrants hA (hlevel.trans hb))
    rw [hlevel]
    exact Level.le_signatures_of_lt (lt_of_le_of_ne hv.2 hne)

end

/-- Over a coherent provider, whether an analysis succeeds or fails: it does the same if a journal
    of the calls of its provider is kept. A class is known with its bodies only if there is a reason
    for it, and any other class at most with its signatures; no class is known at a level at which
    it was not asked for. The calls are about classes of the application and the runtime, platform
    classes and classes that are named by invocations in the methods that were scanned, and about
    superclasses of these. -/
theorem findKernels_lazy {A : Oracle} {source : σ} (hP : P.Follows source A) (hA : A.Coherent)
    {options : Options} (hb : ∀ b ∈ options.builtins, b.level.IsValid) (paths : List StagedPath)
    (fuel : Nat) (patience : Option Nat) :
    let fresh := (new options source).ingest paths
    let run := findKernels P fuel patience fresh
    let recorded := findKernels P.recorded fuel patience fresh.record
    let roots := IsRoot options.rules paths
    run = (recorded.1, recorded.2.mapSource Prod.fst) ∧
    (∀ name, run.2.resolver.level name = .bodies →
      A.Warrants roots options.builtins run.2.scope name) ∧
    (∀ name, ¬A.Warrants roots options.builtins run.2.scope name →
      run.2.resolver.level name ≤ .signatures) ∧
    (∀ name, run.2.resolver.level name ≠ .none →
      ∃ answer, .resolve name (run.2.resolver.level name) answer ∈ recorded.2.journal) ∧
    ∀ call ∈ recorded.2.journal, ∃ origin,
      A.Mentions roots options.builtins run.2.scope origin ∧
        Relation.ReflTransGen A.Extends origin call.subject := by
  intro fresh run recorded roots
  have hrun : run = (recorded.1, recorded.2.mapSource Prod.fst) :=
    findKernels_record P fuel patience fresh
  have hP' : P.recorded.Follows (source, []) A := P.recorded_refines.follows hP
  have hfrugal : Frugal P (source, []) A roots options.builtins recorded.2 := by
    have hready : Ready P.recorded (source, []) A options.rules paths fresh.record := by
      rw [record_ingest_new]
      exact (ready_new P.recorded (source, []) A hb).ingest paths
    have hfresh : Frugal P (source, []) A roots options.builtins fresh.record := by
      rw [record_ingest_new]
      exact frugal_ingest_new P A roots options source paths
    have hends := analyze_frugal hP' hA fuel patience hready hfresh
    rw [show recorded.2 = _ from (findKernels_phased P.recorded fuel patience fresh.record).1]
    rcases ha : analyze P.recorded fuel patience fresh.record with ⟨e | _, s'⟩
    · exact hends.error ha
    · exact hends.ok ha
  have hlevel (name : ClassName) : run.2.resolver.level name = recorded.2.resolver.level name := by
    rw [hrun]
    rfl
  have hscope : run.2.scope = recorded.2.scope := by
    rw [hrun]
    rfl
  simp only [hlevel, hscope]
  refine ⟨hrun, fun name hl => hfrugal.warrants hA hl, fun name hn => hfrugal.level_le hA hn,
    fun name hl => ?_, fun call hc => (hfrugal.resolver.justified call hc).exists_mentions hA⟩
  obtain ⟨c, answer, -, -, hc, ha⟩ := hfrugal.exists_asked hl
  exact ⟨answer, hc ▸ ha⟩

end Session

/-- A kernel calls a method through a class that inherits it from the superclass of its
    superclass. -/
def Sample.chain : Oracle := .ofClasses
  [{ name := ⟨"app.K"⟩, level := .bodies, flags := .isPublic, superclass := none
     interfaces := [⟨"api.Kernel"⟩]
     methods := [⟨signature "app.K" "run", .isPublic, some
      ⟨[call 0 (signature "app.Sub" "work")], none⟩⟩] },
   { name := ⟨"app.Sub"⟩, level := .bodies, flags := .isPublic, superclass := some ⟨"app.Mid"⟩
     interfaces := [], methods := [] },
   { name := ⟨"app.Mid"⟩, level := .bodies, flags := .isPublic, superclass := some ⟨"app.Base"⟩
     interfaces := [], methods := [] },
   { name := ⟨"app.Base"⟩, level := .bodies, flags := .isPublic, superclass := none
     interfaces := [], methods := [⟨signature "app.Base" "work", .isPublic, some ⟨[], none⟩⟩] }]

theorem Sample.coherent_chain : chain.Coherent := Oracle.coherent_ofClasses (by decide)

namespace Session

/-- The class in the middle is only searched, so that its bodies are not read. -/
theorem findKernels_lazy_sample :
    let fresh := (new Sample.options ()).ingest Sample.paths
    let run := findKernels Sample.chain.toProvider 9 none fresh
    let roots := IsRoot Sample.options.rules Sample.paths
    run.1 = .ok () ∧ run.2.resolver.level ⟨"app.Mid"⟩ = .signatures ∧
    (∀ name, run.2.resolver.level name = .bodies →
      Sample.chain.Warrants roots [] run.2.scope name) ∧
    ∃ answer, .resolve ⟨"app.Mid"⟩ .signatures answer ∈
      (findKernels Sample.chain.toProvider.recorded 9 none fresh.record).2.journal := by
  have hrun :
      let run := findKernels Sample.chain.toProvider 9 none
        ((new Sample.options ()).ingest Sample.paths)
      (run.1, run.2.resolver.level ⟨"app.Mid"⟩) = (.ok (), .signatures) := by cbv
  obtain ⟨hok, hlevel⟩ := Prod.mk.inj hrun
  have hb : ∀ b ∈ Sample.options.builtins, b.level.IsValid := by decide
  obtain ⟨-, hwarrants, -, hasked, -⟩ := findKernels_lazy Sample.chain.follows_toProvider
    Sample.coherent_chain hb Sample.paths 9 none
  refine ⟨hok, hlevel, hwarrants, ?_⟩
  have hmid := hasked ⟨"app.Mid"⟩
  rw [hlevel] at hmid
  exact hmid (by decide)

end Session

end KernelReach
