import KernelReach.Proofs.Session.Fuel
import KernelReach.Proofs.Session.Graph
import Mathlib.Data.Set.Card
import Mathlib.Data.Set.Finite.Lattice

/-!
# Traversals come to an end

A body may call itself, and a class file may name any class as its superclass. Neither keeps a
traversal going for ever if the provider has finitely many classes:

* a search for a method does not come back to a class, so it looks at each of the classes at most
  once (`Drawn.search`);
* a traversal visits a signature once, and it visits only what was in its queue and what the classes
  declare. Between two visits it only drops entries of its queue (`exists_rounds`).

The provider has to give the same answer to the same request, but the answers about a class at
different levels need not fit together.
-/

namespace KernelReach

/-- Whatever it was asked before, the provider answers requests for classes as `A` does, if all
    requests are at levels that `admits` lets pass. -/
def Provider.FollowsAt {σ : Type} (P : Provider σ) (admits : Level → Prop) (start : σ)
    (A : Oracle) : Prop :=
  ∀ s, P.Leads admits start s → ∀ name level, admits level →
    (P.resolve name level s).1 = A.resolve name level

theorem Provider.Leads.mono {σ : Type} {P : Provider σ} {admits admits' : Level → Prop} {a b : σ}
    (h : P.Leads admits a b) (hle : ∀ l, admits l → admits' l) : P.Leads admits' a b := by
  induction h with
  | start => exact .start
  | resolve name level _ hl ih => exact .resolve name level ih (hle level hl)
  | retrieveBody m _ ih => exact .retrieveBody m ih

/-- With valid options, an analysis asks at valid levels only. -/
theorem Provider.FollowsClasses.followsAt {σ : Type} {P : Provider σ} {start : σ} {A : Oracle}
    {options : Options} (h : P.FollowsClasses start A)
    (hb : ∀ b ∈ options.builtins, b.level.IsValid) : P.FollowsAt options.Asks start A := by
  have hvalid (l : Level) (hl : options.Asks l) : l.IsValid := by
    rcases hl with rfl | rfl | ⟨b, hmem, rfl⟩
    · exact Level.isValid_signatures
    · exact Level.isValid_bodies
    · exact hb b hmem
  exact fun s hs name level hl => h s (hs.mono hvalid) name level (hvalid level hl)

namespace Oracle

variable {A : Oracle} {admits : Level → Prop}

/-- The class is an answer about `name`. -/
def Offers (A : Oracle) (admits : Level → Prop) (name : ClassName) (c : Class) : Prop :=
  ∃ level, admits level ∧ A.resolve name level = .ok c

/-- The names of the classes that can be had. -/
def names (A : Oracle) (admits : Level → Prop) : Set ClassName :=
  {name | ∃ c, A.Offers admits name c}

/-- The signatures of the methods that these classes declare. -/
def declared (A : Oracle) (admits : Level → Prop) : Set Signature :=
  {sig | ∃ name c, A.Offers admits name c ∧ ∃ m ∈ c.methods, m.signature = sig}

theorem finite_declared (hnames : (A.names admits).Finite) (hlevels : {l | admits l}.Finite) :
    (A.declared admits).Finite := by
  have hclass (p : ClassName × Level) :
      {sig | ∃ c, A.resolve p.1 p.2 = .ok c ∧ ∃ m ∈ c.methods, m.signature = sig}.Finite := by
    rcases A.resolve p.1 p.2 with e | c
    · simp
    · refine (c.methods.map Method.signature).finite_toSet.subset ?_
      rintro sig ⟨d, hd, m, hm, rfl⟩
      cases hd
      exact List.mem_map_of_mem hm
  refine ((hnames.prod hlevels).biUnion fun p _ => hclass p).subset ?_
  rintro sig ⟨name, c, ⟨level, hl, hc⟩, m, hm, rfl⟩
  exact Set.mem_biUnion (x := (name, level)) ⟨⟨c, level, hl, hc⟩, hl⟩ ⟨c, hc, m, hm, rfl⟩

theorem finite_names_ofClasses (cs : List Class) (admits : Level → Prop) :
    ((ofClasses cs).names admits).Finite := by
  refine (cs.map Class.name).finite_toSet.subset ?_
  rintro name ⟨c, level, -, hc⟩
  obtain ⟨d, hd, -⟩ := ofClasses_eq_ok.1 hc
  have hname : d.name = name := by simpa using List.find?_some hd
  exact hname ▸ List.mem_map_of_mem (List.mem_of_find?_eq_some hd)

end Oracle

/-- An analysis asks at finitely many levels. -/
theorem Options.finite_asks (o : Options) : {l | o.Asks l}.Finite := by
  refine (Level.signatures :: Level.bodies :: o.builtins.map Builtin.level).finite_toSet.subset ?_
  rintro l (rfl | rfl | ⟨b, hb, rfl⟩)
  · exact List.mem_cons_self
  · exact List.mem_cons_of_mem _ List.mem_cons_self
  · exact List.mem_cons_of_mem _ (List.mem_cons_of_mem _ (List.mem_map_of_mem hb))

/-! ### Searches -/

namespace Resolver

variable {σ : Type} {P : Provider σ} {admits : Level → Prop} {start : σ} {A : Oracle}
  {r r' : Resolver σ} {name : ClassName} {level : Level} {sig : Signature}

/-- The classes that the resolver keeps are answers of `A`, to which the provider has kept so
    far. -/
structure Drawn (P : Provider σ) (admits : Level → Prop) (start : σ) (A : Oracle)
    (r : Resolver σ) : Prop where
  source : P.Leads admits start r.source
  classes : ∀ (name : ClassName) (c : Class), r.classes[name]? = some c → A.Offers admits name c

/-- A request for a class is never cut off. -/
theorem ne_exhausted_of_resolveClass {e : AnalysisError}
    (h : r.resolveClass P name level = (.error e, r')) : e ≠ .exhausted := by
  rintro rfl
  have hfault := Session.isFault_of_resolveClass (congrArg Prod.fst h) (by decide)
  exact hfault.elim

/-- Neither is one for a body. -/
theorem ne_exhausted_of_body {m : Method} {e : AnalysisError} (h : (r.body P m).1 = .error e) :
    e ≠ .exhausted := by
  rintro rfl
  simp only [Resolver.body] at h
  rcases ha : (P.retrieveBody m r.source).1 with e' | b
  · rw [ha] at h
    cases h
  · rw [ha] at h
    cases h

/-- A search that stops for another reason finds nothing, and is not cut off. -/
theorem Drawn.of_error {e : AnalysisError} {o : Except AnalysisError Method} {k n : Nat}
    (h : r.Drawn P admits start A) (he : e ≠ .exhausted) (heq : (.error e, r) = (o, r')) :
    r'.Drawn P admits start A ∧ (∀ m, o = .ok m → m.signature ∈ A.declared admits) ∧
      (k < n → o ≠ .error .exhausted) := by
  cases heq
  refine ⟨h, fun m hm => ?_, fun _ hx => he (Except.error.inj hx)⟩
  cases hm

section

variable (hP : P.FollowsAt admits start A)
include hP

theorem Drawn.answer {a : Except AnalysisError Class} (h : r.Drawn P admits start A)
    (hl : admits level) (ha : Answer P name level r a r') :
    r'.Drawn P admits start A ∧ ∀ c, a = .ok c → A.Offers admits name c := by
  have hasks {b : Except ProviderError Class} {source : σ}
      (hp : P.resolve name level r.source = (b, source)) :
      P.Leads admits start source ∧ A.resolve name level = b := by
    have hleads := h.source.resolve name level hl
    have hanswer := hP r.source h.source name level hl
    rw [hp] at hleads hanswer
    exact ⟨hleads, hanswer.symm⟩
  cases ha with
  | known hc =>
    refine ⟨⟨h.source, h.classes⟩, fun c hc' => ?_⟩
    cases hc'
    exact h.classes name _ hc
  | missed => exact ⟨⟨h.source, h.classes⟩, nofun⟩
  | @found c source _ hp =>
    obtain ⟨hleads, hoffer⟩ := hasks hp
    refine ⟨⟨hleads, fun name' c' hc' => ?_⟩, fun c' hc' => ?_⟩
    · rw [keep_classes, asked_classes, Std.HashMap.getElem?_insert] at hc'
      split_ifs at hc' with heq
      · cases hc'
        cases eq_of_beq heq
        exact ⟨level, hl, hoffer⟩
      · exact h.classes name' c' hc'
    · cases hc'
      exact ⟨level, hl, hoffer⟩
  | low _ hp | unavailable _ hp | fatal _ hp =>
    exact ⟨⟨(hasks hp).1, h.classes⟩, nofun⟩

theorem Drawn.resolveClass {a : Except AnalysisError Class} (h : r.Drawn P admits start A)
    (hl : admits level) (hr : r.resolveClass P name level = (a, r')) :
    r'.Drawn P admits start A ∧ ∀ c, a = .ok c → A.Offers admits name c := by
  have ha := answer_resolveClass P name level r
  rw [hr] at ha
  exact h.answer hP hl ha

variable (hsignatures : admits .signatures) (hnames : (A.names admits).Finite)
include hsignatures hnames

/-- A search finds a method that a class declares, and is not cut off if it may look at all the
    classes that it has not seen. -/
theorem Drawn.search {c : Class} {fuel : Nat} {seen : List ClassName}
    {o : Except AnalysisError Method} (h : r.Drawn P admits start A) (hc : A.Offers admits name c)
    (hsearch : Search P sig fuel seen c r o r') :
    r'.Drawn P admits start A ∧ (∀ m, o = .ok m → m.signature ∈ A.declared admits) ∧
      ((A.names admits \ {n | n ∈ seen}).ncard < fuel → o ≠ .error .exhausted) := by
  -- With every superclass there is one class less that the search has not seen.
  induction hsearch generalizing name with
  | exhausted =>
    refine ⟨h, fun m hm => ?_, fun hlt => absurd hlt (Nat.not_lt_zero _)⟩
    cases hm
  | @found _ _ c _ m hm =>
    refine ⟨h, fun m' hm' => ?_, fun _ hx => ?_⟩
    · cases hm'
      exact ⟨name, c, hc, m, (Class.method?_eq_some hm).1, rfl⟩
    · cases hx
  | top | circle => exact h.of_error (by simp) rfl
  | unavailable _ _ _ hr => exact (h.resolveClass hP hsignatures hr).1.of_error (by simp) rfl
  | failed _ _ _ hr =>
    exact (h.resolveClass hP hsignatures hr).1.of_error (ne_exhausted_of_resolveClass hr) rfl
  | @up _ seen _ _ superclass d _ _ _ _ _ hnew hr _ ih =>
    obtain ⟨hd, hoffer⟩ := h.resolveClass hP hsignatures hr
    obtain ⟨hd', hfound, hends⟩ := ih hd (hoffer d rfl)
    refine ⟨hd', hfound, fun hlt => hends (Nat.lt_of_lt_of_le ?_ (Nat.le_of_lt_succ hlt))⟩
    have hmem : superclass ∈ A.names admits \ {n | n ∈ seen} := ⟨⟨d, hoffer d rfl⟩, hnew⟩
    refine Set.ncard_lt_ncard ⟨fun n hn => ⟨hn.1, fun hs => hn.2 ?_⟩, fun hsub => ?_⟩
      (hnames.subset Set.sdiff_subset)
    · exact List.mem_cons_of_mem superclass hs
    · exact (hsub hmem).2 List.mem_cons_self

/-- So is a search from the class that a signature names. -/
theorem Drawn.resolveMethod {fuel : Nat} {o : Except AnalysisError Method}
    (h : r.Drawn P admits start A) (hrun : r.resolveMethod P fuel sig = (o, r')) :
    r'.Drawn P admits start A ∧ (∀ m, o = .ok m → m.signature ∈ A.declared admits) ∧
      ((A.names admits).ncard < fuel → o ≠ .error .exhausted) := by
  rw [Resolver.resolveMethod] at hrun
  split at hrun
  case h_1 c hc =>
    split at hrun
    case isTrue =>
      obtain ⟨hd, hfound, hends⟩ :=
        h.search hP hsignatures hnames (h.classes sig.owner c hc) (search_iff.2 hrun)
      refine ⟨hd, hfound, fun hlt => hends (Nat.lt_of_le_of_lt ?_ hlt)⟩
      exact Set.ncard_le_ncard Set.sdiff_subset hnames
    case isFalse => exact h.of_error (by simp) hrun
  case h_2 => exact h.of_error (by simp) hrun

end

end Resolver

/-! ### Sessions -/

namespace Session

variable {σ : Type} {P : Provider σ} {admits : Level → Prop} {start : σ} {A : Oracle}
  {s s' t : Session σ} {U : Set Signature} {base : List Signature} {sig : Signature} {limit : Nat}

/-- The classes that the session keeps are answers of `A`, and they declare the methods that it
    remembers. -/
structure Within (P : Provider σ) (admits : Level → Prop) (start : σ) (A : Oracle)
    (s : Session σ) : Prop where
  resolver : s.resolver.Drawn P admits start A
  resolved : ∀ (sig : Signature) (m : Method), s.resolved[sig]? = some (.ok m) →
    m.signature ∈ A.declared admits

section

variable (hP : P.FollowsAt admits start A) (hsignatures : admits .signatures)
  (hbodies : admits .bodies) (hnames : (A.names admits).Finite)
include hP hsignatures hbodies hnames

/-- A lookup finds a method that a class declares, and is not cut off if it may look at all
    classes. -/
theorem declared_of_located {r r' : Resolver σ} {o : Except AnalysisError Method}
    (h : r.Drawn P admits start A) (hl : r.Located P limit sig o r') :
    (∀ m, o = .ok m → m.signature ∈ A.declared admits) ∧
      ((A.names admits).ncard < limit → o ≠ .error .exhausted) := by
  have hclass {e : AnalysisError} {r r' : Resolver σ} {name : ClassName}
      (hr : r.resolveBodies P name = (.error e, r')) :
      (Except.error e : Except AnalysisError Method) ≠ .error .exhausted :=
    fun hx => Resolver.ne_exhausted_of_resolveClass hr (Except.error.inj hx)
  cases hl with
  | noClass h₁ => exact ⟨nofun, fun _ => hclass h₁⟩
  | noMethod h₁ h₂ | declared h₁ h₂ =>
    have hd₁ := (h.resolveClass hP hbodies h₁).1
    exact (hd₁.resolveMethod hP hsignatures hnames h₂).2
  | notConcrete => exact ⟨nofun, nofun⟩
  | noOwner _ _ _ _ h₃ => exact ⟨nofun, fun _ => hclass h₃⟩
  | inherited h₁ h₂ _ _ h₃ h₄ =>
    have hd₁ := (h.resolveClass hP hbodies h₁).1
    have hd₂ := (hd₁.resolveMethod hP hsignatures hnames h₂).1
    have hd₃ := (hd₂.resolveClass hP hbodies h₃).1
    exact (hd₃.resolveMethod hP hsignatures hnames h₄).2

theorem lasting_within : Lasting P admits (Within P admits start A) where
  signatures := hsignatures
  bodies := hbodies
  congr h hcore := by
    simp only [core, Prod.mk.injEq] at hcore
    obtain ⟨-, -, -, -, hr, hm⟩ := hcore
    exact ⟨hr ▸ h.resolver, hm ▸ h.resolved⟩
  note e h := ⟨⟨h.resolver.source, h.resolver.classes⟩, h.resolved⟩
  resolveClass name _ hl h := ⟨(h.resolver.resolveClass hP hl rfl).1, h.resolved⟩
  body m h := ⟨⟨h.resolver.source.retrieveBody m, h.resolver.classes⟩, h.resolved⟩
  remember {s fuel sig o r} h hl hu hr := by
    refine ⟨hr.resolver, fun sig' m hm => ?_⟩
    rw [Session.remember, Std.HashMap.getElem?_insert] at hm
    split_ifs at hm with heq
    · have hd : (s.resolver.note (.resolvingToBodies sig.owner)).Drawn P admits start A :=
        ⟨h.resolver.source, h.resolver.classes⟩
      exact (declared_of_located hP hsignatures hbodies hnames hd hl).1 m (Option.some.inj hm)
    · exact h.resolved sig' m hm
  keeps h _ hr hm := ⟨hr ▸ h.resolver, hm ▸ h.resolved⟩

end

/-- What is in the queue is in `U`, and what is in `base` was visited. -/
structure Bounded (P : Provider σ) (admits : Level → Prop) (start : σ) (A : Oracle)
    (U : Set Signature) (base : List Signature) (s : Session σ) : Prop extends
    Within P admits start A s where
  work : ∀ sig ∈ s.work.toList, sig ∈ U
  visited : ∀ sig ∈ base, sig ∈ s.visited.toList

theorem Bounded.congr (h : Bounded P admits start A U base s)
    (hw : Within P admits start A s') (hwork : s'.work = s.work)
    (hvisited : s'.visited = s.visited) :
    Bounded P admits start A U base s' :=
  ⟨hw, hwork ▸ h.work, hvisited ▸ h.visited⟩

section

variable (hP : P.FollowsAt admits start A) (hsignatures : admits .signatures)
  (hbodies : admits .bodies) (hnames : (A.names admits).Finite)
  (hlimit : (A.names admits).ncard < limit) (hU : A.declared admits ⊆ U)
include hP hsignatures hbodies hnames hlimit

theorem fullyResolve_bounded (sig : Signature) (h : Bounded P admits start A U base s) :
    Ends (fullyResolve P limit sig) s
      (fun o s' => Bounded P admits start A U base s' ∧
        ∀ m, o = .ok m → m.signature ∈ A.declared admits)
      fun e _ => e ≠ .exhausted := by
  have hd : (s.resolver.note (.resolvingToBodies sig.owner)).Drawn P admits start A :=
    ⟨h.resolver.source, h.resolver.classes⟩
  refine ((fullyResolve_ends P limit sig s).and
    ((lasting_within hP hsignatures hbodies hnames).fullyResolve_keeps limit sig s
      h.toWithin)).mono ?_ ?_
  · rintro o s' ⟨⟨ho, rfl⟩ | ⟨-, -, r, rfl, hr⟩, hw⟩
    · exact ⟨h, fun m hm => h.resolved sig m (hm ▸ ho)⟩
    · exact ⟨h.congr hw rfl rfl, (declared_of_located hP hsignatures hbodies hnames hd hr).1⟩
  · rintro e s' ⟨⟨-, -, r, rfl, hr⟩, -⟩ rfl
    exact (declared_of_located hP hsignatures hbodies hnames hd hr).2 hlimit rfl

include hU

theorem scanCall_bounded (caller : Signature) (offset : Nat) (c : Invocation)
    (h : Bounded P admits start A U base s) :
    Ends (scanCall P limit caller offset c) s (fun _ => Bounded P admits start A U base)
      fun e _ => e ≠ .exhausted := by
  have hlasting := lasting_within hP hsignatures hbodies hnames
  simp only [scanCall, ends_bind, ends_modify]
  have h₀ : Bounded P admits start A U base { s with bodies := s.bodies.insert c.target.owner } :=
    h.congr (hlasting.congr h.toWithin rfl) rfl rfl
  refine (fullyResolve_bounded hP hsignatures hbodies hnames hlimit c.target h₀).mono ?_
    fun _ _ => id
  rintro o s₁ ⟨h₁, hfound⟩
  cases o with
  | error e => exact h₁.congr (hlasting.congr h₁.toWithin rfl) rfl rfl
  | ok callee =>
    simp only [ends_bind, ends_ask]
    have h₂ : Bounded P admits start A U base (s₁.setResolver (s₁.resolver.body P callee).2) :=
      h₁.congr (hlasting.body callee h₁.toWithin) rfl rfl
    rcases hb : (s₁.resolver.body P callee).1 with e | b
    · rw [ends_ite]
      refine ⟨fun _ => h₂.congr (hlasting.congr h₂.toWithin rfl) rfl rfl, fun _ => ?_⟩
      exact Resolver.ne_exhausted_of_body hb
    · refine ⟨hlasting.congr h₂.toWithin rfl, fun u hu => ?_, h₂.visited⟩
      replace hu : u ∈ (s₁.work.push callee.signature).toList := hu
      rw [Queue.toList_push, List.mem_append, List.mem_singleton] at hu
      rcases hu with hu | rfl
      · exact h₁.work u hu
      · exact hU (hfound callee rfl)

theorem scan_bounded (caller : Signature) (b : Body) (h : Bounded P admits start A U base s) :
    Ends (scan P limit caller b) s (fun _ => Bounded P admits start A U base)
      fun e _ => e ≠ .exhausted := by
  have hlasting := lasting_within hP hsignatures hbodies hnames
  simp only [scan, ends_bind]
  refine Ends.forM (I := fun _ => Bounded P admits start A U base) (fun _ i _ _ s₁ h₁ => ?_)
    (fun s₁ h₁ => ?_) h
  · unfold scanInstruction
    split
    · exact scanCall_bounded hP hsignatures hbodies hnames hlimit hU caller i.offset _ h₁
    · exact h₁
  · split
    · exact h₁.congr (hlasting.diagnose _ _ _ h₁.toWithin) rfl rfl
    · exact h₁

theorem scanMethod_bounded (m : Method) (h : Bounded P admits start A U base s) :
    Ends (scanMethod P limit m) s (fun _ => Bounded P admits start A U base)
      fun e _ => e ≠ .exhausted := by
  have hlasting := lasting_within hP hsignatures hbodies hnames
  simp only [scanMethod, ends_bind, ends_ask]
  have h₁ : Bounded P admits start A U base (s.setResolver (s.resolver.body P m).2) :=
    h.congr (hlasting.body m h.toWithin) rfl rfl
  rcases hb : (s.resolver.body P m).1 with e | b
  · rw [ends_ite]
    exact ⟨fun _ => h₁.congr (hlasting.note _ h₁.toWithin) rfl rfl,
      fun _ => Resolver.ne_exhausted_of_body hb⟩
  · simp only [ends_bind, ends_modify]
    refine scan_bounded hP hsignatures hbodies hnames hlimit hU m.signature b (h₁.congr ?_ rfl rfl)
    exact hlasting.congr (hlasting.note (.scanning m.signature) h₁.toWithin) rfl

/-- A visit queues what classes declare, and fails only where the provider is at fault. -/
theorem visit_bounded (sig : Signature) (h : Bounded P admits start A U base s) :
    Ends (visit P limit sig) s (fun _ => Bounded P admits start A U base)
      fun e _ => e.IsFault := by
  have hlasting := lasting_within hP hsignatures hbodies hnames
  have hvisit : Ends (visit P limit sig) s (fun _ => Bounded P admits start A U base)
      fun e _ => e ≠ .exhausted := by
    rw [ends_visit]
    refine (fullyResolve_bounded hP hsignatures hbodies hnames hlimit sig h).mono ?_ fun _ _ => id
    rintro o s₁ ⟨h₁, -⟩
    cases o with
    | error e => exact h₁.congr (hlasting.note _ h₁.toWithin) rfl rfl
    | ok m =>
      refine ⟨fun _ _ => h₁, fun _ _ => ?_, fun _ => ?_⟩
      · refine scanMethod_bounded hP hsignatures hbodies hnames hlimit hU m
          ⟨hlasting.congr h₁.toWithin rfl, h₁.work, fun u hu => ?_⟩
        exact OrderedSet.mem_toList_insert.2 (.inl (h₁.visited u hu))
      · exact scanMethod_bounded hP hsignatures hbodies hnames hlimit hU m h₁
  refine (hvisit.and (visit_fails P limit sig s)).mono (fun _ _ => And.left) ?_
  rintro e s' ⟨hx, hfault⟩
  exact hfault.resolve_right hx

omit hlimit in
/-- The seeds are declared by classes. -/
theorem seed_bounded (h : Bounded P admits start A U base s) :
    Ends (seed P) s (fun _ => Bounded P admits start A U base) fun _ _ => True := by
  have hlasting := lasting_within hP hsignatures hbodies hnames
  rw [ends_seed]
  refine Ends.forM (I := fun _ => Bounded P admits start A U base) (fun _ name _ _ s₁ h₁ => ?_)
    (fun _ => id) (h.congr (hlasting.congr h.toWithin rfl) rfl rfl)
  simp only [seedClass, ends_bind, ends_ask]
  have hw := hlasting.resolveClass name hsignatures h₁.toWithin
  rcases hr : s₁.resolver.resolveClass P name .signatures with ⟨e | c, r⟩
  · rw [hr] at hw
    simp only [ends_ite, ends_bind, ends_throw, ends_get, ends_pure, ends_modify, implies_true,
      true_and]
    intro _
    exact ⟨fun _ => h₁.congr (hlasting.diagnose _ _ _ hw) rfl rfl, fun _ => h₁.congr hw rfl rfl⟩
  · rw [hr] at hw
    refine ⟨hlasting.congr hw rfl, fun u hu => ?_, h₁.visited⟩
    replace hu : u ∈ (s₁.work.pushAll (c.methods.map Method.signature)).toList := hu
    rw [Queue.toList_pushAll, List.mem_append] at hu
    rcases hu with hu | hu
    · exact h₁.work u hu
    · obtain ⟨m, hm, rfl⟩ := List.mem_map.1 hu
      have hoffer := (h₁.resolver.resolveClass hP hsignatures hr).2 c rfl
      exact hU ⟨name, c, hoffer, m, hm, rfl⟩

/-! ### Rounds -/

/-- From a session in which all that can be queued is in a finite set, the rounds come to an end. -/
theorem exists_rounds (hfinite : U.Finite) (h : Bounded P admits start A U [] s) :
    ∃ visits o t, Rounds P limit s visits o t ∧
      (o = .ok () ∧ t.work.toList = [] ∨ ∃ e, o = .error e ∧ e.IsFault) ∧
      visits.Nodup ∧ ∀ sig ∈ visits, sig ∈ U ∧ sig ∉ s.visited.toList := by
  -- On the number of signatures that were not visited; for the same number, on the queue, which
  -- gets shorter if an entry is dropped.
  induction hcard : (U \ {sig | sig ∈ s.visited.toList}).ncard using Nat.strong_induction_on
    generalizing s with
  | _ card ihvisit =>
  induction hqueue : s.work.toList generalizing s with
  | nil =>
    exact ⟨[], .ok (), s, .done (Queue.pop?_eq_none_iff.2 hqueue), .inl ⟨rfl, hqueue⟩, .nil, nofun⟩
  | cons sig rest ihdrop =>
    rcases hpop : s.work.pop? with _ | ⟨sig', work⟩
    · rw [Queue.pop?_eq_none_iff.1 hpop] at hqueue
      cases hqueue
    have hlist := Queue.toList_of_pop? hpop
    rw [hqueue, List.cons.injEq] at hlist
    obtain ⟨rfl, hrest⟩ := hlist
    have hwork : ∀ u ∈ work.toList, u ∈ U := by
      intro u hu
      refine h.work u ?_
      rw [hqueue, hrest]
      exact List.mem_cons_of_mem sig hu
    have hlasting := lasting_within hP hsignatures hbodies hnames
    have hwithin : Within P admits start A (s.setWork work) := hlasting.congr h.toWithin rfl
    by_cases hv : sig ∈ s.visited.toList
    · obtain ⟨visits, o, t, hrounds, hend⟩ := ihdrop
        (⟨hwithin, hwork, nofun⟩ : Bounded P admits start A U [] (s.setWork work)) hcard hrest.symm
      exact ⟨visits, o, t, .drop hpop hv hrounds, hend⟩
    · have hsig : sig ∈ U := h.work sig (by rw [hqueue]; exact List.mem_cons_self)
      have h₀ : Bounded P admits start A U (sig :: s.visited.toList)
          ((s.setWork work).mark sig) := by
        refine ⟨hlasting.congr hwithin rfl, hwork, fun u hu => ?_⟩
        refine OrderedSet.mem_toList_insert.2 ?_
        rcases List.mem_cons.1 hu with rfl | hu
        · exact .inr rfl
        · exact .inl hu
      have hvisit := visit_bounded hP hsignatures hbodies hnames hlimit hU sig h₀
      rcases hrun : visit P limit sig ((s.setWork work).mark sig) with ⟨e | _, s₁⟩
      · refine ⟨[sig], .error e, s₁, .fail hpop hv hrun, .inr ⟨e, rfl, hvisit.error hrun⟩,
          List.nodup_singleton sig, fun u hu => ?_⟩
        cases List.mem_singleton.1 hu
        exact ⟨hsig, hv⟩
      · have h₁ := hvisit.ok hrun
        have hlt : (U \ {sig | sig ∈ s₁.visited.toList}).ncard < card := by
          rw [← hcard]
          refine Set.ncard_lt_ncard ⟨fun u hu => ⟨hu.1, fun hm => hu.2 ?_⟩, fun hsub => ?_⟩
            (hfinite.subset Set.sdiff_subset)
          · exact h₁.visited u (List.mem_cons_of_mem sig hm)
          · exact (hsub ⟨hsig, hv⟩).2 (h₁.visited sig List.mem_cons_self)
        obtain ⟨visits, o, t, hrounds, hend, hnodup, hvisits⟩ :=
          ihvisit _ hlt ⟨h₁.toWithin, h₁.work, nofun⟩ rfl
        refine ⟨sig :: visits, o, t, .visit hpop hv hrun hrounds, hend,
          List.nodup_cons.2 ⟨fun hm => ?_, hnodup⟩, fun u hu => ?_⟩
        · exact (hvisits sig hm).2 (h₁.visited sig List.mem_cons_self)
        · rcases List.mem_cons.1 hu with rfl | hu
          · exact ⟨hsig, hv⟩
          · obtain ⟨hmem, hnew⟩ := hvisits u hu
            exact ⟨hmem, fun hm => hnew (h₁.visited u (List.mem_cons_of_mem sig hm))⟩

end

/-- A session starts with nothing kept, so all that it ever keeps are answers of the provider. -/
theorem Reached.within {options : Options} {source : σ} (hP : P.FollowsAt options.Asks source A)
    (hnames : (A.names options.Asks).Finite) (h : Reached P options source s) :
    Within P options.Asks source A s := by
  have hlasting := lasting_within hP (.inl rfl) (.inr (.inl rfl)) hnames
  refine hlasting.reached (fun b hb => .inr (.inr ⟨b, hb, rfl⟩)) ⟨⟨.start, ?_⟩, ?_⟩ h
  · intro name c hc
    simp [Session.new] at hc
  · intro sig m hm
    simp [Session.new] at hm

end Session

/-! ### Circles -/

namespace Sample

/-- Two classes each of which is the superclass of the other, and whose methods call each other and
    a method that neither of them declares. -/
def circleClasses : List Class :=
  [{ name := ⟨"app.K"⟩, level := .bodies, flags := .isPublic, superclass := some ⟨"app.L"⟩
     interfaces := [⟨"api.Kernel"⟩]
     methods := [⟨signature "app.K" "run", .isPublic, some
      ⟨[call 0 (signature "app.L" "step"), call 3 (signature "app.L" "ghost"),
        ⟨6, 0xb1, none⟩], none⟩⟩] },
   { name := ⟨"app.L"⟩, level := .bodies, flags := .isPublic, superclass := some ⟨"app.K"⟩
     interfaces := []
     methods := [⟨signature "app.L" "step", .isPublic, some
      ⟨[call 0 (signature "app.L" "run"), ⟨3, 0xb1, none⟩], none⟩⟩] }]

/-- The answers of a provider that has the two classes. -/
def circleOracle : Oracle := .ofClasses circleClasses

/-- The session in which the traversal begins. -/
def circleSession : Session Unit :=
  (Session.loadSignatures circleOracle.toProvider
    ((Session.new options ()).ingest paths)).2.detectEntryPoints

theorem reached_circleSession :
    Session.Reached circleOracle.toProvider options () circleSession :=
  .detectEntryPoints (.loadSignatures (.ingest paths .new))

theorem finite_names_circleOracle : (circleOracle.names options.Asks).Finite :=
  Oracle.finite_names_ofClasses circleClasses options.Asks

end Sample

namespace Session

variable {σ : Type} {P : Provider σ} {A : Oracle} {s : Session σ}

/-- Let the provider give the same answer to the same request, and let it have finitely many
    classes, whatever they call and name as their superclasses. From every session, a traversal that
    is not called off comes to an end, which does not depend on the bound on its steps: its queue is
    empty, or the provider is at fault. The signatures that it visits differ from each other, and
    are among those that were in the queue or are declared by the classes, which are finitely many.
    No search for a method looks at more classes than there are, and one. -/
theorem traverse_terminates {options : Options} {source : σ}
    (hP : P.FollowsAt options.Asks source A) (hnames : (A.names options.Asks).Finite)
    (h : Reached P options source s) :
    ({sig | sig ∈ s.work.toList} ∪ A.declared options.Asks).Finite ∧
    ∃ n o t, (∀ fuel, n ≤ fuel → traverse P fuel none s = (o, t)) ∧
      (o = .ok () ∧ t.work.toList = [] ∨ ∃ e, o = .error e ∧ e.IsFault) ∧
      ∀ s₁, seed P s = (.ok (), s₁) → ∃ visits,
        Rounds P ((A.names options.Asks).ncard + 1) s₁ visits o t ∧ visits.Nodup ∧
        (∀ sig ∈ visits, sig ∈ s.work.toList ∨ sig ∈ A.declared options.Asks) ∧
        visits.length ≤ ({sig | sig ∈ s.work.toList} ∪ A.declared options.Asks).ncard := by
  set U := {sig | sig ∈ s.work.toList} ∪ A.declared options.Asks
  have hfinite : U.Finite :=
    s.work.toList.finite_toSet.union (Oracle.finite_declared hnames options.finite_asks)
  refine ⟨hfinite, ?_⟩
  have hbounded : Bounded P options.Asks source A U [] s :=
    ⟨h.within hP hnames, fun _ => .inl, nofun⟩
  have hdeclared : A.declared options.Asks ⊆ U := Set.subset_union_right
  have hseed := seed_bounded hP (.inl rfl) (.inr (.inl rfl)) hnames hdeclared hbounded
  rcases hrun : seed P s with ⟨e | _, s₁⟩
  · refine ⟨0, .error e, s₁, fun fuel _ => ?_, .inr ⟨e, rfl, (seed_fails P s).error hrun⟩, nofun⟩
    rw [traverse, bind_apply, hrun]
  · obtain ⟨visits, o, t, hrounds, hend, hnodup, hvisits⟩ :=
      exists_rounds hP (.inl rfl) (.inr (.inl rfl)) hnames (Nat.lt_succ_self _) hdeclared hfinite
        (hseed.ok hrun)
    have ho : o ≠ .error .exhausted := by
      rintro rfl
      obtain ⟨hok, -⟩ | ⟨e, he, hfault⟩ := hend
      · cases hok
      · cases he
        exact hfault.elim
    obtain ⟨n, hdrain⟩ := hrounds.drain_eq ho
    -- The bound on the steps is the bound on the searches, too.
    refine ⟨max n ((A.names options.Asks).ncard + 1), o, t, fun fuel hfuel => ?_, hend, ?_⟩
    · rw [traverse, bind_apply, hrun]
      exact hdrain fuel fuel (le_of_max_le_right hfuel) (le_of_max_le_left hfuel)
    · rintro _ ⟨⟩
      have hmem : ∀ sig ∈ visits, sig ∈ U := fun sig hsig => (hvisits sig hsig).1
      refine ⟨visits, hrounds, hnodup, hmem, ?_⟩
      rw [← List.toFinset_card_of_nodup hnodup, ← Set.ncard_coe_finset]
      refine Set.ncard_le_ncard (fun sig hsig => hmem sig ?_) hfinite
      simpa using hsig

/-- So it is with the two classes, although a search for `ghost` goes round in a circle, and so do
    the calls. -/
theorem traverse_terminates_sample :
    let P := Sample.circleOracle.toProvider
    let classes := Sample.circleOracle.names Sample.options.Asks
    let methods := Sample.circleOracle.declared Sample.options.Asks
    classes.Finite ∧ Reached P Sample.options () Sample.circleSession ∧
    ∃ n o t, (∀ fuel, n ≤ fuel → traverse P fuel none Sample.circleSession = (o, t)) ∧
      (o = .ok () ∧ t.work.toList = [] ∨ ∃ e, o = .error e ∧ e.IsFault) ∧
      ∀ s₁, seed P Sample.circleSession = (.ok (), s₁) → ∃ visits,
        Rounds P (classes.ncard + 1) s₁ visits o t ∧ visits.Nodup ∧
        (∀ sig ∈ visits, sig ∈ Sample.circleSession.work.toList ∨ sig ∈ methods) ∧
        visits.length ≤ ({sig | sig ∈ Sample.circleSession.work.toList} ∪ methods).ncard := by
  refine ⟨Sample.finite_names_circleOracle, Sample.reached_circleSession, ?_⟩
  have hfollows : Sample.circleOracle.toProvider.FollowsAt Sample.options.Asks ()
      Sample.circleOracle := Sample.circleOracle.follows_toProvider.classes.followsAt (by decide)
  exact (traverse_terminates hfollows Sample.finite_names_circleOracle
    Sample.reached_circleSession).2

end Session

end KernelReach
