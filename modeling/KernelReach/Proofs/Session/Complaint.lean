import KernelReach.Proofs.Session.Analysis
import KernelReach.Proofs.Session.Failure
import KernelReach.Proofs.Session.Journal

/-!
# Why an analysis fails

Much can be missing in a program: classes, methods, bodies, even the superclass in which a method is
looked for. None of this ends an analysis. It ends early only if it is called off, or because of the
last answer that the provider gave: a failure, or a class below the level that was asked for. All
other answers, before that one or in an analysis that succeeds, are fit to go on with
(`findKernels_explained`).

* `Provider.Call.complaint?`: the complaint about a call that ends an analysis;
* `Resolver.Lenient`: only what is unavailable is kept as a miss, so that no failure comes from a
  cache;
* `Session.Explains`: the rule for the steps of a session.
-/

namespace KernelReach

namespace Provider

variable {j j₁ j₂ : List Provider.Call} {call : Provider.Call} {e : AnalysisError}

/-- The complaint about a call after which an analysis cannot go on. -/
def Call.complaint? : Call → Option AnalysisError
  | resolve name level (.ok c) =>
    if c.level < level then some (.belowLevel name c.level level) else none
  | resolve name _ (.error e) => if e.isUnavailable then none else some (.resolving name e.message)
  | retrieveBody _ (.ok _) => none
  | retrieveBody _ (.error e) => if e.isUnavailable then none else some (.provider e)

theorem Call.isFault_of_complaint? (h : call.complaint? = some e) : e.IsFault := by
  cases call with
  | resolve name level answer =>
    rcases answer with f | c
    · obtain ⟨-, rfl⟩ := by simpa [complaint?] using h
      trivial
    · obtain ⟨-, rfl⟩ := by simpa [complaint?] using h
      trivial
  | retrieveBody m answer =>
    rcases answer with f | b
    · rcases f with ⟨lack, message⟩ | message
      · simp [complaint?, ProviderError.isUnavailable] at h
      · obtain rfl := by simpa [complaint?, ProviderError.isUnavailable] using h
        trivial
    · simp [complaint?] at h

/-- The journal goes on, with answers that are fit to go on with. -/
def GoesWell (j j' : List Call) : Prop :=
  ∃ calls, j' = j ++ calls ∧ ∀ call ∈ calls, call.complaint? = none

/-- The journal goes on up to the call that `e` is the complaint about. -/
def GoesWrong (e : AnalysisError) (j j' : List Call) : Prop :=
  ∃ j₁ call, GoesWell j j₁ ∧ j' = j₁ ++ [call] ∧ call.complaint? = some e

theorem GoesWell.refl (j : List Call) : GoesWell j j := ⟨[], by simp, by simp⟩

theorem GoesWell.trans (h : GoesWell j j₁) (h' : GoesWell j₁ j₂) : GoesWell j j₂ := by
  obtain ⟨calls, rfl, hcalls⟩ := h
  obtain ⟨calls', rfl, hcalls'⟩ := h'
  refine ⟨calls ++ calls', by rw [List.append_assoc], fun call hc => ?_⟩
  rcases List.mem_append.1 hc with hc | hc
  · exact hcalls call hc
  · exact hcalls' call hc

theorem GoesWell.wrong (h : GoesWell j j₁) (h' : GoesWrong e j₁ j₂) : GoesWrong e j j₂ := by
  obtain ⟨j₃, call, hwell, rfl, hcall⟩ := h'
  exact ⟨j₃, call, h.trans hwell, rfl, hcall⟩

theorem goesWell_push (h : call.complaint? = none) : GoesWell j (j ++ [call]) :=
  ⟨[call], rfl, by simpa using h⟩

theorem goesWrong_push (h : call.complaint? = some e) : GoesWrong e j (j ++ [call]) :=
  ⟨j, call, .refl j, rfl, h⟩

/-- The journal accounts for what comes of a question: something that is unavailable is no reason to
    complain about a call, and any other failure is the complaint about the last one. -/
def Accounts {α : Type} (j j' : List Call) : Except AnalysisError α → Prop
  | .ok _ => GoesWell j j'
  | .error e => GoesWell j j' ∧ (e.isUnavailable = true ∨ e = .exhausted) ∨ GoesWrong e j j'

theorem GoesWell.accounts {α : Type} {o : Except AnalysisError α} (h : GoesWell j j₁)
    (h' : Accounts j₁ j₂ o) : Accounts j j₂ o := by
  cases o with
  | ok a => exact h.trans h'
  | error e => exact h'.imp (And.imp_left h.trans) h.wrong

theorem GoesWrong.isFault (h : GoesWrong e j j₁) : e.IsFault := by
  obtain ⟨_, _, _, _, hcall⟩ := h
  exact Call.isFault_of_complaint? hcall

end Provider

theorem AnalysisError.IsFault.not_unavailable {e : AnalysisError} (h : e.IsFault) :
    e.isUnavailable = false := by
  cases e with
  | provider e =>
    cases e with
    | unavailable => exact h.elim
    | fatal => rfl
  | _ => first | rfl | exact h.elim

/-! ### Questions to the resolver -/

namespace Resolver

open Provider (Accounts GoesWell GoesWrong goesWell_push goesWrong_push)

variable {σ : Type} {P : Provider σ} {name : ClassName} {level : Level} {sig : Signature}
  {fuel : Nat}

/-- What the resolver keeps as a miss was unavailable. -/
def Lenient (r : Resolver σ) : Prop :=
  ∀ (name : ClassName) (m : Miss), r.misses[name]? = some m → m.error.isUnavailable = true

theorem Answer.lenient {r r' : Resolver σ} {a : Except AnalysisError Class}
    (h : Answer P name level r a r') (hr : r.Lenient) : r'.Lenient := by
  cases h with
  | known | missed | found | low | fatal => exact hr
  | @unavailable e s _ _ he =>
    intro n m hm
    rw [keepMiss_misses, asked_misses, Std.HashMap.getElem?_insert] at hm
    split_ifs at hm with hn
    · cases hm
      exact he
    · exact hr n m hm

theorem Lenient.resolveClass {r : Resolver σ} (h : r.Lenient) (P : Provider σ) (name : ClassName)
    (level : Level) : (r.resolveClass P name level).2.Lenient :=
  (answer_resolveClass P name level r).lenient h

variable {r r' : Resolver (σ × List Provider.Call)}

theorem Answer.accounts {a : Except AnalysisError Class} (h : Answer P.recorded name level r a r')
    (hr : r.Lenient) : Accounts r.source.2 r'.source.2 a := by
  cases h with
  | known => exact .refl _
  | missed _ hm _ =>
    refine .inl ⟨.refl _, .inl ?_⟩
    rw [AnalysisError.isUnavailable_provider, hr _ _ hm]
  | found _ hp hl =>
    have hjournal := Provider.journal_of_resolve hp
    simp only [asked, keep, hjournal]
    exact goesWell_push (by simp [Provider.Call.complaint?, hl])
  | low _ hp hl =>
    have hjournal := Provider.journal_of_resolve hp
    simp only [asked, hjournal]
    exact .inr (goesWrong_push (by simp [Provider.Call.complaint?, hl]))
  | unavailable _ hp he =>
    have hjournal := Provider.journal_of_resolve hp
    simp only [asked, keepMiss, hjournal]
    refine .inl ⟨goesWell_push (by simp [Provider.Call.complaint?, he]), .inl ?_⟩
    rw [AnalysisError.isUnavailable_provider, he]
  | fatal _ hp he =>
    have hjournal := Provider.journal_of_resolve hp
    simp only [asked, hjournal]
    exact .inr (goesWrong_push (by simp [Provider.Call.complaint?, he]))

theorem accounts_resolveClass (P : Provider σ) (name : ClassName) (level : Level)
    (hr : r.Lenient) :
    Accounts r.source.2 (r.resolveClass P.recorded name level).2.source.2
      (r.resolveClass P.recorded name level).1 :=
  (answer_resolveClass P.recorded name level r).accounts hr

theorem Search.accounts {o : Except AnalysisError Method} {seen : List ClassName} {c : Class}
    (h : Search P.recorded sig fuel seen c r o r') (hr : r.Lenient) :
    Accounts r.source.2 r'.source.2 o := by
  induction h with
  | exhausted => exact .inl ⟨.refl _, .inr rfl⟩
  | found => exact GoesWell.refl _
  | top | circle => exact .inl ⟨.refl _, .inl rfl⟩
  | @unavailable _ _ _ _ superclass _ _ _ _ _ hrun hu =>
    -- A superclass that is unavailable is a method that is not found.
    have hask := accounts_resolveClass P superclass .signatures hr
    rw [hrun] at hask
    refine .inl ⟨hask.elim And.left fun hwrong => ?_, .inl rfl⟩
    rw [hwrong.isFault.not_unavailable] at hu
    cases hu
  | @failed _ _ _ _ superclass _ _ _ _ _ hrun =>
    have hask := accounts_resolveClass P superclass .signatures hr
    rwa [hrun] at hask
  | @up _ _ _ _ superclass _ _ _ _ _ _ _ hrun _ ih =>
    have hask := accounts_resolveClass P superclass .signatures hr
    have hlenient := hr.resolveClass P.recorded superclass .signatures
    rw [hrun] at hask hlenient
    exact GoesWell.accounts hask (ih hlenient)

theorem Lenient.askAll {r : Resolver σ} (h : r.Lenient) (P : Provider σ)
    (asks : List (ClassName × Level)) : (r.askAll P asks).Lenient :=
  askAll_keeps (fun ask _ _ h => h.resolveClass P ask.1 ask.2) h

theorem Lenient.resolveMethod {r : Resolver σ} (h : r.Lenient) (P : Provider σ) (fuel : Nat)
    (sig : Signature) : (r.resolveMethod P fuel sig).2.Lenient := by
  have heq := (Request.resolveMethod fuel sig).perform_eq P r
  rw [Request.perform] at heq
  rw [heq]
  exact h.askAll P _

/-- A class that was raised is searched, so there is no complaint that it is not known well
    enough. -/
theorem accounts_of_resolveBodies {c : Class} {r'' : Resolver (σ × List Provider.Call)}
    {o : Except AnalysisError Method} (hr : r.Lenient)
    (h : r.resolveBodies P.recorded sig.owner = (.ok c, r'))
    (h' : r'.resolveMethod P.recorded fuel sig = (o, r'')) :
    Accounts r.source.2 r''.source.2 o := by
  have hbodies := accounts_resolveClass P sig.owner .bodies hr
  have hlenient := hr.resolveClass P.recorded sig.owner .bodies
  have ha := answer_resolveClass P.recorded sig.owner .bodies r
  rw [show r.resolveClass P.recorded sig.owner .bodies = _ from h] at ha hbodies hlenient
  obtain ⟨hc, hl⟩ := ha.getElem?_of_ok
  have hle : .signatures ≤ c.level := le_trans (by decide) hl
  simp only [Resolver.resolveMethod, hc, hle, if_true] at h'
  exact GoesWell.accounts hbodies ((search_iff.2 h').accounts hlenient)

theorem Lenient.of_resolveBodies {r r' : Resolver σ} {a : Except AnalysisError Class}
    (hr : r.Lenient) (h : r.resolveBodies P name = (a, r')) : r'.Lenient := by
  have hlenient := hr.resolveClass P name .bodies
  rwa [show r.resolveClass P name .bodies = _ from h] at hlenient

theorem Lenient.of_resolveMethod {r r' : Resolver σ} {o : Except AnalysisError Method}
    (hr : r.Lenient) (h : r.resolveMethod P fuel sig = (o, r')) : r'.Lenient := by
  have hlenient := hr.resolveMethod P fuel sig
  rwa [h] at hlenient

/-- What comes of the search for a concrete method is accounted for. -/
theorem Located.accounts {o : Except AnalysisError Method}
    (h : Located P.recorded fuel sig r o r') (hr : r.Lenient) :
    Accounts r.source.2 r'.source.2 o := by
  have hclass {r r' : Resolver (σ × List Provider.Call)} {name : ClassName} {e : AnalysisError}
      (hr : r.Lenient) (h : r.resolveBodies P.recorded name = (.error e, r')) :
      Accounts r.source.2 r'.source.2 (.error e : Except AnalysisError Method) := by
    have hask := accounts_resolveClass P name .bodies hr
    rw [show r.resolveClass P.recorded name .bodies = _ from h] at hask
    exact hask
  cases h with
  | noClass h₁ => exact hclass hr h₁
  | noMethod h₁ h₂ | declared h₁ h₂ => exact accounts_of_resolveBodies hr h₁ h₂
  | notConcrete h₁ h₂ => exact .inl ⟨accounts_of_resolveBodies hr h₁ h₂, .inl rfl⟩
  | noOwner h₁ h₂ _ _ h₃ =>
    have hr₂ := (hr.of_resolveBodies h₁).of_resolveMethod h₂
    exact GoesWell.accounts (accounts_of_resolveBodies hr h₁ h₂) (hclass hr₂ h₃)
  | inherited h₁ h₂ _ _ h₃ h₄ =>
    have hr₂ := (hr.of_resolveBodies h₁).of_resolveMethod h₂
    exact GoesWell.accounts (accounts_of_resolveBodies hr h₁ h₂)
      (accounts_of_resolveBodies hr₂ h₃ h₄)

theorem accounts_body (P : Provider σ) (m : Method) (r : Resolver (σ × List Provider.Call)) :
    Accounts r.source.2 (r.body P.recorded m).2.source.2 (r.body P.recorded m).1 := by
  simp only [body, Provider.recorded]
  rcases (P.retrieveBody m r.source.1).1 with e | b
  · by_cases he : e.isUnavailable = true
    · refine .inl ⟨goesWell_push (by simp [Provider.Call.complaint?, he]), .inl ?_⟩
      rw [AnalysisError.isUnavailable_provider, he]
    · exact .inr (goesWrong_push (by simp [Provider.Call.complaint?, he]))
  · exact goesWell_push rfl

end Resolver

namespace Session

open Provider (Accounts GoesWell GoesWrong)

variable {σ α β : Type} {P : Provider σ} {patience : Option Nat}

/-- Every session keeps as misses only what was unavailable. -/
theorem lasting_lenient (P : Provider σ) :
    Lasting P (fun _ => True) fun s : Session σ => s.resolver.Lenient where
  signatures := trivial
  bodies := trivial
  congr h hcore := by
    simp only [core, Prod.mk.injEq] at hcore
    exact hcore.2.2.2.2.1 ▸ h
  note _ h := h
  resolveClass name level _ h := h.resolveClass P name level
  body _ h := h
  remember _ _ _ h := h
  keeps h _ hr _ := hr ▸ h

theorem Reached.lenient {options : Options} {source : σ} {s : Session σ}
    (h : Reached P options source s) : s.resolver.Lenient := by
  refine (lasting_lenient P).reached (fun _ _ => trivial) ?_ h
  intro name m hm
  simp [Session.new] at hm

/-! ### The steps of a session -/

/-- The step fails with the complaint about the last call of the provider, or it was stopped by the
    bound on the steps or, if the patience is limited, by someone who has lost it. Apart from that
    last call, all answers of the provider were fit to go on with. -/
def Explains (patience : Option Nat) (x : SessionM (σ × List Provider.Call) α) : Prop :=
  ∀ s, s.resolver.Lenient →
    Ends x s (fun _ s' => s'.resolver.Lenient ∧ GoesWell s.journal s'.journal)
      fun e s' => GoesWrong e s.journal s'.journal ∨
        GoesWell s.journal s'.journal ∧ (e = .exhausted ∨ e = .canceled ∧ patience ≠ none)

namespace Explains

theorem pure (a : α) :
    Explains patience (Pure.pure a : SessionM (σ × List Provider.Call) α) :=
  fun _ hs => ⟨hs, .refl _⟩

/-- A change of the session that has nothing to do with the provider. -/
theorem modify {f : Session (σ × List Provider.Call) → Session (σ × List Provider.Call)}
    (hm : ∀ s, (f s).resolver.misses = s.resolver.misses) (hj : ∀ s, (f s).journal = s.journal) :
    Explains patience (modify f) := by
  intro s hs
  refine ⟨?_, (hj s).symm ▸ .refl _⟩
  rw [Resolver.Lenient, hm s]
  exact hs

theorem bind {x : SessionM (σ × List Provider.Call) α}
    {f : α → SessionM (σ × List Provider.Call) β} (hx : Explains patience x)
    (hf : ∀ a, Explains patience (f a)) : Explains patience (x >>= f) := by
  intro s hs
  rw [ends_bind]
  refine (hx s hs).mono ?_ fun _ _ => id
  rintro a s₁ ⟨hs₁, hwell⟩
  refine (hf a s₁ hs₁).mono ?_ ?_
  · rintro b s₂ ⟨hs₂, hwell'⟩
    exact ⟨hs₂, hwell.trans hwell'⟩
  · exact fun e s₂ h => h.imp hwell.wrong (And.imp_left hwell.trans)

theorem get {f : Session (σ × List Provider.Call) → SessionM (σ × List Provider.Call) α}
    (hf : ∀ s, Explains patience (f s)) : Explains patience (MonadState.get >>= f) :=
  fun s hs => hf s s hs

theorem ite {p : Prop} [Decidable p] {x y : SessionM (σ × List Provider.Call) α}
    (hx : p → Explains patience x) (hy : ¬p → Explains patience y) :
    Explains patience (if p then x else y) := by
  by_cases hp : p
  · simpa only [hp, if_true] using hx hp
  · simpa only [hp, if_false] using hy hp

theorem forM {f : α → SessionM (σ × List Provider.Call) PUnit}
    (hf : ∀ a, Explains patience (f a)) (l : List α) : Explains patience (l.forM f) := by
  induction l with
  | nil => exact pure _
  | cons a l ih => exact (hf a).bind fun _ => ih

/-- A question to the resolver, with a step that goes on after an answer or without what is
    unavailable, and passes on any other failure. -/
theorem ask {q : Resolver (σ × List Provider.Call) →
      Except AnalysisError α × Resolver (σ × List Provider.Call)}
    {f : Except AnalysisError α → SessionM (σ × List Provider.Call) β}
    (hq : ∀ r, r.Lenient → (q r).2.Lenient ∧ Accounts r.source.2 (q r).2.source.2 (q r).1)
    (hok : ∀ a, Explains patience (f (.ok a)))
    (hunavailable : ∀ e, e.isUnavailable = true → Explains patience (f (.error e)))
    (hfault : ∀ e, e.isUnavailable = false → f (.error e) = throw e) :
    Explains patience (Session.ask q >>= f) := by
  intro s hs
  obtain ⟨hlenient, haccounts⟩ := hq s.resolver hs
  simp only [ends_bind, ends_ask]
  -- Whatever comes after the question, the journal has gone well until then.
  have hnext {x : SessionM (σ × List Provider.Call) β} (hx : Explains patience x)
      (hwell : GoesWell s.journal (s.setResolver (q s.resolver).2).journal) :
      Ends x (s.setResolver (q s.resolver).2)
        (fun _ s' => s'.resolver.Lenient ∧ GoesWell s.journal s'.journal)
        fun e s' => GoesWrong e s.journal s'.journal ∨
          GoesWell s.journal s'.journal ∧ (e = .exhausted ∨ e = .canceled ∧ patience ≠ none) :=
    (hx _ hlenient).mono (fun _ _ h => ⟨h.1, hwell.trans h.2⟩)
      fun _ _ h => h.imp hwell.wrong (And.imp_left hwell.trans)
  rcases ha : (q s.resolver).1 with e | a
  · rw [ha] at haccounts
    rcases haccounts with ⟨hwell, hu | rfl⟩ | hwrong
    · exact hnext (hunavailable e hu) hwell
    · rw [hfault _ (by decide)]
      exact .inr ⟨hwell, .inl rfl⟩
    · rw [hfault e hwrong.isFault.not_unavailable]
      exact .inl hwrong
  · rw [ha] at haccounts
    exact hnext (hok a) haccounts

/-- A class that is unavailable is noted or passed over. -/
theorem resolveClass (P : Provider σ) (name : ClassName) (level : Level)
    {f : Except AnalysisError Class → SessionM (σ × List Provider.Call) β}
    (hok : ∀ a, Explains patience (f (.ok a)))
    (hunavailable : ∀ e, e.isUnavailable = true → Explains patience (f (.error e)))
    (hfault : ∀ e, e.isUnavailable = false → f (.error e) = throw e) :
    Explains patience (Session.ask (·.resolveClass P.recorded name level) >>= f) :=
  .ask (fun _ hr => ⟨hr.resolveClass _ name level, Resolver.accounts_resolveClass P name level hr⟩)
    hok hunavailable hfault

/-- So is a body. -/
theorem body (P : Provider σ) (m : Method)
    {f : Except AnalysisError Body → SessionM (σ × List Provider.Call) β}
    (hok : ∀ a, Explains patience (f (.ok a)))
    (hunavailable : ∀ e, e.isUnavailable = true → Explains patience (f (.error e)))
    (hfault : ∀ e, e.isUnavailable = false → f (.error e) = throw e) :
    Explains patience (Session.ask (·.body P.recorded m) >>= f) :=
  .ask (fun r hr => ⟨hr, Resolver.accounts_body P m r⟩) hok hunavailable hfault

end Explains

/-- A lookup fails only with a complaint. What is unavailable is remembered, and is its outcome. -/
theorem fullyResolve_explains (P : Provider σ) (fuel : Nat) (sig : Signature) :
    Explains patience (fullyResolve P.recorded fuel sig) := by
  intro s hs
  have hlookup := (fullyResolve_ends P.recorded fuel sig s).and
    ((lasting_lenient P.recorded).fullyResolve_keeps fuel sig s hs)
  have hn : (s.resolver.note (.resolvingToBodies sig.owner)).Lenient := hs
  refine hlookup.mono ?_ ?_
  · rintro o s' ⟨⟨-, rfl⟩ | ⟨-, hu, r, rfl, hr⟩, hs'⟩
    · exact ⟨hs', .refl _⟩
    · refine ⟨hs', ?_⟩
      have haccounts := hr.accounts hn
      cases o with
      | ok m => exact haccounts
      | error e =>
        refine haccounts.elim And.left fun hwrong => ?_
        have hu := hu e rfl
        rw [hwrong.isFault.not_unavailable] at hu
        cases hu
  · rintro e s' ⟨⟨-, hu, r, rfl, hr⟩, -⟩
    rcases hr.accounts hn with ⟨hwell, hu' | he⟩ | hwrong
    · rw [hu] at hu'
      cases hu'
    · exact .inr ⟨hwell, .inl he⟩
    · exact .inl hwrong

theorem scanCall_explains (P : Provider σ) (fuel : Nat) (caller : Signature) (offset : Nat)
    (c : Invocation) : Explains patience (scanCall P.recorded fuel caller offset c) := by
  refine .bind (.modify (fun _ => rfl) fun _ => rfl) fun _ =>
    (fullyResolve_explains P fuel c.target).bind fun o => ?_
  cases o with
  | error e => exact .modify (fun _ => rfl) fun _ => rfl
  | ok callee =>
    refine .body P callee (fun b => ?_) (fun e hu => ?_) fun e hu => ?_
    · exact .bind (.modify (fun _ => rfl) fun _ => rfl) fun _ => .modify (fun _ => rfl) fun _ => rfl
    · simp only [hu, if_true]
      exact .modify (fun _ => rfl) fun _ => rfl
    · simp only [hu, Bool.false_eq_true, if_false]

theorem scan_explains (P : Provider σ) (fuel : Nat) (caller : Signature) (b : Body) :
    Explains patience (scan P.recorded fuel caller b) := by
  refine .bind (.forM (fun i => ?_) b.instructions) fun _ => ?_
  · unfold scanInstruction
    split
    · exact scanCall_explains P fuel caller i.offset _
    · exact .pure _
  · split
    · exact .modify (fun _ => rfl) fun _ => rfl
    · exact .pure _

theorem scanMethod_explains (P : Provider σ) (fuel : Nat) (m : Method) :
    Explains patience (scanMethod P.recorded fuel m) := by
  refine .body P m (fun b => ?_) (fun e hu => ?_) fun e hu => ?_
  · exact .bind (.modify (fun _ => rfl) fun _ => rfl) fun _ => scan_explains P fuel m.signature b
  · simp only [hu, if_true]
    exact .modify (fun _ => rfl) fun _ => rfl
  · simp only [hu, Bool.false_eq_true, if_false]

theorem visit_explains (P : Provider σ) (fuel : Nat) (sig : Signature) :
    Explains patience (visit P.recorded fuel sig) := by
  rw [visit_eq]
  refine (fullyResolve_explains P fuel sig).bind fun o => ?_
  cases o with
  | error e => exact .modify (fun _ => rfl) fun _ => rfl
  | ok m =>
    refine .ite (fun _ => .get fun s => .ite (fun _ => .pure _) fun _ => ?_) fun _ =>
      scanMethod_explains P fuel m
    exact .bind (.modify (fun _ => rfl) fun _ => rfl) fun _ => scanMethod_explains P fuel m

/-- The worklist adds two ways to stop: its bound, and the one who has lost patience. -/
theorem drain_explains (P : Provider σ) (limit fuel : Nat) (patience : Option Nat) :
    Explains patience (drain P.recorded limit fuel patience) := by
  -- The rounds count down the patience, but whether it is limited does not change.
  suffices H : ∀ fuel patience', (patience' ≠ none → patience ≠ none) →
      Explains patience (drain P.recorded limit fuel patience') from H fuel patience id
  intro fuel
  induction fuel with
  | zero => exact fun _ _ s _ => .inr ⟨.refl _, .inl rfl⟩
  | succ fuel ih =>
    intro patience' hpatience s hs
    have hnext : patience'.map (· - 1) ≠ none → patience ≠ none := by
      intro hne
      refine hpatience fun hnone => hne ?_
      rw [hnone]
      rfl
    unfold Ends
    rw [drain]
    by_cases hp : patience' = some 0
    · simp only [hp, if_true]
      exact .inr ⟨.refl _, .inr ⟨trivial, hpatience (by simp [hp])⟩⟩
    · simp only [hp, if_false]
      rcases s.work.pop? with _ | ⟨sig, work⟩
      · exact ⟨hs, .refl _⟩
      · by_cases hv : s.visited.contains sig = true
        · simp only [hv, if_true]
          exact ih _ hnext { s with work } hs
        · simp only [hv, Bool.false_eq_true, if_false]
          have hexplains : Explains patience (visit P.recorded limit sig) :=
            visit_explains P limit sig
          have hvisit := hexplains { s with work, visited := s.visited.insert sig } hs
          rcases hr : visit P.recorded limit sig
            { s with work, visited := s.visited.insert sig } with ⟨e | _, s₁⟩
          · exact hvisit.error hr
          · obtain ⟨hs₁, hwell⟩ := hvisit.ok hr
            exact (ih _ hnext s₁ hs₁).mono (fun _ _ h => ⟨h.1, GoesWell.trans hwell h.2⟩)
              fun _ _ h => h.imp (GoesWell.wrong hwell) (And.imp_left (GoesWell.trans hwell))

theorem traverse_explains (P : Provider σ) (fuel : Nat) (patience : Option Nat) :
    Explains patience (traverse P.recorded fuel patience) := by
  refine .bind ?_ fun _ => drain_explains P fuel fuel patience
  refine .bind (.modify (fun _ => rfl) fun _ => rfl) fun _ => .get fun s => .forM (fun name => ?_) _
  refine .resolveClass P name .signatures (fun c => ?_) (fun e hu => ?_) fun e hu => ?_
  · exact .modify (fun _ => rfl) fun _ => rfl
  · simp only [hu, Bool.not_true, Bool.false_eq_true, if_false]
    exact .get fun s => .ite (fun _ => .modify (fun _ => rfl) fun _ => rfl) fun _ => .pure _
  · simp only [hu, Bool.not_false, if_true]
    rfl

theorem loadSignatures_explains (P : Provider σ) :
    Explains patience (loadSignatures P.recorded) := by
  refine .bind (.modify (fun _ => rfl) fun _ => rfl) fun _ => .get fun s => .forM (fun name => ?_) _
  refine .bind (.modify (fun _ => rfl) fun _ => rfl) fun _ =>
    .resolveClass P name .signatures (fun c => ?_) (fun e hu => ?_) fun e hu => ?_
  · exact .modify (fun _ => rfl) fun _ => rfl
  · simp only [hu, if_true]
    exact .modify (fun _ => rfl) fun _ => rfl
  · simp only [hu, Bool.false_eq_true, if_false]

theorem loadBuiltins_explains (P : Provider σ) :
    Explains patience (loadBuiltins P.recorded) := by
  refine .get fun s => .forM (fun b => ?_) _
  refine .resolveClass P b.name b.level (fun c => ?_) (fun e hu => ?_) fun e hu => ?_
  · exact .pure _
  · simp only [hu, if_true]
    exact .modify (fun _ => rfl) fun _ => rfl
  · simp only [hu, Bool.false_eq_true, if_false]

/-! ### The whole analysis -/

theorem detectEntryPoints_resolver (s : Session σ) :
    s.detectEntryPoints.resolver.misses = s.resolver.misses ∧
      s.detectEntryPoints.resolver.source = s.resolver.source := by
  have hfold (l : List Class) : ∀ s : Session σ,
      (l.foldl detectKernel s).resolver.misses = s.resolver.misses ∧
        (l.foldl detectKernel s).resolver.source = s.resolver.source := by
    induction l with
    | nil => exact fun s => ⟨rfl, rfl⟩
    | cons c l ih =>
      intro s
      have hstep : (s.detectKernel c).resolver.misses = s.resolver.misses ∧
          (s.detectKernel c).resolver.source = s.resolver.source := by
        unfold detectKernel
        dsimp only
        split
        · split <;> exact ⟨rfl, rfl⟩
        · exact ⟨rfl, rfl⟩
      exact ⟨(ih _).1.trans hstep.1, (ih _).2.trans hstep.2⟩
  exact hfold s.loaded.toList s

theorem analyze_explains (P : Provider σ) (fuel : Nat) (patience : Option Nat) :
    Explains patience (analyze P.recorded fuel patience) := by
  have hrest : Explains patience (do
      modify Session.detectEntryPoints
      loadBuiltins P.recorded
      traverse P.recorded fuel patience
      modify augmentEntryPoints) :=
    .bind (.modify (fun s => (detectEntryPoints_resolver s).1)
      fun s => congrArg Prod.snd (detectEntryPoints_resolver s).2) fun _ =>
      (loadBuiltins_explains P).bind fun _ => (traverse_explains P fuel patience).bind fun _ =>
        .modify (fun _ => rfl) fun _ => rfl
  exact .get fun s => .ite (fun _ => (loadSignatures_explains P).bind fun _ => hrest) fun _ => hrest

/-- Whatever the provider answers, whatever the options are and whatever was done with the session:
    an analysis does the same if a journal of the calls of its provider is kept, and if it succeeds
    then all answers in the journal were fit to go on with. If it fails, and not because of the
    bound on its steps, then it was called off, or the last answer in the journal is a failure of
    the provider or a class below the level that was asked for, of which it complains, and all
    answers before that one were fit to go on with. It does not fail because something is
    unavailable, and not because a method is looked for in a class that is not known well enough. -/
theorem findKernels_explained {options : Options} {source : σ} {s s' : Session σ}
    (h : Reached P options source s) {fuel : Nat} {patience : Option Nat}
    {outcome : Except PhaseError Unit} (hrun : findKernels P fuel patience s = (outcome, s')) :
    let run := findKernels P.recorded fuel patience s.record
    (run.1, run.2.mapSource Prod.fst) = (outcome, s') ∧
    (outcome = .ok () → ∀ call ∈ run.2.journal, call.complaint? = none) ∧
    ∀ e, outcome = .error e → e.cause ≠ .exhausted →
      e.cause.isUnavailable = false ∧ (∀ sig, e.cause ≠ .levelTooLow sig) ∧
      (e.cause = .canceled ∧ patience ≠ none ∨
        ∃ calls call, run.2.journal = calls ++ [call] ∧ call.complaint? = some e.cause ∧
          ∀ call ∈ calls, call.complaint? = none) := by
  intro run
  have hsame := findKernels_record P fuel patience s
  rw [hrun] at hsame
  obtain ⟨rfl, rfl⟩ := Prod.mk.inj hsame
  have hends := analyze_explains P fuel patience s.record h.lenient
  -- The journal is empty at first, so what was added to it is all of it.
  have hcalls {j : List Provider.Call} (hwell : GoesWell s.record.journal j) :
      ∀ call ∈ j, call.complaint? = none := by
    obtain ⟨calls, rfl, hcalls⟩ := hwell
    exact hcalls
  refine ⟨rfl, fun hok => ?_, fun e he hx => ?_⟩
  · have hrun' : findKernels P.recorded fuel patience s.record = (.ok (), run.2) := Prod.ext hok rfl
    exact hcalls (hends.ok (findKernels_eq_ok_iff.1 hrun')).2
  · have hrun' : findKernels P.recorded fuel patience s.record = (.error e, run.2) :=
      Prod.ext he rfl
    rcases hends.error (analyze_of_findKernels hrun') with hwrong | ⟨-, hcut | ⟨hcanceled, hp⟩⟩
    · refine ⟨hwrong.isFault.not_unavailable, fun sig hsig => ?_, .inr ?_⟩
      · have hfault := hwrong.isFault
        rw [hsig] at hfault
        exact hfault.elim
      · obtain ⟨calls, call, hwell, hjournal, hcall⟩ := hwrong
        exact ⟨calls, call, hjournal, hcall, hcalls hwell⟩
    · exact absurd hcut hx
    · rw [hcanceled]
      exact ⟨rfl, fun sig => by simp, .inl ⟨rfl, hp⟩⟩

/-- A provider that fails on the body of the kernel ends the analysis with its own failure, which is
    the last entry in the journal. -/
theorem findKernels_explained_sample :
    let P := Sample.failingOracle.toProvider
    let s := (new Sample.options ()).ingest Sample.paths
    let failure : AnalysisError := .provider (.fatal "disk on fire")
    Reached P Sample.options () s ∧
    (findKernels P 9 none s).1 = .error ⟨.buildingCallGraph, failure⟩ ∧
    ∃ calls call, (findKernels P.recorded 9 none s.record).2.journal = calls ++ [call] ∧
      call.complaint? = some failure ∧ ∀ call ∈ calls, call.complaint? = none := by
  have herror : (findKernels Sample.failingOracle.toProvider 9 none
      ((new Sample.options ()).ingest Sample.paths)).1 =
        .error ⟨.buildingCallGraph, .provider (.fatal "disk on fire")⟩ := by cbv
  have hreached : Reached Sample.failingOracle.toProvider Sample.options ()
      ((new Sample.options ()).ingest Sample.paths) := .ingest Sample.paths .new
  obtain ⟨-, -, hfail⟩ := findKernels_explained hreached (Prod.ext herror rfl)
  obtain ⟨-, -, ⟨-, hp⟩ | hcalls⟩ := hfail _ rfl (by decide)
  · exact absurd rfl hp
  · exact ⟨hreached, herror, hcalls⟩

end Session

end KernelReach
