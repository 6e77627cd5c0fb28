import KernelReach.Proofs.Resolver.Answer

/-!
# What a resolver does in the course of its life

Nothing is asked of the provider here: its answers may change from call to call, and have nothing
to do with the requests. The resolver keeps its own house in order all the same.

* Levels only go up (`Raises`): a class that is kept is replaced only by a better one.
* The provider is not asked again for what it has answered (`Settled`). The reason is that a
  request which is not `Open` never becomes so again.
* Every request is counted once (`counted_resolveClass`).
-/

namespace KernelReach.Resolver

variable {σ τ : Type} {P : Provider σ} {name : ClassName} {level : Level} {r : Resolver σ}

/-! ### Levels -/

/-- Every class that `r` keeps is kept by `r'`, or a better one is. -/
def Raises (r r' : Resolver σ) : Prop :=
  ∀ (name : ClassName) (c : Class), r.classes[name]? = some c →
    ∃ c', r'.classes[name]? = some c' ∧ (c' = c ∨ c.level < c'.level)

theorem Raises.refl (r : Resolver σ) : r.Raises r := fun _ c hc => ⟨c, hc, .inl rfl⟩

theorem Raises.trans {r₁ r₂ r₃ : Resolver σ} (h : r₁.Raises r₂) (h' : r₂.Raises r₃) :
    r₁.Raises r₃ := by
  intro name c hc
  obtain ⟨d, hd, hcd⟩ := h name c hc
  obtain ⟨e, he, hde⟩ := h' name d hd
  refine ⟨e, he, ?_⟩
  rcases hcd with rfl | hcd
  · exact hde
  · rcases hde with rfl | hde
    · exact .inr hcd
    · exact .inr (lt_trans hcd hde)

theorem raises_resolveClass (P : Provider σ) (name : ClassName) (level : Level)
    (r : Resolver σ) : r.Raises (r.resolveClass P name level).2 := by
  rcases (answer_resolveClass P name level r).classes_eq with h | ⟨d, _, hlacks, hl, h⟩
  · rw [Raises, h]
    exact Raises.refl r
  · intro name' c hc
    rw [h, Std.HashMap.getElem?_insert]
    by_cases hn : name = name'
    · subst hn
      exact ⟨d, by simp, .inr (lt_of_lt_of_le (hlacks c hc) hl)⟩
    · exact ⟨c, by simpa [hn] using hc, .inl rfl⟩

theorem raises_performAll (P : Provider σ) (history : List Request) (r : Resolver σ) :
    r.Raises (r.performAll P history) := by
  rw [performAll_eq]
  exact askAll_keeps (fun ask _ _ h => h.trans (raises_resolveClass P ask.1 ask.2 _))
    (Raises.refl r)

/-- A request that is answered by a complaint changes no class. -/
theorem classes_resolveClass_of_error {e : AnalysisError}
    (h : (r.resolveClass P name level).1 = .error e) :
    (r.resolveClass P name level).2.classes = r.classes := by
  rcases (answer_resolveClass P name level r).classes_eq with h' | ⟨c, hc, _⟩
  · exact h'
  · rw [h] at hc
    cases hc

/-- A class that is good enough for a request is not touched by it. -/
theorem getElem?_resolveClass_of_le {c : Class} {name' : ClassName}
    (hc : r.classes[name]? = some c) (hl : level ≤ c.level) :
    (r.resolveClass P name' level).2.classes[name]? = some c := by
  rcases (answer_resolveClass P name' level r).classes_eq with h | ⟨d, _, hlacks, _, h⟩
  · rw [h, hc]
  · have hn : name' ≠ name := by
      rintro rfl
      exact not_lt_of_ge hl (hlacks c hc)
    rw [h, Std.HashMap.getElem?_insert]
    simpa [hn] using hc

/-- A search for a method does not touch the class in which it begins. -/
theorem getElem?_resolveMethod (P : Provider σ) (fuel : Nat) (sig : Signature) (r : Resolver σ) :
    (r.resolveMethod P fuel sig).2.classes[sig.owner]? = r.classes[sig.owner]? := by
  have h := (Request.resolveMethod fuel sig).perform_eq P r
  rw [Request.perform, Request.asks] at h
  rw [h]
  rcases hc : r.classes[sig.owner]? with _ | c
  · exact hc
  · by_cases hl : .signatures ≤ c.level
    · simp only [hl, if_true]
      refine askAll_keeps (I := fun r => r.classes[sig.owner]? = some c) (fun ask ha r hr => ?_) hc
      obtain ⟨_, _, rfl⟩ := List.mem_map.1 ha
      exact getElem?_resolveClass_of_le hr hl
    · simp only [hl, if_false]
      exact hc

/-! ### Counts -/

/-- Every request is a question or a hit. -/
theorem Answer.counted {a : Except AnalysisError Class} {r' : Resolver σ}
    (h : Answer P name level r a r') :
    r'.stats.lookups + r'.stats.cacheHits = r.stats.lookups + r.stats.cacheHits + 1 := by
  cases h <;> simp only [hit, asked, keep, keepMiss] <;> omega

theorem counted_askAll (P : Provider σ) (asks : List (ClassName × Level)) (r : Resolver σ) :
    (r.askAll P asks).stats.lookups + (r.askAll P asks).stats.cacheHits
      = r.stats.lookups + r.stats.cacheHits + asks.length := by
  induction asks generalizing r with
  | nil => rfl
  | cons ask asks ih =>
    have h := ih (r.resolveClass P ask.1 ask.2).2
    rw [(answer_resolveClass P ask.1 ask.2 r).counted] at h
    rw [List.length_cons]
    exact h.trans (by omega)

/-- The counts of upgrades and misses are parts of the count of questions. -/
structure Bounded (s : ResolverStats) : Prop where
  upgrades : s.upgrades ≤ s.lookups
  misses : s.misses ≤ s.lookups

theorem Answer.bounded {a : Except AnalysisError Class} {r' : Resolver σ}
    (h : Answer P name level r a r') (hr : Bounded r.stats) : Bounded r'.stats := by
  obtain ⟨hu, hm⟩ := hr
  have hone : (if r.classes.contains name then 1 else 0) ≤ 1 := by split_ifs <;> omega
  cases h <;> constructor <;> simp only [hit, asked, keep, keepMiss] <;> omega

/-! ### Questions to the provider -/

/-- A request that an answer has settled stays so: a request that is open was open before. -/
theorem Open.of_answer {a : Except AnalysisError Class} {r' : Resolver σ} {name' : ClassName}
    {level' : Level} (h : Answer P name level r a r') (ho : r'.Open name' level') :
    r.Open name' level' := by
  cases h with
  | known | missed | low | fatal => exact ⟨ho.lacks, ho.lt_miss⟩
  | @found c s hopen _ hl =>
    refine ⟨fun d hd => ?_, ho.lt_miss⟩
    by_cases hn : name = name'
    · -- The class that was kept before was no better than the one that replaced it.
      subst hn
      have hc : c.level < level' := ho.lacks c Std.HashMap.getElem?_insert_self
      exact lt_trans (hopen.lacks d hd) (lt_of_le_of_lt hl hc)
    · refine ho.lacks d ?_
      rw [keep_classes, Std.HashMap.getElem?_insert]
      simpa [hn] using hd
  | @unavailable e s hopen _ _ =>
    refine ⟨ho.lacks, fun m hm => ?_⟩
    by_cases hn : name = name'
    · -- The miss that was kept before was one at a higher level.
      subst hn
      have hl : level' < level := ho.lt_miss ⟨level, e⟩ Std.HashMap.getElem?_insert_self
      exact lt_trans hl (hopen.lt_miss m hm)
    · refine ho.lt_miss m ?_
      rw [keepMiss_misses, Std.HashMap.getElem?_insert]
      simpa [hn] using hm

/-- The calls in the journal ask for the same class at the same level only if the earlier one was
    fruitless. -/
def Unrepeated (journal : List Provider.Call) : Prop :=
  journal.Pairwise fun call call' => ∀ name level,
    call.asks? = some (name, level) → call'.asks? = some (name, level) → call.Fruitless

/-- The resolver over a provider with a journal has made good use of it: what was answered in
    earnest is answered for good. -/
structure Settled (r : Resolver (σ × List Provider.Call)) : Prop where
  unrepeated : Unrepeated r.source.2
  closed : ∀ call ∈ r.source.2, ∀ name level, call.asks? = some (name, level) →
    call.Fruitless ∨ ¬r.Open name level
  /-- There is an entry for every question. -/
  length : r.source.2.length = r.stats.lookups

theorem settled_new (source : σ) : Settled (new (source, [])) :=
  ⟨.nil, fun _ h => absurd h List.not_mem_nil, rfl⟩

/-- A question is entered in the journal. What it asks for was not settled before, and is settled
    after it unless it was fruitless. -/
theorem Settled.push {r r' : Resolver (σ × List Provider.Call)} (h : r.Settled)
    (hopen : r.Open name level) {answer : Except ProviderError Class}
    (hjournal : r'.source.2 = r.source.2 ++ [.resolve name level answer])
    (hlookups : r'.stats.lookups = r.stats.lookups + 1)
    (hmono : ∀ name level, r'.Open name level → r.Open name level)
    (hcall : (Provider.Call.resolve name level answer).Fruitless ∨ ¬r'.Open name level) :
    r'.Settled := by
  refine ⟨?_, ?_, ?_⟩
  · rw [Unrepeated, hjournal, List.pairwise_append]
    refine ⟨h.unrepeated, List.pairwise_singleton _ _, ?_⟩
    intro call hc call' hc' n l ha ha'
    rw [List.mem_singleton.1 hc'] at ha'
    cases ha'
    exact (h.closed call hc _ _ ha).resolve_right (not_not_intro hopen)
  · intro call hc n l ha
    rw [hjournal, List.mem_append, List.mem_singleton] at hc
    rcases hc with hc | rfl
    · exact (h.closed call hc n l ha).imp_right fun hn ho => hn (hmono n l ho)
    · cases ha
      exact hcall
  · rw [hjournal, List.length_append, h.length, hlookups]
    rfl

/-- A request keeps the journal in order. -/
theorem Answer.settled {r r' : Resolver (σ × List Provider.Call)}
    {a : Except AnalysisError Class} (h : Answer P.recorded name level r a r')
    (hr : r.Settled) : r'.Settled := by
  have hmono : ∀ name level, r'.Open name level → r.Open name level :=
    fun _ _ => Open.of_answer h
  cases h with
  | known | missed =>
    exact ⟨hr.unrepeated, fun call hc n l ha =>
      (hr.closed call hc n l ha).imp_right fun hn ho => hn (hmono n l ho), hr.length⟩
  | found ho hp hl =>
    refine hr.push ho (Provider.journal_of_resolve hp) rfl hmono (.inr fun hn => ?_)
    exact not_lt_of_ge hl (hn.lacks _ Std.HashMap.getElem?_insert_self)
  | low ho hp hl => exact hr.push ho (Provider.journal_of_resolve hp) rfl hmono (.inl hl)
  | unavailable ho hp he =>
    refine hr.push ho (Provider.journal_of_resolve hp) rfl hmono (.inr fun hn => ?_)
    exact lt_irrefl _ (hn.lt_miss _ Std.HashMap.getElem?_insert_self)
  | fatal ho hp he => exact hr.push ho (Provider.journal_of_resolve hp) rfl hmono (.inl he)

/-! ### Resolvers over providers that answer alike -/

/-- The resolver over another view of its provider. -/
def mapSource (view : τ → σ) (r : Resolver τ) : Resolver σ := { r with source := view r.source }

variable {Q : Provider τ} {view : τ → σ}

theorem mapSource_lookUp (h : Q.Refines P view) (name : ClassName) (level : Level)
    (r : Resolver τ) :
    (r.mapSource view).lookUp P name level =
      ((r.lookUp Q name level).1, (r.lookUp Q name level).2.mapSource view) := by
  have hp : P.resolve name level (r.mapSource view).source = _ := h.resolve name level r.source
  unfold lookUp
  rcases hq : Q.resolve name level r.source with ⟨e | c, t⟩
  · rw [hq] at hp
    simp only [hp]
    by_cases he : e.isUnavailable = true
    · simp only [he, if_true]
      rfl
    · simp only [he]
      rfl
  · rw [hq] at hp
    simp only [hp]
    by_cases hl : c.level < level
    · simp only [hl, if_true]
      rfl
    · simp only [hl, if_false]
      rfl

theorem mapSource_resolveClass (h : Q.Refines P view) (name : ClassName) (level : Level)
    (r : Resolver τ) :
    (r.mapSource view).resolveClass P name level =
      ((r.resolveClass Q name level).1, (r.resolveClass Q name level).2.mapSource view) := by
  rcases ha : ({ r with requested := r.requested.insert name } : Resolver τ).cached? name level
    with _ | a
  all_goals
    have ha' : ({ r.mapSource view with
        requested := (r.mapSource view).requested.insert name } : Resolver σ).cached? name level =
      _ := ha
    simp only [resolveClass, ha, ha']
  · exact mapSource_lookUp h name level { r with requested := r.requested.insert name }
  · rfl

theorem Search.mapSource {sig : Signature} {fuel : Nat} {seen : List ClassName} {c : Class}
    {r r' : Resolver τ} {o : Except AnalysisError Method}
    (hsearch : Search Q sig fuel seen c r o r') (h : Q.Refines P view) :
    Search P sig fuel seen c (r.mapSource view) o (r'.mapSource view) := by
  induction hsearch with
  | exhausted => exact .exhausted
  | found hm => exact .found hm
  | top hm hs => exact .top hm hs
  | circle hm hs hin => exact .circle hm hs hin
  | unavailable hm hs hnew hr he =>
    exact .unavailable hm hs hnew (by rw [mapSource_resolveClass h, hr]) he
  | failed hm hs hnew hr he =>
    exact .failed hm hs hnew (by rw [mapSource_resolveClass h, hr]) he
  | up hm hs hnew hr _ ih => exact .up hm hs hnew (by rw [mapSource_resolveClass h, hr]) ih

theorem mapSource_searchMethod (h : Q.Refines P view) (sig : Signature) (fuel : Nat)
    (seen : List ClassName) (c : Class) (r : Resolver τ) :
    searchMethod P sig fuel seen c (r.mapSource view) =
      ((searchMethod Q sig fuel seen c r).1,
        (searchMethod Q sig fuel seen c r).2.mapSource view) :=
  search_iff.1 ((search_searchMethod Q sig fuel seen c r).mapSource h)

theorem mapSource_performAll (h : Q.Refines P view) (history : List Request) (r : Resolver τ) :
    (r.mapSource view).performAll P history = (r.performAll Q history).mapSource view := by
  have hstep (q : Request) (r : Resolver τ) :
      q.perform P (r.mapSource view) = (q.perform Q r).mapSource view := by
    cases q with
    | resolveClass name level => exact congrArg Prod.snd (mapSource_resolveClass h name level r)
    | resolveBodies name => exact congrArg Prod.snd (mapSource_resolveClass h name .bodies r)
    | resolveMethod fuel sig =>
      rw [Request.perform, Request.perform, resolveMethod, resolveMethod]
      rcases hc : r.classes[sig.owner]? with _ | c
      · simp only [mapSource, hc]
      · by_cases hl : .signatures ≤ c.level
        · simp only [mapSource, hc, hl, if_true]
          exact congrArg Prod.snd (mapSource_searchMethod h sig fuel [c.name] c r)
        · simp only [mapSource, hc, hl, if_false]
  induction history generalizing r with
  | nil => rfl
  | cons q history ih =>
    rw [performAll, List.foldl_cons, hstep]
    exact ih _

/-! ### All together -/

/-- The calls of the provider in the course of a history. -/
def journal (P : Provider σ) (source : σ) (history : List Request) : List Provider.Call :=
  ((new (source, [])).performAll P.recorded history).source.2

theorem settled_performAll (P : Provider σ) (source : σ) (history : List Request) :
    ((new (source, [])).performAll P.recorded history).Settled := by
  rw [performAll_eq]
  exact askAll_keeps (fun ask _ r => (answer_resolveClass _ ask.1 ask.2 r).settled)
    (settled_new source)

theorem bounded_performAll (P : Provider σ) (source : σ) (history : List Request) :
    Bounded ((new source).performAll P history).stats := by
  rw [performAll_eq]
  exact askAll_keeps (fun ask _ r => (answer_resolveClass _ ask.1 ask.2 r).bounded)
    ⟨Nat.le_refl 0, Nat.le_refl 0⟩

/-- Whatever the provider answers, and whatever the resolver is asked for:

    * later on, every class is kept at least as well as before, and another class stands in its
      place only if it is strictly better;
    * a request that ends in a complaint leaves the class that it is about as it was;
    * the provider, which is called as the journal says, is asked for a class at a level only if
      the earlier calls for it were fruitless;
    * the questions and the hits together are the requests for classes to which the history comes
      down, those of the searches among them, and the upgrades and the misses are some of the
      questions. -/
theorem history_in_order (P : Provider σ) (source : σ) (history later : List Request) :
    let r := (new source).performAll P history
    (∀ (name : ClassName) (c : Class), r.classes[name]? = some c →
      ∃ c', (r.performAll P later).classes[name]? = some c' ∧ c.level ≤ c'.level ∧
        (c' ≠ c → c.level < c'.level)) ∧
    (∀ name level e, (r.resolveClass P name level).1 = .error e →
      (r.resolveClass P name level).2.classes[name]? = r.classes[name]?) ∧
    (∀ fuel sig e, (r.resolveMethod P fuel sig).1 = .error e →
      (r.resolveMethod P fuel sig).2.classes[sig.owner]? = r.classes[sig.owner]?) ∧
    ((new (source, [])).performAll P.recorded history).mapSource Prod.fst = r ∧
    Unrepeated (journal P source history) ∧
    (journal P source history).length = r.stats.lookups ∧
    r = (new source).askAll P (asksOf P history (new source)) ∧
    r.stats.lookups + r.stats.cacheHits = (asksOf P history (new source)).length ∧
    r.stats.upgrades ≤ r.stats.lookups ∧ r.stats.misses ≤ r.stats.lookups := by
  intro r
  have hview : ((new (source, [])).performAll P.recorded history).mapSource Prod.fst = r :=
    (mapSource_performAll P.recorded_refines history _).symm
  have hsettled := settled_performAll P source history
  have hbounded := bounded_performAll P source history
  refine ⟨fun name c hc => ?_, fun name level e he => ?_, fun fuel sig e _ => ?_, hview,
    hsettled.unrepeated, ?_, performAll_eq P history _, ?_, hbounded.upgrades, hbounded.misses⟩
  · obtain ⟨c', hc', h⟩ := raises_performAll P later r name c hc
    refine ⟨c', hc', ?_, fun hne => h.resolve_left hne⟩
    exact h.elim (fun h => h ▸ le_refl _) le_of_lt
  · rw [classes_resolveClass_of_error he]
  · exact getElem?_resolveMethod P fuel sig r
  · rw [← hview]
    exact hsettled.length
  · have h := counted_askAll P (asksOf P history (new source)) (new source)
    rw [← performAll_eq] at h
    exact h.trans (Nat.zero_add _)

end KernelReach.Resolver
