import KernelReach.Proofs.Session.Integrity
import KernelReach.Proofs.Session.Restart
import KernelReach.Proofs.Store.History

/-!
# Every analysis can be stored

Methods are stored under the texts of their signatures. The text of a signature has no quotes, so it
is only told apart from others where its parts are free of what stands between them
(`Signature.IsPlain`). Over a provider all of whose methods are plain, whatever an analysis reaches
is plain, for the plain methods are a closed set. Its report then repeats no key and fits into any
store that does not have the run yet (`isKeyed_ofResult`, `save_ofResult`).
-/

namespace KernelReach

/-! ### Texts of signatures -/

namespace Signature

/-- The parts of the signature are free of what stands after them in its text. -/
structure IsPlain (s : Signature) : Prop where
  owner : ':' ∉ s.owner.text.toList
  result : ' ' ∉ s.result.toList
  name : '(' ∉ s.name.toList

theorem toList_text (s : Signature) :
    s.text.toList = '<' :: (s.owner.text.toList ++ ':' :: (' ' :: (s.result.toList ++
      ' ' :: (s.name.toList ++ '(' :: (s.params.toList ++ [')', '>']))))) := by
  simp [text, subSignature]

/-- A plain signature can be told from its text. -/
theorem text_inj {s t : Signature} (hs : s.IsPlain) (ht : t.IsPlain) (h : s.text = t.text) :
    s = t := by
  have hlist := congrArg String.toList h
  rw [toList_text, toList_text] at hlist
  -- The parts are split off one by one, each at the first of what stands after it.
  obtain ⟨howner, hlist⟩ := append_cons_inj hs.owner ht.owner (List.cons.inj hlist).2
  obtain ⟨hresult, hlist⟩ := append_cons_inj hs.result ht.result (List.cons.inj hlist).2
  obtain ⟨hname, hlist⟩ := append_cons_inj hs.name ht.name hlist
  have hparams := List.append_cancel_right hlist
  cases s
  cases t
  simp only [mk.injEq]
  exact ⟨ClassName.ext (String.toList_inj.1 howner), String.toList_inj.1 hname,
    String.toList_inj.1 hparams, String.toList_inj.1 hresult⟩

/-- With a colon in the name of a class, the text is that of another method. -/
example : text ⟨⟨"A: B"⟩, "f", "", "int"⟩ = text ⟨⟨"A"⟩, "int f", "", "B:"⟩ := by decide

instance (s : Signature) : Decidable s.IsPlain :=
  decidable_of_iff (':' ∉ s.owner.text.toList ∧ ' ' ∉ s.result.toList ∧ '(' ∉ s.name.toList)
    ⟨fun ⟨owner, result, name⟩ => ⟨owner, result, name⟩, fun h => ⟨h.owner, h.result, h.name⟩⟩

end Signature

/-- All methods that the provider has are plain. -/
def Oracle.IsPlain (A : Oracle) : Prop :=
  ∀ name c, A.resolve name .bodies = .ok c → ∀ m ∈ c.methods, m.signature.IsPlain

namespace Oracle

variable {A : Oracle}

theorem isPlain_ofClasses {cs : List Class} (h : ∀ c ∈ cs, ∀ m ∈ c.methods, m.signature.IsPlain) :
    (ofClasses cs).IsPlain := by
  intro name d hd m hm
  obtain ⟨c, hc, rfl⟩ := ofClasses_eq_ok.1 hd
  exact h c (List.mem_of_find?_eq_some hc) m (by simpa [Class.atLevel] using hm)

theorem Reaches.isPlain (hplain : A.IsPlain) {sig t : Signature} (h : A.Reaches sig t) :
    t.IsPlain := by
  obtain ⟨m, b, hm, rfl⟩ := h
  obtain ⟨owner, c, -, hc, hfound⟩ := hm.exists_owner
  exact hplain owner c hc m (Class.method?_eq_some hfound).1

/-- The plain methods are a closed set, whatever the roots are. -/
theorem closed_isPlain (hplain : A.IsPlain) (roots : ClassName → Prop) :
    A.Closed roots {sig | sig.IsPlain} where
  seed _ h := h.isPlain hplain
  call := by
    rintro sig t m b - - ⟨call, -, h⟩
    exact h.isPlain hplain

end Oracle

/-! ### Reports of analyses -/

theorem getD_presentRows {α : Type} (rows : List α) : (presentRows rows).getD [] = rows := by
  cases rows with
  | nil => rfl
  | cons row rows => rfl

theorem ClassName.text_injective : Function.Injective ClassName.text := fun _ _ h => ClassName.ext h

/-- A report repeats no key if the lists of the result repeat nothing and no two of its methods have
    the same text. -/
theorem Report.isKeyed_ofResult {r : AnalysisResult} (hkernels : r.kernelClasses.Nodup)
    (hclasses : (r.classes.map ClassReport.name).Nodup)
    (hreachable : (r.reachable.map Signature.text).Nodup) (info : RunInfo) :
    (ofResult r info).IsKeyed := by
  simp only [IsKeyed, ofResult, getD_presentRows, List.map_map]
  refine ⟨hkernels.map ClassName.text_injective, ?_, hreachable⟩
  have htexts := hclasses.map ClassName.text_injective
  rwa [List.map_map] at htexts

namespace Session

variable {σ : Type} {P : Provider σ} {A : Oracle} {s : Session σ}

theorem nodup_kernelClasses (s : Session σ) : s.result.kernelClasses.Nodup :=
  OrderedSet.nodup_toList _

/-- Over a coherent provider whose methods are plain, the report on an analysis that succeeds can be
    saved in every store that does not have its run. The methods that are reached are stored in
    order, under texts that are the same only for the same method. The calls are stored in order,
    too; each begins at the method under whose text it is stored, and ends at the one whose text it
    has if it is followed. -/
theorem save_ofResult {source : σ} (hP : P.Follows source A) (hA : A.Coherent) (hplain : A.IsPlain)
    {options : Options} (hb : ∀ b ∈ options.builtins, b.level.IsValid) {paths : List StagedPath}
    {fuel : Nat} {patience : Option Nat}
    (h : findKernels P fuel patience ((new options source).ingest paths) = (.ok (), s))
    (info : RunInfo) :
    let r := Report.ofResult s.result info
    let stored := s.result.reachable.zip (r.methods.getD [])
    r.IsKeyed ∧
    (∀ store : Store, store.IsFresh → ∀ actions fresh now,
      let t := store.tally actions
      let id := (Store.complete fresh now r).run.id
      id ∉ t.kept.map (·.run.id) → ∃ after, t.store.save fresh now false r = (.ok id, after)) ∧
    List.Forall₂ (fun sig row => row.signature = sig.text ∧
        ∀ sig' row', (sig', row') ∈ stored → (row.signature = row'.signature ↔ sig = sig'))
      s.result.reachable (r.methods.getD []) ∧
    List.Forall₂ (fun e row => ∀ sig row', (sig, row') ∈ stored →
        (row.caller = row'.signature ↔ e.caller = sig) ∧
        (e.status = .followed → (row.callee = row'.signature ↔ e.callee = sig)))
      s.result.edges (r.edges.getD []) := by
  intro r stored
  have hreachable : ∀ sig ∈ s.result.reachable, sig.IsPlain := fun sig hsig =>
    (isLeast_scanned hP hA hb h).2 (Oracle.closed_isPlain hplain _) hsig
  have hinj : ∀ sig ∈ s.result.reachable, ∀ sig' ∈ s.result.reachable, sig.text = sig'.text →
      sig = sig' := fun sig hsig sig' hsig' =>
    Signature.text_inj (hreachable sig hsig) (hreachable sig' hsig')
  have hkeyed : r.IsKeyed := by
    refine Report.isKeyed_ofResult s.nodup_kernelClasses s.nodup_classify ?_ info
    exact List.Nodup.map_on hinj s.scanned.nodup_toList
  have hmethods : r.methods.getD [] = s.result.reachable.map Signature.toRecord :=
    getD_presentRows _
  have hedges : r.edges.getD [] = s.result.edges.map CallEdge.toRecord := getD_presentRows _
  have hstored : stored = s.result.reachable.map fun sig => (sig, sig.toRecord) := by
    rw [List.map_prod_left_eq_zip, ← hmethods]
  have hiff : ∀ sig ∈ s.result.reachable, ∀ sig' row, (sig', row) ∈ stored →
      (sig.text = row.signature ↔ sig = sig') := by
    intro sig hsig sig' row hrow
    obtain ⟨_, hsig', heq⟩ := List.mem_map.1 (hstored ▸ hrow)
    cases heq
    exact ⟨hinj sig hsig sig' hsig', congrArg Signature.text⟩
  refine ⟨hkeyed, ?_, ?_, ?_⟩
  · intro store hfresh actions fresh now t id hid
    exact ⟨_, (Store.holds_tally hfresh actions).save_eq ⟨hid, hkeyed⟩⟩
  · rw [hmethods, List.forall₂_map_right_iff, List.forall₂_same]
    exact fun sig hsig => ⟨rfl, hiff sig hsig⟩
  · rw [hedges, List.forall₂_map_right_iff, List.forall₂_same]
    intro e he sig row hrow
    have hend := (findKernels_concluded hP hA hb h).consistent hA
    exact ⟨hiff _ (hend.caller e he) sig row hrow,
      fun hfollowed => hiff _ ((hend.callee e he).1 hfollowed) sig row hrow⟩

/-- The report on the small program is saved in a store without reports. -/
theorem save_ofResult_sample :
    let run := findKernels Sample.oracle.toProvider 9 none
      ((new Sample.options ()).ingest Sample.paths)
    run.1 = .ok () ∧ ∀ info fresh now,
      let r := Report.ofResult run.2.result info
      r.IsKeyed ∧ ∃ id after, Store.Sample.store.save fresh now false r = (.ok id, after) := by
  have hok : (findKernels Sample.oracle.toProvider 9 none
      ((new Sample.options ()).ingest Sample.paths)).1 = .ok () := by cbv
  have hplain : Sample.oracle.IsPlain := Oracle.isPlain_ofClasses (by decide)
  refine ⟨hok, fun info fresh now => ?_⟩
  obtain ⟨hkeyed, hsave, -⟩ := save_ofResult Sample.oracle.follows_toProvider Sample.coherent_oracle
    hplain (by decide) (Prod.ext hok rfl) info
  exact ⟨hkeyed, _, hsave Store.Sample.store ⟨rfl, rfl⟩ [] fresh now List.not_mem_nil⟩

end Session

end KernelReach
