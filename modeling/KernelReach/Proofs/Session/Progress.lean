import KernelReach.Proofs.Session.Graph

/-!
# A traversal that meets no failure

As long as no visit fails, a traversal stays on its way to the least closed set (`Explored`), the
edges are those that the provider has settled, block by block, and nothing that was visited is a
failure of the provider. This is the invariant `Orderly`. A traversal that is called off keeps it,
and so does one that fails before its first visit, so it can be taken up again, with more classes
among its seeds (`seed_orderly`, `drain_orderly`).
-/

namespace KernelReach

theorem Oracle.Closed.mono {A : Oracle} {roots roots' : ClassName → Prop} {R : Set Signature}
    (h : A.Closed roots' R) (hle : ∀ name, roots name → roots' name) : A.Closed roots R := by
  refine ⟨?_, h.call⟩
  rintro sig t ⟨name, c, hn, hc⟩
  exact h.seed ⟨name, c, hle name hn, hc⟩

namespace Session

variable {σ : Type} {P : Provider σ} {start : σ} {A : Oracle} {s s' : Session σ}
  {roots roots' : ClassName → Prop} {R : Set Signature} {sig : Signature} {work : Queue Signature}

/-- The traversal is on its way, its edges are those of the methods that were scanned, and the
    provider has not failed on what was visited. -/
structure Orderly (P : Provider σ) (start : σ) (A : Oracle) (roots : ClassName → Prop)
    (R : Set Signature) (s : Session σ) : Prop extends Explored P start A roots R [] s where
  blocks : ∃ blocks, s.edges.toList = blocks.flatten ∧
    List.Forall₂ A.Block s.scanned.toList blocks
  harmless : ∀ sig ∈ s.visited.toList, ¬A.Fails sig

/-- The seeds may be forgotten. -/
theorem Orderly.weaken (h : Orderly P start A roots R s) :
    Orderly P start A (fun _ => False) R s :=
  { h with
    seeded := by
      rintro sig ⟨_, _, hn, -⟩
      exact hn.elim }

/-! ### The worklist -/

/-- A visit settles what the signature leads to. -/
theorem Explored.of_outcome (hA : A.Coherent) (hR : A.Closed roots R)
    (h : Explored P start A roots R [sig] s) (hk : Knows P start A s')
    (ho : VisitOutcome A sig s s' (.ok ())) : Explored P start A roots R [] s' := by
  cases ho with
  | @nowhere t hsig ht hadds =>
    have hvisited {u : Signature} : u ∈ s'.visited.toList ↔ u ∈ s.visited.toList ∨ u = t := by
      rw [hadds.visited]
      exact OrderedSet.mem_toList_insert
    have hwork : s'.work.toList = s.work.toList := hadds.work.trans (List.append_nil _)
    refine h.unscanned hk hadds.scanned (fun u hu => ?_) (fun u hu => ?_) fun u hu _ v hr => ?_
    · rw [Covers, hvisited, hwork]
      exact hu.imp_left .inl
    · rw [hwork] at hu
      exact .inl (hu.resolve_right List.not_mem_nil)
    · rcases hvisited.1 hu with hu | rfl
      · refine h.settled u hu (fun he => ?_) v hr
        exact hsig.not_reaches v (List.mem_singleton.1 he ▸ hr)
      · exact absurd hr (ht.not_reaches v)
  | @again m hm hne hbefore hadds =>
    have hwork : s'.work.toList = s.work.toList := hadds.work.trans (List.append_nil _)
    refine h.unscanned hk hadds.scanned (fun u hu => ?_) (fun u hu => ?_) fun u hu _ v hr => ?_
    · rwa [Covers, hadds.visited, hwork]
    · rw [hwork] at hu
      exact .inl (hu.resolve_right List.not_mem_nil)
    · rw [hadds.visited] at hu
      by_cases he : u = sig
      · -- What it leads to was settled when the method was visited.
        obtain ⟨n, b, hn, rfl⟩ := he ▸ hr
        obtain rfl := hm.unique hn.toResolves
        exact h.settled m.signature hbefore (by simpa using hne) _ (hn.self hA).reaches
      · exact h.settled u hu (by simpa using he) v hr
  | @scan m b block hm _ hdraws hadds =>
    have hvisited {u : Signature} :
        u ∈ s'.visited.toList ↔ u ∈ s.visited.toList ∨ u = m.signature := by
      rw [hadds.visited]
      exact OrderedSet.mem_toList_insert
    have hscanned {u : Signature} :
        u ∈ s'.scanned.toList ↔ u ∈ s.scanned.toList ∨ u = m.signature := by
      rw [hadds.scanned]
      exact OrderedSet.mem_toList_insert
    have hwork {u : Signature} : u ∈ s'.work.toList ↔ u ∈ s.work.toList ∨ A.Calls b u := by
      rw [hadds.work, List.mem_append, Oracle.mem_callees_of_draws hA.toGraded hdraws]
      rfl
    have hcovers (t : Signature) (ht : s.Covers t) : s'.Covers t := by
      rw [Covers, hvisited, hwork]
      exact ht.imp .inl .inl
    -- The method is in `R` because its signature was let into the queue.
    have hmR : m.signature ∈ R :=
      h.licensed sig (.inr List.mem_cons_self) m.signature hm.reaches
    refine ⟨hk, fun u hu _ t hr => ?_, fun t ht => hcovers t (h.seeded t ht),
      fun u hu n b' hn t ht => ?_, fun u hu => ?_, fun u hu t hr => ?_⟩
    · rw [hscanned]
      rcases hvisited.1 hu with hu | rfl
      · by_cases he : u = sig
        · exact .inr (hm.eq_of_reaches (he ▸ hr))
        · exact .inl (h.settled u hu (by simpa using he) t hr)
      · exact .inr ((hm.self hA).eq_of_reaches hr)
    · rcases hscanned.1 hu with hu | rfl
      · exact hcovers t (h.called u hu n b' hn t ht)
      · obtain ⟨-, rfl⟩ := (hm.self hA).unique hn
        exact .inr (hwork.2 (.inr ht))
    · rcases hscanned.1 hu with hu | rfl
      · exact h.scanned u hu
      · exact hmR
    · rcases hwork.1 (hu.resolve_right List.not_mem_nil) with hu | hcall
      · exact h.licensed u (.inl hu) t hr
      · -- A callee is queued under its own signature, so it leads to itself.
        obtain ⟨_, hu⟩ := hcall.exists_reaches
        rw [hu.eq hA hr]
        exact hR.call hmR (hm.self hA) hcall

/-- The edges of a visit are those of the method that it scans. -/
theorem Orderly.blocks_of_outcome (hA : A.Coherent) (h : Orderly P start A roots R s)
    (ho : VisitOutcome A sig ((s.setWork work).mark sig) s' (.ok ())) :
    ∃ blocks, s'.edges.toList = blocks.flatten ∧ List.Forall₂ A.Block s'.scanned.toList blocks := by
  obtain ⟨blocks, hedges, hblocks⟩ := h.blocks
  cases ho with
  | nowhere _ _ hadds | again _ _ _ hadds =>
    refine ⟨blocks, ?_, ?_⟩
    · rw [hadds.edges, List.append_nil]
      exact hedges
    · rw [hadds.scanned]
      exact hblocks
  | @scan m b block hm hnew hdraws hadds =>
    refine ⟨blocks ++ [block], ?_, ?_⟩
    · rw [hadds.edges, List.flatten_append, List.flatten_singleton]
      exact congrArg (· ++ block) hedges
    · have hscanned : s'.scanned.toList = s.scanned.toList ++ [m.signature] := by
        rw [hadds.scanned]
        exact OrderedSet.toList_insert_of_not_mem hnew
      rw [hscanned]
      exact List.rel_append hblocks (.cons ⟨m, b, hm.self hA, hdraws⟩ .nil)

/-- A visit that succeeds is no failure of the provider. -/
theorem Orderly.harmless_of_outcome (hA : A.Coherent) (h : Orderly P start A roots R s)
    (ho : VisitOutcome A sig ((s.setWork work).mark sig) s' (.ok ())) :
    ∀ u ∈ s'.visited.toList, ¬A.Fails u := by
  have hmark {u : Signature} :
      u ∈ ((s.setWork work).mark sig).visited.toList ↔ u ∈ s.visited.toList ∨ u = sig :=
    OrderedSet.mem_toList_insert
  have hvisited {t : Signature} (hadds : s'.visited =
      (((s.setWork work).mark sig).mark t).visited) (hsig : ¬A.Fails sig) (ht : ¬A.Fails t) :
      ∀ u ∈ s'.visited.toList, ¬A.Fails u := by
    intro u hu
    rw [hadds] at hu
    rcases OrderedSet.mem_toList_insert.1 hu with hu | rfl
    · rcases hmark.1 hu with hu | rfl
      · exact h.harmless u hu
      · exact hsig
    · exact ht
  cases ho with
  | nowhere hsig ht hadds => exact hvisited hadds.visited hsig.not_fails ht.not_fails
  | scan hm _ _ hadds => exact hvisited hadds.visited hm.not_fails (hm.self hA).not_fails
  | again hm hne hin hadds =>
    -- The provider has not failed when the method was visited under its own signature.
    have hfails := h.harmless _ ((hmark.1 hin).resolve_right hne)
    rw [(hm.self hA).fails_iff, ← hm.fails_iff] at hfails
    intro u hu
    rw [hadds.visited] at hu
    rcases hmark.1 hu with hu | rfl
    · exact h.harmless u hu
    · exact hfails

theorem drain_orderly (hP : P.Follows start A) (hA : A.Coherent) (hR : A.Closed roots R)
    (limit fuel : Nat) (patience : Option Nat) (ht : Tracked P start A s)
    (h : Orderly P start A roots R s) :
    Ends (drain P limit fuel patience) s
      (fun _ s' => Tracked P start A s' ∧ Orderly P start A roots R s' ∧ s'.work.toList = [])
      fun e s' => e = .canceled → Tracked P start A s' ∧ Orderly P start A roots R s' := by
  refine (drain_outcome hP hA (I := Orderly P start A roots R) (J := fun _ => True) ?_ ?_
    (fun _ _ _ _ _ _ _ _ _ _ _ => trivial) limit fuel patience ht h).mono (fun _ _ => id) ?_
  · intro s sig work h hw hv
    exact { h with toExplored := h.toExplored.drop hw hv }
  · intro s sig work s' _ h hw hv ht' ho
    have hexplored := (h.toExplored.mark hw).of_outcome hA hR (ht'.knows hA.toGraded) ho
    exact ⟨hexplored, h.blocks_of_outcome hA ho, h.harmless_of_outcome hA ho⟩
  · rintro e s' h rfl
    obtain ⟨ht', ⟨-, h'⟩ | ⟨hfault, -⟩⟩ := h (by simp)
    · exact ⟨ht', h'⟩
    · exact hfault.elim

/-! ### The seeds -/

/-- More seeds do no harm, as long as what they lead to is in `R`. -/
theorem Orderly.sows (hA : A.Graded) (hR : A.Closed roots' R) (h : Orderly P start A roots R s)
    (hs : Sows A roots' s s') (ht : Tracked P start A s') : Orderly P start A roots' R s' := by
  have hcovers (t : Signature) (hc : s.Covers t) : s'.Covers t := by
    rw [Covers, hs.visited, hs.work]
    exact hc.imp_right .inl
  refine ⟨⟨ht.knows hA, ?_, fun t hseed => .inr ((hs.work t).2 (.inr hseed)), ?_, ?_, ?_⟩, ?_, ?_⟩
  · rw [hs.visited, hs.scanned]
    exact h.settled
  · rw [hs.scanned]
    exact fun u hu m b hm t hcall => hcovers t (h.called u hu m b hm t hcall)
  · rw [hs.scanned]
    exact h.scanned
  · intro t hw u hr
    rcases (hs.work t).1 (hw.resolve_right List.not_mem_nil) with hw | hseed
    · exact h.licensed t (.inl hw) u hr
    · exact hR.seed hseed hr
  · rw [hs.edges, hs.scanned]
    exact h.blocks
  · rw [hs.visited]
    exact h.harmless

/-- A traversal begins with the methods of all classes whose bodies are called for, or fails and is
    as far as before. -/
theorem seed_orderly (hP : P.Follows start A) (hA : A.Coherent)
    (hR : A.Closed (· ∈ s.enlist.bodies.toList) R) (ht : Tracked P start A s)
    (h : Orderly P start A roots R s) :
    Ends (seed P) s
      (fun _ s' => Tracked P start A s' ∧ Orderly P start A (· ∈ s.enlist.bodies.toList) R s' ∧
        Sows A (· ∈ s.enlist.bodies.toList) s s')
      fun _ s' => Tracked P start A s' ∧ Orderly P start A (fun _ => False) R s' := by
  refine (seed_tracked hP hA ht).mono ?_ ?_
  · rintro _ s' ⟨ht', hs⟩
    exact ⟨ht', h.sows hA.toGraded hR hs ht', hs⟩
  · rintro e s' ⟨ht', names, hsub, hs⟩
    have hR' : A.Closed (· ∈ names) R := hR.mono fun name hn => hsub hn
    exact ⟨ht', (h.sows hA.toGraded hR' hs ht').weaken⟩

/-- A traversal that ends or is called off is on its way from the seeds with which it has begun. -/
theorem traverse_orderly (hP : P.Follows start A) (hA : A.Coherent)
    (hR : A.Closed (· ∈ s.enlist.bodies.toList) R) (fuel : Nat) (patience : Option Nat)
    (ht : Tracked P start A s) (h : Orderly P start A roots R s) :
    Ends (traverse P fuel patience) s
      (fun _ s' => Tracked P start A s' ∧ Orderly P start A (· ∈ s.enlist.bodies.toList) R s' ∧
        s'.work.toList = [])
      fun e s' => e = .canceled →
        Tracked P start A s' ∧ Orderly P start A (fun _ => False) R s' := by
  rw [traverse, ends_bind]
  refine (seed_orderly hP hA hR ht h).mono ?_ fun _ _ h' _ => h'
  rintro _ s₁ ⟨ht₁, h₁, -⟩
  exact (drain_orderly hP hA hR fuel fuel patience ht₁ h₁).mono (fun _ _ => id)
    fun _ _ h' he => (h' he).imp_right Orderly.weaken

end Session

end KernelReach
