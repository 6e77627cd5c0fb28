import KernelReach.Proofs.Session.Progress
import KernelReach.Proofs.Session.Requests

/-!
# The books of a traversal

A session remembers every lookup that got through. So all that its resolver was asked for in the
course of them can be told from its memory (`Booked`). A visit makes the lookup of its signature
and, if a method is scanned, those of the calls in the body (`Surveys`), and it fails only if one of
these does not get through (`visit_surveys`).

When the queue is empty, the lookups that were made are those of the signatures that the seeds and
the scanned methods want (`Survey.smooth`), and they have all got through.
-/

namespace KernelReach

/-- The methods that are called in a body, as the calls name them. -/
def Body.targets (b : Body) : List Signature := b.calls.map (·.2.target)

/-- What there is to say about a body that was scanned. -/
def Body.complaints (b : Body) (caller : Signature) : List Diagnostic :=
  (b.fault.map fun fault => ⟨.scan, caller.text, fault.message⟩).toList

namespace Oracle

variable {A : Oracle} {roots : ClassName → Prop} {R R' : Set Signature} {sig : Signature}
  {m : Method} {b : Body}

/-- What there is to say about the body of a method. -/
def complaints (A : Oracle) (sig : Signature) : List Diagnostic :=
  match A.resolve sig.owner .bodies with
  | .error _ => []
  | .ok c =>
    match c.method? sig with
    | none => []
    | some m =>
      match A.retrieveBody m with
      | .error _ => []
      | .ok b => b.complaints sig

theorem LeadsTo.complaints_eq (hA : A.Coherent) (h : A.LeadsTo sig m b) :
    A.complaints m.signature = b.complaints m.signature := by
  obtain ⟨owner, c, -, hc, hm⟩ := (h.self hA).exists_owner
  rw [← hA.owner_eq Level.isValid_bodies hc (Class.method?_eq_some hm).1] at hc
  simp only [complaints, hc, hm, h.body]

/-- The signature has to be looked up if the methods in `R` are to be scanned: it is a seed, a call
    names it, or it is that of a method which was looked up. -/
inductive Wants (A : Oracle) (roots : ClassName → Prop) (R : Set Signature) : Signature → Prop
  | seed {sig : Signature} : A.Seeds roots sig → Wants A roots R sig
  | target {caller sig : Signature} {m : Method} {b : Body} : caller ∈ R → A.LeadsTo caller m b →
      sig ∈ b.targets → Wants A roots R sig
  | callee {sig : Signature} {m : Method} : Wants A roots R sig → A.Resolves sig m →
      Wants A roots R m.signature

/-- A visit of the signature meets with a lookup that does not get through. -/
def Blocked (A : Oracle) (limit : Nat) (sig : Signature) : Prop :=
  ¬A.Smooth limit sig ∨ ∃ m b, A.LeadsTo sig m b ∧ ∃ t ∈ b.targets, ¬A.Smooth limit t

theorem Wants.mono (h : A.Wants roots R sig) (hle : R ⊆ R') : A.Wants roots R' sig := by
  induction h with
  | seed hs => exact .seed hs
  | target hc hm ht => exact .target (hle hc) hm ht
  | callee _ hm ih => exact .callee ih hm

end Oracle

namespace Session

variable {σ : Type} {P : Provider σ} {start : σ} {A : Oracle} {s s' : Session σ} {limit : Nat}
  {Q : ClassName → Level → Prop}

/-! ### What a session has looked up -/

/-- The requests in `Q`, and those of the lookups that the session remembers. -/
def Requests (A : Oracle) (Q : ClassName → Level → Prop) (s : Session σ) (name : ClassName)
    (level : Level) : Prop :=
  Q name level ∨ ∃ sig ∈ s.resolved, A.Consults sig name level

/-- Apart from the requests in `Q`, the resolver was asked for what the lookups in the memory of the
    session take, and these lookups have got through. -/
structure Booked (P : Provider σ) (start : σ) (A : Oracle) (limit : Nat)
    (Q : ClassName → Level → Prop) (s : Session σ) : Prop extends Informed P start A s where
  served : s.resolver.Served A (s.Requests A Q)
  clear : ∀ sig ∈ s.resolved, A.Clear limit sig

theorem Booked.of_eq (h : Booked P start A limit Q s) (hr : s'.resolver.Sound P start A)
    (hs : s'.resolver.Served A (s.Requests A Q)) (hm : s'.resolved = s.resolved) :
    Booked P start A limit Q s' := by
  refine ⟨⟨hr, hm ▸ h.resolved, hm ▸ h.expected⟩, hs.congr fun name level => ?_, hm ▸ h.clear⟩
  rw [Requests, Requests, hm]

theorem Booked.congr (h : Booked P start A limit Q s) (hr : s'.resolver = s.resolver)
    (hm : s'.resolved = s.resolved) : Booked P start A limit Q s' :=
  h.of_eq (hr ▸ h.resolver) (hr ▸ h.served) hm

theorem Booked.note (h : Booked P start A limit Q s) (e : Event) :
    Booked P start A limit Q (s.note e) :=
  h.of_eq (h.resolver.note e) (h.served.note e) rfl

theorem Booked.body (h : Booked P start A limit Q s) (m : Method) :
    Booked P start A limit Q (s.setResolver (s.resolver.body P m).2) :=
  h.of_eq (h.resolver.body m) (h.served.body m) rfl

/-- The signatures in `keys` were looked up, and `ds` is what there is to say. -/
structure Logs (keys : List Signature) (ds : List Diagnostic) (s s' : Session σ) : Prop where
  resolved : ∀ sig, sig ∈ s'.resolved ↔ sig ∈ s.resolved ∨ sig ∈ keys
  diagnostics : s'.diagnostics.toList = s.diagnostics.toList ++ ds

theorem Logs.refl (s : Session σ) : Logs [] [] s s :=
  ⟨by simp, (List.append_nil _).symm⟩

theorem Logs.trans {keys keys' : List Signature} {ds ds' : List Diagnostic} {s₁ s₂ s₃ : Session σ}
    (h : Logs keys ds s₁ s₂) (h' : Logs keys' ds' s₂ s₃) :
    Logs (keys ++ keys') (ds ++ ds') s₁ s₃ where
  resolved sig := by rw [h'.resolved, h.resolved, List.mem_append, or_assoc]
  diagnostics := by rw [h'.diagnostics, h.diagnostics, List.append_assoc]

theorem Logs.congr {keys : List Signature} {ds : List Diagnostic} {s₁ s₂ s₃ s₄ : Session σ}
    (h : Logs keys ds s₁ s₂) (hm : s₃.resolved = s₁.resolved) (hd : s₃.diagnostics = s₁.diagnostics)
    (hm' : s₄.resolved = s₂.resolved) (hd' : s₄.diagnostics = s₂.diagnostics) :
    Logs keys ds s₃ s₄ :=
  ⟨by rw [hm, hm']; exact h.resolved, by rw [hd, hd']; exact h.diagnostics⟩

section

variable (hP : P.Follows start A) (hA : A.Coherent)
include hP hA

/-- A lookup that is made is remembered. It fails only if it does not get through. -/
theorem fullyResolve_booked (sig : Signature) (h : Booked P start A limit Q s) :
    Ends (fullyResolve P limit sig) s
      (fun _ s' => Booked P start A limit Q s' ∧ Logs [sig] [] s s')
      fun _ _ => ¬A.Clear limit sig := by
  have hn := h.resolver.note (.resolvingToBodies sig.owner)
  refine ((fullyResolve_ends P limit sig s).and
    ((lasting_informed hP.classes hA).fullyResolve_keeps limit sig s h.toInformed)).mono ?_ ?_
  · rintro o s' ⟨⟨ho, rfl⟩ | ⟨-, hu, r, rfl, hr⟩, hi⟩
    · -- The session remembers the outcome, so there is nothing to ask for.
      refine ⟨h, fun u => ⟨.inl, fun hu => hu.elim id fun hmem => ?_⟩, (List.append_nil _).symm⟩
      rw [List.mem_singleton.1 hmem, Std.HashMap.mem_iff_isSome_getElem?, ho]
      rfl
    · have hmem (u : Signature) : u ∈ ((s.setResolver r).remember sig o).resolved ↔
          u ∈ s.resolved ∨ u ∈ [sig] := by
        rw [remember, Std.HashMap.mem_insert, or_comm, List.mem_singleton, beq_iff_eq, eq_comm]
        rfl
      refine ⟨⟨hi, ?_, fun u hmem' => ?_⟩, hmem, (List.append_nil _).symm⟩
      · refine (hr.served hP.classes hA hn (h.served.note _) hu).congr fun name level => ?_
        simp only [Requests, hmem, or_and_right, exists_or, List.mem_singleton, exists_eq_left,
          or_assoc]
      · rcases (hmem u).1 hmem' with hold | hnew
        · exact h.clear u hold
        · rw [List.mem_singleton.1 hnew]
          exact (hr.clear_iff hP.classes hA hn).1 hu
  · rintro e s' ⟨⟨-, hu, r, rfl, hr⟩, -⟩ hclear
    have := (hr.clear_iff hP.classes hA hn).2 hclear e rfl
    rw [this] at hu
    cases hu

/-! ### One scan -/

/-- A call takes one lookup. -/
theorem scanCall_booked (caller : Signature) (offset : Nat) (c : Invocation)
    (h : Booked P start A limit Q s) :
    Ends (scanCall P limit caller offset c) s
      (fun _ s' => Booked P start A limit Q s' ∧ Logs [c.target] [] s s' ∧ ¬A.Fails c.target)
      fun _ _ => ¬A.Smooth limit c.target := by
  simp only [scanCall, ends_bind, ends_modify]
  have h₀ : Booked P start A limit Q (s.callFor c.target.owner) := h.congr rfl rfl
  refine ((fullyResolve_booked hP hA c.target h₀).and
    (fullyResolve_answers hP.classes hA limit c.target h₀.toInformed)).mono ?_
    fun e _ hnot hsmooth => hnot.1 hsmooth.toClear
  rintro o s₁ ⟨⟨h₁, hlogs⟩, ho, hu⟩
  have hlogs' : Logs [c.target] [] s s₁ := hlogs.congr rfl rfl rfl rfl
  cases o with
  | error e => exact ⟨h₁.congr rfl rfl, hlogs'.congr rfl rfl rfl rfl,
      Oracle.Declines.not_fails hA.toGraded ho (hu e rfl)⟩
  | ok callee =>
    simp only [ends_bind, ends_ask, h₁.resolver.body_fst hP.bodies]
    rcases hb : A.retrieveBody callee with e | b
    · simp only [Except.mapError, ends_ite, ends_modify, ends_throw,
        AnalysisError.isUnavailable_provider]
      refine ⟨fun hu => ?_, fun hu hsmooth => hsmooth.not_fails ?_⟩
      · exact ⟨(h₁.body callee).congr rfl rfl, hlogs'.congr rfl rfl rfl rfl,
          Oracle.Resolves.not_fails ho hb hu⟩
      · exact (Oracle.Resolves.fails_iff ho).2 ⟨e, hb, by simpa using hu⟩
    · exact ⟨(h₁.body callee).congr rfl rfl, hlogs'.congr rfl rfl rfl rfl,
        Oracle.LeadsTo.not_fails ⟨ho, hb⟩⟩

/-- A scan takes the lookups of the calls in the body. -/
theorem scan_booked (caller : Signature) (b : Body) (h : Booked P start A limit Q s) :
    Ends (scan P limit caller b) s
      (fun _ s' => Booked P start A limit Q s' ∧ Logs b.targets (b.complaints caller) s s' ∧
        ∀ t ∈ b.targets, ¬A.Fails t)
      fun _ _ => ∃ t ∈ b.targets, ¬A.Smooth limit t := by
  simp only [scan, ends_bind]
  -- The instructions that are done make up a body of their own.
  refine Ends.forM (I := fun done s' => Booked P start A limit Q s' ∧
    Logs (Body.targets ⟨done, none⟩) [] s s' ∧ ∀ t ∈ Body.targets ⟨done, none⟩, ¬A.Fails t)
    ?_ ?_ ⟨h, .refl s, by simp [Body.targets, Body.calls]⟩
  · rintro done i rest hl s₁ ⟨h₁, hlogs, hfails⟩
    unfold scanInstruction
    rcases hi : i.invoke with _ | c
    · have hsame : Body.targets ⟨done ++ [i], none⟩ = Body.targets ⟨done, none⟩ := by
        simp [Body.targets, Body.calls, hi]
      rw [hsame]
      exact ⟨h₁, hlogs, hfails⟩
    · have hdone : Body.targets ⟨done ++ [i], none⟩ = Body.targets ⟨done, none⟩ ++ [c.target] := by
        simp [Body.targets, Body.calls, hi]
      have hmem : c.target ∈ b.targets := by
        simp [Body.targets, Body.calls, hl, hi]
      rw [hdone]
      refine (scanCall_booked hP hA caller i.offset c h₁).mono ?_ fun _ _ hnot => ⟨_, hmem, hnot⟩
      rintro _ s₂ ⟨h₂, hlogs', hfails'⟩
      refine ⟨h₂, hlogs.trans hlogs', fun t ht => ?_⟩
      rcases List.mem_append.1 ht with ht | ht
      · exact hfails t ht
      · rwa [List.mem_singleton.1 ht]
  · rintro s₁ ⟨h₁, hlogs, hfails⟩
    have htargets : Body.targets ⟨b.instructions, none⟩ = b.targets := rfl
    rw [htargets] at hlogs hfails
    rcases hf : b.fault with _ | fault
    · rw [Body.complaints, hf]
      exact ⟨h₁, hlogs, hfails⟩
    · rw [Body.complaints, hf]
      refine ⟨(h₁.note _).congr rfl rfl, ⟨hlogs.resolved, ?_⟩, hfails⟩
      change (s₁.diagnostics.push _).toList = _
      rw [Array.toList_push, hlogs.diagnostics]
      simp

end

/-! ### One visit -/

/-- What a visit of `sig` adds to the books: its own lookup and, if it scans a method, the lookups
    of the calls in the body. -/
inductive Surveys (A : Oracle) (sig : Signature) (s s' : Session σ) : Prop
  | idle : Logs [sig] [] s s' → s'.scanned = s.scanned → s'.work = s.work → Surveys A sig s s'
  | scan {m : Method} {b : Body} : A.LeadsTo sig m b →
      Logs ([sig] ++ b.targets) (b.complaints m.signature) s s' →
      s'.scanned.toList = s.scanned.toList ++ [m.signature] →
      (∀ u, u ∈ s'.work.toList ↔ u ∈ s.work.toList ∨ A.Calls b u) →
      (∀ t ∈ b.targets, ¬A.Fails t) → Surveys A sig s s'

section

variable (hP : P.Follows start A) (hA : A.Coherent)
include hP hA

/-- What follows once the method is found and marked. -/
theorem scanMethod_surveys {sig : Signature} {m : Method} {s₁ : Session σ}
    (h : Booked P start A limit Q s₁) (hm : A.Resolves sig m)
    (hnew : m.signature ∉ s.scanned.toList) (hlogs : Logs [sig] [] s s₁)
    (hscanned : s₁.scanned = s.scanned) (hwork : s₁.work = s.work) :
    Ends (scanMethod P limit m) s₁
      (fun _ s' => Booked P start A limit Q s' ∧ Surveys A sig s s' ∧ s'.visited = s₁.visited)
      fun _ _ => A.Blocked limit sig := by
  simp only [scanMethod, ends_bind, ends_ask, h.resolver.body_fst hP.bodies]
  have h₁ := h.body m
  rcases hb : A.retrieveBody m with e | b
  · simp only [Except.mapError, ends_ite, ends_modify, ends_throw,
      AnalysisError.isUnavailable_provider]
    refine ⟨fun hu => ⟨h₁.note _, .idle (hlogs.congr rfl rfl rfl rfl) hscanned hwork, rfl⟩,
      fun hu => .inl fun hsmooth => hsmooth.not_fails ?_⟩
    exact hm.fails_iff.2 ⟨e, hb, by simpa using hu⟩
  · simp only [Except.mapError, ends_bind, ends_modify]
    have h₂ : Booked P start A limit Q
        ((s₁.setResolver (s₁.resolver.body P m).2).beginScan m.signature) :=
      (h₁.note (.scanning m.signature)).congr rfl rfl
    refine ((scan_booked hP hA m.signature b h₂).and
      (scan_adds hP hA limit m.signature b h₂.toInformed)).mono ?_ ?_
    · rintro _ s' ⟨⟨h', hlogs', hfails⟩, block, hdraws, hadds, -⟩
      refine ⟨h', .scan ⟨hm, hb⟩ (hlogs.trans (hlogs'.congr rfl rfl rfl rfl)) ?_ (fun u => ?_)
        hfails, hadds.visited⟩
      · rw [hadds.scanned]
        change (s₁.scanned.insert m.signature).toList = _
        rw [hscanned, OrderedSet.toList_insert_of_not_mem hnew]
      · rw [hadds.work, List.mem_append, Oracle.mem_callees_of_draws hA.toGraded hdraws, ← hwork]
        rfl
    · rintro e s' ⟨hblocked, -⟩
      exact .inr ⟨m, b, ⟨hm, hb⟩, hblocked⟩

/-- A visit takes its lookups, and marks what it comes to. It fails only if one of the lookups does
    not get through. -/
theorem visit_surveys {sig : Signature} (h : Booked P start A limit Q s)
    (hnew : sig ∉ s.scanned.toList) (hsub : ∀ u ∈ s.scanned.toList, u ∈ s.visited.toList) :
    Ends (visit P limit sig) s
      (fun _ s' => Booked P start A limit Q s' ∧ Surveys A sig s s' ∧
        ∀ u ∈ s'.visited.toList, u ∈ s.visited.toList ∨ ∃ m, A.Resolves sig m ∧ m.signature = u)
      fun _ _ => A.Blocked limit sig := by
  rw [ends_visit]
  refine ((fullyResolve_booked hP hA sig h).and
    (fullyResolve_knows hP.classes hA limit sig (h.knows hA.toGraded))).mono ?_
    fun e _ hnot => .inl fun hs => hnot.1 hs.toClear
  rintro o s₁ ⟨⟨h₁, hlogs⟩, ho, -, hi⟩
  cases o with
  | error e =>
    refine ⟨h₁.note _, .idle (hlogs.congr rfl rfl rfl rfl) hi.scanned hi.work, fun u hu => .inl ?_⟩
    rwa [← hi.visited]
  | ok m =>
    -- The method was visited before, or it is marked and scanned, or it is `sig` itself, which is
    -- marked.
    refine ⟨fun _ _ => ⟨h₁, .idle hlogs hi.scanned hi.work, fun u hu => .inl (hi.visited ▸ hu)⟩,
      fun _ hm => ?_, fun heq => ?_⟩
    · have hmark : Booked P start A limit Q (s₁.mark m.signature) := h₁.congr rfl rfl
      have hout : m.signature ∉ s.scanned.toList := fun hs => hm (hi.visited ▸ hsub _ hs)
      refine (scanMethod_surveys hP hA hmark ho hout (hlogs.congr rfl rfl rfl rfl) hi.scanned
        hi.work).mono ?_ fun _ _ => id
      rintro _ s' ⟨h', hs, hvisited⟩
      refine ⟨h', hs, fun u hu => ?_⟩
      rw [hvisited] at hu
      rcases OrderedSet.mem_toList_insert.1 hu with hu | rfl
      · exact .inl (hi.visited ▸ hu)
      · exact .inr ⟨m, ho, rfl⟩
    · refine (scanMethod_surveys hP hA h₁ ho (heq ▸ hnew) hlogs hi.scanned hi.work).mono ?_
        fun _ _ => id
      rintro _ s' ⟨h', hs, hvisited⟩
      refine ⟨h', hs, fun u hu => .inl ?_⟩
      rwa [hvisited, hi.visited] at hu

end

/-! ### The worklist -/

/-- The books are in order: there is a lookup for all that was visited and for all calls in what was
    scanned, and for nothing else, and `ds` and the complaints about what was scanned are all that
    there is to say. -/
structure Ledger (A : Oracle) (roots : ClassName → Prop) (ds : List Diagnostic) (s : Session σ) :
    Prop where
  looked : ∀ sig ∈ s.visited.toList,
    ∃ u ∈ s.resolved, u = sig ∨ ∃ m, A.Resolves u m ∧ m.signature = sig
  targets : ∀ sig ∈ s.scanned.toList, ∀ m b, A.LeadsTo sig m b →
    ∀ t ∈ b.targets, t ∈ s.resolved ∧ ¬A.Fails t
  wanted : ∀ sig, sig ∈ s.resolved ∨ sig ∈ s.work.toList →
    A.Wants roots {u | u ∈ s.scanned.toList} sig
  diagnostics : s.diagnostics.toList = ds ++ s.scanned.toList.flatMap A.complaints

variable {roots : ClassName → Prop} {R : Set Signature} {ds : List Diagnostic} {sig : Signature}
  {work : Queue Signature}

theorem Ledger.drop (h : Ledger A roots ds s) (hw : s.work.pop? = some (sig, work)) :
    Ledger A roots ds (s.setWork work) := by
  refine { h with wanted := fun u hu => h.wanted u (hu.imp_right fun hmem => ?_) }
  rw [Queue.toList_of_pop? hw]
  exact List.mem_cons_of_mem sig hmem

/-- A visit keeps the books in order. -/
theorem Ledger.surveys (hA : A.Coherent) (h : Ledger A roots ds s)
    (hw : s.work.pop? = some (sig, work)) (hs : Surveys A sig ((s.setWork work).mark sig) s')
    (hv : ∀ u ∈ s'.visited.toList, u ∈ ((s.setWork work).mark sig).visited.toList ∨
      ∃ m, A.Resolves sig m ∧ m.signature = u) : Ledger A roots ds s' := by
  have hpop := Queue.toList_of_pop? hw
  have hsig : A.Wants roots {u | u ∈ s.scanned.toList} sig := by
    refine h.wanted sig (.inr ?_)
    rw [hpop]
    exact List.mem_cons_self
  have hrest : ∀ u, u ∈ s.resolved ∨ u ∈ work.toList →
      A.Wants roots {u | u ∈ s.scanned.toList} u :=
    (h.drop hw).wanted
  have hlooked {keys : List Signature} (hk : sig ∈ keys)
      (hr : ∀ u, u ∈ s'.resolved ↔ u ∈ s.resolved ∨ u ∈ keys) :
      ∀ u ∈ s'.visited.toList, ∃ w ∈ s'.resolved,
        w = u ∨ ∃ m, A.Resolves w m ∧ m.signature = u := by
    intro u hu
    rcases hv u hu with hu | hu
    · rcases OrderedSet.mem_toList_insert.1 hu with hu | rfl
      · obtain ⟨w, hw, hwu⟩ := h.looked u hu
        exact ⟨w, (hr w).2 (.inl hw), hwu⟩
      · exact ⟨u, (hr u).2 (.inr hk), .inl rfl⟩
    · exact ⟨sig, (hr sig).2 (.inr hk), .inr hu⟩
  cases hs with
  | idle hlogs hscanned hwork =>
    have hscanned : s'.scanned = s.scanned := hscanned
    refine ⟨hlooked List.mem_cons_self hlogs.resolved, ?_, fun u hu => ?_, ?_⟩
    · rw [hscanned]
      intro u hu m b hm t ht
      obtain ⟨hmem, hfails⟩ := h.targets u hu m b hm t ht
      exact ⟨(hlogs.resolved t).2 (.inl hmem), hfails⟩
    · rw [hscanned]
      rw [hlogs.resolved, hwork, List.mem_singleton, or_right_comm] at hu
      rcases hu with hu | rfl
      · exact hrest u hu
      · exact hsig
    · rw [hlogs.diagnostics, hscanned, List.append_nil]
      exact h.diagnostics
  | @scan m b hm hlogs hscanned hwork hfails =>
    have hscanned : s'.scanned.toList = s.scanned.toList ++ [m.signature] := hscanned
    have hmono : {u | u ∈ s.scanned.toList} ⊆ {u | u ∈ s'.scanned.toList} := by
      intro u hu
      change u ∈ s'.scanned.toList
      rw [hscanned]
      exact List.mem_append_left _ hu
    have htarget {t : Signature} (ht : t ∈ b.targets) :
        A.Wants roots {u | u ∈ s'.scanned.toList} t := by
      refine .target (show m.signature ∈ s'.scanned.toList from ?_) (hm.self hA) ht
      rw [hscanned]
      exact List.mem_append_right _ List.mem_cons_self
    refine ⟨hlooked (List.mem_append_left _ List.mem_cons_self) hlogs.resolved, ?_,
      fun u hu => ?_, ?_⟩
    · intro u hu n b' hn t ht
      rw [hscanned, List.mem_append, List.mem_singleton] at hu
      rcases hu with hu | rfl
      · obtain ⟨hmem, hfails⟩ := h.targets u hu n b' hn t ht
        exact ⟨(hlogs.resolved t).2 (.inl hmem), hfails⟩
      · obtain ⟨-, rfl⟩ := (hm.self hA).unique hn
        exact ⟨(hlogs.resolved t).2 (.inr (List.mem_append_right _ ht)), hfails t ht⟩
    · -- It was looked up or queued before, or it is `sig`, or a call in the body names it or leads
      -- to it.
      rw [hlogs.resolved, hwork, List.mem_append, List.mem_singleton] at hu
      rcases hu with (hu | rfl | hu) | (hu | ⟨call, hcall, n, b', hn, rfl⟩)
      · exact (hrest u (.inl hu)).mono hmono
      · exact hsig.mono hmono
      · exact htarget hu
      · exact (hrest u (.inr hu)).mono hmono
      · exact .callee (htarget (List.mem_map_of_mem hcall)) hn.toResolves
    · rw [hlogs.diagnostics, hscanned, List.flatMap_append, List.flatMap_singleton,
        hm.complaints_eq hA, ← List.append_assoc]
      exact congrArg (· ++ _) h.diagnostics

/-- The state of a traversal that has met with no failure, and of its books. -/
structure Survey (P : Provider σ) (start : σ) (A : Oracle) (limit : Nat)
    (Q : ClassName → Level → Prop) (roots : ClassName → Prop) (R : Set Signature)
    (ds : List Diagnostic) (s : Session σ) : Prop extends Tracked P start A s,
    Booked P start A limit Q s, Orderly P start A roots R s, Ledger A roots ds s

theorem Survey.drop (h : Survey P start A limit Q roots R ds s)
    (hw : s.work.pop? = some (sig, work)) (hv : sig ∈ s.visited.toList) :
    Survey P start A limit Q roots R ds (s.setWork work) :=
  { (h.toTracked.congr rfl rfl rfl rfl : Tracked P start A (s.setWork work)),
    (h.toBooked.congr rfl rfl : Booked P start A limit Q (s.setWork work)),
    h.toExplored.drop hw hv, h.toLedger.drop hw with
    blocks := h.blocks
    harmless := h.harmless }

section

variable (hP : P.Follows start A) (hA : A.Coherent)
include hP hA

/-- One round of the traversal. It fails only if something that is wanted is in the way. -/
theorem Survey.visit (hR : A.Closed roots R) (h : Survey P start A limit Q roots R ds s)
    (hw : s.work.pop? = some (sig, work)) (hv : sig ∉ s.visited.toList) :
    Ends (Session.visit P limit sig) ((s.setWork work).mark sig)
      (fun _ s' => Survey P start A limit Q roots R ds s' ∧
        VisitOutcome A sig ((s.setWork work).mark sig) s' (.ok ()))
      fun _ _ => ∃ t, A.Wants roots R t ∧ ¬A.Smooth limit t := by
  have h₀ : Tracked P start A ((s.setWork work).mark sig) :=
    Tracked.mark (h.toTracked.congr rfl rfl rfl rfl : Tracked P start A (s.setWork work)) sig
  have hb : Booked P start A limit Q ((s.setWork work).mark sig) := h.toBooked.congr rfl rfl
  have hsig : sig ∈ ((s.setWork work).mark sig).visited.toList :=
    OrderedSet.mem_toList_insert.2 (.inr rfl)
  have hnew : sig ∉ ((s.setWork work).mark sig).scanned.toList := fun hs => hv (h.marked sig hs)
  have hmem : sig ∈ s.work.toList := by
    rw [Queue.toList_of_pop? hw]
    exact List.mem_cons_self
  refine ((visit_outcome hP hA limit h₀.toInformed hsig hnew h₀.marked).and
    (visit_surveys hP hA hb hnew h₀.marked)).mono ?_ ?_
  · rintro _ s' ⟨ho, hb', hsurveys, hvisited⟩
    have hexplored := (h.toExplored.mark hw).of_outcome hA hR (hb'.knows hA.toGraded) ho
    exact ⟨{ hexplored, hb', h.toLedger.surveys hA hw hsurveys hvisited with
      marked := ho.marked h₀.marked
      blocks := h.toOrderly.blocks_of_outcome hA ho
      harmless := h.toOrderly.harmless_of_outcome hA ho }, ho⟩
  · rintro e s' ⟨-, hnot | ⟨m, b, hm, t, ht, hnot⟩⟩
    · exact ⟨sig, (h.wanted sig (.inr hmem)).mono h.scanned, hnot⟩
    · -- The method whose scan has failed is among those that have to be scanned.
      have hmR : m.signature ∈ R := h.licensed sig (.inl hmem) _ hm.reaches
      exact ⟨t, .target hmR (hm.self hA) ht, hnot⟩

end

/-! ### When the queue is empty -/

section

variable (hA : A.Coherent) (h : Survey P start A limit Q roots R ds s) (hw : s.work.toList = [])
include hA h hw

/-- All that is wanted was looked up, and nothing was in the way. -/
theorem Survey.smooth (hs : A.Wants roots {u | u ∈ s.scanned.toList} sig) :
    A.Smooth limit sig ∧ ∀ name level, A.Consults sig name level → s.Requests A Q name level := by
  have hremembered {u : Signature} (hu : u ∈ s.resolved) :
      ∀ name level, A.Consults u name level → s.Requests A Q name level :=
    fun _ _ hc => .inr ⟨u, hu, hc⟩
  -- What is wanted because of what it resolves to asks for no more than that did.
  induction hs with
  | @seed sig hs =>
    have hv : sig ∈ s.visited.toList := by
      refine (h.seeded sig hs).resolve_right ?_
      rw [hw]
      exact List.not_mem_nil
    obtain ⟨u, hu, rfl | ⟨m, hm, rfl⟩⟩ := h.looked sig hv
    · exact ⟨⟨h.clear u hu, h.harmless u hv⟩, hremembered hu⟩
    · exact ⟨⟨hm.clear hA (h.clear u hu), h.harmless _ hv⟩,
        fun name level hc => hremembered hu name level (hm.consults hA hc)⟩
  | target hc hm ht =>
    obtain ⟨hu, hfails⟩ := h.targets _ hc _ _ hm _ ht
    exact ⟨⟨h.clear _ hu, hfails⟩, hremembered hu⟩
  | callee _ hm ih =>
    exact ⟨hm.smooth hA ih.1, fun name level hc => ih.2 name level (hm.consults hA hc)⟩

/-- The resolver was asked for the requests in `Q` and for what the lookups take that are wanted. -/
theorem Survey.served_wants : s.resolver.Served A fun name level => Q name level ∨
    ∃ sig, A.Wants roots {u | u ∈ s.scanned.toList} sig ∧ A.Consults sig name level := by
  refine h.served.congr fun name level => ⟨Or.imp_right ?_, ?_⟩
  · rintro ⟨sig, hsig, hc⟩
    exact ⟨sig, h.wanted sig (.inl hsig), hc⟩
  · rintro (hq | ⟨sig, hsig, hc⟩)
    · exact .inl hq
    · exact (h.smooth hA hw hsig).2 name level hc

end

end Session

end KernelReach
