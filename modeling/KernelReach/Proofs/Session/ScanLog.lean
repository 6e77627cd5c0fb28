import KernelReach.Proofs.Session.Lookup
import KernelReach.Proofs.Session.Worklist
import Mathlib

/-!
# Every method is scanned once

Whatever the provider answers, and however often a traversal is called off, fails and is taken up
again, the scans of a session can be listed one by one (`ScanRun`), and the list accounts for all
edges (`Logged`): the edges are the blocks of the scans, in the order of the scans, and a block has
one edge for each call in the body that was scanned. The invariant behind this is that a method is
marked as visited before it is scanned, so that no scan of it was begun before.

* `Quiet`: what is not a scan leaves the graph alone;
* `scan_ends`: one scan;
* `visit_logged`, `drain_logged`: one visit, and a whole traversal;
* `edges_in_blocks`: every session that operations lead to.

The sample at the end is run by `cbv`, with equations of the state monad that only the whole library
has.
-/

namespace KernelReach

/-- The edges are those of `calls` in the body of `caller`, one for each, in order. -/
def Records (caller : Signature) (calls : List (Nat × Invocation)) (edges : List CallEdge) : Prop :=
  edges.map (fun e => (e.caller, e.offset, e.kind, e.target)) =
    calls.map fun c => (caller, c.1, c.2.kind, c.2.target)

namespace Session

variable {σ : Type} {P : Provider σ} {s s' : Session σ}

/-! ### What leaves the graph alone -/

/-- The provider may have been called, but nothing was visited or scanned. -/
structure Calm (P : Provider σ) (s s' : Session σ) : Prop where
  visited : s'.visited = s.visited
  scanned : s'.scanned = s.scanned
  resolver : s.resolver.Advances P s'.resolver

theorem Calm.refl (P : Provider σ) (s : Session σ) : Calm P s s := ⟨rfl, rfl, .refl P _⟩

theorem Calm.trans {s₁ s₂ s₃ : Session σ} (h : Calm P s₁ s₂) (h' : Calm P s₂ s₃) :
    Calm P s₁ s₃ :=
  ⟨h'.visited.trans h.visited, h'.scanned.trans h.scanned, h.resolver.trans h'.resolver⟩

/-- Neither were there new edges. -/
structure Quiet (P : Provider σ) (s s' : Session σ) : Prop extends Calm P s s' where
  edges : s'.edges = s.edges

theorem Quiet.refl (P : Provider σ) (s : Session σ) : Quiet P s s := ⟨.refl P s, rfl⟩

theorem Quiet.trans {s₁ s₂ s₃ : Session σ} (h : Quiet P s₁ s₂) (h' : Quiet P s₂ s₃) :
    Quiet P s₁ s₃ :=
  ⟨h.toCalm.trans h'.toCalm, h'.edges.trans h.edges⟩

theorem quiet_setResolver {r : Resolver σ} (h : s.resolver.Advances P r) :
    Quiet P s (s.setResolver r) :=
  ⟨⟨rfl, rfl, h⟩, rfl⟩

theorem quiet_note {e : Event} (he : e.scanned? = none) : Quiet P s (s.note e) :=
  quiet_setResolver (Resolver.advances_note he)

theorem quiet_diagnose (kind : DiagnosticKind) (subject message : String) :
    Quiet P s (s.diagnose kind subject message) :=
  ⟨⟨rfl, rfl, (quiet_note rfl).resolver⟩, rfl⟩

theorem quiet_resolveClass (name : ClassName) (level : Level) :
    Quiet P s (s.setResolver (s.resolver.resolveClass P name level).2) :=
  quiet_setResolver (Resolver.advances_resolveClass P name level _)

/-- A loop of quiet rounds is quiet. -/
theorem quiet_forM {α : Type} {f : α → SessionM σ PUnit} {l : List α}
    (h : ∀ a s, Ends (f a) s (fun _ s' => Quiet P s s') fun _ s' => Quiet P s s') :
    Ends (l.forM f) s (fun _ s' => Quiet P s s') fun _ s' => Quiet P s s' := by
  refine Ends.forM (I := fun _ s' => Quiet P s s') (fun _ a _ _ s' hs => ?_) (fun _ => id)
    (.refl P s)
  exact (h a s').mono (fun _ _ => hs.trans) fun _ _ => hs.trans

theorem quiet_foldl {α : Type} {f : Session σ → α → Session σ} {l : List α}
    (h : ∀ s a, Quiet P s (f s a)) : Quiet P s (l.foldl f s) := by
  induction l generalizing s with
  | nil => exact .refl P s
  | cons a l ih => exact (h s a).trans ih

/-! ### The phases -/

theorem ingest_quiet (P : Provider σ) (s : Session σ) (paths : List StagedPath) :
    Quiet P s (s.ingest paths) := by
  refine quiet_foldl fun s p => ?_
  unfold ingestPath
  split
  · exact quiet_diagnose ..
  · exact .refl P s
  · dsimp only
    split
    · exact ⟨⟨rfl, rfl, Resolver.advances_note rfl⟩, rfl⟩
    · exact ⟨⟨rfl, rfl, .refl P _⟩, rfl⟩

theorem detectEntryPoints_quiet (P : Provider σ) (s : Session σ) :
    Quiet P s s.detectEntryPoints := by
  refine quiet_foldl fun s c => ?_
  unfold detectKernel
  dsimp only
  split
  · split
    · exact ⟨⟨rfl, rfl, .refl P _⟩, rfl⟩
    · exact quiet_diagnose ..
  · exact .refl P s

theorem augmentEntryPoints_quiet (P : Provider σ) (s : Session σ) :
    Quiet P s s.augmentEntryPoints :=
  ⟨⟨rfl, rfl, .refl P _⟩, rfl⟩

theorem loadSignatures_quiet (P : Provider σ) (s : Session σ) :
    Ends (loadSignatures P) s (fun _ s' => Quiet P s s') fun _ s' => Quiet P s s' := by
  simp only [loadSignatures, ends_bind, ends_modify, ends_get]
  have h₀ : Quiet P s { s with signaturesLoaded := true } := ⟨⟨rfl, rfl, .refl P _⟩, rfl⟩
  refine (quiet_forM fun name s => ?_).mono (fun _ _ => h₀.trans) fun _ _ => h₀.trans
  have h₁ : Quiet P s (s.note (.loadingSignatures name)) := quiet_note rfl
  have h₂ := h₁.trans (quiet_resolveClass name .signatures)
  simp only [loadClass, ends_bind, ends_modify, ends_ask]
  split
  · exact ⟨⟨h₂.visited, h₂.scanned, h₂.resolver⟩, h₂.edges⟩
  · rw [ends_ite]
    exact ⟨fun _ => h₂.trans (quiet_diagnose ..), fun _ => h₂⟩

theorem loadBuiltins_quiet (P : Provider σ) (s : Session σ) :
    Ends (loadBuiltins P) s (fun _ s' => Quiet P s s') fun _ s' => Quiet P s s' := by
  simp only [loadBuiltins, ends_bind, ends_get]
  refine quiet_forM fun b s => ?_
  have h := quiet_resolveClass (P := P) (s := s) b.name b.level
  simp only [loadBuiltin, ends_bind, ends_ask]
  split
  · exact h
  · rw [ends_ite]
    exact ⟨fun _ => h.trans (quiet_diagnose ..), fun _ => h⟩

theorem seed_quiet (P : Provider σ) (s : Session σ) :
    Ends (seed P) s (fun _ s' => Quiet P s s') fun _ s' => Quiet P s s' := by
  rw [ends_seed]
  have h₀ : Quiet P s s.enlist := ⟨⟨rfl, rfl, .refl P _⟩, rfl⟩
  refine (quiet_forM fun name s => ?_).mono (fun _ _ => h₀.trans) fun _ _ => h₀.trans
  have h := quiet_resolveClass (P := P) (s := s) name .signatures
  simp only [seedClass, ends_bind, ends_ask]
  split
  · exact ⟨⟨h.visited, h.scanned, h.resolver⟩, h.edges⟩
  · simp only [ends_ite, ends_bind, ends_throw, ends_get, ends_pure, ends_modify]
    exact ⟨fun _ => h, fun _ => ⟨fun _ => h.trans (quiet_diagnose ..), fun _ => h⟩⟩

/-! ### One scan -/

/-- What is known of an error that is not about something unavailable. -/
theorem isFault_or_exhausted {e : AnalysisError} (h : e.IsExpected) (hu : e.isUnavailable = false) :
    e.IsFault ∨ e = .exhausted :=
  h.resolve_left (by simp [hu])

theorem quiet_of_located {sig : Signature} {fuel : Nat} {o : Except AnalysisError Method}
    {r : Resolver σ} (h : (s.resolver.note (.resolvingToBodies sig.owner)).Located P fuel sig o r) :
    Quiet P s (s.setResolver r) :=
  quiet_setResolver ((Resolver.advances_note rfl).trans h.advances)

/-- A lookup is quiet, and fails only where the provider is at fault. -/
theorem fullyResolve_quiet (P : Provider σ) (fuel : Nat) (sig : Signature) (s : Session σ) :
    Ends (fullyResolve P fuel sig) s (fun _ s' => Quiet P s s')
      fun e s' => Quiet P s s' ∧ (e.IsFault ∨ e = .exhausted) := by
  refine (fullyResolve_ends P fuel sig s).mono ?_ ?_
  · rintro o s' (⟨_, rfl⟩ | ⟨_, _, r, rfl, hr⟩)
    · exact .refl P _
    · have h := quiet_of_located hr
      exact ⟨⟨h.visited, h.scanned, h.resolver⟩, h.edges⟩
  · rintro e s' ⟨_, hu, r, rfl, hr⟩
    exact ⟨quiet_of_located hr, isFault_or_exhausted hr.isExpected hu⟩

theorem isExpected_of_body {m : Method} {e : AnalysisError} {r : Resolver σ}
    (h : (r.body P m).1 = .error e) : e.IsExpected := by
  simp only [Resolver.body] at h
  rcases ha : (P.retrieveBody m r.source).1 with e' | b
  · rw [ha] at h
    cases h
    exact AnalysisError.isExpected_provider e'
  · rw [ha] at h
    cases h

/-- There is one new edge, and all else is quiet. -/
structure Gains (P : Provider σ) (edge : CallEdge) (s s' : Session σ) : Prop extends
    Calm P s s' where
  edges : s'.edges = s.edges.push edge

theorem Quiet.gains {edge : CallEdge} {s₁ s₂ : Session σ} (h : Quiet P s s₁)
    (hv : s₂.visited = s₁.visited) (hs : s₂.scanned = s₁.scanned)
    (hr : s₂.resolver = s₁.resolver) (he : s₂.edges = s₁.edges.push edge) : Gains P edge s s₂ :=
  ⟨⟨hv.trans h.visited, hs.trans h.scanned, hr ▸ h.resolver⟩, by rw [he, h.edges]⟩

/-- A call gets one edge, or the provider is at fault. -/
theorem scanCall_ends (P : Provider σ) (fuel : Nat) (caller : Signature) (offset : Nat)
    (c : Invocation) (s : Session σ) :
    Ends (scanCall P fuel caller offset c) s
      (fun _ s' => ∃ callee status,
        Gains P ⟨caller, c.target, callee, c.kind, offset, status⟩ s s')
      fun e s' => Quiet P s s' ∧ (e.IsFault ∨ e = .exhausted) := by
  simp only [scanCall, ends_bind, ends_modify]
  have h₀ : Quiet P s { s with bodies := s.bodies.insert c.target.owner } :=
    ⟨⟨rfl, rfl, .refl P _⟩, rfl⟩
  refine (fullyResolve_quiet P fuel c.target _).mono ?_ ?_
  · intro o s₁ h
    have h₁ := h₀.trans h
    cases o with
    | error e =>
      exact ⟨c.target, .unavailable e.message, h₁.gains rfl rfl rfl rfl⟩
    | ok callee =>
      simp only [ends_bind, ends_ask]
      have h₂ := h₁.trans (quiet_setResolver (Resolver.advances_body P callee _))
      rcases hb : (s₁.resolver.body P callee).1 with e | b
      · simp only [ends_ite, ends_modify, ends_throw]
        refine ⟨fun _ => ?_, fun hu => ⟨h₂, ?_⟩⟩
        · exact ⟨c.target, .unavailable e.message, h₂.gains rfl rfl rfl rfl⟩
        · exact isFault_or_exhausted (isExpected_of_body hb) (by simpa using hu)
      · exact ⟨callee.signature, .followed, h₂.gains rfl rfl rfl rfl⟩
  · rintro e s₁ ⟨h, he⟩
    exact ⟨h₀.trans h, he⟩

/-- The edges of a scan so far: those of the calls among the first instructions. -/
def Scanning (P : Provider σ) (caller : Signature) (calls : List (Nat × Invocation))
    (s s' : Session σ) : Prop :=
  Calm P s s' ∧ ∃ block, s'.edges.toList = s.edges.toList ++ block ∧ Records caller calls block

theorem Scanning.push {caller callee : Signature} {calls : List (Nat × Invocation)} {offset : Nat}
    {c : Invocation} {status : EdgeStatus} {s₁ s₂ : Session σ}
    (h : Scanning P caller calls s s₁)
    (hg : Gains P ⟨caller, c.target, callee, c.kind, offset, status⟩ s₁ s₂) :
    Scanning P caller (calls ++ [(offset, c)]) s s₂ := by
  obtain ⟨hcalm, block, hblock, hrec⟩ := h
  refine ⟨hcalm.trans hg.toCalm,
    block ++ [⟨caller, c.target, callee, c.kind, offset, status⟩], ?_, ?_⟩
  · rw [hg.edges, Array.toList_push, hblock, List.append_assoc]
  · rw [Records] at hrec ⊢
    simp [hrec]

theorem Scanning.quiet {caller : Signature} {calls : List (Nat × Invocation)} {s₁ s₂ : Session σ}
    (h : Scanning P caller calls s s₁) (hq : Quiet P s₁ s₂) : Scanning P caller calls s s₂ := by
  obtain ⟨hcalm, block, hblock, hrec⟩ := h
  exact ⟨hcalm.trans hq.toCalm, block, by rw [hq.edges, hblock], hrec⟩

/-- A scan adds one edge for each call of the body. If the provider is at fault it stops early,
    with the edges of the calls before. -/
theorem scan_ends (P : Provider σ) (fuel : Nat) (caller : Signature) (b : Body) (s : Session σ) :
    Ends (scan P fuel caller b) s (fun _ s' => Scanning P caller b.calls s s')
      fun e s' => (e.IsFault ∨ e = .exhausted) ∧ ∃ n, Scanning P caller (b.calls.take n) s s' := by
  simp only [scan, ends_bind]
  refine Ends.forM (I := fun done s' =>
    Scanning P caller (Body.calls ⟨done, none⟩) s s') ?_ ?_ ⟨.refl P s, [], by simp, rfl⟩
  · intro done i rest hl s₁ h
    -- The calls before the instruction are the first ones of the body.
    have htake : Body.calls ⟨done, none⟩ = b.calls.take (Body.calls ⟨done, none⟩).length := by
      simp [Body.calls, hl]
    unfold scanInstruction
    rcases hi : i.invoke with _ | c
    · simpa [Body.calls, hi] using h
    · refine (scanCall_ends P fuel caller i.offset c s₁).mono ?_ ?_
      · rintro _ s₂ ⟨callee, status, hg⟩
        simpa [Body.calls, hi] using h.push hg
      · rintro e s₂ ⟨hq, he⟩
        exact ⟨he, _, htake ▸ h.quiet hq⟩
  · intro s₁ h
    rcases b.fault with _ | fault
    · exact h
    · exact h.quiet (quiet_diagnose ..)

/-! ### The log of the scans -/

/-- A scan that was made: the provider has handed out a body in the state `source`, and the scan of
    that body has taken the session from `before` to `after`. -/
structure ScanRun (P : Provider σ) where
  fuel : Nat
  method : Method
  body : Body
  source : σ
  before : Session σ
  outcome : Except AnalysisError Unit
  after : Session σ
  retrieved : P.retrieveBody method source = (.ok body, before.resolver.source)
  ran : scan P fuel method.signature body before = (outcome, after)

namespace ScanRun

/-- The method that is scanned. -/
def caller (run : ScanRun P) : Signature := run.method.signature

/-- The edges that a scan has added. -/
def block (run : ScanRun P) : List CallEdge := run.after.edges.toList.drop run.before.edges.size

/-- There is an edge for each call, or the provider was at fault and the scan has stopped early. -/
def IsComplete (run : ScanRun P) : Prop :=
  (run.outcome = .ok () ∧ Records run.caller run.body.calls run.block) ∨
    ∃ e n, run.outcome = .error e ∧ e.IsFault ∧
      Records run.caller (run.body.calls.take n) run.block

theorem block_eq {run : ScanRun P} {block : List CallEdge}
    (h : run.after.edges.toList = run.before.edges.toList ++ block) : run.block = block := by
  rw [ScanRun.block, h, ← Array.length_toList, List.drop_left]

/-- What a scan does to the session, whatever comes of it. -/
theorem scanning (run : ScanRun P) :
    Calm P run.before run.after ∧
      run.after.edges.toList = run.before.edges.toList ++ run.block := by
  have h := scan_ends P run.fuel run.caller run.body run.before
  rcases ho : run.outcome with e | u
  · obtain ⟨_, n, hc, block, hb, _⟩ := h.error (ho ▸ run.ran)
    exact ⟨hc, block_eq hb ▸ hb⟩
  · obtain ⟨hc, block, hb, _⟩ := h.ok (ho ▸ run.ran)
    exact ⟨hc, block_eq hb ▸ hb⟩

theorem isComplete {run : ScanRun P} (h : run.outcome ≠ .error .exhausted) : run.IsComplete := by
  have hs := scan_ends P run.fuel run.caller run.body run.before
  rcases ho : run.outcome with e | u
  · obtain ⟨he, n, _, block, hb, hrec⟩ := hs.error (ho ▸ run.ran)
    have hfault : e.IsFault := he.resolve_right fun hx => h (hx ▸ ho)
    exact .inr ⟨e, n, ho, hfault, block_eq hb ▸ hrec⟩
  · obtain ⟨_, block, hb, hrec⟩ := hs.ok (ho ▸ run.ran)
    exact .inl ⟨ho, block_eq hb ▸ hrec⟩

end ScanRun

/-- The methods whose scans were begun, in order. -/
def scans (s : Session σ) : List Signature := s.events.filterMap Event.scanned?

/-- The provider has got from `a` to `b`, whatever it was asked for. -/
abbrev GoesOn (P : Provider σ) (a b : σ) : Prop := P.Leads (fun _ => True) a b

/-- The scan was made after those in `earlier`, by a session that began with the provider in the
    state `start` and has come to `s` since. -/
structure Placed (P : Provider σ) (start : σ) (earlier : List (ScanRun P)) (run : ScanRun P)
    (s : Session σ) : Prop where
  scanned : run.before.scanned.toList = earlier.map ScanRun.caller ++ [run.caller]
  edges : run.before.edges.toList = earlier.flatMap ScanRun.block
  since : GoesOn P start run.source
  still : GoesOn P run.after.resolver.source s.resolver.source

/-- The scans of a session are `runs`, and account for its edges. -/
structure Logged (P : Provider σ) (start : σ) (runs : List (ScanRun P)) (s : Session σ) :
    Prop where
  source : GoesOn P start s.resolver.source
  visited : ∀ sig ∈ s.scanned.toList, sig ∈ s.visited.toList
  scans : s.scans = s.scanned.toList
  callers : s.scanned.toList = runs.map ScanRun.caller
  edges : s.edges.toList = runs.flatMap ScanRun.block
  placed : ∀ earlier run later, runs = earlier ++ run :: later → Placed P start earlier run s
  complete : ∀ run ∈ runs, run.IsComplete

variable {start : σ} {runs : List (ScanRun P)}

theorem Calm.scans (h : Calm P s s') : s'.scans = s.scans := by
  simp only [Session.scans, events, List.filterMap_reverse, h.resolver.scans]

theorem Logged.quiet (h : Logged P start runs s) (hq : Quiet P s s') : Logged P start runs s' where
  source := h.source.trans hq.resolver.source
  visited := by
    rw [hq.scanned, hq.visited]
    exact h.visited
  scans := by rw [hq.scans, hq.scanned, h.scans]
  callers := by rw [hq.scanned, h.callers]
  edges := by rw [hq.edges, h.edges]
  placed earlier run later hr :=
    { h.placed earlier run later hr with
      still := (h.placed earlier run later hr).still.trans hq.resolver.source }
  complete := h.complete

/-- A new mark does not disturb the log. -/
theorem Logged.mark (h : Logged P start runs s) (sig : Signature) :
    Logged P start runs (s.mark sig) :=
  { h with
    visited := fun sig' hs => OrderedSet.mem_toList_insert.2 (.inl (h.visited sig' hs))
    placed := fun earlier run later hr => { h.placed earlier run later hr with } }

/-- A scan of a method that was not scanned before goes to the end of the log. -/
theorem Logged.append (h : Logged P start runs s) (run : ScanRun P)
    (hvisited : run.caller ∈ s.visited.toList) (hnew : run.caller ∉ s.scanned.toList)
    (hsource : GoesOn P start run.source) (hbefore : run.before = s.beginScan run.caller)
    (hcomplete : run.IsComplete) : Logged P start (runs ++ [run]) run.after := by
  obtain ⟨hcalm, hedges⟩ := run.scanning
  have hscanned : run.before.scanned.toList = s.scanned.toList ++ [run.caller] := by
    rw [hbefore]
    exact OrderedSet.toList_insert_of_not_mem hnew
  have hbedges : run.before.edges = s.edges := by rw [hbefore]; rfl
  have hbvisited : run.before.visited = s.visited := by rw [hbefore]; rfl
  have hbsource : run.before.resolver.source = s.resolver.source := by rw [hbefore]; rfl
  have hbscans : run.before.scans = s.scans ++ [run.caller] := by
    rw [hbefore]
    simp [Session.scans, events, beginScan, note, Resolver.note, Event.scanned?]
  have hgoes : GoesOn P s.resolver.source run.after.resolver.source :=
    hbsource ▸ hcalm.resolver.source
  refine ⟨h.source.trans hgoes, ?_, ?_, ?_, ?_, ?_, ?_⟩
  · intro sig hs
    rw [hcalm.scanned, hscanned, List.mem_append, List.mem_singleton] at hs
    rw [hcalm.visited, hbvisited]
    exact hs.elim (h.visited sig) fun hs => hs ▸ hvisited
  · rw [hcalm.scans, hbscans, h.scans, hcalm.scanned, hscanned]
  · rw [hcalm.scanned, hscanned, h.callers, List.map_append]
    rfl
  · rw [hedges, hbedges, h.edges, List.flatMap_append, List.flatMap_singleton]
  · intro earlier run' later hr
    rcases List.eq_nil_or_concat later with rfl | ⟨later, last, rfl⟩
    · -- It is the new scan.
      obtain ⟨rfl, hrun⟩ := List.append_inj' hr rfl
      cases hrun
      exact ⟨by rw [hscanned, h.callers], by rw [hbedges, h.edges], hsource, .start⟩
    · -- It is one of the scans before, since which the provider has gone on.
      have hr' : runs = earlier ++ run' :: later := by
        rw [List.concat_eq_append, ← List.cons_append, ← List.append_assoc] at hr
        exact (List.append_inj' hr rfl).1
      exact { h.placed earlier run' later hr' with
        still := (h.placed earlier run' later hr').still.trans hgoes }
  · intro run' hr
    rw [List.mem_append, List.mem_singleton] at hr
    exact hr.elim (h.complete run') fun hr => hr ▸ hcomplete

/-! ### Visits -/

/-- The log goes on after the step, unless the bound on the steps was reached. -/
abbrev KeepsLog (P : Provider σ) (start : σ) (x : SessionM σ Unit) (s : Session σ) : Prop :=
  Ends x s (fun _ s' => ∃ runs, Logged P start runs s')
    fun e s' => e ≠ .exhausted → ∃ runs, Logged P start runs s'

/-- A scan of a method that is visited, but was not scanned before, is entered in the log. -/
theorem scanMethod_logged (fuel : Nat) {m : Method} (h : Logged P start runs s)
    (hvisited : m.signature ∈ s.visited.toList) (hnew : m.signature ∉ s.scanned.toList) :
    KeepsLog P start (scanMethod P fuel m) s := by
  simp only [KeepsLog, scanMethod, ends_bind, ends_ask]
  have hq : Quiet P s (s.setResolver (s.resolver.body P m).2) :=
    quiet_setResolver (Resolver.advances_body P m _)
  have h₁ := h.quiet hq
  rcases hb : P.retrieveBody m s.resolver.source with ⟨e | b, t⟩
  · have ha : (s.resolver.body P m).1 = .error (.provider e) := by
      simp [Resolver.body, hb, Except.mapError]
    simp only [ha, ends_ite, ends_modify, ends_throw]
    exact ⟨fun _ => ⟨runs, h₁.quiet (quiet_note rfl)⟩, fun _ _ => ⟨runs, h₁⟩⟩
  · have ha : (s.resolver.body P m).1 = .ok b := by simp [Resolver.body, hb, Except.mapError]
    simp only [ha, ends_bind, ends_modify]
    let s₁ := s.setResolver (s.resolver.body P m).2
    rcases hr : scan P fuel m.signature b (s₁.beginScan m.signature) with ⟨outcome, s₂⟩
    let run : ScanRun P :=
      { fuel, method := m, body := b, source := s.resolver.source
        before := s₁.beginScan m.signature, outcome, after := s₂
        retrieved := by
          rw [hb]
          exact congrArg (Prod.mk (Except.ok b)) (congrArg Prod.snd hb).symm
        ran := hr }
    have hlog (hx : outcome ≠ .error .exhausted) : Logged P start (runs ++ [run]) s₂ :=
      h₁.append run hvisited hnew h.source rfl (ScanRun.isComplete hx)
    rcases outcome with e | u
    · simp only [s₁] at hr
      simp only [Ends, hr]
      exact fun hx => ⟨_, hlog fun he => hx (Except.error.inj he)⟩
    · simp only [s₁] at hr
      simp only [Ends, hr]
      exact ⟨_, hlog (by simp)⟩

/-- A visit of a signature that was not visited before. The method that is found was not scanned
    before, for it was not visited. -/
theorem visit_logged (fuel : Nat) {sig : Signature} (h : Logged P start runs s)
    (hnew : sig ∉ s.visited.toList) : KeepsLog P start (visit P fuel sig) (s.mark sig) := by
  rw [KeepsLog, ends_visit]
  have h₀ := h.mark sig
  refine (fullyResolve_quiet P fuel sig _).mono (fun o s₁ hq => ?_) fun e s₁ hq _ =>
    ⟨runs, h₀.quiet hq.1⟩
  have h₁ := h₀.quiet hq
  cases o with
  | error e => exact ⟨runs, h₁.quiet (quiet_note rfl)⟩
  | ok m =>
    refine ⟨fun _ _ => ⟨runs, h₁⟩, fun _ hm => ?_, fun hm => ?_⟩
    · exact scanMethod_logged fuel (h₁.mark m.signature)
        (OrderedSet.mem_toList_insert.2 (.inr rfl)) fun hs => hm (h₁.visited _ hs)
    · refine scanMethod_logged fuel h₁ ?_ fun hs => hnew (h.visited _ ?_)
      · rw [hq.visited, hm]
        exact OrderedSet.mem_toList_insert.2 (.inr rfl)
      · rw [hq.scanned, hm] at hs
        exact hs

theorem drain_logged (limit fuel : Nat) (patience : Option Nat) (h : Logged P start runs s) :
    KeepsLog P start (drain P limit fuel patience) s := by
  have hwork {s : Session σ} {runs : List (ScanRun P)} (h : Logged P start runs s)
      (work : Queue Signature) : Logged P start runs (s.setWork work) :=
    h.quiet ⟨⟨rfl, rfl, .refl P _⟩, rfl⟩
  refine (drain_ends (I := fun s => ∃ runs, Logged P start runs s)
    (E := fun e s => e ≠ .exhausted → ∃ runs, Logged P start runs s) ?_ ?_ ?_ ?_ fuel patience
    ⟨runs, h⟩).mono (fun _ _ h => h.1) fun _ _ => id
  · rintro s sig work ⟨runs, h⟩ _ _
    exact ⟨runs, hwork h work⟩
  · rintro s sig work ⟨runs, h⟩ _ hv
    exact visit_logged limit (hwork h work) hv
  · exact fun _ h _ => h
  · exact fun _ _ hx => absurd rfl hx

/-! ### Every session -/

/-- The sessions to which operations lead, in any order and however they end. A traversal that is
    stopped by its bound on the steps is none of them, for it is not at its end. -/
inductive Reached (P : Provider σ) (options : Options) (source : σ) : Session σ → Prop
  | new : Reached P options source (new options source)
  | ingest {s : Session σ} (paths : List StagedPath) :
      Reached P options source s → Reached P options source (s.ingest paths)
  | loadSignatures {s : Session σ} :
      Reached P options source s → Reached P options source (loadSignatures P s).2
  | detectEntryPoints {s : Session σ} :
      Reached P options source s → Reached P options source s.detectEntryPoints
  | loadBuiltins {s : Session σ} :
      Reached P options source s → Reached P options source (loadBuiltins P s).2
  | traverse {s : Session σ} (fuel : Nat) (patience : Option Nat) :
      Reached P options source s → (traverse P fuel patience s).1 ≠ .error .exhausted →
      Reached P options source (traverse P fuel patience s).2
  | augmentEntryPoints {s : Session σ} :
      Reached P options source s → Reached P options source s.augmentEntryPoints

theorem Ends.snd {x : SessionM σ Unit} {I : Session σ → Prop} {E : AnalysisError → Prop}
    (h : Ends x s (fun _ => I) fun e s' => E e → I s') (hx : ∀ e, (x s).1 = .error e → E e) :
    I (x s).2 := by
  rcases hr : x s with ⟨e | u, s'⟩
  · exact h.error hr (hx e (by rw [hr]))
  · exact h.ok hr

theorem logged_new (P : Provider σ) (options : Options) (source : σ) :
    Logged P source [] (new options source) where
  source := .start
  visited _ h := absurd h List.not_mem_nil
  scans := rfl
  callers := rfl
  edges := rfl
  placed _ _ _ h := by simp at h
  complete _ h := absurd h List.not_mem_nil

theorem traverse_logged (fuel : Nat) (patience : Option Nat) (h : Logged P start runs s) :
    KeepsLog P start (traverse P fuel patience) s := by
  rw [KeepsLog, traverse, ends_bind]
  exact (seed_quiet P s).mono (fun _ _ hq => drain_logged fuel fuel patience (h.quiet hq))
    fun _ _ hq _ => ⟨runs, h.quiet hq⟩

/-- The log goes on through every operation. -/
theorem Reached.logged {options : Options} {source : σ} (h : Reached P options source s) :
    ∃ runs, Logged P source runs s := by
  induction h with
  | new => exact ⟨[], logged_new P options source⟩
  | ingest paths _ ih => exact ih.imp fun _ h => h.quiet (ingest_quiet P _ paths)
  | detectEntryPoints _ ih => exact ih.imp fun _ h => h.quiet (detectEntryPoints_quiet P _)
  | augmentEntryPoints _ ih => exact ih.imp fun _ h => h.quiet (augmentEntryPoints_quiet P _)
  | @loadSignatures s _ ih =>
    refine ih.imp fun _ h => h.quiet ?_
    exact ((loadSignatures_quiet P s).mono (fun _ _ => id) fun _ _ h _ => h).snd fun _ _ => trivial
  | @loadBuiltins s _ ih =>
    refine ih.imp fun _ h => h.quiet ?_
    exact ((loadBuiltins_quiet P s).mono (fun _ _ => id) fun _ _ h _ => h).snd fun _ _ => trivial
  | @traverse s fuel patience _ hx ih =>
    obtain ⟨runs, h⟩ := ih
    exact (traverse_logged fuel patience h).snd fun e he hex => hx (hex ▸ he)

/-- Whatever the provider answers and whatever was done with the session, no method is scanned
    twice, the scanned methods are visited, and every scan was begun once. The edges are the blocks
    of the scans in the order of the scanned methods. A block has one edge for each call of the
    body that the provider has handed out for the method, in code order, with the caller, the
    target, the kind and the position of the call; only a scan that ended with a failure of the
    provider has stopped at one of the calls. -/
theorem edges_in_blocks {options : Options} {source : σ} (h : Reached P options source s) :
    s.scanned.toList.Nodup ∧ (∀ sig ∈ s.scanned.toList, sig ∈ s.visited.toList) ∧
    (∀ sig, s.scans.count sig ≤ 1) ∧ s.scans = s.scanned.toList ∧
    ∃ runs : List (ScanRun P),
      s.scanned.toList = runs.map ScanRun.caller ∧
      s.edges.toList = runs.flatMap ScanRun.block ∧
      (∀ earlier run later, runs = earlier ++ run :: later →
        Placed P source earlier run s) ∧
      ∀ run ∈ runs, (run.outcome = .ok () ∧ Records run.caller run.body.calls run.block) ∨
        ∃ e n, run.outcome = .error e ∧ e.IsFault ∧
          Records run.caller (run.body.calls.take n) run.block := by
  obtain ⟨runs, h⟩ := h.logged
  have hnodup := s.scanned.nodup_toList
  exact ⟨hnodup, h.visited, List.nodup_iff_count.1 (h.scans ▸ hnodup), h.scans, runs,
    h.callers, h.edges, h.placed, h.complete⟩

/-- A traversal of the small program that is called off after its first step and taken up again: two
    scans, with three calls in the first, and one before the fault in the second. -/
theorem edges_in_blocks_sample :
    let P := Sample.oracle.toProvider
    let s := (traverse P 9 (some 1) ((new Sample.options ()).ingest Sample.paths)).2
    let s' := (traverse P 9 none s).2
    Reached P Sample.options () s' ∧
    s'.edges.toList.map CallEdge.offset = [0, 3, 6, 0] ∧
    ∃ runs : List (ScanRun P), s'.edges.toList = runs.flatMap ScanRun.block ∧
      runs.map ScanRun.caller =
        [Sample.signature "app.K" "run", Sample.signature "app.Base" "work"] := by
  have hfirst : (traverse Sample.oracle.toProvider 9 (some 1)
      ((new Sample.options ()).ingest Sample.paths)).1 = .error .canceled := by cbv
  have hsecond :
      let s := (traverse Sample.oracle.toProvider 9 (some 1)
        ((new Sample.options ()).ingest Sample.paths)).2
      let x := traverse Sample.oracle.toProvider 9 none s
      (x.1, x.2.scanned.toList, x.2.edges.toList.map CallEdge.offset) =
        (.ok (), [Sample.signature "app.K" "run", Sample.signature "app.Base" "work"],
          [0, 3, 6, 0]) := by cbv
  intro P s s'
  obtain ⟨hok, hsecond⟩ := Prod.mk.inj hsecond
  obtain ⟨hscanned, hoffsets⟩ := Prod.mk.inj hsecond
  have hreached : Reached P Sample.options () s' :=
    .traverse 9 none (.traverse 9 (some 1) (.ingest _ .new) (by rw [hfirst]; simp))
      (by rw [hok]; simp)
  obtain ⟨_, _, _, _, runs, hcallers, hedges, _⟩ := edges_in_blocks hreached
  exact ⟨hreached, hoffsets, runs, hedges, hcallers.symm.trans hscanned⟩

end Session

end KernelReach
