import KernelReach.Proofs.Export.CallGroups
import KernelReach.Proofs.Session.Targets
import KernelReach.Proofs.Store.Storable
import KernelReach.Proofs.Web.View

/-!
# The status of a group of calls

A view and an export put the calls between two methods together and give them the status of the
first. All calls of a method have one status, so nothing is lost by that (`targets_consistent`), as
long as the methods are told apart. But what a report has of a method is the text of its signature,
and two signatures can have the same text (`CallEdge.Ambiguous`). Then a call that leads to a method
and one that leads nowhere are taken for calls of one method (`twins_merged`).
-/

namespace KernelReach

namespace CallEdge

variable {edges : List CallEdge} {e : CallEdge}

/-- Another callee of the calls has the same text. -/
def Ambiguous (edges : List CallEdge) (e : CallEdge) : Prop :=
  ∃ e' ∈ edges, e'.callee ≠ e.callee ∧ e'.callee.text = e.callee.text

theorem not_ambiguous_of_isPlain (h : ∀ e ∈ edges, e.callee.IsPlain) (he : e ∈ edges) :
    ¬Ambiguous edges e := by
  rintro ⟨e', he', hne, htext⟩
  exact hne (Signature.text_inj (h e' he') (h e he) htext)

/-- If the callee decides on the status, a row with the text of a callee has its status, or the text
    is that of two callees. -/
theorem status_eq_or_ambiguous
    (h : ∀ e ∈ edges, ∀ e' ∈ edges, e.callee = e'.callee → e.status = e'.status) (he : e ∈ edges)
    {row : EdgeRecord} (hrow : row ∈ edges.map toRecord) (hcallee : row.callee = e.callee.text) :
    (row.status = e.status.name ∧ row.reason = e.status.reason) ∨ Ambiguous edges e := by
  obtain ⟨e', he', rfl⟩ := List.mem_map.1 hrow
  by_cases heq : e'.callee = e.callee
  · rw [← h e' he' e he heq]
    exact .inl ⟨rfl, rfl⟩
  · exact .inr ⟨e', he', heq, hcallee⟩

end CallEdge

namespace Session

variable {σ : Type} {P : Provider σ} {A : Oracle}

/-- Over a coherent provider, what a session remembers of a lookup is what every other search for
    the method finds, also in the midst of an operation. In every session, edges with the same
    target have the same callee, status and reason, and edges with the same callee have the same
    status and reason. A group of an export and an edge of a view have the status of each of their
    calls, unless the text of its callee is that of another callee, too, which it never is if all
    callees are plain. -/
theorem targets_consistent {source : σ} (hP : P.Follows source A) (hA : A.Coherent)
    {options : Options} (hb : ∀ b ∈ options.builtins, b.level.IsValid) :
    (∀ s, Underway P options source s → ∀ (sig : Signature) (o : Except AnalysisError Method),
      s.resolved[sig]? = some o →
      ∃ n, ∀ t, Underway P options source t → ∀ fuel, n ≤ fuel →
        (resolveToBody P fuel sig t).1 = o) ∧
    ∀ s, Reached P options source s →
      let edges := s.result.edges
      (∀ e ∈ edges, ∀ e' ∈ edges, e.target = e'.target →
        e.callee = e'.callee ∧ e.status = e'.status) ∧
      (∀ e ∈ edges, ∀ e' ∈ edges, e.callee = e'.callee → e.status = e'.status) ∧
      (∀ info, let r := Report.ofResult s.result info
        (∀ g ∈ Export.groupCalls (r.edges.getD []), ∀ e ∈ edges, e.caller.text = g.caller →
          e.callee.text = g.callee →
          (g.status = e.status.name ∧ g.reason = e.status.reason) ∨ CallEdge.Ambiguous edges e) ∧
        ∀ filter root depth,
          let view :=
            ((Web.GraphBuilder.new (r.edges.getD []) (r.methods.getD []) filter).build root depth).1
          ∀ g ∈ view.edges, ∀ e ∈ edges, e.caller.text = g.source → e.callee.text = g.target →
            g.status = e.status.name ∨ CallEdge.Ambiguous edges e) ∧
      ((∀ e ∈ edges, e.callee.IsPlain) → ∀ e ∈ edges, ¬CallEdge.Ambiguous edges e) := by
  have hinformed {s : Session σ} (h : Underway P options source s) : Informed P source A s :=
    (lasting_informed hP.classes hA).underway hb (informed_new P A options source) h
  refine ⟨fun s hs sig o ho => ?_, fun s hs => ?_⟩
  · obtain ⟨n, hn⟩ := resolveToBody_eq_of_resolved hP.classes hA (hinformed hs) ho
    exact ⟨n, fun t ht => hn t (hinformed ht)⟩
  · intro edges
    have hjudged := hs.judged hP hA hb
    have hstatus : ∀ e ∈ edges, ∀ e' ∈ edges, e.callee = e'.callee → e.status = e'.status :=
      fun e he e' he' => hjudged.eq_of_callee hA he he'
    refine ⟨fun e he e' he' => hjudged.eq_of_target hA he he', hstatus, fun info => ?_,
      fun hplain e he => CallEdge.not_ambiguous_of_isPlain hplain he⟩
    intro r
    have hrows : r.edges.getD [] = edges.map CallEdge.toRecord := getD_presentRows _
    rw [hrows]
    -- Groups and edges of views are alike in this: each says what the first of its calls says.
    refine ⟨fun g hg e he _ hcallee => ?_, fun filter root depth => ?_⟩
    · obtain ⟨first, hfirst, -, htext, hgroup, hreason⟩ := Export.exists_first_of_mem_groupCalls hg
      rw [← hgroup, ← hreason]
      exact CallEdge.status_eq_or_ambiguous hstatus he hfirst (htext.trans hcallee.symm)
    · intro view g hg e he _ hcallee
      have hview := Web.GraphBuilder.covers_build (edges.map CallEdge.toRecord) (r.methods.getD [])
        filter root depth
      obtain ⟨first, hfirst, -, htext, hgroup⟩ := hview.exists_first hg
      rw [← hgroup]
      exact (CallEdge.status_eq_or_ambiguous hstatus he hfirst
        (htext.trans hcallee.symm)).imp_left And.left

end Session

namespace Sample

/-- The first traversal of a session over the provider, and the session after it. -/
def traversal (A : Oracle) : Except AnalysisError Unit × Session Unit :=
  Session.traverse A.toProvider 9 none
    (Session.loadBuiltins A.toProvider (Session.loadSignatures A.toProvider
      ((Session.new options ()).ingest paths)).2.detectEntryPoints).2

theorem reached_traversal {A : Oracle} (h : (traversal A).1 = .ok ()) :
    Session.Reached A.toProvider options () (traversal A).2 := by
  refine .traverse 9 none
    (.loadBuiltins (.detectEntryPoints (.loadSignatures (.ingest paths .new)))) ?_
  rw [show (Session.traverse _ 9 none _).1 = .ok () from h]
  exact nofun

/-- What comes of a call of an inherited method. -/
theorem traversal_resolved : (traversal oracle).1 = .ok () ∧
    ((traversal oracle).2.resolved[signature "app.Sub" "work"]?).map (·.map Method.signature) =
      some (.ok (signature "app.Base" "work")) := by
  have hrun : ((traversal oracle).1,
      ((traversal oracle).2.resolved[signature "app.Sub" "work"]?).map (·.map Method.signature)) =
        (.ok (), some (.ok (signature "app.Base" "work"))) := by cbv
  exact Prod.mk.inj hrun

end Sample

namespace Session

/-- The kernel of the sample program calls a method that its class inherits. What the session
    remembers of that call is found by a new session, too. -/
theorem targets_consistent_sample :
    let P := Sample.oracle.toProvider
    let sig := Sample.signature "app.Sub" "work"
    Reached P Sample.options () (Sample.traversal Sample.oracle).2 ∧
    ∃ m n, (Sample.traversal Sample.oracle).2.resolved[sig]? = some (.ok m) ∧
      m.signature = Sample.signature "app.Base" "work" ∧
      ∀ fuel, n ≤ fuel → (resolveToBody P fuel sig (new Sample.options ())).1 = .ok m := by
  intro P sig
  obtain ⟨hok, hmemo⟩ := Sample.traversal_resolved
  obtain ⟨o, ho, hsig⟩ := Option.map_eq_some_iff.1 hmemo
  obtain ⟨m, rfl, hm⟩ : ∃ m, o = .ok m ∧ m.signature = Sample.signature "app.Base" "work" := by
    cases o with
    | error e => cases hsig
    | ok m => exact ⟨m, rfl, Except.ok.inj hsig⟩
  have hreached := Sample.reached_traversal hok
  obtain ⟨n, hn⟩ := (targets_consistent Sample.oracle.follows_toProvider Sample.coherent_oracle
    (by decide)).1 _ hreached.underway sig (.ok m) ho
  exact ⟨hreached, m, n, ho, hm, hn _ .new⟩

end Session

namespace Sample

/-- A kernel with two calls whose targets have the same text. The class of the second one is
    missing. -/
def twinClasses : List Class :=
  [{ name := ⟨"app.K"⟩, level := .bodies, flags := .isPublic, superclass := none
     interfaces := [⟨"api.Kernel"⟩]
     methods := [⟨signature "app.K" "run", .isPublic, some
      ⟨[call 0 (signature "A" "b: void c"), call 3 (signature "A: void b" "c")], none⟩⟩] },
   { name := ⟨"A"⟩, level := .bodies, flags := .isPublic, superclass := none
     interfaces := []
     methods := [⟨signature "A" "b: void c", .isPublic, some ⟨[], none⟩⟩] }]

def twinOracle : Oracle := .ofClasses twinClasses

theorem coherent_twinOracle : twinOracle.Coherent := Oracle.coherent_ofClasses (by decide)

def twinEdges : List CallEdge :=
  [⟨signature "app.K" "run", signature "A" "b: void c", signature "A" "b: void c", .virtual, 0,
    .followed⟩,
   ⟨signature "app.K" "run", signature "A: void b" "c", signature "A: void b" "c", .virtual, 3,
    .unavailable "A: void b: class not found"⟩]

theorem traversal_twins : (traversal twinOracle).1 = .ok () ∧
    (traversal twinOracle).2.result.edges = twinEdges := by
  have hrun : ((traversal twinOracle).1, (traversal twinOracle).2.result.edges) =
    (.ok (), twinEdges) := by cbv
  exact Prod.mk.inj hrun

end Sample

namespace Session

/-- In a session over a coherent provider, one call of a method is followed and one is not, and both
    an export and a view take them for two calls that are followed. -/
theorem twins_merged :
    let P := Sample.twinOracle.toProvider
    let s := (Sample.traversal Sample.twinOracle).2
    let run := Sample.signature "app.K" "run"
    let text := "<A: void b: void c()>"
    Sample.twinOracle.Coherent ∧ Reached P Sample.options () s ∧
    s.result.edges.map (fun e => (e.caller, e.callee.text, e.status.name)) =
      [(run, text, "followed"), (run, text, "unavailable")] ∧
    ∀ info, let r := Report.ofResult s.result info
      Export.groupCalls (r.edges.getD []) = [⟨run.text, text, "virtual", "followed", "", [0, 3]⟩] ∧
      let view :=
        ((Web.GraphBuilder.new (r.edges.getD []) (r.methods.getD []) {}).build run.text 1).1
      ⟨run.text, text, "virtual", "followed", 2⟩ ∈ view.edges := by
  intro P s run text
  obtain ⟨hok, hedges⟩ := Sample.traversal_twins
  refine ⟨Sample.coherent_twinOracle, Sample.reached_traversal hok, ?_, fun info => ?_⟩
  · rw [hedges]
    decide
  intro r
  have hrows : r.edges.getD [] = Sample.twinEdges.map CallEdge.toRecord := by
    rw [← hedges]
    exact getD_presentRows _
  rw [hrows]
  refine ⟨by decide, ?_⟩
  -- The kernel is the root, so its calls are in view; both are counted for one callee.
  have hview := Web.GraphBuilder.covers_build (Sample.twinEdges.map CallEdge.toRecord)
    (r.methods.getD []) {} run.text 1
  exact (hview.mem_edges _).2 ⟨⟨0, by decide, Web.GraphFilter.distance_zero.2 rfl⟩,
    by decide +kernel, by decide +kernel, _, _, rfl, rfl, rfl, rfl⟩

end Session

end KernelReach
