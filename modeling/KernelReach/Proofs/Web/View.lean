import KernelReach.Proofs.Web.Walk

/-!
# What a view shows

A view of a call graph from a root shows exactly the methods with an admissible path from the root,
up to its depth, each once, in the order of their distances, and exactly the calls between them that
the filter shows, counted by caller and callee (`build_exact`).

The root is walked from even if the filter hides it, and then it is not among the nodes. So the
source of an edge can be missing there, but only then (`build_closed_iff`).
-/

namespace KernelReach.Web

/-! ### The nodes of a builder -/

namespace GraphBuilder

variable {f : GraphFilter} {calls : List EdgeRecord} {b : GraphBuilder} {root sig : String}
  {k n : Nat} {frontier : List String}

theorem mem_added {node : GraphNode} :
    node ∈ b.added ↔ ∃ sig : String, b.nodes[sig]? = some node := by
  simp [added, Std.HashMap.mem_toList_iff_getElem?_eq_some]

theorem Shows.mem_added (h : b.Shows f calls) :
    (∃ node ∈ b.added, node.signature = sig ∧ node.depth = n) ↔ b.depth? sig = some n := by
  rw [depth?, Option.map_eq_some_iff]
  constructor
  · rintro ⟨node, hnode, rfl, hn⟩
    obtain ⟨sig, hsig⟩ := GraphBuilder.mem_added.1 hnode
    exact ⟨node, (h.nodes sig node hsig).1.symm ▸ hsig, hn⟩
  · rintro ⟨node, hsig, hn⟩
    exact ⟨node, GraphBuilder.mem_added.2 ⟨sig, hsig⟩, (h.nodes sig node hsig).1, hn⟩

theorem Shows.nodup_signatures (h : b.Shows f calls) :
    (b.added.map GraphNode.signature).Nodup := by
  have hkeys : b.added.map GraphNode.signature = b.nodes.toList.map Prod.fst := by
    rw [added, List.map_map]
    refine List.map_congr_left fun p hp => ?_
    exact (h.nodes p.1 p.2 (Std.HashMap.mem_toList_iff_getElem?_eq_some.1 hp)).1
  rw [hkeys]
  exact List.pairwise_map.2 (b.nodes.distinct_keys_toList.imp fun hne => by simpa using hne)

end GraphBuilder

/-! ### The order of the nodes -/

theorem nodeBefore_iff {a b : GraphNode} : GraphBuilder.nodeBefore a b = true ↔
    a.depth < b.depth ∨ a.depth = b.depth ∧ a.signature ≤ b.signature := by
  rw [GraphBuilder.nodeBefore]
  split <;> rename_i h
  · simp [h]
  · simp [h]

theorem nodeBefore_trans (a b c : GraphNode) (hab : GraphBuilder.nodeBefore a b = true)
    (hbc : GraphBuilder.nodeBefore b c = true) : GraphBuilder.nodeBefore a c = true := by
  rw [nodeBefore_iff] at *
  rcases hab with hab | ⟨hab, hsab⟩ <;> rcases hbc with hbc | ⟨hbc, hsbc⟩
  · exact .inl (hab.trans hbc)
  · exact .inl (hbc ▸ hab)
  · exact .inl (hab ▸ hbc)
  · exact .inr ⟨hab.trans hbc, String.le_trans hsab hsbc⟩

theorem nodeBefore_total (a b : GraphNode) :
    (GraphBuilder.nodeBefore a b || GraphBuilder.nodeBefore b a) = true := by
  rw [Bool.or_eq_true, nodeBefore_iff, nodeBefore_iff]
  rcases Nat.lt_trichotomy a.depth b.depth with h | h | h
  · exact .inl (.inl h)
  · exact (String.le_total a.signature b.signature).imp (.inr ⟨h, ·⟩) (.inr ⟨h.symm, ·⟩)
  · exact .inr (.inl h)

/-! ### Views -/

/-- The view shows the methods up to the distance `d` from the root, and their calls up to there. -/
structure GraphView.Covers (f : GraphFilter) (calls : List EdgeRecord) (root : String) (d : Nat)
    (v : GraphView) : Prop where
  mem_nodes : ∀ sig n, (∃ node ∈ v.nodes, node.signature = sig ∧ node.depth = n) ↔
    n ≤ d ∧ f.Distance calls root sig n ∧ f.hides (signatureClass sig) = false
  nodup : (v.nodes.map GraphNode.signature).Nodup
  sorted : v.nodes.Pairwise fun a b => GraphBuilder.nodeBefore a b = true
  mem_edges : ∀ g, g ∈ v.edges ↔ (∃ n < d, f.Distance calls root g.source n) ∧
    f.stops (signatureClass g.source) = false ∧ f.hides (signatureClass g.target) = false ∧
      g.SumsUp (f.shown calls g.source g.target)
  nodup_edges : (v.edges.map fun g => (g.source, g.target)).Nodup

theorem nodup_pairs (f : GraphFilter) (calls : List EdgeRecord) {sources : List String}
    (h : sources.Nodup) :
    ((sources.flatMap (f.edgesFrom calls)).map fun g => (g.source, g.target)).Nodup := by
  rw [List.map_flatMap, List.nodup_flatMap]
  refine ⟨fun sig _ => ?_, h.imp fun hne p hp hp' => hne ?_⟩
  · refine .of_map Prod.snd ?_
    rw [List.map_map]
    exact f.nodup_edgesFrom calls sig
  · obtain ⟨g, hg, rfl⟩ := List.mem_map.1 hp
    obtain ⟨g', hg', heq⟩ := List.mem_map.1 hp'
    rw [← (GraphFilter.mem_edgesFrom.1 hg).1, ← (GraphFilter.mem_edgesFrom.1 hg').1]
    exact (Prod.ext_iff.1 heq).1.symm

theorem GraphFilter.clampDepth_eq (f : GraphFilter) (depth : Int) :
    f.clampDepth depth = if 0 < f.maxDepth then min depth f.maxDepth else depth := by
  rw [clampDepth]
  split <;> split <;> omega

theorem GraphBuilder.covers_build (calls : List EdgeRecord) (methods : List MethodRecord)
    (f : GraphFilter) (root : String) (depth : Int) :
    (((new calls methods f).build root depth).1).Covers f calls root
      (if 0 < f.maxDepth then min depth f.maxDepth else depth).toNat := by
  rw [← f.clampDepth_eq]
  obtain ⟨frontier, hlevel⟩ := (atLevel_zero calls methods f root).expand (f.clampDepth depth).toNat
  rw [Nat.zero_add] at hlevel
  obtain ⟨sources, hnodup, hsources, hedges⟩ := hlevel.edges
  have hview : (((new calls methods f).build root depth).1).edges =
      sources.flatMap (f.edgesFrom calls) := hedges
  refine ⟨fun sig n => ?_, ?_, List.pairwise_mergeSort nodeBefore_trans nodeBefore_total _,
    fun g => ?_, hview ▸ nodup_pairs f calls hnodup⟩
  · rw [← hlevel.depth?, ← hlevel.shows.mem_added]
    simp only [build, List.mem_mergeSort]
    rfl
  · exact ((List.mergeSort_perm _ _).map _).nodup_iff.2 hlevel.shows.nodup_signatures
  · rw [hview, List.mem_flatMap]
    simp only [hsources, GraphFilter.mem_edgesFrom]
    constructor
    · rintro ⟨sig, hsig, rfl, h⟩
      exact ⟨hsig, h⟩
    · rintro ⟨hsig, h⟩
      exact ⟨g.source, hsig, rfl, h⟩

namespace GraphView.Covers

variable {f : GraphFilter} {calls : List EdgeRecord} {root sig : String} {d : Nat} {v : GraphView}
  {g : GraphEdge}

theorem mem_signatures (h : v.Covers f calls root d) : sig ∈ v.nodes.map GraphNode.signature ↔
    (∃ n ≤ d, f.Distance calls root sig n) ∧ f.hides (signatureClass sig) = false := by
  rw [List.mem_map]
  constructor
  · rintro ⟨node, hnode, hsig⟩
    obtain ⟨hn, hdist, hunhidden⟩ := (h.mem_nodes sig node.depth).1 ⟨node, hnode, hsig, rfl⟩
    exact ⟨⟨node.depth, hn, hdist⟩, hunhidden⟩
  · rintro ⟨⟨n, hn, hdist⟩, hunhidden⟩
    obtain ⟨node, hnode, hsig, -⟩ := (h.mem_nodes sig n).2 ⟨hn, hdist, hunhidden⟩
    exact ⟨node, hnode, hsig⟩

theorem steps (h : v.Covers f calls root d) (hg : g ∈ v.edges) :
    f.Steps calls g.source g.target := by
  obtain ⟨-, hgoesOn, hunhidden, hsums⟩ := (h.mem_edges g).1 hg
  exact ⟨hgoesOn, (GraphFilter.exists_sumsUp_iff g.source g.target).1 ⟨g, rfl, rfl, hsums⟩,
    hunhidden⟩

/-- The target of an edge is at most one step further than the source, and not hidden. -/
theorem target_mem (h : v.Covers f calls root d) (hg : g ∈ v.edges) :
    g.target ∈ v.nodes.map GraphNode.signature := by
  obtain ⟨⟨n, hn, hdist⟩, -⟩ := (h.mem_edges g).1 hg
  have hstep := h.steps hg
  have hreach : f.Reaches calls root g.target (n + 1) :=
    GraphFilter.reaches_succ.2 ⟨g.source, hdist.reaches, hstep⟩
  obtain ⟨m, hm, hdist'⟩ := hreach.exists_distance
  exact h.mem_signatures.2 ⟨⟨m, hm.trans hn, hdist'⟩, hstep.unhidden⟩

/-- The source of an edge is a node unless it is a root that is hidden. -/
theorem source_mem_iff (h : v.Covers f calls root d) (hg : g ∈ v.edges) :
    g.source ∈ v.nodes.map GraphNode.signature ↔
      g.source ≠ root ∨ f.hides (signatureClass root) = false := by
  obtain ⟨⟨n, hn, hdist⟩, -⟩ := (h.mem_edges g).1 hg
  rw [h.mem_signatures]
  constructor
  · rintro ⟨-, hunhidden⟩
    by_cases hsource : g.source = root
    · exact .inr (hsource ▸ hunhidden)
    · exact .inl hsource
  · intro hsource
    refine ⟨⟨n, hn.le, hdist⟩, ?_⟩
    cases n with
    | zero =>
      have heq := GraphFilter.distance_zero.1 hdist
      exact heq ▸ hsource.resolve_left (absurd heq)
    | succ n => exact hdist.unhidden

/-- What an edge says is said by its first call. -/
theorem exists_first (h : v.Covers f calls root d) (hg : g ∈ v.edges) : ∃ first ∈ calls,
    first.caller = g.source ∧ first.callee = g.target ∧ first.status = g.status := by
  obtain ⟨-, -, -, first, rest, hshown, -, hstatus, -⟩ := (h.mem_edges g).1 hg
  have hfirst : first ∈ f.shown calls g.source g.target := hshown ▸ List.mem_cons_self
  obtain ⟨hmem, hcall⟩ := List.mem_filter.1 hfirst
  obtain ⟨hcaller, hcallee, -⟩ := of_decide_eq_true hcall
  exact ⟨first, hmem, hcaller, hcallee, hstatus.symm⟩

theorem exists_edge_iff (h : v.Covers f calls root d) :
    (∃ g ∈ v.edges, g.source = root) ↔ 0 < d ∧ ∃ target, f.Steps calls root target := by
  constructor
  · rintro ⟨g, hg, rfl⟩
    obtain ⟨⟨n, hn, -⟩, -⟩ := (h.mem_edges g).1 hg
    exact ⟨by omega, g.target, h.steps hg⟩
  · rintro ⟨hd, target, hstep⟩
    obtain ⟨g, rfl, rfl, hsums⟩ := (GraphFilter.exists_sumsUp_iff root target).2 hstep.calls
    exact ⟨g, (h.mem_edges g).2 ⟨⟨0, hd, GraphFilter.distance_zero.2 rfl⟩, hstep.goesOn,
      hstep.unhidden, hsums⟩, rfl⟩

end GraphView.Covers

/-- What is walked from a root that is not hidden is not hidden either. -/
theorem GraphFilter.Distance.unhidden_of_root {f : GraphFilter} {calls : List EdgeRecord}
    {root sig : String} {n : Nat} (h : f.Distance calls root sig n)
    (hroot : f.hides (signatureClass root) = false) : f.hides (signatureClass sig) = false := by
  cases n with
  | zero => exact distance_zero.1 h ▸ hroot
  | succ n => exact h.unhidden

/-- From a root that is not hidden, the nodes of a view are the methods with an admissible path of
    at most `d` calls, sorted by depth and signature, and the depth of each is the length of a
    shortest path. The edges are the calls of the nodes before that depth which the filter shows,
    one edge for every caller and callee. -/
theorem build_exact (calls : List EdgeRecord) (methods : List MethodRecord) (f : GraphFilter)
    (root : String) (depth : Int) (hroot : f.hides (signatureClass root) = false) :
    let d := (if 0 < f.maxDepth then min depth f.maxDepth else depth).toNat
    let view := ((GraphBuilder.new calls methods f).build root depth).1
    (view.nodes.map GraphNode.signature).Nodup ∧
    (view.nodes.Pairwise fun a b =>
      a.depth < b.depth ∨ a.depth = b.depth ∧ a.signature < b.signature) ∧
    (∀ sig, sig ∈ view.nodes.map GraphNode.signature ↔ ∃ n ≤ d, f.Reaches calls root sig n) ∧
    (∀ node ∈ view.nodes, IsLeast {n | f.Reaches calls root node.signature n} node.depth) ∧
    (view.edges.map fun g => (g.source, g.target)).Nodup ∧
    ∀ g, g ∈ view.edges ↔
      (∃ node ∈ view.nodes, node.signature = g.source ∧ node.depth < d) ∧
      f.stops (signatureClass g.source) = false ∧ f.hides (signatureClass g.target) = false ∧
      ∃ first rest, f.shown calls g.source g.target = first :: rest ∧ g.kind = first.kind ∧
        g.status = first.status ∧ g.callSites = (f.shown calls g.source g.target).length := by
  intro d view
  have hview : view.Covers f calls root d := GraphBuilder.covers_build calls methods f root depth
  have hnode : ∀ node ∈ view.nodes, f.Distance calls root node.signature node.depth :=
    fun node hnode => ((hview.mem_nodes _ _).1 ⟨node, hnode, rfl, rfl⟩).2.1
  refine ⟨hview.nodup, ?_, fun sig => ?_, hnode, hview.nodup_edges, fun g => ?_⟩
  · refine (hview.sorted.and (List.pairwise_map.1 hview.nodup)).imp fun ⟨hbefore, hne⟩ => ?_
    exact (nodeBefore_iff.1 hbefore).imp id fun ⟨hdepth, hsig⟩ =>
      ⟨hdepth, String.not_le.1 fun hle => hne (String.le_antisymm hsig hle)⟩
  · rw [hview.mem_signatures]
    constructor
    · rintro ⟨⟨n, hn, hdist⟩, -⟩
      exact ⟨n, hn, hdist.reaches⟩
    · rintro ⟨n, hn, hreach⟩
      obtain ⟨m, hm, hdist⟩ := hreach.exists_distance
      exact ⟨⟨m, hm.trans hn, hdist⟩, hdist.unhidden_of_root hroot⟩
  · rw [hview.mem_edges]
    refine and_congr_left fun _ => ⟨?_, ?_⟩
    · rintro ⟨n, hn, hdist⟩
      obtain ⟨node, hmem, hsig, rfl⟩ :=
        (hview.mem_nodes g.source n).2 ⟨hn.le, hdist, hdist.unhidden_of_root hroot⟩
      exact ⟨node, hmem, hsig, hn⟩
    · rintro ⟨node, hmem, hsig, hn⟩
      exact ⟨node.depth, hn, hsig ▸ hnode node hmem⟩

namespace Sample

def run : String := "<app.Job: void run()>"

def step : String := "<app.Job: void step()>"

def save : String := "<app.Disk: void save()>"

/-- A way of one and a way of two calls from `run` to `save`, which calls `run` in turn. One call
    from `run` to `save` is not followed, and both call the platform. -/
def calls : List EdgeRecord := [
  { caller := run, callee := step, kind := "virtual", status := "followed" },
  { caller := step, callee := save, kind := "static", status := "followed" },
  { caller := run, callee := save, kind := "special", status := "followed" },
  { caller := run, callee := save, kind := "interface", status := "unavailable" },
  { caller := run, callee := save, kind := "static", status := "followed" },
  { caller := run, callee := "<java.io.File: void open()>", status := "followed" },
  { caller := save, callee := run, kind := "virtual", status := "followed" }]

/-- Shows neither the platform nor calls that were not followed, and does not look into `save`. -/
def narrow : GraphFilter :=
  { hidePlatform := true, hideUnavailable := true, stopAt := ["app.Disk"] }

theorem reaches_save : narrow.Reaches calls run save 1 :=
  GraphFilter.reaches_succ.2 ⟨run, GraphFilter.reaches_zero.2 rfl, by decide +kernel,
    by decide +kernel, by decide +kernel⟩

end Sample

/-- The shorter way to a method counts, the two calls along it that were followed are one edge, and
    there are no edges from it or to the platform. -/
theorem build_exact_sample :
    Sample.narrow.hides (signatureClass Sample.run) = false ∧
    let view := ((GraphBuilder.new Sample.calls [] Sample.narrow).build Sample.run 3).1
    (∀ node ∈ view.nodes, node.signature = Sample.save → node.depth = 1) ∧
      ⟨Sample.run, Sample.save, "special", "followed", 2⟩ ∈ view.edges ∧
      ∀ g ∈ view.edges, g.source ≠ Sample.save ∧ g.target ≠ "<java.io.File: void open()>" := by
  have hroot : Sample.narrow.hides (signatureClass Sample.run) = false := by decide +kernel
  refine ⟨hroot, ?_⟩
  obtain ⟨-, -, hnodes, hdepth, -, hedges⟩ :=
    build_exact Sample.calls [] Sample.narrow Sample.run 3 hroot
  refine ⟨fun node hnode hsave => ?_, (hedges _).2 ⟨?_, by decide +kernel, by decide +kernel, ?_⟩,
    fun g hg => ?_⟩
  · have hle : node.depth ≤ 1 := (hdepth node hnode).2 (hsave ▸ Sample.reaches_save)
    have hne : node.depth ≠ 0 := fun hzero => by
      have hreach := (hdepth node hnode).1
      rw [hzero, hsave] at hreach
      exact absurd (GraphFilter.reaches_zero.1 hreach) (by decide)
    omega
  · obtain ⟨node, hnode, hsig⟩ := List.mem_map.1
      ((hnodes Sample.run).2 ⟨0, Nat.zero_le _, GraphFilter.reaches_zero.2 rfl⟩)
    refine ⟨node, hnode, hsig, ?_⟩
    have hle : node.depth ≤ 0 := (hdepth node hnode).2 (hsig ▸ GraphFilter.reaches_zero.2 rfl)
    exact Nat.lt_of_le_of_lt hle (by decide)
  · exact ⟨_, _, rfl, rfl, rfl, rfl⟩
  · obtain ⟨-, hstops, hhides, -⟩ := (hedges g).1 hg
    refine ⟨fun hsource => ?_, fun htarget => ?_⟩
    · rw [hsource] at hstops
      exact absurd hstops (by decide +kernel)
    · rw [htarget] at hhides
      exact absurd hhides (by decide +kernel)

/-! ### Closed views -/

/-- Every edge of the view joins two of its nodes. -/
def GraphView.IsClosed (v : GraphView) : Prop :=
  ∀ g ∈ v.edges, g.source ∈ v.nodes.map GraphNode.signature ∧
    g.target ∈ v.nodes.map GraphNode.signature

/-- The targets of all edges of a view are nodes of it, and so are the sources other than the root.
    The view is closed if and only if the root is not hidden, or nothing is walked from it. -/
theorem build_closed_iff (calls : List EdgeRecord) (methods : List MethodRecord) (f : GraphFilter)
    (root : String) (depth : Int) :
    let d := (if 0 < f.maxDepth then min depth f.maxDepth else depth).toNat
    let view := ((GraphBuilder.new calls methods f).build root depth).1
    (∀ g ∈ view.edges, g.target ∈ view.nodes.map GraphNode.signature ∧
      (g.source = root ∨ g.source ∈ view.nodes.map GraphNode.signature)) ∧
    (view.IsClosed ↔ f.hides (signatureClass root) = false ∨ d = 0 ∨
      ∀ target, ¬f.Steps calls root target) := by
  intro d view
  have hview : view.Covers f calls root d := GraphBuilder.covers_build calls methods f root depth
  refine ⟨fun g hg => ⟨hview.target_mem hg, ?_⟩, ?_⟩
  · by_cases hsource : g.source = root
    · exact .inl hsource
    · exact .inr ((hview.source_mem_iff hg).2 (.inl hsource))
  · have hclosed : view.IsClosed ↔
        f.hides (signatureClass root) = false ∨ ¬∃ g ∈ view.edges, g.source = root := by
      constructor
      · intro hclosed
        by_cases hroot : f.hides (signatureClass root) = false
        · exact .inl hroot
        · refine .inr fun ⟨g, hg, hsource⟩ => ?_
          exact ((hview.source_mem_iff hg).1 (hclosed g hg).1).elim (absurd hsource) hroot
      · intro h g hg
        refine ⟨(hview.source_mem_iff hg).2 ?_, hview.target_mem hg⟩
        exact h.elim .inr fun hnone => .inl fun hsource => hnone ⟨g, hg, hsource⟩
    rw [hclosed, hview.exists_edge_iff, not_and_or, not_exists, Nat.not_lt, Nat.le_zero]

namespace Sample

def thread : String := "<java.lang.Thread: void run()>"

def filter : GraphFilter := { hidePlatform := true }

def threadCalls : List EdgeRecord :=
  [{ caller := thread, callee := run, kind := "virtual", status := "followed" }]

end Sample

/-- The view from a hidden root has an edge that starts at no node. -/
theorem build_open_at_hidden_root :
    ¬(((GraphBuilder.new Sample.threadCalls [] Sample.filter).build Sample.thread
      1).1).IsClosed := by
  intro hclosed
  have hview := GraphBuilder.covers_build Sample.threadCalls [] Sample.filter Sample.thread 1
  have hstep : Sample.filter.Steps Sample.threadCalls Sample.thread Sample.run :=
    ⟨by decide +kernel, by decide +kernel, by decide +kernel⟩
  obtain ⟨g, hg, hsource⟩ := hview.exists_edge_iff.2 ⟨by decide, Sample.run, hstep⟩
  rcases (hview.source_mem_iff hg).1 (hclosed g hg).1 with hne | hunhidden
  · exact hne hsource
  · exact absurd hunhidden (by decide +kernel)

end KernelReach.Web
