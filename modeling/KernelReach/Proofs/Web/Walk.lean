import KernelReach.Proofs.Grouping
import KernelReach.Proofs.Web.Paths
import Mathlib.Data.List.Nodup

/-!
# The walk of a view

The walk meets the methods level by level. What one method adds to the view are the calls that the
filter shows (`GraphFilter.edgesFrom`); what the builder gains from it is said once (`Gains`), for a
call, for a method and for a whole frontier. From that the levels follow: after `k` of them the
nodes are the methods up to distance `k`, each with its distance, the frontier holds those at
distance `k`, and the edges are those of all methods before (`AtLevel`).
-/

namespace KernelReach.Web

/-! ### The calls of a method -/

/-- The calls of a method, counted by callee. -/
def callCounts (source : String) : Grouping EdgeRecord GraphEdge String where
  keyOf := EdgeRecord.callee
  key := GraphEdge.target
  start e := ⟨source, e.callee, e.kind, e.status, 1⟩
  grow g _ := { g with callSites := g.callSites + 1 }
  key_start _ := rfl
  key_grow _ _ := rfl

theorem countCall_eq_add (edges : List GraphEdge) (source : String) (e : EdgeRecord) :
    countCall edges source e = (callCounts source).add edges e := by
  induction edges with
  | nil => rfl
  | cons g gs ih =>
    rw [countCall, Grouping.add, ih]
    rfl

theorem group_callCounts (source : String) (first : EdgeRecord) (rest : List EdgeRecord) :
    (callCounts source).group first rest =
      ⟨source, first.callee, first.kind, first.status, rest.length + 1⟩ := by
  rw [Grouping.group]
  induction rest using List.reverseRecOn with
  | nil => rfl
  | append_singleton rest e ih =>
    rw [List.foldl_append, ih, List.length_append]
    rfl

/-- The edge sums up the calls, with the kind and the status of the first. -/
def GraphEdge.SumsUp (g : GraphEdge) (calls : List EdgeRecord) : Prop :=
  ∃ first rest, calls = first :: rest ∧ g.kind = first.kind ∧ g.status = first.status ∧
    g.callSites = calls.length

namespace GraphFilter

variable {f : GraphFilter} {calls : List EdgeRecord} {sig target : String} {g : GraphEdge}

/-- The calls of a method that are not left out, counted by callee. -/
def outgoing (f : GraphFilter) (calls : List EdgeRecord) (sig : String) : List GraphEdge :=
  (calls.filter fun e => e.caller = sig ∧ f.hidesCall e = false).foldl (callCounts sig).add []

theorem groups_outgoing (f : GraphFilter) (calls : List EdgeRecord) (sig : String) :
    (callCounts sig).Groups (calls.filter fun e => e.caller = sig ∧ f.hidesCall e = false)
      (f.outgoing calls sig) :=
  (callCounts sig).groups_foldl_add _

theorem shown_eq (f : GraphFilter) (calls : List EdgeRecord) (sig target : String) :
    f.shown calls sig target = (calls.filter fun e => e.caller = sig ∧ f.hidesCall e = false).filter
      fun e => (callCounts sig).keyOf e = target := by
  rw [shown, List.filter_filter]
  refine List.filter_congr fun e _ => ?_
  rw [← Bool.decide_and]
  exact decide_eq_decide.2 and_left_comm

theorem mem_outgoing :
    g ∈ f.outgoing calls sig ↔ g.source = sig ∧ g.SumsUp (f.shown calls sig g.target) := by
  rw [(f.groups_outgoing calls sig).mem_iff, shown_eq]
  constructor
  · rintro ⟨first, rest, hitems, hg⟩
    rw [group_callCounts] at hg
    exact ⟨congrArg _ hg, first, rest, hitems, congrArg _ hg, congrArg _ hg,
      hitems ▸ congrArg _ hg⟩
  · rintro ⟨hsource, first, rest, hitems, hkind, hstatus, hsites⟩
    have hfirst := (List.mem_filter.1 (hitems ▸ List.mem_cons_self)).2
    refine ⟨first, rest, hitems, ?_⟩
    rw [group_callCounts]
    rw [hitems] at hsites
    obtain rfl := hsource
    exact GraphEdge.ext rfl (of_decide_eq_true hfirst).symm hkind hstatus hsites

/-- What a method adds to the view: its calls, unless the filter stops there, to methods that are
    not hidden. -/
def edgesFrom (f : GraphFilter) (calls : List EdgeRecord) (sig : String) : List GraphEdge :=
  if f.stops (signatureClass sig) then []
  else (f.outgoing calls sig).filter fun g => !f.hides (signatureClass g.target)

theorem mem_edgesFrom : g ∈ f.edgesFrom calls sig ↔ g.source = sig ∧
    f.stops (signatureClass sig) = false ∧ f.hides (signatureClass g.target) = false ∧
      g.SumsUp (f.shown calls sig g.target) := by
  rw [edgesFrom]
  split
  · simp_all
  · rename_i hstops
    rw [List.mem_filter, mem_outgoing]
    simp only [Bool.not_eq_true', eq_false_of_ne_true hstops, true_and]
    tauto

theorem nodup_edgesFrom (f : GraphFilter) (calls : List EdgeRecord) (sig : String) :
    ((f.edgesFrom calls sig).map GraphEdge.target).Nodup := by
  rw [edgesFrom]
  split
  · exact List.nodup_nil
  · exact (List.filter_sublist.map GraphEdge.target).nodup (f.groups_outgoing calls sig).nodup_keys

theorem exists_sumsUp_iff (source target : String) :
    (∃ g : GraphEdge, g.source = source ∧ g.target = target ∧ g.SumsUp calls) ↔ calls ≠ [] := by
  constructor
  · rintro ⟨g, -, -, first, rest, rfl, -⟩
    exact List.cons_ne_nil first rest
  · intro h
    obtain ⟨first, rest, rfl⟩ := List.exists_cons_of_ne_nil h
    exact ⟨⟨source, target, first.kind, first.status, rest.length + 1⟩, rfl, rfl, first, rest, rfl,
      rfl, rfl, rfl⟩

theorem mem_targets :
    target ∈ (f.edgesFrom calls sig).map GraphEdge.target ↔ f.Steps calls sig target := by
  constructor
  · intro h
    obtain ⟨g, hg, rfl⟩ := List.mem_map.1 h
    obtain ⟨hsource, hgoesOn, hunhidden, hsums⟩ := mem_edgesFrom.1 hg
    exact ⟨hgoesOn, (exists_sumsUp_iff sig g.target).1 ⟨g, hsource, rfl, hsums⟩, hunhidden⟩
  · rintro ⟨hgoesOn, hcalls, hunhidden⟩
    obtain ⟨g, hsource, rfl, hsums⟩ := (exists_sumsUp_iff sig target).2 hcalls
    exact List.mem_map_of_mem (mem_edgesFrom.2 ⟨hsource, hgoesOn, hunhidden, hsums⟩)

end GraphFilter

namespace GraphBuilder

variable {f : GraphFilter} {calls : List EdgeRecord} {b b' : GraphBuilder} {sig root : String}
  {k depth : Nat} {frontier : List String}

/-! ### What the builder holds -/

/-- The builder shows the calls through the filter: its nodes stand under their own signatures, and
    none is hidden. -/
structure Shows (f : GraphFilter) (calls : List EdgeRecord) (b : GraphBuilder) : Prop where
  filter : b.filter = f
  calls : ∀ sig, b.calls.getD sig [] = calls.filter fun e => e.caller = sig
  nodes : ∀ sig node, b.nodes[sig]? = some node →
    node.signature = sig ∧ f.hides (signatureClass sig) = false

theorem getD_calls_new (calls : List EdgeRecord) (methods : List MethodRecord) (f : GraphFilter)
    (sig : String) :
    (new calls methods f).calls.getD sig [] = calls.filter fun e => e.caller = sig := by
  induction calls with
  | nil => exact Std.HashMap.getD_empty
  | cons e calls ih =>
    have hcons : (new (e :: calls) methods f).calls = (new calls methods f).calls.insert e.caller
      (e :: (new calls methods f).calls.getD e.caller []) := rfl
    rw [hcons, Std.HashMap.getD_insert]
    by_cases he : e.caller = sig
    · subst he
      simp [ih]
    · simp [he, ih]

theorem shows_new (calls : List EdgeRecord) (methods : List MethodRecord) (f : GraphFilter) :
    (new calls methods f).Shows f calls :=
  ⟨rfl, getD_calls_new calls methods f, fun sig node h => by simp [new] at h⟩

theorem Shows.outgoing_eq (h : b.Shows f calls) (sig : String) :
    b.outgoing sig = f.outgoing calls sig := by
  rw [outgoing, GraphFilter.outgoing, h.calls, h.filter, List.filter_filter]
  congr 1
  · funext edges e
    exact countCall_eq_add edges sig e
  · refine List.filter_congr fun e _ => ?_
    simp [Bool.and_comm]

/-- The depth of a method that is in view. -/
def depth? (b : GraphBuilder) (sig : String) : Option Nat := b.nodes[sig]?.map GraphNode.depth

theorem Shows.unhidden (h : b.Shows f calls) (hsig : sig ∈ b.nodes) :
    f.hides (signatureClass sig) = false :=
  (h.nodes sig _ (Std.HashMap.getElem?_eq_some_getElem hsig)).2

/-- A method that is not hidden is in view afterwards, at the depth if it was not before. -/
theorem addNode_eq (h : b.Shows f calls) (sig : String) (depth : Nat) (expanded : Bool) :
    ∃ nodes filtered, b.addNode sig depth expanded =
        (!f.hides (signatureClass sig), { b with nodes, filtered }) ∧
      Shows f calls { b with nodes, filtered } ∧
      ∀ s, depth? { b with nodes, filtered } s = (b.depth? s).or
        (if s = sig ∧ f.hides (signatureClass sig) = false then some depth else none) := by
  obtain rfl := h.filter
  rw [addNode]
  split
  · rename_i hmem
    have hunhidden := h.unhidden (Std.HashMap.mem_iff_contains.2 hmem)
    refine ⟨b.nodes, b.filtered, by rw [hunhidden]; rfl, h, fun s => ?_⟩
    by_cases hs : s = sig
    · obtain ⟨node, hnode⟩ := Option.isSome_iff_exists.1
        ((Std.HashMap.contains_eq_isSome_getElem?).symm.trans hmem)
      simp [hs, depth?, hnode]
    · simp [hs]
  · rename_i hmem
    have hnone : b.nodes[sig]? = none := Std.HashMap.getElem?_eq_none (by simpa using hmem)
    split
    · rename_i hhides
      refine ⟨b.nodes, b.filtered + 1, by rw [hhides]; rfl, ⟨rfl, h.calls, h.nodes⟩, fun s => ?_⟩
      simp [hhides, depth?]
    · rename_i hhides
      have hunhidden := eq_false_of_ne_true hhides
      refine ⟨b.nodes.insert sig ⟨sig, signatureClass sig, b.reached.contains sig, expanded, depth⟩,
        b.filtered, by rw [hunhidden]; rfl, ⟨rfl, h.calls, fun s node hnode => ?_⟩, fun s => ?_⟩
      · rw [Std.HashMap.getElem?_insert] at hnode
        split at hnode
        · rename_i heq
          obtain rfl := eq_of_beq heq
          obtain rfl := Option.some.inj hnode
          exact ⟨rfl, hunhidden⟩
        · exact h.nodes s node hnode
      · by_cases hs : s = sig
        · simp [hs, depth?, hnone, hunhidden]
        · simp [depth?, Std.HashMap.getElem?_insert, hs, Ne.symm hs]

/-! ### What the builder gains -/

/-- From `s` to `t` the builder gains the edges that are added, with their targets at the depth. The
    second parts are the methods to expand next: the targets that were not visited before, each
    once. -/
structure Gains (f : GraphFilter) (calls : List EdgeRecord) (depth : Nat) (added : List GraphEdge)
    (s t : GraphBuilder × List String) : Prop where
  shows : t.1.Shows f calls
  edges : t.1.edges = added.reverse ++ s.1.edges
  depth? : ∀ sig, t.1.depth? sig =
    (s.1.depth? sig).or (if sig ∈ added.map GraphEdge.target then some depth else none)
  visited : ∀ sig, sig ∈ t.1.visited ↔ sig ∈ s.1.visited ∨ sig ∈ added.map GraphEdge.target
  next : ∀ sig, sig ∈ t.2 ↔ sig ∈ s.2 ∨ sig ∈ added.map GraphEdge.target ∧ sig ∉ s.1.visited
  nodup : s.2.Nodup → (∀ sig ∈ s.2, sig ∈ s.1.visited) →
    t.2.Nodup ∧ ∀ sig ∈ t.2, sig ∈ t.1.visited

/-- Marks and counts are no gain. -/
theorem gains_nil {next : List String} (h : b'.Shows f calls) (hedges : b'.edges = b.edges)
    (hdepth : ∀ sig, b'.depth? sig = b.depth? sig) (hvisited : b'.visited = b.visited) :
    Gains f calls depth [] (b, next) (b', next) where
  shows := h
  edges := hedges
  depth? sig := by simp [hdepth]
  visited sig := by simp [hvisited]
  next sig := by simp
  nodup hnext hmem := ⟨hnext, hvisited ▸ hmem⟩

theorem Gains.trans {added added' : List GraphEdge} {s t u : GraphBuilder × List String}
    (h : Gains f calls depth added s t) (h' : Gains f calls depth added' t u) :
    Gains f calls depth (added ++ added') s u where
  shows := h'.shows
  edges := by rw [h'.edges, h.edges, List.reverse_append, List.append_assoc]
  depth? sig := by
    rw [h'.depth?, h.depth?, List.map_append]
    by_cases hsig : sig ∈ added.map GraphEdge.target
    · simp only [hsig, List.mem_append, true_or, if_true]
      cases s.1.depth? sig <;> rfl
    · simp only [hsig, List.mem_append, false_or, if_false, Option.or_none]
  visited sig := by rw [h'.visited, h.visited, List.map_append, List.mem_append, or_assoc]
  next sig := by
    rw [h'.next, h.next, h.visited, List.map_append, List.mem_append]
    tauto
  nodup hs hvisited := by
    obtain ⟨ht, hvisited⟩ := h.nodup hs hvisited
    exact h'.nodup ht hvisited

theorem gains_addEdge {s : GraphBuilder × List String} (h : s.1.Shows f calls) (depth : Nat)
    (e : GraphEdge) : Gains f calls depth
      ([e].filter fun e => !f.hides (signatureClass e.target)) s (addEdge depth s e) := by
  obtain ⟨b, next⟩ := s
  rw [addEdge]
  obtain ⟨nodes, filtered, hadd, hshows, hdepth⟩ := addNode_eq h e.target depth false
  rw [hadd]
  by_cases hhides : f.hides (signatureClass e.target) = true
  · rw [hhides, List.filter_eq_nil_iff.2 (by simp [hhides])]
    exact gains_nil hshows rfl (fun sig => by simp [hdepth, hhides]) rfl
  · have hunhidden := eq_false_of_ne_true hhides
    have hsig : ∀ sig, (b.depth? sig).or
        (if sig = e.target ∧ f.hides (signatureClass e.target) = false then some depth else none) =
        (b.depth? sig).or (if sig ∈ [e].map GraphEdge.target then some depth else none) := by
      simp [hunhidden]
    rw [hunhidden, List.filter_eq_self.2 (by simp [hunhidden])]
    -- The edge is added in both cases. Only a target that was not visited is to be expanded next.
    by_cases hvisited : e.target ∈ b.visited
    · have hcontains : b.visited.contains e.target = true := Std.HashSet.mem_iff_contains.1 hvisited
      simp only [Bool.not_false, hcontains, if_true]
      refine ⟨⟨hshows.filter, hshows.calls, hshows.nodes⟩, rfl, fun sig => ?_, fun sig => ?_,
        fun sig => ?_, fun hnext hmem => ⟨hnext, hmem⟩⟩
      · exact (hdepth sig).trans (hsig sig)
      · simpa using fun heq => heq ▸ hvisited
      · simpa using fun heq hnot => absurd (heq ▸ hvisited) hnot
    · have hcontains : b.visited.contains e.target = false := by simpa using hvisited
      simp only [Bool.not_false, hcontains, Bool.false_eq_true, if_false]
      refine ⟨⟨hshows.filter, hshows.calls, hshows.nodes⟩, rfl, fun sig => ?_, fun sig => ?_,
        fun sig => ?_, fun hnext hmem => ⟨?_, fun sig hsig => ?_⟩⟩
      · exact (hdepth sig).trans (hsig sig)
      · rw [Std.HashSet.mem_insert, beq_iff_eq, List.map_singleton, List.mem_singleton, or_comm,
          eq_comm]
      · rw [List.mem_cons, List.map_singleton, List.mem_singleton]
        grind
      · exact List.nodup_cons.2 ⟨fun hin => hvisited (hmem _ hin), hnext⟩
      · rw [Std.HashSet.mem_insert]
        rcases List.mem_cons.1 hsig with rfl | hsig
        · exact .inl (beq_self_eq_true e.target)
        · exact .inr (hmem sig hsig)

theorem gains_addEdges {s : GraphBuilder × List String} (h : s.1.Shows f calls) (depth : Nat)
    (edges : List GraphEdge) : Gains f calls depth
      (edges.filter fun e => !f.hides (signatureClass e.target)) s
      (edges.foldl (addEdge depth) s) := by
  induction edges generalizing s with
  | nil => exact gains_nil h rfl (fun _ => rfl) rfl
  | cons e edges ih =>
    have hstep := gains_addEdge h depth e
    rw [← List.singleton_append, List.filter_append]
    exact hstep.trans (ih hstep.shows)

theorem gains_markExpanded {next : List String} (h : b.Shows f calls) (sig : String) :
    Gains f calls depth [] (b, next) (b.markExpanded sig, next) := by
  rw [markExpanded]
  split
  · rename_i node hnode
    refine gains_nil ⟨h.filter, h.calls, fun s node' hnode' => ?_⟩ rfl (fun s => ?_) rfl
    · rw [Std.HashMap.getElem?_insert] at hnode'
      split at hnode'
      · rename_i heq
        obtain rfl := eq_of_beq heq
        obtain rfl := Option.some.inj hnode'
        exact h.nodes sig node hnode
      · exact h.nodes s node' hnode'
    · by_cases hs : sig = s
      · subst hs
        simp [depth?, hnode]
      · simp [depth?, Std.HashMap.getElem?_insert, hs]
  · exact gains_nil h rfl (fun _ => rfl) rfl

theorem gains_expandMethod {s : GraphBuilder × List String} (h : s.1.Shows f calls) (depth : Nat)
    (sig : String) : Gains f calls depth (f.edgesFrom calls sig) s (expandMethod depth s sig) := by
  obtain ⟨b, next⟩ := s
  obtain rfl := h.filter
  rw [expandMethod, GraphFilter.edgesFrom, ← h.outgoing_eq]
  split
  · exact gains_nil h rfl (fun _ => rfl) rfl
  · have hcount : Gains b.filter calls depth [] (b, next)
        ({ b with filtered := b.filtered + b.hiddenCalls sig }, next) :=
      gains_nil ⟨h.filter, h.calls, h.nodes⟩ rfl (fun _ => rfl) rfl
    have hcalls := hcount.trans (gains_addEdges hcount.shows depth (b.outgoing sig))
    have hmark := hcalls.trans (gains_markExpanded hcalls.shows sig)
    rw [List.nil_append, List.append_nil] at hmark
    exact hmark

theorem gains_expandFrontier {s : GraphBuilder × List String} (h : s.1.Shows f calls) (depth : Nat)
    (frontier : List String) : Gains f calls depth (frontier.flatMap (f.edgesFrom calls)) s
      (frontier.foldl (expandMethod depth) s) := by
  induction frontier generalizing s with
  | nil => exact gains_nil h rfl (fun _ => rfl) rfl
  | cons sig frontier ih =>
    have hstep := gains_expandMethod h depth sig
    exact hstep.trans (ih hstep.shows)

/-! ### Levels -/

/-- The walk from the root after `k` levels. -/
structure AtLevel (f : GraphFilter) (calls : List EdgeRecord) (root : String) (k : Nat)
    (frontier : List String) (b : GraphBuilder) : Prop where
  shows : b.Shows f calls
  depth? : ∀ sig n, b.depth? sig = some n ↔
    n ≤ k ∧ f.Distance calls root sig n ∧ f.hides (signatureClass sig) = false
  visited : ∀ sig, sig ∈ b.visited ↔ ∃ n ≤ k, f.Distance calls root sig n
  mem_frontier : ∀ sig, sig ∈ frontier ↔ f.Distance calls root sig k
  nodup : frontier.Nodup
  edges : ∃ sources : List String, sources.Nodup ∧
    (∀ sig, sig ∈ sources ↔ ∃ n < k, f.Distance calls root sig n) ∧
      b.edges.reverse = sources.flatMap (f.edgesFrom calls)

namespace AtLevel

/-- The targets of the frontier are one step away from it. -/
theorem mem_targets (h : AtLevel f calls root k frontier b) :
    sig ∈ (frontier.flatMap (f.edgesFrom calls)).map GraphEdge.target ↔
      ∃ source, f.Distance calls root source k ∧ f.Steps calls source sig := by
  rw [List.map_flatMap, List.mem_flatMap]
  simp only [h.mem_frontier, GraphFilter.mem_targets]

/-- A target gets the next depth if it has none yet. -/
theorem depth?_next (h : AtLevel f calls root k frontier b) (sig : String) (n : Nat) :
    (b.depth? sig).or (if sig ∈ (frontier.flatMap (f.edgesFrom calls)).map GraphEdge.target
      then some (k + 1) else none) = some n ↔
      n ≤ k + 1 ∧ f.Distance calls root sig n ∧ f.hides (signatureClass sig) = false := by
  rcases hd : b.depth? sig with _ | m
  · -- A method without a depth is hidden, or further away than the levels so far.
    have hfar : f.hides (signatureClass sig) = false → ¬∃ m ≤ k, f.Distance calls root sig m :=
      fun hunhidden ⟨m, hm, hdist⟩ => by simp [(h.depth? sig m).2 ⟨hm, hdist, hunhidden⟩] at hd
    rw [Option.none_or, Option.ite_none_right_eq_some, h.mem_targets]
    constructor
    · rintro ⟨⟨source, hsource, hstep⟩, hn⟩
      obtain rfl := Option.some.inj hn
      have hdist := GraphFilter.distance_succ.2 ⟨⟨source, hsource, hstep⟩, hfar hstep.unhidden⟩
      exact ⟨le_rfl, hdist, hstep.unhidden⟩
    · rintro ⟨hn, hdist, hunhidden⟩
      obtain rfl : n = k + 1 := by
        by_contra hne
        exact hfar hunhidden ⟨n, by omega, hdist⟩
      exact ⟨(GraphFilter.distance_succ.1 hdist).1, rfl⟩
  · obtain ⟨hm, hdist, hunhidden⟩ := (h.depth? sig m).1 hd
    rw [Option.some_or, Option.some.injEq]
    constructor
    · rintro rfl
      exact ⟨by omega, hdist, hunhidden⟩
    · rintro ⟨-, hdist', -⟩
      exact hdist.unique hdist'

/-- Expanding the frontier leads to the next level. -/
theorem next (h : AtLevel f calls root k frontier b) :
    AtLevel f calls root (k + 1) (frontier.foldl (expandMethod (k + 1)) (b, [])).2.reverse
      (frontier.foldl (expandMethod (k + 1)) (b, [])).1 := by
  have hgains := gains_expandFrontier (s := (b, [])) h.shows (k + 1) frontier
  refine ⟨hgains.shows, fun sig n => ?_, fun sig => ?_, fun sig => ?_, ?_, ?_⟩
  · rw [hgains.depth?]
    exact h.depth?_next sig n
  · rw [hgains.visited, h.visited, h.mem_targets]
    simp only [Nat.le_add_one_iff, or_and_right, exists_or, exists_eq_left,
      GraphFilter.distance_succ]
    by_cases hnear : ∃ n ≤ k, f.Distance calls root sig n
    · simp only [hnear, true_or]
    · simp only [hnear, false_or, not_false_eq_true, and_true]
  · rw [List.mem_reverse, hgains.next, h.visited, h.mem_targets, GraphFilter.distance_succ]
    simp
  · exact List.nodup_reverse.2 (hgains.nodup List.nodup_nil (by simp)).1
  · obtain ⟨sources, hnodup, hsources, hedges⟩ := h.edges
    refine ⟨sources ++ frontier, ?_, fun sig => ?_, ?_⟩
    · refine List.nodup_append.2 ⟨hnodup, h.nodup, fun s hs t ht heq => ?_⟩
      obtain ⟨n, hn, hdist⟩ := (hsources s).1 hs
      exact absurd (hdist.unique (heq ▸ (h.mem_frontier t).1 ht)) (by omega)
    · rw [List.mem_append, hsources, h.mem_frontier, Nat.exists_lt_succ_right]
    · rw [hgains.edges, List.reverse_append, List.reverse_reverse, hedges, List.flatMap_append]

/-- If nothing is left to expand, the walk is over at every later level. -/
theorem stop (h : AtLevel f calls root k [] b) {m : Nat} (hm : k ≤ m) :
    AtLevel f calls root m [] b := by
  have hlt : ∀ sig n, f.Distance calls root sig n → n < k := by
    intro sig n hdist
    by_contra hn
    obtain ⟨sig', hdist'⟩ := hdist.exists_of_le (Nat.le_of_not_lt hn)
    exact List.not_mem_nil ((h.mem_frontier sig').2 hdist')
  refine ⟨h.shows, fun sig n => ?_, fun sig => ?_, fun sig => ?_, List.nodup_nil, ?_⟩
  · rw [h.depth?]
    exact ⟨fun ⟨hn, hdist⟩ => ⟨by omega, hdist⟩, fun ⟨_, hdist⟩ => ⟨(hlt sig n hdist.1).le, hdist⟩⟩
  · rw [h.visited]
    exact ⟨fun ⟨n, hn, hdist⟩ => ⟨n, by omega, hdist⟩,
      fun ⟨n, _, hdist⟩ => ⟨n, (hlt sig n hdist).le, hdist⟩⟩
  · exact ⟨fun hsig => absurd hsig List.not_mem_nil,
      fun hdist => absurd (hlt sig m hdist) (by omega)⟩
  · obtain ⟨sources, hnodup, hsources, hedges⟩ := h.edges
    refine ⟨sources, hnodup, fun sig => ?_, hedges⟩
    rw [hsources]
    exact ⟨fun ⟨n, hn, hdist⟩ => ⟨n, by omega, hdist⟩,
      fun ⟨n, _, hdist⟩ => ⟨n, hlt sig n hdist, hdist⟩⟩

theorem expand (h : AtLevel f calls root k frontier b) (levels : Nat) :
    ∃ frontier', AtLevel f calls root (k + levels) frontier' (b.expand levels k frontier) := by
  induction levels generalizing k frontier b with
  | zero => exact ⟨frontier, h⟩
  | succ levels ih =>
    cases frontier with
    | nil => exact ⟨[], h.stop (Nat.le_add_right k _)⟩
    | cons sig frontier =>
      rw [← Nat.add_assoc, Nat.add_right_comm]
      exact ih h.next

end AtLevel

/-- The walk starts at the root, which is in view if it is not hidden. -/
theorem atLevel_zero (calls : List EdgeRecord) (methods : List MethodRecord) (f : GraphFilter)
    (root : String) : AtLevel f calls root 0 [root]
      { ((new calls methods f).addNode root 0 true).2 with
        visited := ((new calls methods f).addNode root 0 true).2.visited.insert root } := by
  obtain ⟨nodes, filtered, hadd, hshows, hdepth⟩ :=
    addNode_eq (shows_new calls methods f) root 0 true
  rw [hadd]
  refine ⟨⟨hshows.filter, hshows.calls, hshows.nodes⟩, fun sig n => ?_, fun sig => ?_, by simp,
    by simp, [], List.nodup_nil, by simp, rfl⟩
  · have hnew : (new calls methods f).depth? sig = none := by simp [depth?, new]
    refine (Eq.congr_left (hdepth sig)).trans ?_
    rw [hnew, Option.none_or, Option.ite_none_right_eq_some]
    constructor
    · rintro ⟨⟨rfl, hunhidden⟩, hn⟩
      obtain rfl := Option.some.inj hn
      exact ⟨le_rfl, GraphFilter.distance_zero.2 rfl, hunhidden⟩
    · rintro ⟨hn, hdist, hunhidden⟩
      obtain rfl := Nat.le_zero.1 hn
      obtain rfl := GraphFilter.distance_zero.1 hdist
      exact ⟨⟨rfl, hunhidden⟩, rfl⟩
  · have hnew : sig ∉ (new calls methods f).visited := by simp [new]
    simp [Std.HashSet.mem_insert, hnew, @eq_comm _ root sig]

end GraphBuilder

end KernelReach.Web
