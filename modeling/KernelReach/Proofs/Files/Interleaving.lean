import KernelReach.Proofs.Collections
import KernelReach.Proofs.Files.Confinement

/-!
# What staging owes to its schedule

Writes are kept in order only if their paths are the same text. So what is staged depends on the
schedule as soon as two paths lead to the same place, or one to a place above that of the other.

It does not exactly if every entry that can be written can be written after any other one, and
wherever two paths lead to the same place, the last entries under them have the same content. Then
every write succeeds or fails as it would alone (`NoClash.writeError?_eq`), and each place holds
what was written to it last (`NoClash.layered_runAll`). Otherwise two schedules tell the difference
(`noClash_of_asWalked`, `agree_of_asWalked`).
-/

namespace KernelReach.Staging

open FileTree (IsRoot IsBelow Grows writeError? dirError? dirFault? fileFault? nameFault? made)
open KernelReach.Path (IsName Stays)

variable {t t' : FileTree} {root : String} {l x : Location} {j k : Task} {ks order done : List Task}
  {s : State} {pre : List String}

/-! ### Runs -/

/-- The names under which an entry is staged. -/
def Task.names (k : Task) : List String := Path.below k.path

/-- The path of the entry stays below the root. -/
def Task.Stays (k : Task) : Prop := Path.Stays 0 (Path.components k.path)

theorem runAll_concat (root : String) (t : FileTree) (order : List Task) (k : Task) :
    runAll root t (order ++ [k]) = (runAll root t order).run root k := by
  rw [runAll, List.foldl_append, List.foldl_cons, List.foldl_nil, runAll]

theorem isName_of_mem_names (h : k.Stays) {c : String} (hc : c ∈ k.names) : IsName c :=
  Path.isName_of_mem_below h hc

theorem isRoot_runAll (h : IsRoot t root l) (hroot : root ≠ "") (hks : ∀ k ∈ ks, k.Stays) :
    IsRoot (runAll root t ks).tree root l :=
  h.of_grows (State.grows_foldl (s := { tree := t }) h hroot hks)

/-- A write that fails is put down with its failure. -/
theorem State.failures_run (h : IsRoot s.tree root l) (hroot : root ≠ "") (hk : k.Stays) :
    (s.run root k).failures =
      ((writeError? s.tree root l k.names).map (k.index, ·)).toList ++ s.failures := by
  obtain ⟨t', hwrite, -⟩ := h.write_below (e := k.entry) hroot hk
  change write s.tree root k.entry = (FileTree.outcomeOf (writeError? s.tree root l k.names), t')
    at hwrite
  unfold run
  rw [hwrite]
  cases writeError? s.tree root l k.names with
  | none => rfl
  | some e => rfl

theorem lookup_foldl_of_not_mem {i : Nat} (h : IsRoot s.tree root l) (hroot : root ≠ "")
    (hks : ∀ k ∈ ks, k.Stays) (hi : i ∉ ks.map Task.index) :
    (ks.foldl (State.run root) s).failures.lookup i = s.failures.lookup i := by
  induction ks generalizing s with
  | nil => rfl
  | cons k ks ih =>
    rw [List.forall_mem_cons] at hks
    rw [List.map_cons, List.mem_cons, not_or] at hi
    have hroot' : IsRoot (s.run root k).tree root l :=
      h.of_grows (State.grows_run h hroot hks.1)
    rw [List.foldl_cons, ih hroot' hks.2 hi.2, State.failures_run h hroot hks.1]
    cases writeError? s.tree root l k.names with
    | none => rfl
    | some e =>
      have hne : (i == k.index) = false := beq_eq_false_iff_ne.2 hi.1
      simp [List.lookup_cons, hne]

/-- A write is put down with the failure that it meets in its turn. -/
theorem lookup_runAll (front rest : List Task) (h : IsRoot t root l) (hroot : root ≠ "")
    (horder : ∀ j ∈ front ++ k :: rest, j.Stays)
    (hnodup : ((front ++ k :: rest).map Task.index).Nodup) :
    (runAll root t (front ++ k :: rest)).failures.lookup k.index =
      writeError? (runAll root t front).tree root l k.names := by
  rw [List.forall_mem_append, List.forall_mem_cons] at horder
  obtain ⟨hfront, hk, hrest⟩ := horder
  rw [List.map_append, List.map_cons, List.nodup_append] at hnodup
  obtain ⟨-, hlater, hearlier⟩ := hnodup
  have hroot' : IsRoot (runAll root t front).tree root l := isRoot_runAll h hroot hfront
  have hroot'' : IsRoot ((runAll root t front).run root k).tree root l :=
    hroot'.of_grows (State.grows_run hroot' hroot hk)
  have hnone : (runAll root t front).failures.lookup k.index = none := by
    rw [runAll, lookup_foldl_of_not_mem (s := { tree := t }) h hroot hfront]
    · rfl
    · exact fun hmem => hearlier _ hmem _ List.mem_cons_self rfl
  have hrun : runAll root t (front ++ k :: rest) =
      rest.foldl (State.run root) ((runAll root t front).run root k) := by
    rw [runAll, List.foldl_append, List.foldl_cons, runAll]
  rw [hrun, lookup_foldl_of_not_mem hroot'' hroot hrest (List.nodup_cons.1 hlater).1,
    State.failures_run hroot' hroot hk]
  cases writeError? (runAll root t front).tree root l k.names with
  | none => exact hnone
  | some e => simp

/-! ### Layers -/

/-- Those of some writes that put a file at a location if nothing but `t` is in their way. -/
def writersOf (t : FileTree) (root : String) (l : Location) (done : List Task) (x : Location) :
    List Task :=
  done.filter fun k => l ++ k.names = x ∧ writeError? t root l k.names = none

/-- A tree is `t` with what some writes make of it, each as if it were alone: the files that were
    written last lie on top, below them the directories that were made, and then what was there. -/
def Layered (t : FileTree) (root : String) (l : Location) (done : List Task) (t' : FileTree) :
    Prop :=
  ∀ x, t'.nodes[x]? =
    match (writersOf t root l done x).getLast? with
    | some k => some (.file k.entry.content)
    | none =>
      if ∃ k ∈ done, x ∈ made t root l k.names.dropLast then some .directory else t.nodes[x]?

/-- No write makes a directory in the place of a file that another one could write. -/
def NoClash (t : FileTree) (root : String) (l : Location) (ks : List Task) : Prop :=
  ∀ j ∈ ks, ∀ k ∈ ks, writeError? t root l k.names = none →
    l ++ k.names ∉ made t root l j.names.dropLast

theorem layered_nil (t : FileTree) (root : String) (l : Location) : Layered t root l [] t := by
  intro x
  simp [writersOf]

theorem Layered.cases (h : Layered t root l done t') (x : Location) :
    (∃ k ∈ done, l ++ k.names = x ∧ writeError? t root l k.names = none ∧
      t'.nodes[x]? = some (.file k.entry.content)) ∨
    (∃ k ∈ done, x ∈ made t root l k.names.dropLast ∧ t'.nodes[x]? = some .directory) ∨
    t'.nodes[x]? = t.nodes[x]? := by
  have hx := h x
  split at hx
  · next k hlast =>
    have hmem := List.mem_filter.1 (List.mem_of_getLast? hlast)
    simp only [decide_eq_true_eq] at hmem
    exact .inl ⟨k, hmem.1, hmem.2.1, hmem.2.2, hx⟩
  · split_ifs at hx with hmade
    · obtain ⟨k, hk, hmade⟩ := hmade
      exact .inr (.inl ⟨k, hk, hmade, hx⟩)
    · exact .inr (.inr hx)

section

variable (hclash : NoClash t root l ks) (hstays : ∀ k ∈ ks, k.Stays) (h : IsRoot t root l)
  (h' : IsRoot t' root l) (hlayered : Layered t root l done t') (hdone : ∀ k ∈ done, k ∈ ks)
  (hk : k ∈ ks)
include hclash hstays h h' hlayered hdone hk

namespace NoClash

theorem isRegular_eq (hpre : pre <+: k.names.dropLast) :
    (t'.node? (l ++ pre)).any FileNode.isRegular = (t.node? (l ++ pre)).any FileNode.isRegular := by
  rcases eq_or_ne pre [] with rfl | hne
  · rw [List.append_nil, h.node?_root, h'.node?_root]
  have hnames : ∀ c ∈ pre, IsName c := fun c hc =>
    isName_of_mem_names (hstays k hk) (List.dropLast_subset _ (hpre.subset hc))
  have hbelow : IsBelow l (l ++ pre) := ⟨pre, hne, hnames, rfl⟩
  rw [hbelow.node?_eq]
  rcases hlayered.cases (l ++ pre) with
    ⟨k', hk', hplace, hok, hfile⟩ | ⟨k', hk', hmade, hdir⟩ | hsame
  · have hpre' : k'.names = pre := List.append_cancel_left hplace
    rw [hpre'] at hok
    rw [hfile]
    rcases hnode : t.node? (l ++ pre) with _ | n
    · -- The directory that `k` makes here would be in the way of `k'`.
      have hmade : l ++ pre ∈ made t root l k.names.dropLast :=
        FileTree.mem_made.2 ⟨pre, hpre, hnode, (h.writeError?_eq_none_iff hnode).1 hok, rfl⟩
      exact absurd hmade (hpre' ▸ hclash k hk k' (hdone k' hk') (hpre'.symm ▸ hok))
    · cases n with
      | file content => rfl
      | link target => exact absurd hnode (h.node?_ne_link hnames)
      | directory => exact absurd hnode (FileTree.ne_directory_of_writeError? hok)
  · obtain ⟨pre', -, hnone, -, heq⟩ := FileTree.mem_made.1 hmade
    rw [hdir, heq, hnone]
    rfl
  · rw [hsame, hbelow.node?_eq]

theorem dirError?_eq (hpre : pre <+: k.names.dropLast) :
    dirError? t' root l pre = dirError? t root l pre := by
  induction pre using List.reverseRecOn with
  | nil => rw [h.dirError?_nil, h'.dirError?_nil]
  | append_singleton pre c ih =>
    rw [FileTree.dirError?_concat, FileTree.dirError?_concat, dirFault?, dirFault?,
      hclash.isRegular_eq hstays h h' hlayered hdone hk hpre,
      ih ((List.prefix_append _ _).trans hpre)]

theorem isDirectory_iff :
    t'.node? (l ++ k.names) = some .directory ↔ t.node? (l ++ k.names) = some .directory := by
  rcases eq_or_ne k.names [] with hnil | hne
  · rw [hnil, List.append_nil, h.node?_root, h'.node?_root]
  have hbelow : IsBelow l (l ++ k.names) :=
    ⟨k.names, hne, fun c => isName_of_mem_names (hstays k hk), rfl⟩
  rw [hbelow.node?_eq t']
  rcases hlayered.cases (l ++ k.names) with
    ⟨k', -, hplace, hok, hfile⟩ | ⟨k', hk', hmade, -⟩ | hsame
  · rw [hfile, ← hplace]
    exact iff_of_false nofun (FileTree.ne_directory_of_writeError? hok)
  · obtain ⟨pre, hpre, hnone, hok, heq⟩ := FileTree.mem_made.1 hmade
    rw [← heq] at hnone
    rw [← List.append_cancel_left heq] at hok
    exact absurd hmade (hclash k' (hdone k' hk') k hk ((h.writeError?_eq_none_iff hnone).2 hok))
  · rw [hsame, hbelow.node?_eq]

/-- A write succeeds or fails as it would alone. -/
theorem writeError?_eq : writeError? t' root l k.names = writeError? t root l k.names := by
  have hdir := hclash.isDirectory_iff hstays h h' hlayered hdone hk
  simp only [writeError?, fileFault?, hdir,
    hclash.dirError?_eq hstays h h' hlayered hdone hk (List.prefix_refl _)]

/-- Of the directories that a write makes alone, it makes those that are still missing. -/
theorem mem_made_iff :
    x ∈ made t' root l k.names.dropLast ↔
      x ∈ made t root l k.names.dropLast ∧ t'.node? x = none := by
  rw [FileTree.mem_made, FileTree.mem_made]
  constructor
  · rintro ⟨pre, hpre, hnone, hok, rfl⟩
    rw [hclash.dirError?_eq hstays h h' hlayered hdone hk hpre] at hok
    refine ⟨⟨pre, hpre, ?_, hok, rfl⟩, hnone⟩
    have hnodes := FileTree.nodes_eq_none_of_node? hnone
    rcases hlayered.cases (l ++ pre) with ⟨_, -, -, -, hfile⟩ | ⟨_, -, -, hdir⟩ | hsame
    · rw [hfile] at hnodes
      cases hnodes
    · rw [hdir] at hnodes
      cases hnodes
    · rwa [← FileTree.node?_congr hsame]
  · rintro ⟨⟨pre, hpre, -, hok, rfl⟩, hnone⟩
    exact ⟨pre, hpre, hnone,
      (hclash.dirError?_eq hstays h h' hlayered hdone hk hpre).trans hok, rfl⟩

/-- A write adds to the layers. -/
theorem layered_write {t'' : FileTree}
    (hwrite : ∀ x, t''.nodes[x]? =
      if x = l ++ k.names ∧ writeError? t' root l k.names = none then some (.file k.entry.content)
      else if x ∈ made t' root l k.names.dropLast then some .directory
      else t'.nodes[x]?) :
    Layered t root l (done ++ [k]) t'' := by
  have hmade (x : Location) := hclash.mem_made_iff (x := x) hstays h h' hlayered hdone hk
  intro x
  rw [hwrite, hclash.writeError?_eq hstays h h' hlayered hdone hk]
  by_cases hx : x = l ++ k.names ∧ writeError? t root l k.names = none
  · have hlast : writersOf t root l (done ++ [k]) x = writersOf t root l done x ++ [k] := by
      simp [writersOf, hx]
    rw [if_pos hx, hlast, List.getLast?_concat]
  have hwriters : writersOf t root l (done ++ [k]) x = writersOf t root l done x := by
    have hx' : ¬ (l ++ k.names = x ∧ writeError? t root l k.names = none) :=
      fun h => hx ⟨h.1.symm, h.2⟩
    simp [writersOf, List.filter_append, hx']
  rw [if_neg hx, hwriters]
  have hbefore := hlayered x
  cases hlast : (writersOf t root l done x).getLast? with
  | some k' =>
    rw [hlast] at hbefore
    have hnot : x ∉ made t' root l k.names.dropLast := by
      intro hx
      rw [FileTree.nodes_eq_none_of_node? ((hmade x).1 hx).2] at hbefore
      cases hbefore
    rw [if_neg hnot, hbefore]
  | none =>
    rw [hlast] at hbefore
    dsimp only at hbefore ⊢
    by_cases hx' : x ∈ made t root l k.names.dropLast
    · have hexists : ∃ j ∈ done ++ [k], x ∈ made t root l j.names.dropLast := ⟨k, by simp, hx'⟩
      rw [if_pos hexists]
      split_ifs with hnew
      · rfl
      · -- The directory was made before, as it was not there at first.
        split_ifs at hbefore with hmade'
        · exact hbefore
        · obtain ⟨pre, -, hnone, -, rfl⟩ := FileTree.mem_made.1 hx'
          exact absurd ((hmade _).2 ⟨hx', (FileTree.node?_congr hbefore).trans hnone⟩) hnew
    · have hiff : (∃ j ∈ done ++ [k], x ∈ made t root l j.names.dropLast) ↔
          ∃ j ∈ done, x ∈ made t root l j.names.dropLast := by
        simp [or_and_right, exists_or, hx']
      rw [if_neg fun hnew => hx' ((hmade x).1 hnew).1, hbefore]
      simp only [hiff]

end NoClash

end

/-- In whatever order they come, writes that do not clash lay one layer upon the other. -/
theorem NoClash.layered_runAll (hclash : NoClash t root l ks) (hstays : ∀ k ∈ ks, k.Stays)
    (h : IsRoot t root l) (hroot : root ≠ "") (hdone : ∀ k ∈ done, k ∈ ks) :
    Layered t root l done (runAll root t done).tree := by
  induction done using List.reverseRecOn with
  | nil => exact layered_nil t root l
  | append_singleton done k ih =>
    rw [List.forall_mem_append, List.forall_mem_singleton] at hdone
    obtain ⟨hdone, hk⟩ := hdone
    have h' : IsRoot (runAll root t done).tree root l :=
      isRoot_runAll h hroot fun k hk => hstays k (hdone k hk)
    obtain ⟨t', hwrite, hnodes, -⟩ := h'.write_below (e := k.entry) hroot (hstays k hk)
    rw [runAll_concat, State.run_tree, hwrite]
    exact hclash.layered_write hstays h h' (ih hdone) hdone hk hnodes

/-- A write that is put down without a failure is one that succeeds alone. -/
theorem NoClash.lookup_runAll (hclash : NoClash t root l ks) (hstays : ∀ k ∈ ks, k.Stays)
    (h : IsRoot t root l) (hroot : root ≠ "") (hnodup : (ks.map Task.index).Nodup)
    (horder : IsSchedule ks order) (hk : k ∈ ks) :
    (runAll root t order).failures.lookup k.index = writeError? t root l k.names := by
  obtain ⟨front, rest, rfl⟩ := List.append_of_mem (horder.mem_iff.2 hk)
  have hmem : ∀ j ∈ front ++ k :: rest, j ∈ ks := fun j => horder.mem_iff.1
  have hfront : ∀ j ∈ front, j ∈ ks := fun j hj => hmem j (List.mem_append_left _ hj)
  rw [Staging.lookup_runAll front rest h hroot (fun j hj => hstays j (hmem j hj))
    ((horder.perm.map Task.index).nodup_iff.2 hnodup)]
  exact hclash.writeError?_eq hstays h (isRoot_runAll h hroot fun j hj => hstays j (hfront j hj))
    (hclash.layered_runAll hstays h hroot hfront) hfront hk

/-- A place holds what was written to it last. -/
theorem Layered.nodes_place {names : List String} (h : Layered t root l done t')
    (hok : writeError? t root l names = none)
    (hlast : (done.filter (·.names == names)).getLast? = some k) :
    t'.nodes[l ++ names]? = some (.file k.entry.content) := by
  have hwriters : writersOf t root l done (l ++ names) = done.filter (·.names == names) := by
    refine List.filter_congr fun j _ => ?_
    by_cases hj : j.names = names
    · simp [hj, hok]
    · simp [hj]
  rw [h, hwriters, hlast]

/-! ### Pairs of writes -/

/-- The entry can be written. -/
def Writable (t : FileTree) (root : String) (k : Task) : Prop := (write t root k.entry).1 = .ok ()

/-- If the entry of `k` can be written, it can be written after that of `j`. -/
def Compatible (t : FileTree) (root : String) (j k : Task) : Prop :=
  Writable t root k → Writable (write t root j.entry).2 root k

theorem writable_iff (h : IsRoot t root l) (hroot : root ≠ "") (hk : k.Stays) :
    Writable t root k ↔ writeError? t root l k.names = none := by
  obtain ⟨t', hwrite, -⟩ := h.write_below (e := k.entry) hroot hk
  rw [Writable, hwrite]
  change FileTree.outcomeOf (writeError? t root l k.names) = .ok () ↔ _
  cases writeError? t root l k.names with
  | none => exact iff_of_true rfl rfl
  | some e => exact iff_of_false nofun nofun

theorem not_mem_made (h : IsRoot t root l) (names : List String) :
    l ++ names ∉ made t root l names.dropLast := by
  rcases List.eq_nil_or_concat' names with rfl | ⟨names, c, rfl⟩
  · rw [List.dropLast_nil, h.made_nil]
    exact List.not_mem_nil
  · rw [List.dropLast_concat]
    exact FileTree.not_mem_made_concat

/-- What a write makes is there afterwards. -/
theorem node?_of_mem_made (h : IsRoot t root l) (hroot : root ≠ "") (hj : j.Stays)
    (hx : x ∈ made t root l j.names.dropLast) :
    (write t root j.entry).2.node? x = some .directory := by
  obtain ⟨t', hwrite, hnodes, -⟩ := h.write_below (e := j.entry) hroot hj
  have hne : x ≠ l ++ j.names := by
    rintro rfl
    exact not_mem_made h j.names hx
  have hdir : t'.nodes[x]? = some .directory := by
    rw [hnodes, if_neg fun hplace => hne hplace.1]
    exact if_pos hx
  rw [hwrite]
  obtain ⟨pre, -, hnone, -, rfl⟩ := FileTree.mem_made.1 hx
  unfold FileTree.node? at hnone ⊢
  split_ifs at hnone ⊢
  exact hdir

/-- A write fails after one that makes a directory in its place. -/
theorem lookup_ne_none_of_mem_made (front rest : List Task) (h : IsRoot t root l)
    (hroot : root ≠ "") (horder : ∀ i ∈ j :: front ++ k :: rest, i.Stays)
    (hnodup : ((j :: front ++ k :: rest).map Task.index).Nodup)
    (hmade : l ++ k.names ∈ made t root l j.names.dropLast) :
    (runAll root t (j :: front ++ k :: rest)).failures.lookup k.index ≠ none := by
  have hfront : ∀ i ∈ j :: front, i.Stays := (List.forall_mem_append.1 horder).1
  rw [List.forall_mem_cons] at hfront
  rw [lookup_runAll (j :: front) rest h hroot horder hnodup]
  intro hnone
  refine FileTree.ne_directory_of_writeError? hnone ?_
  have h' := h.of_grows (State.grows_run (s := { tree := t }) h hroot hfront.1)
  have hgrows := State.grows_foldl h' hroot hfront.2
  rw [← List.foldl_cons, State.run_tree, ← runAll] at hgrows
  exact hgrows.directory (node?_of_mem_made h hroot hfront.1 hmade)

theorem noClash_iff (h : IsRoot t root l) (hroot : root ≠ "") (hstays : ∀ k ∈ ks, k.Stays) :
    NoClash t root l ks ↔ ∀ j ∈ ks, ∀ k ∈ ks, Compatible t root j k := by
  constructor
  · intro hclash j hj k hk hok
    have hone : ∀ k ∈ [j], k ∈ ks := List.forall_mem_singleton.2 hj
    have hlayered := hclash.layered_runAll hstays h hroot hone
    have h' := isRoot_runAll h hroot fun k hk => hstays k (hone k hk)
    have htree : (runAll root t [j]).tree = (write t root j.entry).2 := by
      rw [runAll, List.foldl_cons, List.foldl_nil, State.run_tree]
    rw [htree] at hlayered h'
    rw [writable_iff h hroot (hstays k hk)] at hok
    rw [writable_iff h' hroot (hstays k hk)]
    exact (hclash.writeError?_eq hstays h h' hlayered hone hk).trans hok
  · intro hcompatible j hj k hk hok hmade
    have h' : IsRoot (write t root j.entry).2 root l := by
      have hgrows := State.grows_run (s := { tree := t }) h hroot (hstays j hj)
      rw [State.run_tree] at hgrows
      exact h.of_grows hgrows
    have hok' := hcompatible j hj k hk ((writable_iff h hroot (hstays k hk)).2 hok)
    rw [writable_iff h' hroot (hstays k hk)] at hok'
    exact FileTree.ne_directory_of_writeError? hok' (node?_of_mem_made h hroot (hstays j hj) hmade)

/-! ### All schedules -/

/-- What becomes of the writes in some order is what becomes of them in the order of the walk: the
    failures are the same, a place that was written to holds what the last entry with this place
    has, and all other files are as before. -/
structure AsWalked (t : FileTree) (root : String) (l : Location) (ks order : List Task) : Prop where
  failures : ∀ k ∈ ks, (runAll root t order).failures.lookup k.index =
    (runAll root t ks).failures.lookup k.index
  contents : ∀ k ∈ ks, (runAll root t order).failures.lookup k.index = none →
    ∀ j, (ks.filter (·.names == k.names)).getLast? = some j →
      (runAll root t order).tree.nodes[l ++ k.names]? = some (.file j.entry.content)
  others : ∀ x content, (∀ k ∈ ks, x ≠ l ++ k.names) →
    ((runAll root t order).tree.nodes[x]? = some (.file content) ↔
      t.nodes[x]? = some (.file content))

/-- No write after `k` has its path. -/
def IsLast (ks : List Task) (k : Task) : Prop := (ks.filter (·.path == k.path)).getLast? = some k

/-- Wherever two paths lead to the same place, the last entries under them have the same content. -/
def Agree (t : FileTree) (root : String) (ks : List Task) : Prop :=
  ∀ j ∈ ks, ∀ k ∈ ks, Writable t root k → j.names = k.names → IsLast ks j → IsLast ks k →
    j.entry.content = k.entry.content

/-- The last of the writes to a place is the last with its path. -/
theorem isLast_of_getLast? {names : List String} (horder : IsSchedule ks order)
    (hlast : (order.filter (·.names == names)).getLast? = some k) : IsLast ks k := by
  have hnames : k.names = names := by
    simpa using (List.mem_filter.1 (List.mem_of_getLast? hlast)).2
  rw [IsLast, ← horder.waits]
  refine getLast?_filter_of_imp hlast (by simp) fun j hj => ?_
  rw [beq_iff_eq] at hj ⊢
  rw [← hnames, Task.names, hj, Task.names]

theorem asWalked_of_noClash (hclash : NoClash t root l ks) (hagree : Agree t root ks)
    (hstays : ∀ k ∈ ks, k.Stays) (h : IsRoot t root l) (hroot : root ≠ "")
    (hnodup : (ks.map Task.index).Nodup) (horder : IsSchedule ks order) :
    AsWalked t root l ks order := by
  have hlayered := hclash.layered_runAll hstays h hroot fun k => horder.mem_iff.1
  have hlookup {order : List Task} (horder : IsSchedule ks order) {k : Task} (hk : k ∈ ks) :=
    hclash.lookup_runAll hstays h hroot hnodup horder hk
  refine ⟨fun k hk => ?_, fun k hk hnone j hj => ?_, fun x content hx => ?_⟩
  · rw [hlookup horder hk, hlookup (.refl ks) hk]
  · rw [hlookup horder hk] at hnone
    have hne : order.filter (·.names == k.names) ≠ [] :=
      List.ne_nil_of_mem (List.mem_filter.2 ⟨horder.mem_iff.2 hk, by simp⟩)
    obtain ⟨k', hk'⟩ := Option.ne_none_iff_exists'.1 (mt List.getLast?_eq_none_iff.1 hne)
    have hmem' := List.mem_filter.1 (List.mem_of_getLast? hk')
    have hmem := List.mem_filter.1 (List.mem_of_getLast? hj)
    rw [beq_iff_eq] at hmem hmem'
    rw [hlayered.nodes_place hnone hk']
    have hwritable : Writable t root j := by
      rw [writable_iff h hroot (hstays j hmem.1), hmem.2]
      exact hnone
    rw [hagree k' (horder.mem_iff.1 hmem'.1) j hmem.1 hwritable (hmem'.2.trans hmem.2.symm)
      (isLast_of_getLast? horder hk') (isLast_of_getLast? (.refl ks) hj)]
  · rcases hlayered.cases x with ⟨k, hk, hplace, -⟩ | ⟨k, -, hmade, hdir⟩ | hsame
    · exact absurd hplace.symm (hx k (horder.mem_iff.1 hk))
    · obtain ⟨pre, -, hnone, -, rfl⟩ := FileTree.mem_made.1 hmade
      rw [hdir, FileTree.nodes_eq_none_of_node? hnone]
      exact iff_of_false nofun nofun
    · rw [hsame]

theorem exists_first (hk : k ∈ ks) :
    ∃ k' rest, ks.filter (·.path == k.path) = k' :: rest ∧ k' ∈ ks ∧ k'.path = k.path := by
  have hne : ks.filter (·.path == k.path) ≠ [] :=
    List.ne_nil_of_mem (List.mem_filter.2 ⟨hk, by simp⟩)
  obtain ⟨k', rest, hfirst⟩ := List.exists_cons_of_ne_nil hne
  have hmem : k' ∈ ks.filter (·.path == k.path) := by
    rw [hfirst]
    exact List.mem_cons_self
  rw [List.mem_filter, beq_iff_eq] at hmem
  exact ⟨k', rest, hfirst, hmem⟩

section

variable (hall : ∀ order, IsSchedule ks order → AsWalked t root l ks order)
  (hstays : ∀ k ∈ ks, k.Stays) (h : IsRoot t root l) (hroot : root ≠ "")
  (hnodup : (ks.map Task.index).Nodup)
include hall hstays h hroot hnodup

/-- If one write makes a directory in the place of a file that another one could write, it matters
    which of them comes first. -/
theorem noClash_of_asWalked : NoClash t root l ks := by
  intro j hj k hk hok hmade
  obtain ⟨k', rest, hfirst, hk', hpath⟩ := exists_first hk
  obtain ⟨j', rest', hfirst', -, hpath'⟩ := exists_first hj
  have hnames : k'.names = k.names := by rw [Task.names, hpath, Task.names]
  have hnames' : j'.names = j.names := by rw [Task.names, hpath', Task.names]
  rw [← hnames] at hok hmade
  rw [← hnames'] at hmade
  have hne : k'.path ≠ j.path := by
    intro heq
    have hsame : k'.names = j'.names := by rw [Task.names, heq, ← hpath', Task.names]
    rw [hsame] at hmade
    exact not_mem_made h j'.names hmade
  have hstays' {order : List Task} (horder : IsSchedule ks order) : ∀ k ∈ order, k.Stays :=
    fun k hk => hstays k (horder.mem_iff.1 hk)
  have hnodup' {order : List Task} (horder : IsSchedule ks order) :
      (order.map Task.index).Nodup := (horder.perm.map Task.index).nodup_iff.2 hnodup
  -- If the writes with the path of `k` come first, the first of them succeeds.
  have horder := isSchedule_split ks (· == k.path)
  rw [hfirst, List.cons_append] at horder
  have hsuccess := Staging.lookup_runAll [] _ h hroot (hstays' horder) (hnodup' horder)
  have hsequential := (hall _ horder).failures k' hk'
  rw [List.nil_append] at hsuccess
  rw [hsuccess] at hsequential
  -- After those with the path of `j` it does not.
  have horder' := isSchedule_split ks (· == j.path)
  have hmem : k' ∈ ks.filter fun i => !(i.path == j.path) :=
    List.mem_filter.2 ⟨hk', by simpa using hne⟩
  obtain ⟨front, back, hback⟩ := List.append_of_mem hmem
  rw [hfirst', hback, ← List.append_assoc, List.cons_append] at horder'
  refine lookup_ne_none_of_mem_made _ back h hroot (hstays' horder') (hnodup' horder') hmade ?_
  rw [(hall _ horder').failures k' hk', ← hsequential]
  exact hok

/-- If two paths lead to the same place, it matters under which of them the last write comes. -/
theorem agree_of_asWalked : Agree t root ks := by
  have hclash := noClash_of_asWalked hall hstays h hroot hnodup
  intro j hj k hk hok hsame hlastj hlastk
  rw [writable_iff h hroot (hstays k hk)] at hok
  -- Both have the content of the last entry with this place.
  have hne : ks.filter (·.names == k.names) ≠ [] :=
    List.ne_nil_of_mem (List.mem_filter.2 ⟨hk, by simp⟩)
  obtain ⟨last, hlast⟩ := Option.ne_none_iff_exists'.1 (mt List.getLast?_eq_none_iff.1 hne)
  suffices hcontent : ∀ i ∈ ks, i.names = k.names → IsLast ks i →
      i.entry.content = last.entry.content by
    rw [hcontent j hj hsame hlastj, hcontent k hk rfl hlastk]
  intro i hi hnames hlasti
  -- Let the writes with the path of `i` come last.
  have horder := isSchedule_split ks (· != i.path)
  generalize horders : ks.filter (fun x => x.path != i.path) ++
    ks.filter (fun x => !(x.path != i.path)) = order at horder
  have hend : (order.filter (·.names == k.names)).getLast? = some i := by
    have hsuffix : (ks.filter fun x => !(x.path != i.path)).filter (·.names == k.names) =
        ks.filter (·.path == i.path) := by
      rw [List.filter_filter]
      refine List.filter_congr fun x _ => ?_
      by_cases hx : x.path = i.path
      · have hxnames : x.names = k.names := by rw [Task.names, hx, ← hnames, Task.names]
        simp [hx, hxnames]
      · have hbeq : (x.path == i.path) = false := beq_eq_false_iff_ne.2 hx
        simp only [bne, hbeq, Bool.not_false, Bool.not_true, Bool.and_false]
    rw [← horders, List.filter_append, hsuffix, List.getLast?_append, hlasti]
    rfl
  have hlayered := hclash.layered_runAll hstays h hroot fun k => horder.mem_iff.1
  have hnone := hclash.lookup_runAll hstays h hroot hnodup horder hk
  have hplace := (hall order horder).contents k hk (hnone.trans hok) last hlast
  rw [hlayered.nodes_place hok hend] at hplace
  exact FileNode.file.inj (Option.some.inj hplace)

end

/-- Staging runs one of the schedules. All of them lead to what is walked exactly if no entry is in
    the way of another one and all paths to one place end with the same content. -/
theorem schedule_independent_iff {entries : List InputEntry} (h : IsRoot t root l)
    (hroot : root ≠ "")
    (hentries : ∀ e ∈ entries, e.error = none → Path.Stays 0 (Path.components e.path)) :
    (∃ order, IsSchedule (tasks entries) order ∧
      stage t root entries = ((runAll root t order).tree, (runAll root t order).summary entries,
        (runAll root t order).log entries)) ∧
    ((∀ order, IsSchedule (tasks entries) order → AsWalked t root l (tasks entries) order) ↔
      (∀ j ∈ tasks entries, ∀ k ∈ tasks entries, Compatible t root j k) ∧
        Agree t root (tasks entries)) := by
  have hstays : ∀ k ∈ tasks entries, k.Stays := by
    intro k hk
    obtain ⟨hentry, herror⟩ := mem_tasks.1 hk
    exact hentries _ (List.mem_of_getElem? hentry) herror
  have hnodup := nodup_index entries
  refine ⟨⟨turns (tasks entries), isSchedule_turns _, rfl⟩, ?_⟩
  rw [← noClash_iff h hroot hstays]
  constructor
  · intro hall
    exact ⟨noClash_of_asWalked hall hstays h hroot hnodup,
      agree_of_asWalked hall hstays h hroot hnodup⟩
  · rintro ⟨hclash, hagree⟩ order horder
    exact asWalked_of_noClash hclash hagree hstays h hroot hnodup horder

/-- Entries whose paths lead to different places in one directory. -/
def siblings : List InputEntry :=
  [⟨"lib/A", "a.jar", [1], none⟩, ⟨"lib/A", "b.jar", [2], none⟩, ⟨"lib/B", "b.jar", [3], none⟩]

theorem schedule_independent_siblings :
    IsRoot twoDirectories "./out" ["out"] ∧
      (∀ e ∈ siblings, e.error = none → Path.Stays 0 (Path.components e.path)) ∧
      ∀ order, IsSchedule (tasks siblings) order →
        AsWalked twoDirectories "./out" ["out"] (tasks siblings) order := by
  have hstays : ∀ e ∈ siblings, e.error = none → Path.Stays 0 (Path.components e.path) := by
    have hlocal : ∀ e ∈ siblings, Path.isLocal e.path = true := by decide
    exact fun e he _ => ((Path.isLocal_iff e.path).1 (hlocal e he)).2.2.2
  have hstays' : ∀ k ∈ tasks siblings, k.Stays := by
    have hlocal : ∀ k ∈ tasks siblings, Path.isLocal k.path = true := by decide
    exact fun k hk => ((Path.isLocal_iff k.path).1 (hlocal k hk)).2.2.2
  have hclash : NoClash twoDirectories "./out" ["out"] (tasks siblings) := by
    intro j hj k hk _ hmade
    obtain ⟨pre, hpre, -, -, heq⟩ := FileTree.mem_made.1 hmade
    rw [← List.append_cancel_left heq] at hpre
    have hlength : ∀ j ∈ tasks siblings, ∀ k ∈ tasks siblings,
        j.names.dropLast.length < k.names.length := by decide
    exact absurd hpre.length_le (Nat.not_le.2 (hlength j hj k hk))
  have hagree : Agree twoDirectories "./out" (tasks siblings) := by
    intro j hj k hk _ hnames hlast hlast'
    have hpath : ∀ j ∈ tasks siblings, ∀ k ∈ tasks siblings,
        j.names = k.names → j.path = k.path := by decide
    rw [IsLast, hpath j hj k hk hnames, hlast'] at hlast
    rw [Option.some.inj hlast]
  have hiff := (schedule_independent_iff isRoot_twoDirectories (by decide) hstays).2
  exact ⟨isRoot_twoDirectories, hstays,
    hiff.2 ⟨(noClash_iff isRoot_twoDirectories (by decide) hstays').1 hclash, hagree⟩⟩

/-- Entries whose paths are two spellings of one place. -/
def twoSpellings : List InputEntry :=
  [⟨"./x", "a.jar", [1], none⟩, ⟨"./x", "a.jar", [2], none⟩, ⟨"x", "a.jar", [3], none⟩]

/-- Of two spellings of one place, that of the last entry need not be written to last. -/
theorem stage_twoSpellings :
    (stage twoDirectories "./out" twoSpellings).1.nodes[["out", "x"]]? = some (.file [2]) ∧
      IsSchedule (tasks twoSpellings) (turns (tasks twoSpellings)) ∧
      ¬ AsWalked twoDirectories "./out" ["out"] (tasks twoSpellings)
        (turns (tasks twoSpellings)) := by
  have hstays : ∀ k ∈ tasks twoSpellings, k.Stays := by
    have hlocal : ∀ k ∈ tasks twoSpellings, Path.isLocal k.path = true := by decide
    exact fun k hk => ((Path.isLocal_iff k.path).1 (hlocal k hk)).2.2.2
  have hclash : NoClash twoDirectories "./out" ["out"] (tasks twoSpellings) := by
    intro j hj k hk _
    have hnames : ∀ j ∈ tasks twoSpellings, j.names.dropLast = [] := by decide
    rw [hnames j hj, isRoot_twoDirectories.made_nil]
    exact List.not_mem_nil
  have hfree : twoDirectories.node? ["out", "x"] = none := by
    rw [FileTree.node?, if_neg (by decide), nodes_twoDirectories]
    decide
  have hok : writeError? twoDirectories "./out" ["out"] ["x"] = none := by
    have hname : nameFault? "./out" ["x"] = none := by decide
    simp [writeError?, isRoot_twoDirectories.dirError?_nil, fileFault?, hname, hfree]
  have hturns : turns (tasks twoSpellings) = [⟨0, "./x", "a.jar", [1], none⟩,
      ⟨2, "x", "a.jar", [3], none⟩, ⟨1, "./x", "a.jar", [2], none⟩] := by
    simp [turns, splitReady, tasks, twoSpellings, workers, Task.path]
  have hlast : ((turns (tasks twoSpellings)).filter (·.names == ["x"])).getLast? =
      some ⟨1, "./x", "a.jar", [2], none⟩ := by
    rw [hturns]
    decide
  have hlayered := hclash.layered_runAll hstays isRoot_twoDirectories (by decide)
    fun k => (isSchedule_turns _).mem_iff.1
  have hplace : (stage twoDirectories "./out" twoSpellings).1.nodes[["out", "x"]]? =
      some (.file [2]) := hlayered.nodes_place hok hlast
  refine ⟨hplace, isSchedule_turns _, fun hwalked => ?_⟩
  -- The last entry is put down as written.
  have hmem : ⟨2, "x", "a.jar", [3], none⟩ ∈ tasks twoSpellings := by decide
  have hnone := hclash.lookup_runAll hstays isRoot_twoDirectories (by decide)
    (nodup_index twoSpellings) (isSchedule_turns _) hmem
  have hcontent := hwalked.contents _ hmem (hnone.trans hok) ⟨2, "x", "a.jar", [3], none⟩
    (by decide)
  exact absurd (hplace.symm.trans hcontent) (by decide)

end KernelReach.Staging
