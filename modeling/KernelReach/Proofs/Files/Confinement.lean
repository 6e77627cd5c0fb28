import KernelReach.Proofs.Files.Schedule
import KernelReach.Proofs.Files.Writing

/-!
# Staging stays below its root

The entries of an archive are taken only under local paths, and the files of a directory go by the
names that lead to them, so that no entry climbs above the place at which it is staged
(`InputEntry.stays_of_mem_ofInputs`). Each write adds nodes below the staging root and changes
nothing else, and so does the whole staging (`Staging.grows_runAll`).
-/

namespace KernelReach

open KernelReach.Path (IsName Stays)

/-! ### Paths of entries -/

theorem Path.stays_of_isName {cs : List String} (h : ∀ c ∈ cs, IsName c) (depth : Nat) :
    Stays depth cs := by
  induction cs generalizing depth with
  | nil => trivial
  | cons c cs ih =>
    rw [List.forall_mem_cons] at h
    rw [Stays, if_neg (FileTree.leadsDown_iff.1 h.1.leadsDown).1, if_neg h.1.leadsDown.2.2]
    exact ih h.2 (depth + 1)

namespace FileTree

variable {t t' : FileTree} {path relative : String} {node : FileNode} {m : Location}

/-- Every node goes by a name. -/
def IsNamed (t : FileTree) : Prop :=
  ∀ (k : Location) (n : FileNode) (c : String),
    t.nodes[k]? = some n → k.getLast? = some c → IsName c

theorem IsNamed.of_mem_list (h : t.IsNamed) {inside : List (String × FileNode)} {name : String}
    (hlist : t.list path = .ok inside) (hmem : (name, node) ∈ inside) : IsName name := by
  unfold list at hlist
  split at hlist
  · cases hlist
    rw [List.mem_mergeSort, List.mem_filterMap] at hmem
    obtain ⟨⟨k, n⟩, hnode, hlast⟩ := hmem
    rw [Std.HashMap.mem_toList_iff_getElem?_eq_some] at hnode
    dsimp only at hlast
    split_ifs at hlast
    obtain ⟨c, hc, heq⟩ := Option.map_eq_some_iff.1 hlast
    cases heq
    exact h k _ _ hnode hc
  · cases hlist
  · cases hlist

/-- The relative path is that of the start of a walk, or of names. -/
def IsRelative (relative : String) : Prop :=
  relative = "." ∨ ∀ c ∈ Path.components relative, IsName c

theorem IsRelative.stays (h : IsRelative relative) : Stays 0 (Path.components relative) := by
  rcases h with rfl | h
  · simp [show Path.components "." = ["."] by decide, Stays]
  · exact Path.stays_of_isName h 0

theorem IsRelative.append {name : String} (h : IsRelative relative) (hname : IsName name) :
    IsRelative (if relative = "." then name else relative ++ "/" ++ name) := by
  have hcomponents := Path.components_eq_singleton hname.not_slash
  refine .inr ?_
  split_ifs with hstart
  · simpa [hcomponents] using hname
  · rw [Path.components_append, hcomponents]
    exact List.forall_mem_append.2 ⟨h.resolve_left hstart, by simpa using hname⟩

/-- What is met on a walk goes by names from its start. -/
theorem IsNamed.isRelative_visit (h : t.IsNamed) {fuel : Nat} (hrelative : IsRelative relative) :
    ∀ v ∈ t.visit fuel path relative node, IsRelative v.relative := by
  induction fuel generalizing path relative node with
  | zero => simpa [visit] using hrelative
  | succ fuel ih =>
    cases node with
    | file | link => simpa [visit] using hrelative
    | directory =>
      rw [visit]
      split
      · simpa using hrelative
      · next inside hlist =>
        refine List.forall_mem_cons.2 ⟨hrelative, fun v hv => ?_⟩
        obtain ⟨⟨name, n⟩, hmem, hv⟩ := List.mem_flatMap.1 hv
        exact ih (hrelative.append (h.of_mem_list hlist hmem)) v hv

end FileTree

namespace InputEntry

variable {t : FileTree} {e : InputEntry} {inputs : List String}

theorem isLocal_ofRecord {archive : String} {content : Array UInt8} {r : ArchiveRecord}
    (hread : (ofRecord archive content r).error = none) :
    Path.isLocal (ofRecord archive content r).path = true := by
  unfold ofRecord at hread ⊢
  by_cases hlocal : Path.isLocal r.localName = true
  · rw [if_pos hlocal]
    exact hlocal
  · rw [if_neg hlocal] at hread
    cases hread

/-- An entry of an archive that could be read has a local path. -/
theorem isLocal_of_mem_ofRecords {archive : String} {content : Array UInt8}
    {found : Except ArchiveFault (List ArchiveRecord)} (he : e ∈ ofRecords archive content found)
    (hread : e.error = none) : Path.isLocal e.path = true := by
  cases found with
  | error fault =>
    rw [List.mem_singleton.1 he] at hread
    cases hread
  | ok records =>
    obtain ⟨r, -, rfl⟩ := List.mem_map.1 he
    exact isLocal_ofRecord hread

theorem stays_of_mem_ofDirectory {root : String} (h : t.IsNamed) (he : e ∈ ofDirectory t root) :
    Stays 0 (Path.components e.path) := by
  rw [ofDirectory, List.mem_filterMap] at he
  obtain ⟨v, hv, he⟩ := he
  have hrelative : FileTree.IsRelative v.relative := by
    unfold FileTree.walk at hv
    split at hv
    · cases hv
    · exact h.isRelative_visit (.inl rfl) v hv
  have hpath : e.path = v.relative := by
    split at he
    · cases he
      rfl
    · split_ifs at he
      split at he <;> (cases he; rfl)
  rw [hpath]
  exact hrelative.stays

/-- No entry that could be read climbs above the place at which it is staged. -/
theorem stays_of_mem_ofInputs
    (h : t.IsNamed ∨ ∀ input ∈ inputs, ∃ content, t.stat input = .ok (.file content))
    (he : e ∈ ofInputs t inputs) (hread : e.error = none) : Stays 0 (Path.components e.path) := by
  obtain ⟨input, hinput, he⟩ := List.mem_flatMap.1 he
  unfold ofInput at he
  split at he
  · rw [List.mem_singleton.1 he] at hread
    cases hread
  · rw [ofArchive] at he
    exact ((Path.isLocal_iff _).1 (isLocal_of_mem_ofRecords he hread)).2.2.2
  · next hne hstat =>
    refine stays_of_mem_ofDirectory (h.resolve_right fun harchives => ?_) he
    obtain ⟨content, hcontent⟩ := harchives input hinput
    rw [hstat] at hcontent
    exact hne content (Except.ok.inj hcontent)

end InputEntry

namespace FileTree

variable {t t' : FileTree} {path : String} {l m k : Location}

/-! ### The staging root -/

theorem follow_empties {cs : List String} (hd : t.node? m = some .directory)
    (h : ∀ c ∈ cs, c = "") (links : Nat) : t.follow true links m cs = .ok m := by
  induction cs with
  | nil => rw [follow]
  | cons c cs ih =>
    rw [List.forall_mem_cons] at h
    rw [follow, hd]
    simpa [h.1] using ih h.2

/-- Where a node may be put that a path names. -/
theorem freeLocation_eq_ok (h : t.freeLocation path = .ok m) :
    IsUsable path ∧ ∃ above name slashes l,
      Path.components path = above ++ name :: slashes ∧ (∀ c ∈ slashes, c = "") ∧
      t.follow true maxLinks (startOf path []) above = .ok l ∧ t.node? l = some .directory ∧
      LeadsDown name ∧ IsShort name ∧ t.nodes[l ++ [name]]? = none ∧ m = l ++ [name] := by
  rw [freeLocation] at h
  by_cases hnull : '\x00' ∈ path.toList
  · simp [hnull, bind, Except.bind, throw, throwThe, MonadExceptOf.throw] at h
  by_cases hempty : path = ""
  · simp [hempty, bind, Except.bind, throw, throwThe, MonadExceptOf.throw] at h
  by_cases hlong : maxPath < (Text.heldBytes path).length
  · simp [hnull, hempty, hlong, bind, Except.bind, throw, throwThe, MonadExceptOf.throw] at h
  refine ⟨⟨hnull, hempty, Nat.not_lt.1 hlong⟩, ?_⟩
  simp only [List.contains_eq_mem, hnull, decide_false, Bool.false_eq_true, if_false, hempty, hlong,
    bind, Except.bind, throw, throwThe, MonadExceptOf.throw, pure, Except.pure] at h
  split at h
  · cases h
  next name above hnames =>
  split at h
  · cases h
  next l hfollow =>
  split at h
  · cases h
  · cases h
  · cases h
  next hd =>
  split_ifs at h with hdots hname hsome
  have hsplit : (Path.components path).reverse.takeWhile (· == "") ++ name :: above =
      (Path.components path).reverse := by
    rw [← hnames, List.takeWhile_append_dropWhile]
  refine ⟨above.reverse, name, ((Path.components path).reverse.takeWhile (· == "")).reverse, l,
    ?_, ?_, hfollow, hd, ?_, Nat.not_lt.1 hname, by simpa using hsome, (Except.ok.inj h).symm⟩
  · exact List.reverse_inj.1 (hsplit.symm.trans (by simp))
  · intro c hc
    exact beq_iff_eq.1 (List.all_eq_true.1 List.all_takeWhile c (List.mem_reverse.1 hc))
  · have hne : name ≠ "" := by
      have hhead := List.head?_dropWhile_not (· == "") (Path.components path).reverse
      rw [hnames] at hhead
      simpa using hhead
    rw [not_or] at hdots
    exact ⟨hne, hdots.1, hdots.2⟩

theorem node?_insert_directory (h : k = m ∨ t.node? k = some .directory) :
    (t.insert m .directory).node? k = some .directory := by
  unfold node? insert at *
  split_ifs at h ⊢
  · rfl
  · rw [Std.HashMap.getElem?_insert]
    split_ifs with hk
    · rfl
    · exact h.resolve_left fun heq => hk (beq_iff_eq.2 heq.symm)

theorem follow_insert_directory {cs : List String} {links : Nat} (hnone : t.nodes[m]? = none)
    (h : t.follow true links l cs = .ok k) :
    (t.insert m .directory).follow true links l cs = .ok k := by
  refine follow_of_kept (fun k hd => node?_insert_directory (.inr hd)) (fun k target => ?_) h
  rw [insert, Std.HashMap.getElem?_insert]
  split_ifs with hk
  · simp [← beq_iff_eq.1 hk, hnone]
  · rfl

theorem find_of_makeDirectory (h : t.makeDirectory path = .ok t') :
    ∃ l, t'.find true path = .ok (l, .directory) := by
  unfold makeDirectory at h
  split at h
  · next m hfree =>
    cases h
    obtain ⟨husable, above, name, slashes, l, hcomponents, hslashes, hfollow, hd, hdown, hshort,
      hnone, rfl⟩ := freeLocation_eq_ok hfree
    have hmade : (t.insert (l ++ [name]) .directory).node? (l ++ [name]) = some .directory :=
      node?_insert_directory (.inl rfl)
    obtain ⟨links, hrest⟩ := follow_append_of_ok (follow_insert_directory hnone hfollow)
    have hstep : Step (t.insert (l ++ [name]) .directory) ⟨links, l, name :: slashes⟩
        ⟨links, l ++ [name], slashes⟩ :=
      .down (node?_insert_directory (.inr hd)) hdown hshort (by simp [insert])
    refine ⟨l ++ [name], find_eq_ok_iff.2 ⟨?_, hmade⟩⟩
    rw [locate_of_isUsable husable, hcomponents, hrest]
    exact (follow_step hstep).trans (follow_empties hmade hslashes links)
  · split at h
    · next l hfind =>
      cases h
      exact ⟨l, find_of_directory hfind⟩
    · cases h

theorem find_of_makeEach {above : List String} (h : t.makeEach (path :: above) = (.ok (), t')) :
    ∃ l, t'.find true path = .ok (l, .directory) := by
  rw [makeEach] at h
  split at h
  · next hstat =>
    cases h
    exact stat_eq_ok_iff.1 hstat
  · cases h
  · split at h
    · cases h
    · split at h
      · next hmake =>
        cases h
        exact find_of_makeDirectory hmake
      · cases h

end FileTree

namespace Staging

open FileTree (IsRoot IsBelow Grows)

variable {t t' : FileTree} {root : String} {l : Location} {ks : List Task} {s : State}

/-- Once a staging root is made, it is there. -/
theorem find_of_prepare (h : prepare t root = .ok t') :
    ∃ l, t'.find true root = .ok (l, .directory) := by
  unfold prepare FileTree.makeDirectories at h
  split_ifs at h
  rw [FileTree.ancestors_eq] at h
  split at h
  · next heach =>
    cases h
    exact FileTree.find_of_makeEach heach
  · cases h

/-! ### Staging -/

theorem State.run_tree (root : String) (s : State) (k : Task) :
    (s.run root k).tree = (write s.tree root k.entry).2 := by
  unfold run
  rcases write s.tree root k.entry with ⟨_ | _, tree⟩ <;> rfl

theorem State.grows_run (h : IsRoot s.tree root l) (hroot : root ≠ "") {k : Task}
    (hk : Stays 0 (Path.components k.path)) : Grows l s.tree (s.run root k).tree := by
  obtain ⟨t', hwrite, -, hgrows⟩ := h.write_below hroot hk
  rwa [run_tree, hwrite]

/-- A run of writes adds nodes below the root. -/
theorem State.grows_foldl (h : IsRoot s.tree root l) (hroot : root ≠ "")
    (hks : ∀ k ∈ ks, Stays 0 (Path.components k.path)) :
    Grows l s.tree (ks.foldl (State.run root) s).tree := by
  induction ks generalizing s with
  | nil => exact .refl l s.tree
  | cons k ks ih =>
    rw [List.forall_mem_cons] at hks
    have hgrows := State.grows_run h hroot hks.1
    rw [List.foldl_cons]
    exact hgrows.trans (ih (h.of_grows hgrows) hks.2)

/-- Staging adds nodes below the root, in whatever order the writes come to an end. -/
theorem grows_runAll (h : IsRoot t root l) (hroot : root ≠ "") {entries : List InputEntry}
    (hentries : ∀ e ∈ entries, e.error = none → Stays 0 (Path.components e.path))
    {order : List Task} (horder : IsSchedule (tasks entries) order) :
    Grows l t (runAll root t order).tree := by
  refine State.grows_foldl (s := { tree := t }) h hroot fun k hk => ?_
  obtain ⟨hentry, herror⟩ := mem_tasks.1 (horder.mem_iff.1 hk)
  exact hentries _ (List.mem_of_getElem? hentry) herror

/-- A path is local if it never climbs above its start, and then what it is joined to stays before
    it. So whatever is walked, and in whatever order the writes come to an end, staging writes
    nowhere but below its root, which is there once it is made. -/
theorem stage_confined :
    (∀ name, Path.isLocal name = true ↔
      name ≠ "" ∧ '\\' ∉ name.toList ∧ Path.isRooted name = false ∧
        Stays 0 (Path.components name)) ∧
    (∀ root name, root ≠ "" → Path.isLocal name = true →
      Path.isRooted (Path.join root name) = Path.isRooted root ∧
        ∃ rest, Path.namesOf (Path.join root name) = Path.namesOf (Path.clean root) ++ rest ∧
          ".." ∉ rest) ∧
    (∀ t t' root, prepare t root = .ok t' → ∃ l, t'.find true root = .ok (l, .directory)) ∧
    ∀ t root l walked inputs, root ≠ "" → IsRoot t root l →
      (walked.IsNamed ∨ ∀ input ∈ inputs, ∃ content, walked.stat input = .ok (.file content)) →
      ∀ k, ¬ IsBelow l k →
        (stage t root (InputEntry.ofInputs walked inputs)).1.nodes[k]? = t.nodes[k]? ∧
        ∀ order, IsSchedule (tasks (InputEntry.ofInputs walked inputs)) order →
          (runAll root t order).tree.nodes[k]? = t.nodes[k]? := by
  refine ⟨Path.isLocal_iff, fun root name hroot hlocal => ?_, fun _ _ _ => find_of_prepare,
    fun t root l walked inputs hroot h hinputs k hk => ?_⟩
  · have hstays := ((Path.isLocal_iff name).1 hlocal).2.2.2
    have hnames : ∀ c ∈ Path.below name, IsName c := fun c => Path.isName_of_mem_below hstays
    have hreduced := FileTree.reduced_below root hnames
    rw [Path.join_eq_spell hroot hstays, hreduced.isRooted_spell, Path.namesOf_spell hreduced,
      Path.namesOf_clean]
    exact ⟨rfl, Path.below name, rfl, fun hup => (hnames _ hup).leadsDown.2.2 rfl⟩
  · have hgrows {order : List Task}
        (horder : IsSchedule (tasks (InputEntry.ofInputs walked inputs)) order) :
        (runAll root t order).tree.nodes[k]? = t.nodes[k]? :=
      (grows_runAll h hroot (fun e => InputEntry.stays_of_mem_ofInputs hinputs) horder
        k).resolve_right fun hnew => hk hnew.1
    exact ⟨hgrows (isSchedule_turns _), fun _ => hgrows⟩

/-- An archive with two files, the second of which has a path that leads out of it. -/
def twoFiles : Binary.Bytes :=
  [80, 75, 3, 4, 20, 0, 0, 0, 0, 0, 0, 0, 33, 0, 32, 242, 201, 42, 2, 0, 0, 0, 2, 0, 0, 0, 11, 0,
    0, 0, 108, 105, 98, 47, 65, 46, 99, 108, 97, 115, 115, 202, 254, 80, 75, 3, 4, 20, 0, 0, 0, 0,
    0, 0, 0, 33, 0, 32, 242, 201, 42, 2, 0, 0, 0, 2, 0, 0, 0, 10, 0, 0, 0, 46, 46, 47, 65, 46, 99,
    108, 97, 115, 115, 202, 254, 80, 75, 1, 2, 20, 0, 20, 0, 0, 0, 0, 0, 0, 0, 33, 0, 32, 242, 201,
    42, 2, 0, 0, 0, 2, 0, 0, 0, 11, 0, 0, 0, 0, 0, 0, 0, 0, 0, 0, 0, 128, 1, 0, 0, 0, 0, 108, 105,
    98, 47, 65, 46, 99, 108, 97, 115, 115, 80, 75, 1, 2, 20, 0, 20, 0, 0, 0, 0, 0, 0, 0, 33, 0, 32,
    242, 201, 42, 2, 0, 0, 0, 2, 0, 0, 0, 10, 0, 0, 0, 0, 0, 0, 0, 0, 0, 0, 0, 128, 1, 43, 0, 0, 0,
    46, 46, 47, 65, 46, 99, 108, 97, 115, 115, 80, 75, 5, 6, 0, 0, 0, 0, 2, 0, 2, 0, 113, 0, 0, 0,
    85, 0, 0, 0, 0, 0]

/-- A tree with an archive, a directory that holds a file, and an empty one. -/
def twoDirectories : FileTree :=
  (((FileTree.empty.insert ["in.jar"] (.file twoFiles)).insert ["in"] .directory).insert
    ["in", "A.class"] (.file [202, 254])).insert ["out"] .directory

theorem nodes_twoDirectories (k : Location) :
    twoDirectories.nodes[k]? =
      if ["out"] = k then some .directory
      else if ["in", "A.class"] = k then some (.file [202, 254])
      else if ["in"] = k then some .directory
      else if ["in.jar"] = k then some (.file twoFiles)
      else none := by
  simp [twoDirectories, FileTree.empty, FileTree.insert, Std.HashMap.getElem?_insert]

theorem isRoot_twoDirectories : IsRoot twoDirectories "./out" ["out"] := by
  have hnode : twoDirectories.node? ["out"] = some .directory := by
    rw [FileTree.node?, if_neg (by decide), nodes_twoDirectories, if_pos rfl]
  have hclean : Path.clean "./out" = "out" := by decide
  have hcomponents : Path.components "out" = ["out"] := by decide
  have hstart : FileTree.startOf "out" [] = [] := by decide
  refine FileTree.isRoot_of_empty (FileTree.find_eq_ok_iff.2 ⟨?_, hnode⟩) ?_
  · rw [hclean, FileTree.locate_of_isUsable (by decide), hstart, hcomponents]
    rw [FileTree.follow_name rfl (by decide) (by simp [nodes_twoDirectories])]
    rfl
  · rintro k ⟨names, hne, -, rfl⟩
    rw [nodes_twoDirectories]
    cases names with
    | nil => exact absurd rfl hne
    | cons c names => simp

theorem stat_twoDirectories : twoDirectories.stat "in.jar" = .ok (.file twoFiles) := by
  have hcomponents : Path.components "in.jar" = ["in.jar"] := by decide
  have hstart : FileTree.startOf "in.jar" [] = [] := by decide
  have hfind : twoDirectories.find true "in.jar" = .ok (["in.jar"], .file twoFiles) := by
    refine FileTree.find_eq_ok_iff.2 ⟨?_, ?_⟩
    · rw [FileTree.locate_of_isUsable (by decide), hstart, hcomponents]
      rw [FileTree.follow_name rfl (by decide) (by simp [nodes_twoDirectories])]
      rfl
    · rw [FileTree.node?, if_neg (by decide), nodes_twoDirectories]
      simp
  rw [FileTree.stat, hfind]
  rfl

/-- The archive is staged below the root, whatever the order of the writes is. -/
theorem stage_confined_twoDirectories :
    (Path.isLocal "lib/../pkg//./A.class" = true ∧
      ∃ rest, Path.namesOf (Path.join "./out" "lib/../pkg//./A.class") =
        Path.namesOf (Path.clean "./out") ++ rest ∧ ".." ∉ rest) ∧
    IsRoot twoDirectories "./out" ["out"] ∧
    let entries := InputEntry.ofInputs twoDirectories ["in.jar"]
    entries = [⟨"lib/A.class", "in.jar", [202, 254], none⟩, ⟨"../A.class", "in.jar", [],
      some "archive entry \"../A.class\" escapes the staging root"⟩] ∧
    ∀ order, IsSchedule (tasks entries) order →
      (runAll "./out" twoDirectories order).tree.nodes[["A.class"]]? = none ∧
      (runAll "./out" twoDirectories order).tree.nodes[["in", "A.class"]]? =
        some (.file [202, 254]) := by
  have hlocal : Path.isLocal "lib/../pkg//./A.class" = true := by decide
  have houtside {k : Location} (hk : k.head? ≠ some "out") : ¬ IsBelow ["out"] k := by
    rintro ⟨names, -, -, rfl⟩
    exact hk rfl
  have hentries : InputEntry.ofArchive "in.jar" twoFiles =
      [⟨"lib/A.class", "in.jar", [202, 254], none⟩, ⟨"../A.class", "in.jar", [],
        some "archive entry \"../A.class\" escapes the staging root"⟩] := by decide +kernel
  obtain ⟨-, hjoin, -, hstage⟩ := stage_confined
  refine ⟨⟨hlocal, (hjoin "./out" _ (by decide) hlocal).2⟩, isRoot_twoDirectories, ?_⟩
  intro entries
  refine ⟨?_, fun order horder => ?_⟩
  · simp only [entries, InputEntry.ofInputs, List.flatMap_cons, List.flatMap_nil,
      InputEntry.ofInput, stat_twoDirectories, hentries, List.append_nil]
  · have hkept := hstage twoDirectories "./out" ["out"] twoDirectories ["in.jar"] (by decide)
      isRoot_twoDirectories (.inr (by simp [stat_twoDirectories]))
    rw [(hkept ["A.class"] (houtside (by decide))).2 order horder,
      (hkept ["in", "A.class"] (houtside (by decide))).2 order horder, nodes_twoDirectories,
      nodes_twoDirectories]
    decide

end Staging

end KernelReach
