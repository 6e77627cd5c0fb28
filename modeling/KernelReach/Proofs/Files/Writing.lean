import KernelReach.Proofs.Files.Below

/-!
# What a write below a root does

A write makes the directories on the way to a place and puts a file there. What becomes of it can be
told from the nodes on the way: the first of them that is in the way of a directory, or whose name
cannot be used, is the one that the failure names (`writeError?`), and the directories before it are
there afterwards (`made`). All else stays (`write_below`), so that a root stays a root
(`IsRoot.of_grows`).
-/

namespace KernelReach.FileTree

open Binary (Bytes)
open KernelReach.Path (IsName Reduced spell lead below)

variable {t t' : FileTree} {root : String} {l m k : Location} {c : String}
  {cs names pre : List String} {links : Nat} {fault : FileFault} {content : Bytes}

theorem nodes_eq_none_of_node? (h : t.node? k = none) : t.nodes[k]? = none := by
  unfold node? at h
  split_ifs at h
  exact h

theorem node?_congr (h : t'.nodes[k]? = t.nodes[k]?) : t'.node? k = t.node? k := by
  unfold node?
  rw [h]

/-! ### Growing trees -/

/-- At every location all is as before, or there is a new file or directory below `l`, which lies in
    a directory and does not take the place of one. -/
def Grows (l : Location) (t t' : FileTree) : Prop :=
  ∀ k, t'.nodes[k]? = t.nodes[k]? ∨
    IsBelow l k ∧ t.nodes[k]? ≠ some .directory ∧
      (∀ target, t'.nodes[k]? ≠ some (.link target)) ∧ t'.node? k.dropLast = some .directory

theorem Grows.directory (h : Grows l t t') (hd : t.node? k = some .directory) :
    t'.node? k = some .directory := by
  unfold node? at hd ⊢
  split_ifs at hd ⊢
  · rfl
  · rcases h k with hsame | ⟨-, hne, -⟩
    · rwa [hsame]
    · exact absurd hd hne

theorem Grows.refl (l : Location) (t : FileTree) : Grows l t t := fun _ => .inl rfl

theorem Grows.trans {t'' : FileTree} (h : Grows l t t') (h' : Grows l t' t'') : Grows l t t'' := by
  intro k
  rcases h' k with hsame | ⟨hbelow, hne, hnew⟩
  · rcases h k with hsame' | ⟨hbelow, hne, hnew, hparent⟩
    · exact .inl (hsame.trans hsame')
    · exact .inr ⟨hbelow, hne, by rwa [hsame], h'.directory hparent⟩
  · refine .inr ⟨hbelow, fun hd => hne ?_, hnew⟩
    rw [← hbelow.node?_eq] at hd ⊢
    exact h.directory hd

theorem grows_insert (hbelow : IsBelow l k) (hne : t.nodes[k]? ≠ some .directory)
    (hparent : t.node? k.dropLast = some .directory) (content : Bytes) :
    Grows l t (t.insert k (.file content)) := by
  intro k'
  rw [insert, Std.HashMap.getElem?_insert]
  by_cases hk : k = k'
  · subst hk
    refine .inr ⟨hbelow, hne, by simp, ?_⟩
    have hlength : k.dropLast ≠ k := by
      obtain ⟨names, hnames, -, rfl⟩ := hbelow
      intro heq
      have hlength := congrArg List.length heq
      have hpos := List.length_pos_iff.2 hnames
      simp only [List.length_dropLast, List.length_append] at hlength
      omega
    unfold node? at hparent ⊢
    simpa [Std.HashMap.getElem?_insert, hlength.symm] using hparent
  · exact .inl (by simp [hk])

/-- Where a path led, it leads as long as directories and links stay. -/
theorem follow_of_kept
    (hdir : ∀ k, t.node? k = some .directory → t'.node? k = some .directory)
    (hlink : ∀ (k : Location) (target : String),
      t'.nodes[k]? = some (.link target) ↔ t.nodes[k]? = some (.link target))
    (h : t.follow true links l cs = .ok m) : t'.follow true links l cs = .ok m := by
  fun_induction follow t true links l cs with
  | case1 links l => rwa [follow]
  | case5 links l c cs hd hc ih =>
    rw [follow, hdir l hd]
    simpa [hc] using ih h
  | case6 links l cs hd hc ih =>
    rw [follow, hdir l hd]
    simpa using ih h
  | case8 links l c cs hd hc hup hshort next target hnode hlast => cases hlast.2
  | case10 l c cs hd hc hup hshort next target hnode hlast links ih =>
    rw [follow, hdir l hd]
    simpa [hc, hup, hshort, next, (hlink _ _).2 hnode] using ih h
  | case11 links l c cs hd hc hup hshort next hnode ih =>
    have hstep : Step t' ⟨links, l, c :: cs⟩ ⟨links, l ++ [c], cs⟩ :=
      .down (hdir l hd) (leadsDown_iff.2 ⟨hc, hup⟩) (Nat.not_lt.1 hshort) fun target hnew =>
        hnode target ((hlink _ _).1 hnew)
    exact (follow_step hstep).trans (ih h)
  | _ => cases h

/-- A root stays one when files and directories are added below it. -/
theorem IsRoot.of_grows (h : IsRoot t root l) (hgrows : Grows l t t') : IsRoot t' root l := by
  have hdir (k : Location) : t.node? k = some .directory → t'.node? k = some .directory :=
    hgrows.directory
  have hlink (k : Location) (target : String) :
      t'.nodes[k]? = some (.link target) ↔ t.nodes[k]? = some (.link target) := by
    rcases hgrows k with hsame | ⟨hbelow, -, hnew, -⟩
    · rw [hsame]
    · exact iff_of_false (hnew target) (h.not_link k target hbelow)
  refine ⟨?_, fun k target hbelow hnode => ?_, fun k n hbelow hnode => ?_⟩
  · obtain ⟨hlocate, hnode⟩ := find_eq_ok_iff.1 h.found
    rw [locate_of_isUsable h.isUsable] at hlocate
    rw [find_eq_ok_iff, locate_of_isUsable h.isUsable]
    exact ⟨follow_of_kept hdir hlink hlocate, hdir l hnode⟩
  · exact h.not_link k target hbelow ((hlink k target).1 hnode)
  · rcases hgrows k with hsame | ⟨-, -, -, hparent⟩
    · exact hdir _ (h.inside k n hbelow (hsame ▸ hnode))
    · exact hparent

/-! ### Faults -/

/-- What is wrong with the names themselves below a root, the last of which is to be used. -/
def nameFault? (root : String) (names : List String) : Option FileFault :=
  names.getLast?.bind fun c =>
    if '\x00' ∈ (pathBelow root names).toList then some .invalidName
    else if maxPath < (Text.heldBytes (pathBelow root names)).length then some .nameTooLong
    else if maxName < (Text.heldBytes c).length then some .nameTooLong
    else none

/-- What keeps a directory from being at a place or being made there. -/
def dirFault? (t : FileTree) (root : String) (l : Location) (names : List String) :
    Option FileFault :=
  nameFault? root names <|>
    if (t.node? (l ++ names)).any FileNode.isRegular then some .notDirectory else none

/-- What keeps a file from being put at a place. -/
def fileFault? (t : FileTree) (root : String) (l : Location) (names : List String) :
    Option FileFault :=
  nameFault? root names <|>
    if t.node? (l ++ names) = some .directory then some .isDirectory else none

/-- Why the directories that lead to a place cannot all be made: the first of them says it. -/
def dirError? (t : FileTree) (root : String) (l : Location) (names : List String) :
    Option FileError :=
  names.inits.findSome? fun pre =>
    (dirFault? t root l pre).map fun fault => ⟨"mkdir", pathBelow root pre, fault⟩

/-- Why a file cannot be written under some names. -/
def writeError? (t : FileTree) (root : String) (l : Location) (names : List String) :
    Option FileError :=
  dirError? t root l names.dropLast <|>
    (fileFault? t root l names).map fun fault => ⟨"open", pathBelow root names, fault⟩

/-- The directories that are made on the way to a place. -/
def made (t : FileTree) (root : String) (l : Location) (names : List String) : List Location :=
  (names.inits.filter fun pre =>
    (t.node? (l ++ pre)).isNone && (dirError? t root l pre).isNone).map (l ++ ·)

/-- The outcome of an operation with that failure, if there is one. -/
def outcomeOf : Option FileError → Except FileError Unit
  | none => .ok ()
  | some e => .error e

theorem isUsable_spell_of_concat {rooted : Bool} (h : Reduced rooted cs.reverse)
    (husable : IsUsable (spell rooted (cs ++ [c]))) : IsUsable (spell rooted cs) := by
  rcases eq_or_ne cs [] with rfl | hne
  · cases rooted <;> decide
  · have hspell : spell rooted (cs ++ [c]) = spell rooted cs ++ "/" ++ c := by
      rw [Path.spell_concat, Path.stem, if_neg hne]
    rw [hspell] at husable
    have hnull := husable.not_null
    have hshort := husable.short
    simp only [String.toList_append, List.mem_append, not_or] at hnull
    simp only [Text.heldBytes, String.toList_append, List.flatMap_append,
      List.length_append] at hshort
    exact ⟨hnull.1.1, Path.spell_ne_empty h, by simp only [Text.heldBytes]; omega⟩

theorem isUsable_of_concat (hnames : ∀ c ∈ names, IsName c)
    (husable : IsUsable (pathBelow root (names ++ [c]))) : IsUsable (pathBelow root names) := by
  rw [pathBelow, ← List.append_assoc] at husable
  exact isUsable_spell_of_concat (reduced_below root hnames) husable

theorem isUsable_of_beginning (hpre : pre <+: names) (hnames : ∀ c ∈ names, IsName c)
    (husable : IsUsable (pathBelow root names)) : IsUsable (pathBelow root pre) := by
  obtain ⟨rest, rfl⟩ := hpre
  induction rest using List.reverseRecOn with
  | nil => rwa [List.append_nil] at husable
  | append_singleton rest c ih =>
    rw [← List.append_assoc] at hnames husable
    have hfront := (List.forall_mem_append.1 hnames).1
    exact ih hfront (isUsable_of_concat hfront husable)

theorem nameFault?_concat_eq_none_iff (hnames : ∀ c ∈ names, IsName c) (hc : IsName c) :
    nameFault? root (names ++ [c]) = none ↔
      IsUsable (pathBelow root (names ++ [c])) ∧ IsShort c := by
  have hne : pathBelow root (names ++ [c]) ≠ "" :=
    Path.spell_ne_empty (reduced_below root
      (List.forall_mem_append.2 ⟨hnames, List.forall_mem_singleton.2 hc⟩))
  rw [nameFault?, List.getLast?_concat, Option.bind_some]
  split_ifs with hnull hlong hname
  · exact iff_of_false nofun fun h => h.1.not_null hnull
  · exact iff_of_false nofun fun h => Nat.not_lt.2 h.1.short hlong
  · exact iff_of_false nofun fun h => Nat.not_lt.2 h.2 hname
  · exact iff_of_true rfl ⟨⟨hnull, hne, Nat.not_lt.1 hlong⟩, Nat.not_lt.1 hname⟩

theorem dirError?_concat (t : FileTree) (root : String) (l : Location) (names : List String)
    (c : String) :
    dirError? t root l (names ++ [c]) =
      (dirError? t root l names <|> (dirFault? t root l (names ++ [c])).map
        fun fault => ⟨"mkdir", pathBelow root (names ++ [c]), fault⟩) := by
  simp [dirError?, List.inits_append, List.findSome?_append]

theorem dirError?_eq_none_iff :
    dirError? t root l names = none ↔ ∀ pre, pre <+: names → dirFault? t root l pre = none := by
  simp [dirError?, List.findSome?_eq_none_iff]

theorem mem_made :
    k ∈ made t root l names ↔ ∃ pre, pre <+: names ∧ t.node? (l ++ pre) = none ∧
      dirError? t root l pre = none ∧ k = l ++ pre := by
  simp only [made, List.mem_map, List.mem_filter, List.mem_inits, Bool.and_eq_true,
    Option.isNone_iff_eq_none]
  constructor
  · rintro ⟨pre, ⟨hpre, hnone, hok⟩, rfl⟩
    exact ⟨pre, hpre, hnone, hok, rfl⟩
  · rintro ⟨pre, hpre, hnone, hok, rfl⟩
    exact ⟨pre, ⟨hpre, hnone, hok⟩, rfl⟩

theorem dirFault?_eq_none_iff :
    dirFault? t root l names = none ↔
      nameFault? root names = none ∧ (t.node? (l ++ names)).any FileNode.isRegular = false := by
  simp [dirFault?]

theorem dirError?_of_beginning (hpre : pre <+: names) (h : dirError? t root l names = none) :
    dirError? t root l pre = none := by
  rw [dirError?_eq_none_iff] at h ⊢
  exact fun ds hds => h ds (hds.trans hpre)

theorem mem_made_concat :
    k ∈ made t root l (names ++ [c]) ↔ k ∈ made t root l names ∨
      t.node? k = none ∧ dirError? t root l (names ++ [c]) = none ∧ k = l ++ (names ++ [c]) := by
  simp only [mem_made, List.prefix_concat_iff]
  constructor
  · rintro ⟨pre, rfl | hpre, hnone, hok, rfl⟩
    · exact .inr ⟨hnone, hok, rfl⟩
    · exact .inl ⟨pre, hpre, hnone, hok, rfl⟩
  · rintro (⟨pre, hpre, hnone, hok, rfl⟩ | ⟨hnone, hok, rfl⟩)
    · exact ⟨pre, .inr hpre, hnone, hok, rfl⟩
    · exact ⟨names ++ [c], .inl rfl, hnone, hok, rfl⟩

theorem not_mem_made_concat : l ++ (names ++ [c]) ∉ made t root l names := by
  rw [mem_made]
  rintro ⟨pre, hpre, -, -, heq⟩
  rw [← List.append_cancel_left heq] at hpre
  have hlength := hpre.length_le
  rw [List.length_append, List.length_singleton] at hlength
  omega

theorem isShort_of_dirError? (hnames : ∀ c ∈ names, IsName c)
    (h : dirError? t root l names = none) : ∀ c ∈ names, IsShort c := by
  intro c hc
  obtain ⟨ds, rest, rfl⟩ := List.append_of_mem hc
  have hpre : ds ++ [c] <+: ds ++ c :: rest := ⟨rest, by simp⟩
  have hname := (dirFault?_eq_none_iff.1 (dirError?_eq_none_iff.1 h _ hpre)).1
  have hds : ∀ d ∈ ds, IsName d := fun d hd => hnames d (List.mem_append_left _ hd)
  exact ((nameFault?_concat_eq_none_iff hds (hnames c hc)).1 hname).2

theorem IsOpen.directory (h : IsOpen t l (names ++ [c])) (hpre : pre <+: names) :
    t.node? (l ++ pre) = some .directory := by
  obtain ⟨rest, rfl⟩ := hpre
  cases rest with
  | nil => exact (h _ c (by simp)).1
  | cons d rest => exact (h pre d ⟨rest ++ [c], by simp⟩).1

/-- What can be reached lies in directories that need not be made. -/
theorem IsOpen.dirError?_eq_none (h : IsOpen t l (names ++ [c])) (hnames : ∀ c ∈ names, IsName c)
    (husable : IsUsable (pathBelow root names)) : dirError? t root l names = none := by
  rw [dirError?_eq_none_iff]
  intro pre hpre
  rw [dirFault?_eq_none_iff, h.directory hpre]
  refine ⟨?_, rfl⟩
  rcases List.eq_nil_or_concat' pre with rfl | ⟨ds, d, rfl⟩
  · rfl
  · have hds := fun e he => hnames e (hpre.subset he)
    rw [List.forall_mem_append, List.forall_mem_singleton] at hds
    rw [nameFault?_concat_eq_none_iff hds.1 hds.2]
    exact ⟨isUsable_of_beginning hpre hnames husable,
      (h ds d (hpre.trans (List.prefix_append _ _))).2⟩

theorem ne_directory_of_writeError? (h : writeError? t root l names = none) :
    t.node? (l ++ names) ≠ some .directory := by
  intro hd
  simp [writeError?, fileFault?, hd] at h

theorem IsRoot.dirError?_nil (h : IsRoot t root l) : dirError? t root l [] = none := by
  rw [dirError?_eq_none_iff]
  intro pre hpre
  rw [List.prefix_nil.1 hpre]
  simp [dirFault?, nameFault?, h.node?_root, FileNode.isRegular]

/-! ### Making one directory -/

/-- At a directory a path ends in the same way, whether or not a link at its end is followed. -/
theorem follow_of_directory (hcs : ∀ c ∈ cs, '/' ∉ c.toList) (hd : t.node? m = some .directory)
    (h : t.follow false links l cs = .ok m) : t.follow true links l cs = .ok m := by
  fun_induction follow t false links l cs with
  | case1 links l => rwa [follow]
  | case5 links l c cs hdir hc ih =>
    rw [follow, hdir]
    simpa [hc] using ih (List.forall_mem_cons.1 hcs).2 h
  | case6 links l cs hdir hc ih =>
    rw [follow, hdir]
    simpa using ih (List.forall_mem_cons.1 hcs).2 h
  | case8 links l c cs hdir hc hup hshort next target hnode hlast =>
    -- The link itself would be where the path ends.
    rw [Except.ok.injEq] at h
    have hname : IsName c := ⟨leadsDown_iff.2 ⟨hc, hup⟩, hcs c List.mem_cons_self⟩
    have hbelow : IsBelow l next := isBelow_concat (List.forall_mem_nil IsName) hname
    rw [← h, hbelow.node?_eq, hnode] at hd
    cases hd
  | case10 l c cs hdir hc hup hshort next target hnode hlast links ih =>
    have hrest : ∀ d ∈ Path.components target ++ cs, '/' ∉ d.toList :=
      List.forall_mem_append.2
        ⟨fun _ => Path.not_slash_of_mem_components, (List.forall_mem_cons.1 hcs).2⟩
    rw [follow, hdir]
    simpa [hc, hup, hshort, next, hnode] using ih hrest h
  | case11 links l c cs hdir hc hup hshort next hnode ih =>
    have hstep : Step t ⟨links, l, c :: cs⟩ ⟨links, l ++ [c], cs⟩ :=
      .down hdir (leadsDown_iff.2 ⟨hc, hup⟩) (Nat.not_lt.1 hshort) hnode
    exact (follow_step hstep).trans (ih (List.forall_mem_cons.1 hcs).2 h)
  | _ => cases h

theorem find_of_directory {path : String} (h : t.find false path = .ok (m, .directory)) :
    t.find true path = .ok (m, .directory) := by
  obtain ⟨hlocate, hd⟩ := find_eq_ok_iff.1 h
  have husable := isUsable_of_locate hlocate
  rw [locate_of_isUsable husable] at hlocate
  rw [find_eq_ok_iff, locate_of_isUsable husable]
  exact ⟨follow_of_directory (fun _ => Path.not_slash_of_mem_components) hd hlocate, hd⟩

namespace IsRoot

section

variable (h : IsRoot t root l) (hnames : ∀ c ∈ names, IsName c) (hc : IsName c)
  (hopen : IsOpen t l names) (hd : t.node? (l ++ names) = some .directory)
include h hnames hc hopen hd

theorem freeLocation_below (husable : IsUsable (pathBelow root (names ++ [c]))) :
    t.freeLocation (pathBelow root (names ++ [c])) =
      if ¬ IsShort c then .error .nameTooLong
      else if (t.nodes[l ++ (names ++ [c])]?).isSome then .error .fileExists
      else .ok (l ++ (names ++ [c])) := by
  have hall : ∀ d ∈ names ++ [c], IsName d :=
    List.forall_mem_append.2 ⟨hnames, List.forall_mem_singleton.2 hc⟩
  have hcomponents : (Path.components (pathBelow root (names ++ [c]))).reverse.dropWhile (· == "") =
      c :: (leadOf root ++ names).reverse := by
    rw [components_pathBelow (by simp) hall, ← List.append_assoc, List.reverse_append]
    simp [hc.leadsDown.1]
  have hfollow : t.follow true maxLinks (startOf (pathBelow root (names ++ [c])) [])
      (leadOf root ++ names) = .ok (l ++ names) := by
    obtain ⟨links, hrest⟩ := follow_append_of_ok h.follow_leadOf
    rw [startOf_pathBelow hall, hrest, h.follow_eq_ok_iff hnames]
    exact ⟨rfl, hopen⟩
  rw [freeLocation]
  simp [husable.not_null, husable.ne_empty, Nat.not_lt.2 husable.short, hcomponents, hfollow, hd,
    hc.leadsDown.2.1, hc.leadsDown.2.2, IsShort, bind, Except.bind, pure, Except.pure,
    throw, throwThe, MonadExceptOf.throw]

theorem makeDirectory_of_fault (hfault : nameFault? root (names ++ [c]) = some fault) :
    t.makeDirectory (pathBelow root (names ++ [c])) =
      .error ⟨"mkdir", pathBelow root (names ++ [c]), fault⟩ := by
  have hall : ∀ d ∈ names ++ [c], IsName d :=
    List.forall_mem_append.2 ⟨hnames, List.forall_mem_singleton.2 hc⟩
  have hnot : ¬ (IsUsable (pathBelow root (names ++ [c])) ∧ IsShort c) := by
    rw [← nameFault?_concat_eq_none_iff hnames hc, hfault]
    exact nofun
  have hfind (m : Location) :
      t.find false (pathBelow root (names ++ [c])) ≠ .ok (m, .directory) := by
    intro hfind
    have hstat := FileTree.stat_eq_ok_iff.2 ⟨m, find_of_directory hfind⟩
    obtain ⟨husable, hopen', -⟩ := (h.stat_eq_ok_iff hall).1 hstat
    exact hnot ⟨husable, (isOpen_concat.1 hopen').2.2⟩
  have hfree : t.freeLocation (pathBelow root (names ++ [c])) = .error fault := by
    have hne := Path.spell_ne_empty (reduced_below root hall)
    rw [← pathBelow] at hne
    rw [nameFault?, List.getLast?_concat, Option.bind_some] at hfault
    split_ifs at hfault with hnull hlong hname
    · cases hfault
      simp [freeLocation, hnull, bind, Except.bind, throw, throwThe, MonadExceptOf.throw]
    · cases hfault
      simp [freeLocation, hnull, hne, hlong, bind, Except.bind, throw, throwThe,
        MonadExceptOf.throw]
    · cases hfault
      have hnotShort : ¬ IsShort c := Nat.not_le.2 hname
      rw [h.freeLocation_below hnames hc hopen hd ⟨hnull, hne, Nat.not_lt.1 hlong⟩,
        if_pos hnotShort]
  rw [makeDirectory, hfree]
  dsimp only
  split
  · next hdir => exact absurd hdir (hfind _)
  · rfl

theorem makeDirectory_of_free (hok : nameFault? root (names ++ [c]) = none)
    (hnone : t.nodes[l ++ (names ++ [c])]? = none) :
    t.makeDirectory (pathBelow root (names ++ [c])) =
      .ok (t.insert (l ++ (names ++ [c])) .directory) := by
  obtain ⟨husable, hshort⟩ := (nameFault?_concat_eq_none_iff hnames hc).1 hok
  rw [makeDirectory, h.freeLocation_below hnames hc hopen hd husable]
  simp [hshort, hnone]

end

/-! ### Making all directories -/

theorem node?_ne_link (h : IsRoot t root l) (hnames : ∀ c ∈ names, IsName c) {target : String} :
    t.node? (l ++ names) ≠ some (.link target) := by
  rcases eq_or_ne names [] with rfl | hne
  · rw [List.append_nil, h.node?_root]
    exact nofun
  · have hbelow : IsBelow l (l ++ names) := ⟨names, hne, hnames, rfl⟩
    rw [hbelow.node?_eq]
    exact h.not_link _ target hbelow

/-- A node below a root is reached through directories. -/
theorem isOpen_of_some (h : IsRoot t root l) (hnames : ∀ c ∈ names, IsName c)
    (hshort : ∀ c ∈ names, IsShort c) (hsome : t.node? (l ++ names) ≠ none) : IsOpen t l names := by
  induction names using List.reverseRecOn with
  | nil => exact isOpen_nil t l
  | append_singleton names c ih =>
    rw [List.forall_mem_append, List.forall_mem_singleton] at hnames hshort
    have hbelow : IsBelow l (l ++ (names ++ [c])) := isBelow_concat hnames.1 hnames.2
    obtain ⟨n, hn⟩ := Option.ne_none_iff_exists'.1 hsome
    rw [hbelow.node?_eq] at hn
    have hparent := h.inside _ n hbelow hn
    rw [← List.append_assoc, List.dropLast_concat] at hparent
    rw [isOpen_concat]
    exact ⟨ih hnames.1 hshort.1 (by rw [hparent]; exact nofun), hparent, hshort.2⟩

theorem makeEach_root (h : IsRoot t root l) :
    t.makeEach (ancestors (pathBelow root [])) = (.ok (), t) := by
  have hstat : t.stat (pathBelow root []) = .ok .directory := by
    rw [pathBelow_nil]
    exact FileTree.stat_eq_ok_iff.2 ⟨l, h.found⟩
  rw [ancestors_eq, makeEach, hstat]

/-- To make the directories of a path, those of the path without its last name are made first. -/
theorem makeEach_concat (h : IsRoot t root l) (hnames : ∀ c ∈ names, IsName c) (hc : IsName c) :
    t.makeEach (ancestors (pathBelow root (names ++ [c]))) =
      match t.stat (pathBelow root (names ++ [c])) with
      | .ok .directory => (.ok (), t)
      | .ok _ => (.error ⟨"mkdir", pathBelow root (names ++ [c]), .notDirectory⟩, t)
      | .error _ =>
        match t.makeEach (ancestors (pathBelow root names)) with
        | (.error e, t) => (.error e, t)
        | (.ok (), t) =>
          match t.makeDirectory (pathBelow root (names ++ [c])) with
          | .ok t => (.ok (), t)
          | .error e => (.error e, t) := by
  have habove : t.makeEach (if Path.cleanComponents root ++ names = [] then []
      else ancestors (pathBelow root names)) = t.makeEach (ancestors (pathBelow root names)) := by
    split_ifs with hnil
    · -- The root is the working directory or the root of the file system.
      rw [List.append_eq_nil_iff] at hnil
      rw [hnil.2, h.makeEach_root, makeEach]
    · rfl
  have hancestors := ancestors_spell_concat (reduced_below root hnames) hc
  rw [List.append_assoc, ← pathBelow, ← pathBelow] at hancestors
  rw [hancestors, ← habove]
  rfl

section

variable (h : IsRoot t root l) (hnames : ∀ c ∈ names, IsName c)
  (hmade : ∀ k, t'.nodes[k]? = if k ∈ made t root l names then some .directory else t.nodes[k]?)
include h hnames hmade

/-- Where a directory can be, there is one. -/
theorem node?_of_made (hpre : pre <+: names) (hok : dirError? t root l pre = none) :
    t'.node? (l ++ pre) = some .directory := by
  rcases hnode : t.node? (l ++ pre) with _ | n
  · have hbelow : IsBelow l (l ++ pre) := by
      refine ⟨pre, ?_, fun c hc => hnames c (hpre.subset hc), rfl⟩
      rintro rfl
      rw [List.append_nil, h.node?_root] at hnode
      cases hnode
    rw [hbelow.node?_eq, hmade, if_pos (mem_made.2 ⟨pre, hpre, hnode, hok, rfl⟩)]
  · have hfault := dirFault?_eq_none_iff.1 (dirError?_eq_none_iff.1 hok pre (List.prefix_refl pre))
    rw [hnode] at hfault
    cases n with
    | file content => cases hfault.2
    | link target => exact absurd hnode (h.node?_ne_link fun c hc => hnames c (hpre.subset hc))
    | directory =>
      unfold node? at hnode ⊢
      split_ifs at hnode ⊢
      · rfl
      · rw [hmade]
        split_ifs
        · rfl
        · exact hnode

theorem grows_of_made : Grows l t t' := by
  intro k
  rw [hmade]
  split_ifs with hk
  · right
    obtain ⟨pre, hpre, hnone, hok, rfl⟩ := mem_made.1 hk
    rcases List.eq_nil_or_concat' pre with rfl | ⟨ds, d, rfl⟩
    · rw [List.append_nil, h.node?_root] at hnone
      cases hnone
    · have hall := fun e he => hnames e (hpre.subset he)
      rw [List.forall_mem_append, List.forall_mem_singleton] at hall
      have hbelow : IsBelow l (l ++ (ds ++ [d])) := isBelow_concat hall.1 hall.2
      rw [hbelow.node?_eq] at hnone
      refine ⟨hbelow, by rw [hnone]; exact nofun, fun target => nofun, ?_⟩
      rw [← List.append_assoc, List.dropLast_concat]
      have hds : ds <+: ds ++ [d] := List.prefix_append _ _
      exact h.node?_of_made hnames hmade (hds.trans hpre) (dirError?_of_beginning hds hok)
  · exact .inl rfl

theorem isOpen_of_made (hok : dirError? t root l names = none) : IsOpen t' l names := by
  intro ds c hpre
  have hds : ds <+: names := (List.prefix_append _ _).trans hpre
  exact ⟨h.node?_of_made hnames hmade hds (dirError?_of_beginning hds hok),
    isShort_of_dirError? hnames hok c (hpre.subset (by simp))⟩

end

section

variable (h : IsRoot t root l) (hnames : ∀ c ∈ names, IsName c) (hc : IsName c)
include h hnames hc

/-- Where there is a node already, nothing is made. -/
theorem makeEach_of_stat {n : FileNode} (hstat : t.stat (pathBelow root (names ++ [c])) = .ok n) :
    t.makeEach (ancestors (pathBelow root (names ++ [c]))) =
        (outcomeOf (dirError? t root l (names ++ [c])), t) ∧
      made t root l (names ++ [c]) = [] := by
  have hall : ∀ d ∈ names ++ [c], IsName d :=
    List.forall_mem_append.2 ⟨hnames, List.forall_mem_singleton.2 hc⟩
  obtain ⟨husable, hopen, hnode⟩ := (h.stat_eq_ok_iff hall).1 hstat
  have hname : nameFault? root (names ++ [c]) = none :=
    (nameFault?_concat_eq_none_iff hnames hc).2 ⟨husable, (isOpen_concat.1 hopen).2.2⟩
  constructor
  · rw [h.makeEach_concat hnames hc, hstat, dirError?_concat,
      hopen.dirError?_eq_none hnames (isUsable_of_concat hnames husable), dirFault?, hname, hnode]
    cases n with
    | file content => rfl
    | link target => exact absurd hnode (h.node?_ne_link hall)
    | directory => rfl
  · refine List.eq_nil_iff_forall_not_mem.2 fun k hk => ?_
    rcases mem_made_concat.1 hk with hk | ⟨hnone, -, rfl⟩
    · obtain ⟨pre, hpre, hnone, -⟩ := mem_made.1 hk
      rw [hopen.directory hpre] at hnone
      cases hnone
    · rw [hnode] at hnone
      cases hnone

/-- If the directories before it could not all be made, a directory is not made either. -/
theorem makeEach_of_dirError? {e e' : FileError}
    (hstat : t.stat (pathBelow root (names ++ [c])) = .error e')
    (heach : t.makeEach (ancestors (pathBelow root names)) = (.error e, t'))
    (herror : dirError? t root l names = some e) :
    t.makeEach (ancestors (pathBelow root (names ++ [c]))) =
        (outcomeOf (dirError? t root l (names ++ [c])), t') ∧
      ∀ k, k ∈ made t root l (names ++ [c]) ↔ k ∈ made t root l names := by
  have herror' : dirError? t root l (names ++ [c]) = some e := by
    rw [dirError?_concat, herror]
    rfl
  refine ⟨by rw [h.makeEach_concat hnames hc, hstat, heach, herror', outcomeOf], fun k => ?_⟩
  rw [mem_made_concat, herror']
  simp

/-- After the directories before it, a directory is made unless its name cannot be used. -/
theorem makeEach_of_made {e : FileError}
    (hstat : t.stat (pathBelow root (names ++ [c])) = .error e)
    (heach : t.makeEach (ancestors (pathBelow root names)) = (.ok (), t'))
    (hok : dirError? t root l names = none)
    (hmade : ∀ k, t'.nodes[k]? =
      if k ∈ made t root l names then some .directory else t.nodes[k]?) :
    ∃ t'', t.makeEach (ancestors (pathBelow root (names ++ [c]))) =
        (outcomeOf (dirError? t root l (names ++ [c])), t'') ∧
      ∀ k, t''.nodes[k]? =
        if k ∈ made t root l (names ++ [c]) then some .directory else t.nodes[k]? := by
  have hall : ∀ d ∈ names ++ [c], IsName d :=
    List.forall_mem_append.2 ⟨hnames, List.forall_mem_singleton.2 hc⟩
  have hroot : IsRoot t' root l := h.of_grows (h.grows_of_made hnames hmade)
  have hopen : IsOpen t' l names := h.isOpen_of_made hnames hmade hok
  have hd : t'.node? (l ++ names) = some .directory :=
    h.node?_of_made hnames hmade (List.prefix_refl _) hok
  rw [h.makeEach_concat hnames hc, hstat, heach, dirError?_concat, hok]
  dsimp only
  rcases hname : nameFault? root (names ++ [c]) with _ | fault
  · obtain ⟨husable, hshort⟩ := (nameFault?_concat_eq_none_iff hnames hc).1 hname
    -- A node in this place would have been found.
    have hnone : t.node? (l ++ (names ++ [c])) = none := by
      by_contra hsome
      obtain ⟨n, hn⟩ := Option.ne_none_iff_exists'.1 hsome
      have hshorts : ∀ d ∈ names ++ [c], IsShort d :=
        List.forall_mem_append.2
          ⟨isShort_of_dirError? hnames hok, List.forall_mem_singleton.2 hshort⟩
      have hfound := (h.stat_eq_ok_iff hall).2 ⟨husable, h.isOpen_of_some hall hshorts hsome, hn⟩
      rw [hstat] at hfound
      cases hfound
    have hfault : dirFault? t root l (names ++ [c]) = none := by
      rw [dirFault?_eq_none_iff, hnone]
      exact ⟨hname, rfl⟩
    have herror : dirError? t root l (names ++ [c]) = none := by
      rw [dirError?_concat, hok, hfault]
      rfl
    have hfree : t'.nodes[l ++ (names ++ [c])]? = none := by
      rw [hmade, if_neg not_mem_made_concat, ← (isBelow_concat hnames hc).node?_eq, hnone]
    rw [hroot.makeDirectory_of_free hnames hc hopen hd hname hfree, hfault]
    refine ⟨_, rfl, fun k => ?_⟩
    rw [insert, Std.HashMap.getElem?_insert, hmade]
    by_cases hk : l ++ (names ++ [c]) = k
    · subst hk
      simp [mem_made_concat, hnone, herror]
    · have hiff : k ∈ made t root l (names ++ [c]) ↔ k ∈ made t root l names := by
        simp [mem_made_concat, Ne.symm hk]
      simp [hk, hiff]
  · have hfault : dirFault? t root l (names ++ [c]) = some fault := by
      rw [dirFault?, hname]
      rfl
    rw [hroot.makeDirectory_of_fault hnames hc hopen hd hname, hfault]
    refine ⟨t', rfl, fun k => ?_⟩
    have hiff : k ∈ made t root l (names ++ [c]) ↔ k ∈ made t root l names := by
      simp [mem_made_concat, dirError?_concat, hok, hfault]
    simp only [hmade, hiff]

end

/-- Making the directories of a path fails at the first that can neither be nor be made, and makes
    those before it. -/
theorem makeEach_below (h : IsRoot t root l) (hnames : ∀ c ∈ names, IsName c) :
    ∃ t', t.makeEach (ancestors (pathBelow root names)) =
        (outcomeOf (dirError? t root l names), t') ∧
      ∀ k, t'.nodes[k]? = if k ∈ made t root l names then some .directory else t.nodes[k]? := by
  induction names using List.reverseRecOn with
  | nil =>
    have hnil : made t root l [] = [] := by
      simp [made, h.node?_root]
    exact ⟨t, by rw [h.makeEach_root, h.dirError?_nil, outcomeOf], by simp [hnil]⟩
  | append_singleton names c ih =>
    rw [List.forall_mem_append, List.forall_mem_singleton] at hnames
    obtain ⟨hnames, hc⟩ := hnames
    rcases hstat : t.stat (pathBelow root (names ++ [c])) with e | n
    · obtain ⟨t', heach, hmade⟩ := ih hnames
      rcases herror : dirError? t root l names with _ | e'
      · rw [herror] at heach
        exact h.makeEach_of_made hnames hc hstat heach herror hmade
      · rw [herror] at heach
        obtain ⟨heach', hiff⟩ := h.makeEach_of_dirError? hnames hc hstat heach herror
        exact ⟨t', heach', by simpa only [hiff] using hmade⟩
    · obtain ⟨heach, hnil⟩ := h.makeEach_of_stat hnames hc hstat
      exact ⟨t, heach, by simp [hnil]⟩

/-! ### Writing a file -/

theorem locate_concat (h : IsRoot t root l) (hnames : ∀ c ∈ names, IsName c) (hc : IsName c)
    (hopen : IsOpen t l names) (hd : t.node? (l ++ names) = some .directory) :
    t.locate true (pathBelow root (names ++ [c])) =
      match nameFault? root (names ++ [c]) with
      | some fault => .error fault
      | none => .ok (l ++ (names ++ [c])) := by
  have hall : ∀ d ∈ names ++ [c], IsName d :=
    List.forall_mem_append.2 ⟨hnames, List.forall_mem_singleton.2 hc⟩
  have hne : pathBelow root (names ++ [c]) ≠ "" := Path.spell_ne_empty (reduced_below root hall)
  have hfollow (husable : IsUsable (pathBelow root (names ++ [c]))) :
      t.locate true (pathBelow root (names ++ [c])) =
        if IsShort c then .ok (l ++ (names ++ [c])) else .error .nameTooLong := by
    obtain ⟨links, hlocate⟩ := h.locate_below hall husable
    have hfront : t.follow true links l names = .ok (l ++ names) :=
      (h.follow_eq_ok_iff hnames).2 ⟨rfl, hopen⟩
    obtain ⟨links', hrest⟩ := follow_append_of_ok hfront
    have hlink (target : String) : t.nodes[l ++ names ++ [c]]? ≠ some (.link target) := by
      rw [List.append_assoc]
      exact h.not_link _ target (isBelow_concat hnames hc)
    rw [hlocate, hrest, follow_name hd hc.leadsDown hlink, List.append_assoc]
  rw [nameFault?, List.getLast?_concat, Option.bind_some]
  split_ifs with hnull hlong hname
  · simp [locate, hnull]
  · simp [locate, hnull, hne, hlong]
  · have hnotShort : ¬ IsShort c := Nat.not_le.2 hname
    rw [hfollow ⟨hnull, hne, Nat.not_lt.1 hlong⟩, if_neg hnotShort]
  · rw [hfollow ⟨hnull, hne, Nat.not_lt.1 hlong⟩, if_pos]
    exact Nat.not_lt.1 hname

theorem withFile_below (h : IsRoot t root l) (hnames : ∀ c ∈ names, IsName c) (hc : IsName c)
    (hopen : IsOpen t l names) (hd : t.node? (l ++ names) = some .directory) (content : Bytes) :
    t.withFile (pathBelow root (names ++ [c])) content =
      match fileFault? t root l (names ++ [c]) with
      | some fault => .error ⟨"open", pathBelow root (names ++ [c]), fault⟩
      | none => .ok (t.insert (l ++ (names ++ [c])) (.file content)) := by
  rw [withFile, h.locate_concat hnames hc hopen hd, fileFault?]
  rcases nameFault? root (names ++ [c]) with _ | fault
  · by_cases hdir : t.node? (l ++ (names ++ [c])) = some .directory
    · simp [hdir]
    · simp [hdir, hd]
  · rfl

end IsRoot

/-- The working directory and the root of the file system are there. -/
theorem stat_spell_nil (t : FileTree) (rooted : Bool) :
    t.stat (spell rooted []) = .ok .directory := by
  cases rooted with
  | true =>
    have hcomponents : Path.components "/" = ["", ""] := by decide
    have hlocate : t.locate true "/" = .ok Location.root := by
      rw [locate_of_isUsable (by decide), hcomponents, startOf, if_pos (by decide)]
      simp [follow, node?, Location.isGiven]
    exact stat_eq_ok_iff.2 ⟨_, find_eq_ok_iff.2 ⟨hlocate, rfl⟩⟩
  | false =>
    have hcomponents : Path.components "." = ["."] := by decide
    have hlocate : t.locate true "." = .ok [] := by
      rw [locate_of_isUsable (by decide), hcomponents, startOf, if_neg (by decide)]
      simp [follow, node?, Location.isGiven]
    exact stat_eq_ok_iff.2 ⟨_, find_eq_ok_iff.2 ⟨hlocate, rfl⟩⟩

namespace IsRoot

/-- The directory in which the root lies is there. -/
theorem stat_parent (h : IsRoot t root l) :
    t.stat (Path.parent (Path.clean root)) = .ok .directory := by
  have hreduced := Path.reduced_cleanComponents root
  have hfollow := h.follow_leadOf
  have husable := h.isUsable
  rw [leadOf] at hfollow
  rw [Path.clean_eq_spell] at husable ⊢
  rcases List.eq_nil_or_concat' (Path.cleanComponents root) with hnil | ⟨cs, c, hcs⟩
  · have hparent (rooted : Bool) : Path.parent (spell rooted []) = spell rooted [] := by
      cases rooted <;> decide
    rw [hnil, hparent, stat_spell_nil]
  · rw [hcs] at hreduced hfollow husable ⊢
    have hfront : Reduced (Path.isRooted root) cs.reverse := by
      rw [List.reverse_append] at hreduced
      exact hreduced.tail
    have hslash : '/' ∉ c.toList := (hreduced.ne_empty_and_not_slash c (by simp)).2.2
    have hlead : lead (Path.isRooted root) (cs ++ [c]) = lead (Path.isRooted root) cs ++ [c] := by
      cases Path.isRooted root <;> rfl
    rw [Path.parent_spell hfront hslash]
    rcases eq_or_ne cs [] with rfl | hne
    · exact t.stat_spell_nil _
    rw [hlead] at hfollow
    rcases t.follow_append maxLinks (startOf root []) (lead (Path.isRooted root) cs) with
      ⟨links, m, hrest⟩ | ⟨fault, hrest⟩
    · rw [hrest] at hfollow
      have hd : t.node? m = some .directory := by
        by_contra hd
        obtain ⟨fault, hfault⟩ := follow_of_not_directory hd links c
        rw [hfault] at hfollow
        cases hfollow
      have hm := hrest []
      rw [List.append_nil, follow.eq_1] at hm
      refine FileTree.stat_eq_ok_iff.2 ⟨m, find_eq_ok_iff.2 ⟨?_, hd⟩⟩
      rw [locate_of_isUsable (isUsable_spell_of_concat hfront husable), startOf,
        hfront.isRooted_spell, hfront.components_spell hne]
      exact hm
    · rw [hrest] at hfollow
      cases hfollow

theorem writeError?_nil (h : IsRoot t root l) :
    writeError? t root l [] = some ⟨"open", pathBelow root [], .isDirectory⟩ := by
  simp [writeError?, h.dirError?_nil, fileFault?, nameFault?, h.node?_root]

theorem made_nil (h : IsRoot t root l) : made t root l [] = [] := by
  simp [made, h.node?_root]

/-- Where there is nothing, a file can be written exactly if a directory can be made. -/
theorem writeError?_eq_none_iff (h : IsRoot t root l) (hnone : t.node? (l ++ names) = none) :
    writeError? t root l names = none ↔ dirError? t root l names = none := by
  rcases List.eq_nil_or_concat' names with rfl | ⟨names, c, rfl⟩
  · rw [List.append_nil, h.node?_root] at hnone
    cases hnone
  · rw [writeError?, List.dropLast_concat, dirError?_concat, fileFault?, dirFault?, hnone]
    cases dirError? t root l names <;> simp

/-- What a write below a root makes and says. -/
theorem write_below (h : IsRoot t root l) (hroot : root ≠ "") {e : InputEntry}
    (hstays : Path.Stays 0 (Path.components e.path)) :
    ∃ t', Staging.write t root e = (outcomeOf (writeError? t root l (below e.path)), t') ∧
      (∀ k, t'.nodes[k]? =
        if k = l ++ below e.path ∧ writeError? t root l (below e.path) = none then
          some (.file e.content)
        else if k ∈ made t root l (below e.path).dropLast then some .directory
        else t.nodes[k]?) ∧
      Grows l t t' := by
  have hall : ∀ c ∈ below e.path, IsName c := fun c => Path.isName_of_mem_below hstays
  have hdest : Path.join root e.path = pathBelow root (below e.path) :=
    Path.join_eq_spell hroot hstays
  unfold Staging.write
  simp only [hdest]
  generalize below e.path = names at hall ⊢
  rcases List.eq_nil_or_concat' names with rfl | ⟨names, c, rfl⟩
  · -- The path is that of the root itself.
    have hparent : t.makeEach (ancestors (Path.parent (pathBelow root []))) = (.ok (), t) := by
      rw [pathBelow_nil, ancestors_eq, makeEach, h.stat_parent]
    have hfile : t.withFile (pathBelow root []) e.content =
        .error ⟨"open", pathBelow root [], .isDirectory⟩ := by
      rw [withFile, pathBelow_nil, (find_eq_ok_iff.1 h.found).1]
      simp [h.node?_root]
    simp only [hparent, hfile, h.writeError?_nil, List.dropLast_nil, h.made_nil]
    exact ⟨t, rfl, by simp, .refl l t⟩
  rw [List.forall_mem_append, List.forall_mem_singleton] at hall
  obtain ⟨hnames, hc⟩ := hall
  obtain ⟨t', heach, hmade⟩ := h.makeEach_below hnames
  rw [parent_pathBelow hnames hc, heach, writeError?, List.dropLast_concat]
  have hgrows : Grows l t t' := h.grows_of_made hnames hmade
  rcases hok : dirError? t root l names with _ | e'
  · have hroot' : IsRoot t' root l := h.of_grows hgrows
    have hopen : IsOpen t' l names := h.isOpen_of_made hnames hmade hok
    have hd : t'.node? (l ++ names) = some .directory :=
      h.node?_of_made hnames hmade (List.prefix_refl _) hok
    -- The directories on the way do not change what is at the place itself.
    have hbelow : IsBelow l (l ++ (names ++ [c])) := isBelow_concat hnames hc
    have hfault : fileFault? t' root l (names ++ [c]) = fileFault? t root l (names ++ [c]) := by
      rw [fileFault?, fileFault?, hbelow.node?_eq, hbelow.node?_eq, hmade,
        if_neg not_mem_made_concat]
    simp only [outcomeOf, hroot'.withFile_below hnames hc hopen hd, hfault]
    rcases hfree : fileFault? t root l (names ++ [c]) with _ | fault
    · have hne : t'.nodes[l ++ (names ++ [c])]? ≠ some .directory := by
        intro hdir
        rw [← hfault, fileFault?, hbelow.node?_eq, if_pos hdir] at hfree
        simp at hfree
      have hparent : t'.node? (l ++ (names ++ [c])).dropLast = some .directory := by
        rwa [← List.append_assoc, List.dropLast_concat]
      refine ⟨_, rfl, fun k => ?_, hgrows.trans (grows_insert hbelow hne hparent e.content)⟩
      rw [insert, Std.HashMap.getElem?_insert, hmade]
      by_cases hk : k = l ++ (names ++ [c])
      · simp [hk]
      · simp [hk, Ne.symm hk]
    · exact ⟨t', rfl, by simpa using hmade, hgrows⟩
  · exact ⟨t', rfl, by simpa using hmade, hgrows⟩

end IsRoot

end KernelReach.FileTree
