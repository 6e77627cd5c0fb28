import KernelReach.Files.Staging
import KernelReach.Proofs.Files.CleanPath
import Mathlib.Data.List.Infix

/-!
# Paths below a root

A root is a path to a directory below which there are no links (`IsRoot`). A path that adds names to
it is followed from there (`IsRoot.locate_below`), and it leads to where its names say if the
directories on the way are there and nowhere otherwise (`IsRoot.follow_eq_ok_iff`).
-/

namespace KernelReach.FileTree

open Binary (Bytes)
open KernelReach.Path (IsName Reduced spell lead below)

variable {t t' : FileTree} {root : String} {l m k : Location} {c : String}
  {cs ds names pre : List String} {links : Nat} {fault : FileFault}

/-! ### Following a path further -/

/-- The position with more ahead. -/
def Position.append (p : Position) (ds : List String) : Position :=
  { p with ahead := p.ahead ++ ds }

theorem Step.append {p q : Position} (h : Step t p q) (ds : List String) :
    Step t (p.append ds) (q.append ds) := by
  cases h with
  | stay hd hc => exact .stay hd hc
  | up hd => exact .up hd
  | down hd hc hshort hlink => exact .down hd hc hshort hlink
  | @link links l c cs target hd hc hshort hlink =>
    simp only [Position.append, List.append_assoc]
    exact .link hd hc hshort hlink

theorem Reaches.append {p q : Position} (h : Reaches t p q) (ds : List String) :
    Reaches t (p.append ds) (q.append ds) := by
  induction h with
  | refl => exact .refl
  | tail _ hstep ih => exact ih.tail (hstep.append ds)

/-- A walk that ends before the path does fails whatever else is ahead. -/
theorem Ends.follow_eq_error {r : Except FileFault Bytes} (h : Ends t ⟨links, l, c :: cs⟩ r) :
    ∃ fault, ∀ ds, t.follow true links l (c :: (cs ++ ds)) = .error fault := by
  cases h with
  | gap h =>
    change t.node? l = none at h
    exact ⟨.notFound, fun ds => by simp [follow, h]⟩
  | obstacle h =>
    cases h with
    | @notDirectory _ _ _ _ n hn h =>
      refine ⟨.notDirectory, fun ds => ?_⟩
      cases n with
      | file | link => simp [follow, hn]
      | directory => exact absurd rfl h
    | longName hd hc h =>
      rw [IsShort, Nat.not_le] at h
      exact ⟨.nameTooLong, fun ds => by simp [follow, hd, hc.1, hc.2.1, hc.2.2, h]⟩
    | lastLink hd hc hshort hlink =>
      exact ⟨.tooManyLinks, fun ds => by
        simp [follow, hd, hc.1, hc.2.1, hc.2.2, Nat.not_lt.2 hshort, hlink]⟩

/-- The beginning of a path leads to where the rest of it starts, or what is wrong with it is wrong
    with the path. -/
theorem follow_append (t : FileTree) (links : Nat) (l : Location) (cs : List String) :
    (∃ links' m, ∀ ds, t.follow true links l (cs ++ ds) = t.follow true links' m ds) ∨
      ∃ fault, ∀ ds, t.follow true links l (cs ++ ds) = .error fault := by
  obtain ⟨⟨links', m, ahead⟩, r, hreaches, hends⟩ := exists_ends t ⟨links, l, cs⟩
  have hfollow (ds : List String) := follow_reaches (hreaches.append ds)
  cases ahead with
  | nil => exact .inl ⟨links', m, hfollow⟩
  | cons c cs =>
    obtain ⟨fault, hfault⟩ := hends.follow_eq_error
    exact .inr ⟨fault, fun ds => (hfollow ds).trans (hfault ds)⟩

theorem follow_append_of_ok (h : t.follow true links l cs = .ok m) :
    ∃ links', ∀ ds, t.follow true links l (cs ++ ds) = t.follow true links' m ds := by
  rcases t.follow_append links l cs with ⟨links', m', hrest⟩ | ⟨fault, hrest⟩
  · have hm := hrest []
    rw [List.append_nil, h, follow, Except.ok.injEq] at hm
    exact ⟨links', hm ▸ hrest⟩
  · have hm := hrest []
    rw [List.append_nil, h] at hm
    cases hm

theorem follow_append_of_error (h : t.follow true links l cs = .error fault) (ds : List String) :
    t.follow true links l (cs ++ ds) = .error fault := by
  rcases t.follow_append links l cs with ⟨links', m, hrest⟩ | ⟨fault', hrest⟩
  · have hm := hrest []
    rw [List.append_nil, h, follow] at hm
    cases hm
  · have hm := hrest []
    rw [List.append_nil, h, Except.error.injEq] at hm
    rw [hm, hrest]

/-! ### Paths below a root -/

/-- The path of what lies below a root under some names. -/
def pathBelow (root : String) (names : List String) : String :=
  spell (Path.isRooted root) (Path.cleanComponents root ++ names)

theorem pathBelow_nil (root : String) : pathBelow root [] = Path.clean root := by
  rw [pathBelow, List.append_nil, Path.clean_eq_spell]

theorem reduced_below (root : String) (hnames : ∀ c ∈ names, IsName c) :
    Reduced (Path.isRooted root) (Path.cleanComponents root ++ names).reverse := by
  rw [List.reverse_append]
  exact (Path.reduced_cleanComponents root).append fun c hc => hnames c (List.mem_reverse.1 hc)

/-- The components that lead to a root. -/
def leadOf (root : String) : List String :=
  lead (Path.isRooted root) (Path.cleanComponents root)

theorem components_pathBelow (hne : names ≠ []) (hnames : ∀ c ∈ names, IsName c) :
    Path.components (pathBelow root names) = leadOf root ++ names := by
  rw [pathBelow, (reduced_below root hnames).components_spell (by simp [hne]), leadOf, lead, lead]
  split <;> rfl

theorem startOf_pathBelow (hnames : ∀ c ∈ names, IsName c) :
    startOf (pathBelow root names) [] = startOf root [] := by
  rw [startOf, pathBelow, (reduced_below root hnames).isRooted_spell, startOf]

theorem parent_pathBelow (hnames : ∀ c ∈ names, IsName c) (hc : IsName c) :
    Path.parent (pathBelow root (names ++ [c])) = pathBelow root names := by
  rw [pathBelow, ← List.append_assoc, Path.parent_spell (reduced_below root hnames) hc.not_slash,
    pathBelow]

/-- The paths of the directories above one with these components. -/
def above (cs : List String) : List String :=
  (((List.range cs.length).reverse.filter fun i => cs[i]? ≠ some "").map
    fun i => String.intercalate "/" (cs.take i)).filter (· ≠ "")

theorem ancestors_eq (path : String) : ancestors path = path :: above (Path.components path) := rfl

theorem above_concat (cs : List String) (hc : c ≠ "") :
    above (cs ++ [c]) = [String.intercalate "/" cs].filter (· ≠ "") ++ above cs := by
  have hkept : (List.range cs.length).reverse.filter (fun i => (cs ++ [c])[i]? ≠ some "") =
      (List.range cs.length).reverse.filter fun i => cs[i]? ≠ some "" := by
    refine List.filter_congr fun i hi => ?_
    rw [List.getElem?_append_left (by simpa using hi)]
  have htaken : ∀ i ∈ (List.range cs.length).reverse.filter (fun i => cs[i]? ≠ some ""),
      String.intercalate "/" ((cs ++ [c]).take i) = String.intercalate "/" (cs.take i) := by
    intro i hi
    have hlt : i < cs.length := by simpa using (List.mem_filter.1 hi).1
    rw [List.take_append_of_le_length hlt.le]
  rw [above, List.length_append, List.length_singleton, List.range_succ, List.reverse_append,
    List.reverse_singleton, List.filter_append, List.map_append, List.filter_append, hkept,
    List.map_congr_left htaken, above]
  simp [hc]

/-- Above a clean path are the paths of its beginnings. -/
theorem ancestors_spell_concat {rooted : Bool} (h : Reduced rooted cs.reverse) (hc : IsName c) :
    ancestors (spell rooted (cs ++ [c])) =
      spell rooted (cs ++ [c]) :: if cs = [] then [] else ancestors (spell rooted cs) := by
  have hconcat : Reduced rooted (cs ++ [c]).reverse := by
    rw [List.reverse_append]
    exact .name hc h
  have hlead : lead rooted (cs ++ [c]) = lead rooted cs ++ [c] := by cases rooted <;> rfl
  rw [ancestors_eq, hconcat.components_spell (by simp), hlead, above_concat _ hc.leadsDown.1]
  rcases eq_or_ne cs [] with rfl | hne
  · cases rooted <;> rfl
  · have hspell : String.intercalate "/" (lead rooted cs) = spell rooted cs := by
      cases rooted with
      | true => simp [lead, spell, String.intercalate_cons_of_ne_nil hne]
      | false => simp [lead, spell, hne]
    rw [if_neg hne, ancestors_eq, h.components_spell hne, hspell]
    simp [Path.spell_ne_empty h]

/-! ### Roots -/

/-- The location lies below `l` under names. -/
def IsBelow (l k : Location) : Prop :=
  ∃ names, names ≠ [] ∧ (∀ c ∈ names, IsName c) ∧ k = l ++ names

/-- The path `root` leads to the directory at `l`. Below it are no links, and every node lies in a
    directory. -/
structure IsRoot (t : FileTree) (root : String) (l : Location) : Prop where
  found : t.find true (Path.clean root) = .ok (l, .directory)
  not_link : ∀ k target, IsBelow l k → t.nodes[k]? ≠ some (.link target)
  inside : ∀ k n, IsBelow l k → t.nodes[k]? = some n → t.node? k.dropLast = some .directory

/-- An empty directory is a root. -/
theorem isRoot_of_empty (hfound : t.find true (Path.clean root) = .ok (l, .directory))
    (hempty : ∀ k, IsBelow l k → t.nodes[k]? = none) : IsRoot t root l where
  found := hfound
  not_link k target hbelow := by
    rw [hempty k hbelow]
    exact nofun
  inside k n hbelow hnode := by
    rw [hempty k hbelow] at hnode
    cases hnode

theorem isBelow_concat (hnames : ∀ c ∈ names, IsName c) (hc : IsName c) :
    IsBelow l (l ++ (names ++ [c])) :=
  ⟨names ++ [c], by simp, List.forall_mem_append.2 ⟨hnames, List.forall_mem_singleton.2 hc⟩, rfl⟩

theorem IsBelow.node?_eq (h : IsBelow l k) (t : FileTree) : t.node? k = t.nodes[k]? := by
  obtain ⟨names, hne, hnames, rfl⟩ := h
  have hlast := hnames _ (List.getLast_mem hne)
  have hgiven : Location.isGiven (l ++ names) = false := by
    rw [Location.isGiven, Bool.or_eq_false_iff]
    constructor
    · -- The name of the root of the file system is none below a directory.
      rw [beq_eq_false_iff_ne]
      intro hroot
      have hmem : names.getLast hne ∈ Location.root := by
        rw [← hroot]
        exact List.mem_append_right _ (List.getLast_mem hne)
      rw [Location.root, List.mem_singleton] at hmem
      rw [hmem] at hlast
      exact hlast.not_slash (by decide)
    · rw [List.all_eq_false]
      refine ⟨_, List.mem_append_right _ (List.getLast_mem hne), ?_⟩
      simpa using hlast.leadsDown.2.2
  rw [node?, hgiven, if_neg Bool.false_ne_true]

theorem locate_of_isUsable {path : String} (h : IsUsable path) (last : Bool) :
    t.locate last path = t.follow last maxLinks (startOf path []) (Path.components path) := by
  simp [locate, h.not_null, h.ne_empty, Nat.not_lt.2 h.short]

theorem isUsable_of_locate {path : String} {last : Bool} (h : t.locate last path = .ok l) :
    IsUsable path := by
  unfold locate at h
  split_ifs at h with hnull hempty hlong
  exact ⟨by simpa using hnull, hempty, Nat.not_lt.1 hlong⟩

theorem find_eq_ok_iff {path : String} {last : Bool} {n : FileNode} :
    t.find last path = .ok (l, n) ↔ t.locate last path = .ok l ∧ t.node? l = some n := by
  rw [find]
  rcases hlocate : t.locate last path with fault | m
  · simp [bind, Except.bind]
  · rcases hn : t.node? m with _ | n' <;> simp [bind, Except.bind, pure, Except.pure, throw,
      throwThe, MonadExceptOf.throw, hn]
    · rintro rfl
      simp [hn]
    · rintro rfl
      simp [hn]

namespace IsRoot

variable (h : IsRoot t root l)
include h

theorem node?_root : t.node? l = some .directory := (find_eq_ok_iff.1 h.found).2

theorem isUsable : IsUsable (Path.clean root) := isUsable_of_locate (find_eq_ok_iff.1 h.found).1

/-- The components that lead to the root lead to its location. -/
theorem follow_leadOf : t.follow true maxLinks (startOf root []) (leadOf root) = .ok l := by
  have hlocate := (find_eq_ok_iff.1 h.found).1
  rw [locate_of_isUsable h.isUsable, startOf, Path.isRooted_clean, Path.clean_eq_spell] at hlocate
  rcases eq_or_ne (Path.cleanComponents root) [] with hnil | hne
  · rw [← hlocate, leadOf, hnil, startOf]
    cases Path.isRooted root with
    | true =>
      rw [show Path.components (spell true []) = ["", ""] by decide]
      simp [lead, follow, node?, Location.isGiven]
    | false =>
      rw [show Path.components (spell false []) = ["."] by decide]
      simp [lead, follow, node?, Location.isGiven]
  · rwa [(Path.reduced_cleanComponents root).components_spell hne] at hlocate

end IsRoot

/-! ### Following names -/

/-- The directories are there that lead to what lies below `l` under some names, and the names are
    not too long. -/
def IsOpen (t : FileTree) (l : Location) (names : List String) : Prop :=
  ∀ ds c, ds ++ [c] <+: names → t.node? (l ++ ds) = some .directory ∧ IsShort c

theorem isOpen_nil (t : FileTree) (l : Location) : IsOpen t l [] := by
  intro ds c hpre
  exact absurd (List.prefix_nil.1 hpre) (by simp)

theorem isOpen_concat :
    IsOpen t l (names ++ [c]) ↔
      IsOpen t l names ∧ t.node? (l ++ names) = some .directory ∧ IsShort c := by
  constructor
  · intro h
    exact ⟨fun ds d hpre => h ds d (hpre.trans (List.prefix_append _ _)),
      h names c (List.prefix_refl _)⟩
  · rintro ⟨h, hlast⟩ ds d hpre
    rcases List.prefix_concat_iff.1 hpre with heq | hpre
    · obtain ⟨rfl, hd⟩ := List.append_inj' heq rfl
      rw [List.singleton_inj.1 hd]
      exact hlast
    · exact h ds d hpre

theorem follow_name (hd : t.node? k = some .directory) (hc : LeadsDown c)
    (hlink : ∀ target, t.nodes[k ++ [c]]? ≠ some (.link target)) :
    t.follow true links k [c] = if IsShort c then .ok (k ++ [c]) else .error .nameTooLong := by
  split_ifs with hshort
  · have hstep : Step t ⟨links, k, [c]⟩ ⟨links, k ++ [c], []⟩ := .down hd hc hshort hlink
    exact (follow_step hstep).trans (by rw [follow])
  · rw [IsShort, Nat.not_le] at hshort
    simp [follow, hd, hc.1, hc.2.1, hc.2.2, hshort]

theorem follow_of_not_directory (hd : t.node? k ≠ some .directory) (links : Nat) (c : String) :
    ∃ fault, t.follow true links k [c] = .error fault := by
  rcases hn : t.node? k with _ | n
  · exact ⟨.notFound, by simp [follow, hn]⟩
  · cases n with
    | file | link => exact ⟨.notDirectory, by simp [follow, hn]⟩
    | directory => exact absurd hn hd

theorem IsRoot.follow_eq_ok_iff (h : IsRoot t root l) (hnames : ∀ c ∈ names, IsName c) :
    t.follow true links l names = .ok k ↔ k = l ++ names ∧ IsOpen t l names := by
  induction names using List.reverseRecOn generalizing k with
  | nil =>
    rw [follow, Except.ok.injEq, List.append_nil]
    exact ⟨fun hk => ⟨hk.symm, isOpen_nil t l⟩, fun hk => hk.1.symm⟩
  | append_singleton names c ih =>
    rw [List.forall_mem_append, List.forall_mem_singleton] at hnames
    obtain ⟨hnames, hc⟩ := hnames
    rw [isOpen_concat]
    rcases hfollow : t.follow true links l names with fault | m
    · rw [follow_append_of_error hfollow]
      refine ⟨fun hok => ?_, fun hopen => ?_⟩
      · cases hok
      · have hok := (ih hnames).2 ⟨rfl, hopen.2.1⟩
        rw [hfollow] at hok
        cases hok
    · obtain ⟨rfl, hopen⟩ := (ih hnames).1 hfollow
      obtain ⟨links', hrest⟩ := follow_append_of_ok hfollow
      rw [hrest]
      by_cases hd : t.node? (l ++ names) = some .directory
      · have hlink (target : String) : t.nodes[l ++ names ++ [c]]? ≠ some (.link target) := by
          rw [List.append_assoc]
          exact h.not_link _ target (isBelow_concat hnames hc)
        rw [follow_name hd hc.leadsDown hlink, List.append_assoc]
        split_ifs with hshort
        · simp [hopen, hd, hshort, eq_comm]
        · simp [hshort]
      · obtain ⟨fault, hfault⟩ := follow_of_not_directory hd links' c
        rw [hfault]
        simp [hd]

/-- A usable path below a root is followed from the root. -/
theorem IsRoot.locate_below (h : IsRoot t root l) (hnames : ∀ c ∈ names, IsName c)
    (husable : IsUsable (pathBelow root names)) :
    ∃ links, t.locate true (pathBelow root names) = t.follow true links l names := by
  rcases eq_or_ne names [] with rfl | hne
  · rw [pathBelow_nil]
    exact ⟨0, by rw [follow, (find_eq_ok_iff.1 h.found).1]⟩
  · obtain ⟨links, hrest⟩ := follow_append_of_ok h.follow_leadOf
    refine ⟨links, ?_⟩
    rw [locate_of_isUsable husable, startOf_pathBelow hnames, components_pathBelow hne hnames,
      hrest]

theorem stat_eq_ok_iff {path : String} {n : FileNode} :
    t.stat path = .ok n ↔ ∃ l, t.find true path = .ok (l, n) := by
  rw [stat]
  rcases t.find true path with fault | ⟨l, n'⟩ <;> simp [Except.map, Except.mapError]

theorem IsRoot.stat_eq_ok_iff (h : IsRoot t root l) (hnames : ∀ c ∈ names, IsName c)
    {n : FileNode} :
    t.stat (pathBelow root names) = .ok n ↔
      IsUsable (pathBelow root names) ∧ IsOpen t l names ∧ t.node? (l ++ names) = some n := by
  simp only [FileTree.stat_eq_ok_iff, find_eq_ok_iff]
  constructor
  · rintro ⟨k, hlocate, hn⟩
    have husable := isUsable_of_locate hlocate
    obtain ⟨links, hfollow⟩ := h.locate_below hnames husable
    rw [hfollow, h.follow_eq_ok_iff hnames] at hlocate
    obtain ⟨rfl, hopen⟩ := hlocate
    exact ⟨husable, hopen, hn⟩
  · rintro ⟨husable, hopen, hn⟩
    obtain ⟨links, hfollow⟩ := h.locate_below hnames husable
    exact ⟨_, hfollow.trans ((h.follow_eq_ok_iff hnames).2 ⟨rfl, hopen⟩), hn⟩

end KernelReach.FileTree
