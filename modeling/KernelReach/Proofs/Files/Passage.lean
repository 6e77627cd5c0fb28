import KernelReach.Files.Tree
import Mathlib.Logic.Relation
import Mathlib.Tactic.SplitIfs

/-!
# Where a path leads

To read a file is to walk along its path, one component after the other. `Step` says how a walk goes
on, and `Ends` where it cannot go on: at a file at the end of the path, at a gap, or at an obstacle,
which is anything else that lies in the way. Every walk comes to one end only, and that is what
reading answers by (`contentFrom_eq_iff`). So a file is read exactly if it is there
(`contentAt_eq_ok_iff`), and a failure other than that nothing was found tells of an obstacle
(`contentAt_eq_error_iff`).
-/

namespace KernelReach.FileTree

open Binary (Bytes)

/-! ### Walks -/

/-- Where a walk is. -/
structure Position where
  /-- How many links may still be followed. -/
  links : Nat
  location : Location
  /-- The components that are still ahead. -/
  ahead : List String
  deriving DecidableEq, Repr

/-- Where the walk along a path begins. -/
def Position.start (path : String) : Position := ⟨maxLinks, startOf path [], Path.components path⟩

/-- The component is neither one that leads nowhere nor the one that leads up. -/
def LeadsDown (c : String) : Prop := c ≠ "" ∧ c ≠ "." ∧ c ≠ ".."

instance (c : String) : Decidable (LeadsDown c) := inferInstanceAs (Decidable (_ ∧ _))

theorem leadsDown_iff {c : String} : LeadsDown c ↔ ¬ (c = "" ∨ c = ".") ∧ c ≠ ".." := by
  rw [LeadsDown, not_or, and_assoc]

/-- The name is not too long. -/
def IsShort (c : String) : Prop := (Text.heldBytes c).length ≤ maxName

instance (c : String) : Decidable (IsShort c) := inferInstanceAs (Decidable (_ ≤ _))

/-- How a walk goes on from a directory. -/
inductive Step (t : FileTree) : Position → Position → Prop
  | stay {links : Nat} {l : Location} {c : String} {cs : List String}
    (hd : t.node? l = some .directory) (hc : c = "" ∨ c = ".") :
    Step t ⟨links, l, c :: cs⟩ ⟨links, l, cs⟩
  | up {links : Nat} {l : Location} {cs : List String} (hd : t.node? l = some .directory) :
    Step t ⟨links, l, ".." :: cs⟩ ⟨links, l.up, cs⟩
  | down {links : Nat} {l : Location} {c : String} {cs : List String}
    (hd : t.node? l = some .directory) (hc : LeadsDown c) (hshort : IsShort c)
    (hlink : ∀ target, t.nodes[l ++ [c]]? ≠ some (.link target)) :
    Step t ⟨links, l, c :: cs⟩ ⟨links, l ++ [c], cs⟩
  | link {links : Nat} {l : Location} {c : String} {cs : List String} {target : String}
    (hd : t.node? l = some .directory) (hc : LeadsDown c) (hshort : IsShort c)
    (hlink : t.nodes[l ++ [c]]? = some (.link target)) :
    Step t ⟨links + 1, l, c :: cs⟩ ⟨links, startOf target l, Path.components target ++ cs⟩

/-- The walk leads from one position to another. -/
abbrev Reaches (t : FileTree) : Position → Position → Prop := Relation.ReflTransGen (Step t)

/-- What lies in the way of a walk, and what is said about it. -/
inductive Obstacle (t : FileTree) : Position → FileFault → Prop
  /-- The path ends at a node that is no file. -/
  | notFile {links : Nat} {l : Location} {n : FileNode} (hn : t.node? l = some n)
    (h : n.isRegular = false) : Obstacle t ⟨links, l, []⟩ .isDirectory
  /-- The path goes on at a node that is no directory. -/
  | notDirectory {links : Nat} {l : Location} {c : String} {cs : List String} {n : FileNode}
    (hn : t.node? l = some n) (h : n ≠ .directory) :
    Obstacle t ⟨links, l, c :: cs⟩ .notDirectory
  /-- The next name is too long. -/
  | longName {links : Nat} {l : Location} {c : String} {cs : List String}
    (hd : t.node? l = some .directory) (hc : LeadsDown c) (h : ¬ IsShort c) :
    Obstacle t ⟨links, l, c :: cs⟩ .nameTooLong
  /-- There are too many links. -/
  | lastLink {l : Location} {c : String} {cs : List String} {target : String}
    (hd : t.node? l = some .directory) (hc : LeadsDown c) (hshort : IsShort c)
    (hlink : t.nodes[l ++ [c]]? = some (.link target)) :
    Obstacle t ⟨0, l, c :: cs⟩ .tooManyLinks

/-- Where a walk cannot go on, and what reading makes of it. -/
inductive Ends (t : FileTree) : Position → Except FileFault Bytes → Prop
  | file {links : Nat} {l : Location} {content : Bytes} (h : t.node? l = some (.file content)) :
    Ends t ⟨links, l, []⟩ (.ok content)
  | gap {p : Position} (h : t.node? p.location = none) : Ends t p (.error .notFound)
  | obstacle {p : Position} {fault : FileFault} (h : Obstacle t p fault) : Ends t p (.error fault)

variable {t : FileTree} {p q : Position} {path : String} {fault : FileFault} {content : Bytes}
  {r : Except FileFault Bytes}

theorem Obstacle.ne_notFound (h : Obstacle t p fault) : fault ≠ .notFound := by
  cases h <;> decide

/-- What reading finds from a position on. -/
def contentFrom (t : FileTree) (p : Position) : Except FileFault Bytes :=
  match t.follow true p.links p.location p.ahead with
  | .error fault => .error fault
  | .ok l =>
    match t.node? l with
    | some (.file content) => .ok content
    | some _ => .error .isDirectory
    | none => .error .notFound

/-- Following a path goes along with the walk. -/
theorem follow_step (h : Step t p q) :
    t.follow true p.links p.location p.ahead = t.follow true q.links q.location q.ahead := by
  cases h with
  | stay hd hc =>
    rw [follow, hd]
    simp only [hc, if_true]
  | up hd =>
    rw [follow, hd]
    simp
  | down hd hc hshort hlink =>
    -- As `hlink` says, the node is not a link, whatever else it is.
    rw [follow, hd]
    simp only [hc.1, hc.2.1, hc.2.2, or_self, if_false, Nat.not_lt.2 hshort]
  | link hd hc hshort hlink =>
    rw [follow, hd]
    simp [hc.1, hc.2.1, hc.2.2, Nat.not_lt.2 hshort, hlink]

theorem follow_reaches (h : Reaches t p q) :
    t.follow true p.links p.location p.ahead = t.follow true q.links q.location q.ahead := by
  induction h with
  | refl => rfl
  | tail _ hstep ih => exact ih.trans (follow_step hstep)

/-- Reading goes along with the walk. -/
theorem contentFrom_reaches (h : Reaches t p q) : t.contentFrom p = t.contentFrom q := by
  simp only [contentFrom, follow_reaches h]

theorem contentFrom_of_ends (h : Ends t p r) : t.contentFrom p = r := by
  cases h with
  | file h => simp [contentFrom, follow, h]
  | gap h =>
    -- A gap is noticed on the way as well as at the end of the path.
    obtain ⟨links, l, ahead⟩ := p
    change t.node? l = none at h
    cases ahead with
    | nil => simp [contentFrom, follow, h]
    | cons c cs => simp [contentFrom, follow, h]
  | obstacle h =>
    cases h with
    | @notFile links l n hn h =>
      cases n with
      | file content => cases h
      | link | directory => simp [contentFrom, follow, hn]
    | @notDirectory links l c cs n hn h =>
      cases n with
      | file | link => simp [contentFrom, follow, hn]
      | directory => exact absurd rfl h
    | longName hd hc h =>
      rw [IsShort, Nat.not_le] at h
      simp [contentFrom, follow, hd, hc.1, hc.2.1, hc.2.2, h]
    | lastLink hd hc hshort hlink =>
      simp [contentFrom, follow, hd, hc.1, hc.2.1, hc.2.2, Nat.not_lt.2 hshort, hlink]

theorem exists_ends_of_ahead_nil (t : FileTree) (links : Nat) (l : Location) :
    ∃ r, Ends t ⟨links, l, []⟩ r := by
  rcases hn : t.node? l with _ | n
  · exact ⟨_, .gap hn⟩
  · cases n with
    | file content => exact ⟨_, .file hn⟩
    | link | directory => exact ⟨_, .obstacle (.notFile hn rfl)⟩

/-- A walk that can go on comes to an end where it would come to one from the next position. -/
theorem exists_ends_of_step (hstep : Step t p q) (h : ∃ q' r, Reaches t q q' ∧ Ends t q' r) :
    ∃ q' r, Reaches t p q' ∧ Ends t q' r := by
  obtain ⟨q', r, hreaches, hends⟩ := h
  exact ⟨q', r, .head hstep hreaches, hends⟩

/-- Every walk comes to an end: a link is followed at the cost of the number of those that may still
    be, and any other step at the cost of what is ahead. -/
theorem exists_ends (t : FileTree) (p : Position) : ∃ q r, Reaches t p q ∧ Ends t q r := by
  have hobstacle {p : Position} {fault : FileFault} (h : Obstacle t p fault) :
      ∃ q r, Reaches t p q ∧ Ends t q r := ⟨p, _, .refl, .obstacle h⟩
  obtain ⟨links, l, ahead⟩ := p
  fun_induction follow t true links l ahead with
  | case1 links l =>
    obtain ⟨r, hends⟩ := exists_ends_of_ahead_nil t links l
    exact ⟨_, r, .refl, hends⟩
  | case2 links l c cs hn => exact ⟨_, _, .refl, .gap hn⟩
  | case3 links l c cs content hn => exact hobstacle (.notDirectory hn nofun)
  | case4 links l c cs target hn => exact hobstacle (.notDirectory hn nofun)
  | case5 links l c cs hd hc ih => exact exists_ends_of_step (.stay hd hc) ih
  | case6 links l cs hd hc ih => exact exists_ends_of_step (.up hd) ih
  | case7 links l c cs hd hc hup hlong =>
    exact hobstacle (.longName hd (leadsDown_iff.2 ⟨hc, hup⟩) (Nat.not_le.2 hlong))
  | case8 links l c cs hd hc hup hshort next target hlink hlast => cases hlast.2
  | case9 l c cs hd hc hup hshort next target hlink hlast =>
    exact hobstacle (.lastLink hd (leadsDown_iff.2 ⟨hc, hup⟩) (Nat.not_lt.1 hshort) hlink)
  | case10 l c cs hd hc hup hshort next target hlink hlast links ih =>
    exact exists_ends_of_step (.link hd (leadsDown_iff.2 ⟨hc, hup⟩) (Nat.not_lt.1 hshort) hlink) ih
  | case11 links l c cs hd hc hup hshort next hlink ih =>
    exact exists_ends_of_step (.down hd (leadsDown_iff.2 ⟨hc, hup⟩) (Nat.not_lt.1 hshort) hlink) ih

/-- What reading finds is told by the end of the walk. -/
theorem contentFrom_eq_iff : t.contentFrom p = r ↔ ∃ q, Reaches t p q ∧ Ends t q r := by
  constructor
  · rintro rfl
    obtain ⟨q, r, hreaches, hends⟩ := exists_ends t p
    rw [contentFrom_reaches hreaches, contentFrom_of_ends hends]
    exact ⟨q, hreaches, hends⟩
  · rintro ⟨q, hreaches, hends⟩
    rw [contentFrom_reaches hreaches, contentFrom_of_ends hends]

/-! ### Paths -/

/-- The path can be looked up at all. -/
structure IsUsable (path : String) : Prop where
  not_null : '\x00' ∉ path.toList
  ne_empty : path ≠ ""
  short : (Text.heldBytes path).length ≤ maxPath

instance (path : String) : Decidable (IsUsable path) :=
  decidable_of_iff ('\x00' ∉ path.toList ∧ path ≠ "" ∧ (Text.heldBytes path).length ≤ maxPath)
    ⟨fun h => ⟨h.1, h.2.1, h.2.2⟩, fun h => ⟨h.not_null, h.ne_empty, h.short⟩⟩

/-- The path leads to a file with that content. -/
def HasFile (t : FileTree) (path : String) (content : Bytes) : Prop :=
  IsUsable path ∧ ∃ links l, Reaches t (.start path) ⟨links, l, []⟩ ∧
    t.node? l = some (.file content)

/-- Something is in the way of the path, so that it leads neither to a file nor to a gap. -/
inductive Obstructs (t : FileTree) (path : String) : FileFault → Prop
  | null (h : '\x00' ∈ path.toList) : Obstructs t path .invalidName
  | longPath (hnull : '\x00' ∉ path.toList) (h : maxPath < (Text.heldBytes path).length) :
    Obstructs t path .nameTooLong
  | obstacle {p : Position} {fault : FileFault} (h : IsUsable path) (hp : Reaches t (.start path) p)
    (hfault : Obstacle t p fault) : Obstructs t path fault

theorem Obstructs.ne_notFound (h : Obstructs t path fault) : fault ≠ .notFound := by
  cases h with
  | null | longPath => decide
  | obstacle _ _ h => exact h.ne_notFound

/-- What reading the file at a path finds. -/
def contentOf (t : FileTree) (path : String) : Except FileFault Bytes :=
  if '\x00' ∈ path.toList then .error .invalidName
  else if path = "" then .error .notFound
  else if maxPath < (Text.heldBytes path).length then .error .nameTooLong
  else t.contentFrom (.start path)

/-- What is being done when the fault shows: a file is opened before it is read. -/
def actionAt : FileFault → String
  | .isDirectory => "read"
  | _ => "open"

theorem follow_ne_isDirectory (t : FileTree) (last : Bool) (links : Nat) (l : Location)
    (cs : List String) : t.follow last links l cs ≠ .error .isDirectory := by
  fun_induction follow t last links l cs with
  | case5 _ _ _ _ _ _ ih | case6 _ _ _ _ _ ih | case11 _ _ _ _ _ _ _ _ _ _ ih => exact ih
  | case10 _ _ _ _ _ _ _ _ _ _ _ _ ih => exact ih
  | _ => exact nofun

/-- A failure to read tells of the path and of what was found. -/
theorem contentAt_eq (t : FileTree) (path : String) :
    t.contentAt path = (t.contentOf path).mapError fun fault => ⟨actionAt fault, path, fault⟩ := by
  unfold contentAt contentOf find locate
  simp only [List.contains_iff_mem]
  split_ifs
  · rfl
  · rfl
  · rfl
  · simp only [contentFrom, Position.start]
    have hne := t.follow_ne_isDirectory true maxLinks (startOf path []) (Path.components path)
    generalize t.follow true maxLinks (startOf path []) (Path.components path) = found at hne ⊢
    rcases found with fault | l
    · have haction : actionAt fault = "open" := by
        cases fault with
        | isDirectory => exact absurd rfl hne
        | _ => rfl
      simp only [bind, Except.bind, Except.mapError, haction]
    · simp only [bind, Except.bind]
      rcases t.node? l with _ | ⟨content | target | _⟩ <;> rfl

theorem contentOf_of_isUsable (h : IsUsable path) :
    t.contentOf path = t.contentFrom (.start path) := by
  rw [contentOf, if_neg h.not_null, if_neg h.ne_empty, if_neg (Nat.not_lt.2 h.short)]

theorem contentOf_eq_ok_iff : t.contentOf path = .ok content ↔ t.HasFile path content := by
  constructor
  · intro h
    have husable : IsUsable path := by
      unfold contentOf at h
      split_ifs at h with hnull hempty hlong
      exact ⟨hnull, hempty, Nat.not_lt.1 hlong⟩
    rw [contentOf_of_isUsable husable, contentFrom_eq_iff] at h
    obtain ⟨q, hreaches, hends⟩ := h
    cases hends with
    | file hn => exact ⟨husable, _, _, hreaches, hn⟩
  · rintro ⟨husable, links, l, hreaches, hn⟩
    rw [contentOf_of_isUsable husable, contentFrom_eq_iff]
    exact ⟨_, hreaches, .file hn⟩

theorem contentOf_eq_error_iff (hne : fault ≠ .notFound) :
    t.contentOf path = .error fault ↔ t.Obstructs path fault := by
  constructor
  · intro h
    by_cases hnull : '\x00' ∈ path.toList
    · rw [contentOf, if_pos hnull] at h
      cases h
      exact .null hnull
    by_cases hempty : path = ""
    · rw [contentOf, if_neg hnull, if_pos hempty] at h
      cases h
      exact absurd rfl hne
    by_cases hlong : maxPath < (Text.heldBytes path).length
    · rw [contentOf, if_neg hnull, if_neg hempty, if_pos hlong] at h
      cases h
      exact .longPath hnull hlong
    have husable : IsUsable path := ⟨hnull, hempty, Nat.not_lt.1 hlong⟩
    rw [contentOf_of_isUsable husable, contentFrom_eq_iff] at h
    obtain ⟨q, hreaches, hends⟩ := h
    cases hends with
    | gap => exact absurd rfl hne
    | obstacle hobstacle => exact .obstacle husable hreaches hobstacle
  · intro h
    cases h with
    | null h => rw [contentOf, if_pos h]
    | longPath hnull h =>
      have hempty : path ≠ "" := by
        rintro rfl
        exact absurd h (by decide)
      rw [contentOf, if_neg hnull, if_neg hempty, if_pos h]
    | obstacle husable hreaches hobstacle =>
      rw [contentOf_of_isUsable husable, contentFrom_eq_iff]
      exact ⟨_, hreaches, .obstacle hobstacle⟩

/-- A file is read exactly if it is there. -/
theorem contentAt_eq_ok_iff : t.contentAt path = .ok content ↔ t.HasFile path content := by
  rw [contentAt_eq, ← contentOf_eq_ok_iff]
  cases t.contentOf path with
  | error fault => exact iff_of_false nofun nofun
  | ok content' => simp [Except.mapError]

/-- A failure other than that nothing was found tells of something in the way. -/
theorem contentAt_eq_error_iff (hne : fault ≠ .notFound) :
    t.contentAt path = .error ⟨actionAt fault, path, fault⟩ ↔ t.Obstructs path fault := by
  rw [contentAt_eq, ← contentOf_eq_error_iff hne]
  cases t.contentOf path with
  | error fault' =>
    simp only [Except.mapError, Except.error.injEq, FileError.mk.injEq, true_and]
    exact ⟨And.right, fun h => ⟨congrArg _ h, h⟩⟩
  | ok content => exact iff_of_false nofun nofun

theorem not_obstructs_of_notFound {e : FileError} (h : t.contentAt path = .error e)
    (he : e.fault = .notFound) : ¬ t.Obstructs path fault := by
  intro hobstructs
  have hne := hobstructs.ne_notFound
  rw [← contentAt_eq_error_iff hne, h, Except.error.injEq] at hobstructs
  rw [hobstructs] at he
  exact hne he

/-- At a gap nothing is found. -/
theorem contentAt_of_gap (h : IsUsable path) (hp : Reaches t (.start path) p)
    (hgap : t.node? p.location = none) : t.contentAt path = .error ⟨"open", path, .notFound⟩ := by
  rw [contentAt_eq, contentOf_of_isUsable h, contentFrom_eq_iff.2 ⟨p, hp, .gap hgap⟩]
  rfl

theorem eq_of_contentAt {e : FileError} (h : t.contentAt path = .error e) :
    e = ⟨actionAt e.fault, path, e.fault⟩ := by
  rw [contentAt_eq] at h
  cases hcontent : t.contentOf path with
  | error fault =>
    rw [hcontent] at h
    cases h
    rfl
  | ok content =>
    rw [hcontent] at h
    cases h

end KernelReach.FileTree
