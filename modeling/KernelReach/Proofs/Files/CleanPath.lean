import KernelReach.Proofs.Collections
import KernelReach.Proofs.Files.Passage
import Mathlib.Data.List.Basic

/-!
# Clean paths

Cleaning a path leaves names, and before them, unless the path is rooted, some `..` (`Reduced`).
Such a list of components can be had back from the text that spells it (`cleanComponents_spell`), so
that clean paths may be reasoned about by their components alone.

A path is local if it never climbs above the place at which it starts (`isLocal_iff`). Joined to any
root, it adds names to the components of the root and takes none away (`join_eq_spell`).
-/

namespace KernelReach.Path

open FileTree (LeadsDown leadsDown_iff)

variable {rooted : Bool} {c p q : String} {cs ds kept names : List String}

/-! ### Components -/

/-- The component can be the name of a node. -/
structure IsName (c : String) : Prop where
  leadsDown : LeadsDown c
  not_slash : '/' ∉ c.toList

instance (c : String) : Decidable (IsName c) :=
  decidable_of_iff (LeadsDown c ∧ '/' ∉ c.toList) ⟨fun h => ⟨h.1, h.2⟩, fun h => ⟨h.1, h.2⟩⟩

theorem components_append (p q : String) :
    components (p ++ "/" ++ q) = components p ++ components q := by
  simp only [components, Text.splitAt, String.toList_append, ← List.map_append]
  rw [show "/".toList = ['/'] from rfl, List.append_assoc, List.singleton_append,
    List.splitOn_append_cons_self]

theorem components_slash_append (q : String) : components ("/" ++ q) = "" :: components q :=
  components_append "" q

theorem components_append_slash (p : String) : components (p ++ "/") = components p ++ [""] := by
  have happend := components_append p ""
  rwa [String.append_empty] at happend

theorem components_eq_singleton (hc : '/' ∉ c.toList) : components c = [c] := by
  rw [components, Text.splitAt, List.splitOn_eq_singleton hc, List.map_singleton,
    String.ofList_toList]

/-- The components with slashes between them are had back. -/
theorem components_intercalate (hne : cs ≠ []) (h : ∀ c ∈ cs, '/' ∉ c.toList) :
    components (String.intercalate "/" cs) = cs := by
  rw [components, Text.splitAt, String.toList_intercalate]
  rw [show "/".toList = ['/'] from rfl, List.splitOn_intercalate _ (List.forall_mem_map.2 h)
    (by simpa using hne), List.map_map]
  exact (List.map_congr_left fun _ _ => String.ofList_toList).trans (List.map_id _)

theorem intercalate_components (p : String) : String.intercalate "/" (components p) = p := by
  rw [← String.toList_inj, String.toList_intercalate, components, Text.splitAt, List.map_map]
  have hparts : (p.toList.splitOn '/').map (String.toList ∘ String.ofList) = p.toList.splitOn '/' :=
    (List.map_congr_left fun _ _ => String.toList_ofList).trans (List.map_id _)
  rw [hparts]
  exact List.intercalate_splitOn '/'

theorem not_slash_of_mem_components (h : c ∈ components p) : '/' ∉ c.toList := by
  obtain ⟨part, hpart, rfl⟩ := List.mem_map.1 h
  rw [String.toList_ofList]
  exact not_mem_of_mem_splitOn '/' hpart

theorem isRooted_slash_append (q : String) : isRooted ("/" ++ q) = true := by
  simp [isRooted, Text.startsWith]

/-- A path is rooted by what stands before its end. -/
theorem isRooted_append (hp : p ≠ "") (q : String) : isRooted (p ++ q) = isRooted p := by
  obtain ⟨x, xs, hx⟩ := List.exists_cons_of_ne_nil (mt String.toList_eq_nil_iff.1 hp)
  simp [isRooted, Text.startsWith, hx, List.isPrefixOf]

theorem isRooted_eq_true_iff : isRooted p = true ↔ ∃ q, p = "/" ++ q := by
  constructor
  · intro h
    rw [isRooted, Text.startsWith, List.isPrefixOf_iff_prefix] at h
    obtain ⟨rest, hrest⟩ := h
    exact ⟨String.ofList rest, String.toList_inj.1 (by simp [← hrest])⟩
  · rintro ⟨q, rfl⟩
    exact isRooted_slash_append q

/-! ### Reduced components -/

/-- What cleaning leaves, the last component first: names after some `..`, of which a rooted path
    has none. -/
inductive Reduced (rooted : Bool) : List String → Prop
  | nil : Reduced rooted []
  | up {cs : List String} (hrooted : rooted = false) (h : Reduced rooted cs)
    (hups : ∀ c ∈ cs, c = "..") : Reduced rooted (".." :: cs)
  | name {c : String} {cs : List String} (hc : IsName c) (h : Reduced rooted cs) :
    Reduced rooted (c :: cs)

theorem Reduced.tail (h : Reduced rooted (c :: cs)) : Reduced rooted cs := by
  cases h with
  | up _ h _ | name _ h => exact h

theorem Reduced.append (h : Reduced rooted cs) (hds : ∀ d ∈ ds, IsName d) :
    Reduced rooted (ds ++ cs) := by
  induction ds with
  | nil => exact h
  | cons d ds ih =>
    rw [List.forall_mem_cons] at hds
    exact .name hds.1 (ih hds.2)

theorem Reduced.ne_empty_and_not_slash (h : Reduced rooted cs) :
    ∀ c ∈ cs, c ≠ "" ∧ c ≠ "." ∧ '/' ∉ c.toList := by
  induction h with
  | nil => exact nofun
  | up _ _ _ ih => exact List.forall_mem_cons.2 ⟨by decide, ih⟩
  | name hc _ ih =>
    exact List.forall_mem_cons.2 ⟨⟨hc.leadsDown.1, hc.leadsDown.2.1, hc.not_slash⟩, ih⟩

theorem Reduced.reduce (h : Reduced rooted kept) (hcs : ∀ c ∈ cs, '/' ∉ c.toList) :
    Reduced rooted (reduce rooted kept cs).reverse := by
  fun_induction Path.reduce rooted kept cs with
  | case1 kept => rwa [List.reverse_reverse]
  | case2 kept c cs hc ih => exact ih h (List.forall_mem_cons.1 hcs).2
  | case3 cs hc ks ih =>
    refine ih ?_ (List.forall_mem_cons.1 hcs).2
    cases h with
    | up hrooted h hups =>
      exact .up hrooted (.up hrooted h hups) (List.forall_mem_cons.2 ⟨rfl, hups⟩)
    | name hc _ => exact absurd rfl hc.leadsDown.2.2
  | case4 cs hc k ks hk ih => exact ih h.tail (List.forall_mem_cons.1 hcs).2
  | case5 cs hrooted hc ih => exact ih .nil (List.forall_mem_cons.1 hcs).2
  | case6 cs hrooted hc ih =>
    exact ih (.up (Bool.not_eq_true _ ▸ hrooted) .nil nofun) (List.forall_mem_cons.1 hcs).2
  | case7 kept c cs hc hup ih =>
    rw [List.forall_mem_cons] at hcs
    exact ih (.name ⟨leadsDown_iff.2 ⟨hc, hup⟩, hcs.1⟩ h) hcs.2

theorem reduced_cleanComponents (p : String) : Reduced (isRooted p) (cleanComponents p).reverse :=
  Reduced.nil.reduce fun _ => not_slash_of_mem_components

theorem reduce_cons_of_stay (hc : c = "" ∨ c = ".") :
    reduce rooted kept (c :: cs) = reduce rooted kept cs := by
  simp [reduce, hc]

theorem reduce_cons_of_isName (hc : IsName c) :
    reduce rooted kept (c :: cs) = reduce rooted (c :: kept) cs := by
  simp [reduce, (leadsDown_iff.1 hc.leadsDown).1, hc.leadsDown.2.2]

theorem reduce_up_of_isName (hc : IsName c) :
    reduce rooted (c :: kept) (".." :: cs) = reduce rooted kept cs := by
  simp [reduce, hc.leadsDown.2.2]

/-- Reduced components are taken over as they are. -/
theorem Reduced.reduce_reverse_append (h : Reduced rooted kept) (cs : List String) :
    Path.reduce rooted [] (kept.reverse ++ cs) = Path.reduce rooted kept cs := by
  induction h generalizing cs with
  | nil => rfl
  | @up ks hrooted h hups ih =>
    rw [List.reverse_cons, List.append_assoc, List.singleton_append, ih]
    cases ks with
    | nil => simp [Path.reduce, hrooted]
    | cons k ks => simp [Path.reduce, hups k List.mem_cons_self]
  | @name c ks hc h ih =>
    rw [List.reverse_cons, List.append_assoc, List.singleton_append, ih, reduce_cons_of_isName hc]

theorem reduce_append (rooted : Bool) (kept cs ds : List String) :
    reduce rooted kept (cs ++ ds) = reduce rooted (reduce rooted kept cs).reverse ds := by
  fun_induction reduce rooted kept cs <;> simp_all [reduce]

/-! ### Texts of clean paths -/

/-- The text of a clean path. -/
def spell (rooted : Bool) (cs : List String) : String :=
  if rooted then "/" ++ String.intercalate "/" cs
  else if cs = [] then "."
  else String.intercalate "/" cs

theorem intercalate_eq_empty_iff (h : ∀ c ∈ cs, c ≠ "") :
    String.intercalate "/" cs = "" ↔ cs = [] := by
  constructor
  · intro hempty
    cases cs with
    | nil => rfl
    | cons c cs =>
      rw [show c :: cs = [c] ++ cs from rfl] at hempty
      rcases eq_or_ne cs [] with rfl | hne
      · exact absurd hempty (by simpa [String.intercalate_singleton] using h c List.mem_cons_self)
      · rw [String.intercalate_append_of_ne_nil (by simp) hne] at hempty
        simp at hempty
  · rintro rfl
    exact String.intercalate_nil

theorem clean_eq_spell (p : String) : clean p = spell (isRooted p) (cleanComponents p) := by
  have hne : ∀ c ∈ cleanComponents p, c ≠ "" := fun c hc =>
    ((reduced_cleanComponents p).ne_empty_and_not_slash c (List.mem_reverse.2 hc)).1
  simp only [clean, spell, intercalate_eq_empty_iff hne]

/-- The components of the text of a clean path that stand before further ones. -/
def lead (rooted : Bool) (cs : List String) : List String := if rooted then "" :: cs else cs

theorem Reduced.components_spell (h : Reduced rooted cs.reverse) (hne : cs ≠ []) :
    components (spell rooted cs) = lead rooted cs := by
  have hcs : components (String.intercalate "/" cs) = cs :=
    components_intercalate hne fun c hc => (h.ne_empty_and_not_slash c (List.mem_reverse.2 hc)).2.2
  cases rooted with
  | true => exact (components_slash_append _).trans (congrArg _ hcs)
  | false => simpa [spell, lead, hne] using hcs

theorem Reduced.isRooted_spell (h : Reduced rooted cs.reverse) :
    isRooted (spell rooted cs) = rooted := by
  cases rooted with
  | true => exact isRooted_slash_append _
  | false =>
    rcases eq_or_ne cs [] with rfl | hne
    · rfl
    -- The first component of a rooted path is empty.
    refine Bool.eq_false_iff.2 fun hrooted => ?_
    obtain ⟨q, hq⟩ := isRooted_eq_true_iff.1 hrooted
    have hcs := h.components_spell hne
    rw [hq, components_slash_append, lead, if_neg Bool.false_ne_true] at hcs
    rw [← hcs] at h
    exact (h.ne_empty_and_not_slash "" (by simp)).1 rfl

theorem reduce_lead (h : Reduced rooted cs.reverse) (ds : List String) :
    reduce rooted [] (lead rooted cs ++ ds) = reduce rooted cs.reverse ds := by
  have hcs := h.reduce_reverse_append ds
  rw [List.reverse_reverse] at hcs
  cases rooted with
  | true => rwa [lead, if_pos rfl, List.cons_append, reduce, if_pos (.inl rfl)]
  | false => rwa [lead, if_neg Bool.false_ne_true]

/-- The components of a clean path are had back from its text. -/
theorem cleanComponents_spell (h : Reduced rooted cs.reverse) :
    cleanComponents (spell rooted cs) = cs := by
  rw [cleanComponents, h.isRooted_spell]
  rcases eq_or_ne cs [] with rfl | hne
  · cases rooted <;> decide
  · have hlead := reduce_lead h []
    rwa [List.append_nil, reduce, List.reverse_reverse, ← h.components_spell hne] at hlead

theorem spell_ne_empty (h : Reduced rooted cs.reverse) : spell rooted cs ≠ "" := by
  intro hempty
  have hcs := cleanComponents_spell h
  rw [hempty] at hcs
  subst hcs
  cases rooted <;> exact absurd hempty (by decide)

theorem isRooted_clean (p : String) : isRooted (clean p) = isRooted p := by
  rw [clean_eq_spell, (reduced_cleanComponents p).isRooted_spell]

/-- The components of a path that mean something. -/
def namesOf (p : String) : List String := (components p).filter fun c => c ≠ "" ∧ c ≠ "."

theorem namesOf_spell (h : Reduced rooted cs.reverse) : namesOf (spell rooted cs) = cs := by
  rcases eq_or_ne cs [] with rfl | hne
  · cases rooted <;> decide
  · have hkept : cs.filter (fun c => c ≠ "" ∧ c ≠ ".") = cs :=
      List.filter_eq_self.2 fun c hc => by
        have hmeans := h.ne_empty_and_not_slash c (List.mem_reverse.2 hc)
        simp [hmeans.1, hmeans.2.1]
    rw [namesOf, h.components_spell hne]
    cases rooted with
    | true => rwa [lead, if_pos rfl, List.filter_cons_of_neg (by simp)]
    | false => rwa [lead, if_neg Bool.false_ne_true]

theorem namesOf_clean (p : String) : namesOf (clean p) = cleanComponents p := by
  rw [clean_eq_spell, namesOf_spell (reduced_cleanComponents p)]

/-- The text before the last component of a clean path. -/
def stem (rooted : Bool) (cs : List String) : String :=
  if cs = [] then (if rooted then "/" else "") else spell rooted cs ++ "/"

theorem spell_concat (rooted : Bool) (cs : List String) (c : String) :
    spell rooted (cs ++ [c]) = stem rooted cs ++ c := by
  rcases eq_or_ne cs [] with rfl | hne
  · cases rooted <;> simp [spell, stem, String.intercalate_singleton]
  · have hbody : String.intercalate "/" (cs ++ [c]) = String.intercalate "/" cs ++ "/" ++ c := by
      rw [String.intercalate_append_of_ne_nil hne (by simp), String.intercalate_singleton]
    cases rooted <;> simp [spell, stem, hne, hbody, String.append_assoc]

theorem clean_stem (h : Reduced rooted cs.reverse) : clean (stem rooted cs) = spell rooted cs := by
  rcases eq_or_ne cs [] with rfl | hne
  · cases rooted <;> decide
  · have hspell := spell_ne_empty h
    rw [stem, if_neg hne, clean_eq_spell, isRooted_append hspell, h.isRooted_spell, cleanComponents,
      isRooted_append hspell, h.isRooted_spell, components_append_slash, h.components_spell hne,
      reduce_lead h]
    simp [reduce]

/-- A clean path lies in the directory of all its components but the last. -/
theorem parent_spell (h : Reduced rooted cs.reverse) (hc : '/' ∉ c.toList) :
    parent (spell rooted (cs ++ [c])) = spell rooted cs := by
  have hlast : ∀ x ∈ c.toList.reverse, (x != '/') = true := by
    intro x hx
    rw [bne_iff_ne]
    rintro rfl
    exact hc (List.mem_reverse.1 hx)
  have hstem : (stem rooted cs).toList.reverse.dropWhile (· != '/') =
      (stem rooted cs).toList.reverse := by
    unfold stem
    split
    · cases rooted <;> rfl
    · simp
  rw [parent, spell_concat, String.toList_append, List.reverse_append,
    List.dropWhile_append_of_pos hlast, hstem, List.reverse_reverse, String.ofList_toList,
    clean_stem h]

/-! ### Local paths -/

/-- Whether components, read from left to right `depth` names below a place, never lead above it. -/
def Stays : (depth : Nat) → List String → Prop
  | _, [] => True
  | depth, c :: cs =>
    if c = "" ∨ c = "." then Stays depth cs
    else if c = ".." then 0 < depth ∧ Stays (depth - 1) cs
    else Stays (depth + 1) cs

/-- What a path adds to the components of the place at which it starts. -/
def below (p : String) : List String := reduce false [] (components p)

/-- What a path that stays below its start leaves is put after what was kept before. -/
theorem reduce_of_stays (rooted : Bool) (kept : List String) (hnames : ∀ c ∈ names, IsName c)
    (hcs : ∀ c ∈ cs, '/' ∉ c.toList) (h : Stays names.length cs) :
    reduce rooted (names ++ kept) cs = kept.reverse ++ reduce false names cs ∧
      ∀ c ∈ reduce false names cs, IsName c := by
  induction cs generalizing names with
  | nil =>
    rw [reduce, reduce, List.reverse_append]
    exact ⟨rfl, fun c hc => hnames c (List.mem_reverse.1 hc)⟩
  | cons c cs ih =>
    rw [List.forall_mem_cons] at hcs
    rw [Stays] at h
    split_ifs at h with hstay hup
    · rw [reduce_cons_of_stay hstay, reduce_cons_of_stay hstay]
      exact ih hnames hcs.2 h
    · subst hup
      cases names with
      | nil => exact absurd h.1 (Nat.lt_irrefl 0)
      | cons k names =>
        rw [List.forall_mem_cons] at hnames
        rw [List.cons_append, reduce_up_of_isName hnames.1, reduce_up_of_isName hnames.1]
        exact ih hnames.2 hcs.2 h.2
    · have hc : IsName c := ⟨leadsDown_iff.2 ⟨hstay, hup⟩, hcs.1⟩
      rw [reduce_cons_of_isName hc, reduce_cons_of_isName hc]
      exact ih (List.forall_mem_cons.2 ⟨hc, hnames⟩) hcs.2 h

/-- Once above its start, a path stays there. -/
theorem head_reduce_ups (kept cs : List String) :
    (reduce false (kept ++ [".."]) cs).head? = some ".." := by
  induction cs generalizing kept with
  | nil => simp [reduce]
  | cons c cs ih =>
    by_cases hstay : c = "" ∨ c = "."
    · rw [reduce_cons_of_stay hstay]
      exact ih kept
    by_cases hup : c = ".."
    · subst hup
      cases kept with
      | nil => simpa [reduce] using ih [".."]
      | cons k kept =>
        by_cases hk : k = ".."
        · simpa [reduce, hk] using ih (".." :: ".." :: kept)
        · simpa [reduce, hk] using ih kept
    · simpa [reduce, hstay, hup] using ih (c :: kept)

theorem head_reduce_of_not_stays (hnames : ∀ c ∈ names, IsName c)
    (hcs : ∀ c ∈ cs, '/' ∉ c.toList) (h : ¬ Stays names.length cs) :
    (reduce false names cs).head? = some ".." := by
  induction cs generalizing names with
  | nil => exact absurd trivial h
  | cons c cs ih =>
    rw [List.forall_mem_cons] at hcs
    rw [Stays] at h
    split_ifs at h with hstay hup
    · rw [reduce_cons_of_stay hstay]
      exact ih hnames hcs.2 h
    · subst hup
      cases names with
      | nil => simpa [reduce] using head_reduce_ups [] cs
      | cons k names =>
        rw [List.forall_mem_cons] at hnames
        rw [reduce_up_of_isName hnames.1]
        exact ih hnames.2 hcs.2 fun hstays => h ⟨Nat.succ_pos _, hstays⟩
    · have hc : IsName c := ⟨leadsDown_iff.2 ⟨hstay, hup⟩, hcs.1⟩
      rw [reduce_cons_of_isName hc]
      exact ih (List.forall_mem_cons.2 ⟨hc, hnames⟩) hcs.2 h

theorem isName_of_mem_below (h : Stays 0 (components p)) (hc : c ∈ below p) : IsName c :=
  (reduce_of_stays false [] (List.forall_mem_nil IsName) (fun _ => not_slash_of_mem_components) h).2
    c hc

/-- Cleaning shows at the first component whether a path climbs above its start. -/
theorem head_below_iff (p : String) : (below p).head? = some ".." ↔ ¬ Stays 0 (components p) := by
  constructor
  · intro hhead hstays
    exact (isName_of_mem_below hstays (List.mem_of_mem_head? hhead)).leadsDown.2.2 rfl
  · exact head_reduce_of_not_stays (List.forall_mem_nil IsName)
      fun _ => not_slash_of_mem_components

/-- A text tells by its beginning whether its first component is `..`. -/
theorem head_components_iff (p : String) :
    (components p).head? = some ".." ↔ p = ".." ∨ Text.startsWith "../" p = true := by
  constructor
  · intro hhead
    obtain ⟨cs, hcs⟩ := List.head?_eq_some_iff.1 hhead
    have hp := intercalate_components p
    rw [hcs] at hp
    rcases eq_or_ne cs [] with rfl | hne
    · exact .inl (hp.symm.trans String.intercalate_singleton)
    · rw [String.intercalate_cons_of_ne_nil hne] at hp
      right
      rw [← hp]
      simp [Text.startsWith]
  · rintro (rfl | hstart)
    · decide
    · rw [Text.startsWith, List.isPrefixOf_iff_prefix] at hstart
      obtain ⟨rest, hrest⟩ := hstart
      have hp : p = ".." ++ "/" ++ String.ofList rest :=
        String.toList_inj.1 (by simp [← hrest])
      rw [hp, components_append]
      rfl

/-- A path is local if it is not empty, has no backslash, is not rooted and never climbs above its
    start. -/
theorem isLocal_iff (p : String) :
    isLocal p = true ↔
      p ≠ "" ∧ '\\' ∉ p.toList ∧ isRooted p = false ∧ Stays 0 (components p) := by
  have hclimbs (hrooted : isRooted p = false) :
      (clean p = ".." ∨ Text.startsWith "../" (clean p) = true) ↔ ¬ Stays 0 (components p) := by
    have hclean : clean p = spell false (below p) := by
      rw [clean_eq_spell, cleanComponents, hrooted, below]
    have hreduced : Reduced false (below p).reverse :=
      Reduced.nil.reduce fun _ => not_slash_of_mem_components
    rw [← head_components_iff, ← head_below_iff, hclean]
    rcases eq_or_ne (below p) [] with hnil | hne
    · rw [hnil]
      decide
    · rw [hreduced.components_spell hne]
      rfl
  simp only [isLocal, isRooted_clean, Bool.and_eq_true, bne_iff_ne, ne_eq, Bool.not_eq_true',
    List.contains_eq_mem, decide_eq_false_iff_not, and_assoc]
  refine and_congr_right fun _ => and_congr_right fun _ => ?_
  rw [← and_assoc, and_comm]
  refine and_congr_right fun hrooted => ?_
  rw [← not_iff_not, ← hclimbs hrooted, not_and_or, not_not, Bool.not_eq_false]

/-- Joined to a root, a path that stays below its start adds to the components of the root. -/
theorem join_eq_spell {root name : String} (hroot : root ≠ "") (h : Stays 0 (components name)) :
    join root name = spell (isRooted root) (cleanComponents root ++ below name) := by
  have hrooted : isRooted (root ++ "/" ++ name) = isRooted root := by
    rw [String.append_assoc, isRooted_append hroot]
  have hsplit := (reduce_of_stays (isRooted root) (cleanComponents root).reverse
    (List.forall_mem_nil IsName) (fun _ => not_slash_of_mem_components) h).1
  rw [List.nil_append, List.reverse_reverse] at hsplit
  rw [join, if_neg hroot, clean_eq_spell, cleanComponents, hrooted, components_append,
    reduce_append]
  exact congrArg _ hsplit

end KernelReach.Path
