import KernelReach.Proofs.Collections
import Mathlib.Algebra.BigOperators.Group.List.Lemmas
import Mathlib.Algebra.GroupWithZero.Nat
import Mathlib.Data.List.Induction

/-!
# Grouping by a key

Items that come one after the other are put into groups by a key: the first item with a key starts a
group at the end, and every later one with that key makes the group grow (`Grouping.add`). In the
end there is one group for every key, in the order of the first items, and each is made from all
items with its key, in order (`Grouping.groups_foldl_add`).
-/

namespace KernelReach

theorem nodup_eraseDups {α : Type} [DecidableEq α] (l : List α) : l.eraseDups.Nodup := by
  induction l using List.reverseRecOn with
  | nil => exact List.nodup_nil
  | append_singleton l a ih =>
    rw [eraseDups_concat]
    split
    · exact ih
    · rename_i ha
      exact List.nodup_append.2 ⟨ih, by simp, by grind [List.mem_eraseDups]⟩

/-- How items of type `ε` are put into groups of type `γ` by a key. -/
structure Grouping (ε γ κ : Type) where
  /-- The key of an item. -/
  keyOf : ε → κ
  /-- The key of a group. -/
  key : γ → κ
  /-- The group of one item. -/
  start : ε → γ
  /-- The group with one more item. -/
  grow : γ → ε → γ
  key_start : ∀ e, key (start e) = keyOf e
  key_grow : ∀ g e, key (grow g e) = key g

namespace Grouping

variable {ε γ κ : Type} [DecidableEq κ] (G : Grouping ε γ κ) {items : List ε} {groups : List γ}
  {g : γ} {e : ε}

/-- Adds an item to the group of its key, or as a group of its own at the end. -/
def add : List γ → ε → List γ
  | [], e => [G.start e]
  | g :: gs, e => if G.key g = G.keyOf e then G.grow g e :: gs else g :: add gs e

/-- The group of an item and those that follow it. -/
def group (first : ε) (rest : List ε) : γ := rest.foldl G.grow (G.start first)

theorem map_key_add (groups : List γ) (e : ε) : (G.add groups e).map G.key =
    if G.keyOf e ∈ groups.map G.key then groups.map G.key else groups.map G.key ++ [G.keyOf e] := by
  induction groups with
  | nil => simp [add, G.key_start]
  | cons g gs ih =>
    by_cases h : G.key g = G.keyOf e
    · simp [add, h, G.key_grow]
    · rw [add, if_neg h, List.map_cons, ih, List.map_cons]
      by_cases hgs : G.keyOf e ∈ gs.map G.key <;> simp [hgs, Ne.symm h]

/-- Adding an item touches the group of its key only. -/
theorem mem_add (hkeys : (groups.map G.key).Nodup) : g ∈ G.add groups e ↔
    g ∈ groups ∧ G.key g ≠ G.keyOf e ∨ (∃ g₀ ∈ groups, G.key g₀ = G.keyOf e ∧ g = G.grow g₀ e) ∨
      G.keyOf e ∉ groups.map G.key ∧ g = G.start e := by
  induction groups with
  | nil => simp [add]
  | cons g₁ gs ih =>
    obtain ⟨hg₁, hgs⟩ := List.nodup_cons.1 hkeys
    by_cases h : G.key g₁ = G.keyOf e
    · have hother : ∀ g ∈ gs, G.key g ≠ G.keyOf e := fun g hg heq =>
        hg₁ (List.mem_map.2 ⟨g, hg, heq.trans h.symm⟩)
      rw [add, if_pos h]
      grind
    · rw [add, if_neg h, List.mem_cons, ih hgs]
      grind

/-- The groups of the items: one for every key, in the order of the first items, each made from all
    items with its key. -/
structure Groups (items : List ε) (groups : List γ) : Prop where
  keys : groups.map G.key = (items.map G.keyOf).eraseDups
  members : ∀ g ∈ groups, ∃ first rest,
    items.filter (fun e => G.keyOf e = G.key g) = first :: rest ∧ g = G.group first rest

namespace Groups

variable {G}

theorem nodup_keys (h : G.Groups items groups) : (groups.map G.key).Nodup :=
  h.keys ▸ nodup_eraseDups _

theorem mem_keys (h : G.Groups items groups) {k : κ} :
    k ∈ groups.map G.key ↔ k ∈ items.map G.keyOf := by
  rw [h.keys, List.mem_eraseDups]

/-- A group is known by its key. -/
theorem mem_iff (h : G.Groups items groups) : g ∈ groups ↔ ∃ first rest,
    items.filter (fun e => G.keyOf e = G.key g) = first :: rest ∧ g = G.group first rest := by
  refine ⟨h.members g, fun ⟨first, rest, hitems, hg⟩ => ?_⟩
  have hfirst : first ∈ items.filter (fun e => G.keyOf e = G.key g) :=
    hitems ▸ List.mem_cons_self
  have hkey : G.key g ∈ groups.map G.key := by
    rw [h.mem_keys]
    obtain ⟨hfirst, hkey⟩ := List.mem_filter.1 hfirst
    exact List.mem_map.2 ⟨first, hfirst, of_decide_eq_true hkey⟩
  obtain ⟨g', hg', hkey'⟩ := List.mem_map.1 hkey
  obtain ⟨first', rest', hitems', rfl⟩ := h.members g' hg'
  rw [hkey', hitems] at hitems'
  obtain ⟨rfl, rfl⟩ := List.cons.inj hitems'
  exact hg ▸ hg'

theorem add (h : G.Groups items groups) (e : ε) : G.Groups (items ++ [e]) (G.add groups e) := by
  have hsome : G.keyOf e ∈ groups.map G.key ↔ G.keyOf e ∈ items.map G.keyOf := h.mem_keys
  refine ⟨?_, fun g hg => ?_⟩
  · rw [map_key_add, List.map_append, List.map_singleton, eraseDups_concat, h.keys]
    simp only [List.mem_eraseDups]
  · rw [List.filter_append]
    obtain ⟨hg, hne⟩ | ⟨g₀, hg₀, heq, rfl⟩ | ⟨hnew, rfl⟩ := (G.mem_add h.nodup_keys).1 hg
    · obtain ⟨first, rest, hitems, hgroup⟩ := h.members g hg
      exact ⟨first, rest, by simp [hitems, Ne.symm hne], hgroup⟩
    · obtain ⟨first, rest, hitems, hgroup⟩ := h.members g₀ hg₀
      refine ⟨first, rest ++ [e], by simp [G.key_grow, hitems, ← heq], ?_⟩
      rw [group, List.foldl_append, ← group, ← hgroup]
      rfl
    · have hnone : items.filter (fun d => G.keyOf d = G.keyOf e) = [] := by
        refine List.filter_eq_nil_iff.2 fun d hd heq => hnew ?_
        exact hsome.2 (List.mem_map.2 ⟨d, hd, by simpa using heq⟩)
      exact ⟨e, [], by simp [G.key_start, hnone], rfl⟩

/-- Counted group by group, all items are counted. -/
theorem sum_length_filter (h : G.Groups items groups) :
    (groups.map fun g => (items.filter fun e => G.keyOf e = G.key g).length).sum =
      items.length := by
  have hperm : (items.map G.keyOf).eraseDups.Perm (items.map G.keyOf).dedup := by
    refine (List.perm_ext_iff_of_nodup (nodup_eraseDups _) (List.nodup_dedup _)).2 fun k => ?_
    rw [List.mem_eraseDups, List.mem_dedup]
  have hcount : (groups.map fun g => (items.filter fun e => G.keyOf e = G.key g).length) =
      (groups.map G.key).map fun k => @List.count κ instBEqOfDecidableEq k (items.map G.keyOf) := by
    rw [List.map_map]
    refine List.map_congr_left fun g _ => ?_
    rw [Function.comp_apply, List.count, List.countP_map, ← List.countP_eq_length_filter]
    rfl
  rw [hcount, h.keys, (hperm.map _).sum_eq, List.sum_map_count_dedup_eq_length, List.length_map]

end Groups

theorem groups_foldl_add (items : List ε) : G.Groups items (items.foldl G.add []) := by
  induction items using List.reverseRecOn with
  | nil => exact ⟨rfl, by simp⟩
  | append_singleton items e ih =>
    rw [List.foldl_append]
    exact ih.add e

end Grouping

end KernelReach
