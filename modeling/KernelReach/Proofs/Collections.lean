import KernelReach.Reach.OrderedSet
import KernelReach.Reach.Queue
import Mathlib.Data.List.Basic
import Mathlib.Order.Lattice
import Mathlib.Tactic.Tauto

/-!
# Ordered sets and queues as lists

Ordered sets and queues are reasoned about through the lists of their elements. Before that, what is
needed of lists themselves: a list that is picked out of a list of lists, a list that is split at an
element, the last element that meets a condition, and the order of lists with parts of one length.
-/

namespace KernelReach

section

variable {α β : Type} {l : List α} {f : α → List β} {p : β → Bool} {a : α}

theorem filter_flatMap_eq_nil (h : ∀ b ∈ l, ∀ d ∈ f b, ¬p d) : (l.flatMap f).filter p = [] := by
  refine List.filter_eq_nil_iff.2 fun d hd => ?_
  obtain ⟨b, hb, hd⟩ := List.mem_flatMap.1 hd
  exact h b hb d hd

/-- What is picked out is what one element of the list contributes. -/
theorem filter_flatMap_eq (hl : l.Nodup) (ha : a ∈ l) (hp : ∀ d ∈ f a, p d)
    (h : ∀ b ∈ l, b ≠ a → ∀ d ∈ f b, ¬p d) : (l.flatMap f).filter p = f a := by
  obtain ⟨before, after, rfl⟩ := List.append_of_mem ha
  obtain ⟨-, hafter, hbefore⟩ := List.nodup_append.1 hl
  have hfirst : (before.flatMap f).filter p = [] := filter_flatMap_eq_nil fun b hb =>
    h b (List.mem_append_left _ hb) fun heq => hbefore b hb a List.mem_cons_self heq
  have hlast : (after.flatMap f).filter p = [] := filter_flatMap_eq_nil fun b hb =>
    h b (List.mem_append_right _ (List.mem_cons_of_mem a hb)) fun heq =>
      (List.nodup_cons.1 hafter).1 (heq ▸ hb)
  rw [List.flatMap_append, List.flatMap_cons, List.filter_append, List.filter_append, hfirst, hlast,
    List.filter_eq_self.2 hp, List.nil_append, List.append_nil]

end

/-- The first `x` splits a list. -/
theorem append_cons_inj {α : Type} {x : α} {l l' r r' : List α} (hl : x ∉ l) (hl' : x ∉ l')
    (h : l ++ x :: r = l' ++ x :: r') : l = l' ∧ r = r' := by
  induction l generalizing l' with
  | nil =>
    cases l' with
    | nil => exact ⟨rfl, (List.cons.inj h).2⟩
    | cons a l' =>
      obtain ⟨rfl, -⟩ := List.cons.inj h
      exact absurd List.mem_cons_self hl'
  | cons a l ih =>
    cases l' with
    | nil =>
      obtain ⟨rfl, -⟩ := List.cons.inj h
      exact absurd List.mem_cons_self hl
    | cons a' l' =>
      obtain ⟨rfl, htail⟩ := List.cons.inj h
      obtain ⟨rfl, rfl⟩ := ih (fun hx => hl (List.mem_cons_of_mem a hx))
        (fun hx => hl' (List.mem_cons_of_mem a hx)) htail
      exact ⟨rfl, rfl⟩

/-- The last `x` splits a list. -/
theorem append_cons_inj_right {α : Type} {x : α} {l l' r r' : List α} (hr : x ∉ r) (hr' : x ∉ r')
    (h : l ++ x :: r = l' ++ x :: r') : l = l' ∧ r = r' := by
  have hrev := congrArg List.reverse h
  rw [List.reverse_append, List.reverse_append, List.reverse_cons, List.reverse_cons,
    List.append_assoc, List.append_assoc] at hrev
  obtain ⟨hr, hl⟩ := append_cons_inj (by simpa using hr) (by simpa using hr') hrev
  exact ⟨List.reverse_inj.1 hl, List.reverse_inj.1 hr⟩

/-- What a list is split at is in none of the parts. -/
theorem not_mem_of_mem_splitOn {α : Type} [BEq α] [LawfulBEq α] (sep : α) {xs part : List α}
    (h : part ∈ xs.splitOn sep) : sep ∉ part := by
  induction xs generalizing part with
  | nil =>
    rw [List.splitOn_nil, List.mem_singleton] at h
    rw [h]
    exact List.not_mem_nil
  | cons x xs ih =>
    rw [List.splitOn_cons_eq_if_modifyHead] at h
    split at h
    · rcases List.mem_cons.1 h with rfl | h
      · exact List.not_mem_nil
      · exact ih h
    · next hx =>
      -- The element goes to the first part.
      obtain ⟨first, rest, hsplit⟩ := List.exists_cons_of_ne_nil (List.splitOn_ne_nil sep xs)
      rw [hsplit] at h ih
      rcases List.mem_cons.1 h with rfl | h
      · have hne : sep ≠ x := fun h => hx (beq_iff_eq.2 h.symm)
        exact List.not_mem_cons_of_ne_of_not_mem hne (ih List.mem_cons_self)
      · exact ih (List.mem_cons_of_mem _ h)

/-- What is last under a weaker condition and meets the stronger one is last under it, too. -/
theorem getLast?_filter_of_imp {α : Type} {p q : α → Bool} {xs : List α} {a : α}
    (h : (xs.filter p).getLast? = some a) (hq : q a = true) (himp : ∀ b, q b = true → p b = true) :
    (xs.filter q).getLast? = some a := by
  obtain ⟨ys, hys⟩ := List.getLast?_eq_some_iff.1 h
  have hfilter : xs.filter q = (xs.filter p).filter q := by
    rw [List.filter_filter]
    refine List.filter_congr fun b _ => ?_
    cases hb : q b with
    | false => rfl
    | true => simp [himp b hb]
  rw [hfilter, hys, List.filter_append, List.filter_singleton, hq]
  exact List.getLast?_concat

/-- Of two lists that start with parts of the same length, these parts are compared first. -/
theorem append_lt_append_iff {α : Type} [LinearOrder α] {a a' b b' : List α}
    (h : a.length = a'.length) : a ++ b < a' ++ b' ↔ a < a' ∨ a = a' ∧ b < b' := by
  induction a generalizing a' with
  | nil =>
    rw [List.eq_nil_of_length_eq_zero h.symm]
    simp
  | cons x a ih =>
    match a', h with
    | y :: a', h =>
      simp only [List.cons_append, List.cons_lt_cons_iff, ih (Nat.succ.inj h), List.cons.injEq]
      tauto

/-- An element that is there already does not get another place. -/
theorem eraseDups_concat {α : Type} [DecidableEq α] (as : List α) (a : α) :
    (as ++ [a]).eraseDups = if a ∈ as then as.eraseDups else as.eraseDups ++ [a] := by
  rw [List.eraseDups_append]
  by_cases ha : a ∈ as
  · simp [List.removeAll, ha]
  · simp [List.removeAll, ha, List.eraseDups_cons]

namespace OrderedSet

variable {α : Type} [DecidableEq α] [Hashable α] {s : OrderedSet α} {a b : α}

theorem nodup_toList (s : OrderedSet α) : s.toList.Nodup := s.nodup

theorem contains_iff_mem_toList : s.contains a = true ↔ a ∈ s.toList :=
  contains_iff.trans Array.mem_toList_iff.symm

@[simp]
theorem toList_empty : (∅ : OrderedSet α).toList = [] := rfl

theorem toList_insert_of_mem (h : a ∈ s.toList) : (s.insert a).toList = s.toList := by
  rw [insert, dif_pos (contains_iff_mem_toList.2 h)]

theorem toList_insert_of_not_mem (h : a ∉ s.toList) : (s.insert a).toList = s.toList ++ [a] := by
  rw [insert, dif_neg fun hc => h (contains_iff_mem_toList.1 hc)]
  exact Array.toList_push

@[simp]
theorem mem_toList_insert : b ∈ (s.insert a).toList ↔ b ∈ s.toList ∨ b = a := by
  by_cases h : a ∈ s.toList
  · rw [toList_insert_of_mem h]
    exact ⟨.inl, fun hb => hb.elim id fun e => e ▸ h⟩
  · rw [toList_insert_of_not_mem h, List.mem_append, List.mem_singleton]

@[simp]
theorem mem_toList_insertAll {as : List α} :
    b ∈ (s.insertAll as).toList ↔ b ∈ s.toList ∨ b ∈ as := by
  induction as generalizing s with
  | nil => simp [insertAll]
  | cons a as ih =>
    rw [insertAll, List.foldl_cons, ← insertAll, ih, mem_toList_insert, List.mem_cons, or_assoc]

theorem mem_toList_ofList {as : List α} : b ∈ (ofList as).toList ↔ b ∈ as := by
  rw [ofList, mem_toList_insertAll, toList_empty]
  simp

theorem toList_insert_eraseDups {as : List α} (h : s.toList = as.eraseDups) (a : α) :
    (s.insert a).toList = (as ++ [a]).eraseDups := by
  have hmem : a ∈ s.toList ↔ a ∈ as := by rw [h, List.mem_eraseDups]
  rw [eraseDups_concat]
  by_cases ha : a ∈ as
  · rw [if_pos ha, toList_insert_of_mem (hmem.2 ha), h]
  · rw [if_neg ha, toList_insert_of_not_mem (mt hmem.1 ha), h]

theorem toList_ofList (as : List α) : (ofList as).toList = as.eraseDups := by
  suffices H : ∀ (as done : List α) (s : OrderedSet α), s.toList = done.eraseDups →
      (s.insertAll as).toList = (done ++ as).eraseDups from H as [] ∅ rfl
  intro as
  induction as with
  | nil =>
    intro done s h
    rw [List.append_nil]
    exact h
  | cons a as ih =>
    intro done s h
    have := ih (done ++ [a]) (s.insert a) (toList_insert_eraseDups h a)
    rwa [List.append_assoc] at this

end OrderedSet

namespace Queue

variable {α : Type}

@[simp]
theorem toList_empty : (∅ : Queue α).toList = [] := rfl

@[simp]
theorem toList_pushAll (q : Queue α) (as : List α) : (q.pushAll as).toList = q.toList ++ as := by
  induction as generalizing q with
  | nil => simp [pushAll]
  | cons a as ih =>
    rw [pushAll, List.foldl_cons, ← pushAll, ih, toList_push, List.append_assoc]
    rfl

end Queue

end KernelReach
