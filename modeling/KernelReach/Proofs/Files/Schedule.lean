import KernelReach.Files.Staging
import Mathlib.Data.List.Perm.Basic

/-!
# Schedules of writes

Writes that are made side by side may come to an end in any order, but a write waits for those
before it with the same path (`IsSchedule`). The order in which they do if all take the same time is
such an order (`isSchedule_turns`), and so is that of the entries.
-/

namespace KernelReach.Staging

/-- An order in which writes may come to an end: those with the same path do so one after the
    other. -/
structure IsSchedule (ks order : List Task) : Prop where
  perm : order.Perm ks
  waits : ∀ path, order.filter (·.path == path) = ks.filter (·.path == path)

/-- The state after some writes. -/
def runAll (root : String) (t : FileTree) (order : List Task) : State :=
  order.foldl (State.run root) { tree := t }

variable {ks order : List Task} {seen : List String} {path : String} {entries : List InputEntry}

theorem IsSchedule.refl (ks : List Task) : IsSchedule ks ks := ⟨.refl ks, fun _ => rfl⟩

theorem isSchedule_of_waits
    (h : ∀ path, order.filter (·.path == path) = ks.filter (·.path == path)) :
    IsSchedule ks order := by
  refine ⟨List.perm_iff_count.2 fun k => ?_, h⟩
  have hcount (l : List Task) : (l.filter (·.path == k.path)).count k = l.count k :=
    List.count_filter (by simp)
  rw [← hcount order, h, hcount]

theorem IsSchedule.mem_iff (h : IsSchedule ks order) {k : Task} : k ∈ order ↔ k ∈ ks :=
  h.perm.mem_iff

/-- The writes with some paths first, and then those with the others, are a schedule. -/
theorem isSchedule_split (ks : List Task) (first : String → Bool) :
    IsSchedule ks (ks.filter (first ·.path) ++ ks.filter (!first ·.path)) := by
  refine isSchedule_of_waits fun path => ?_
  rw [List.filter_append, List.filter_filter, List.filter_filter]
  -- All writes with this path are in the same part.
  have hpart (b : Bool) : ks.filter (fun k => k.path == path && first k.path == b) =
      if first path = b then ks.filter (·.path == path) else [] := by
    split_ifs with hb
    · refine List.filter_congr fun k _ => ?_
      by_cases hk : k.path = path <;> simp [hk, hb]
    · simp only [List.filter_eq_nil_iff, Bool.and_eq_true, beq_iff_eq]
      rintro k - ⟨rfl, h⟩
      exact hb h
  have htrue := hpart true
  have hfalse := hpart false
  simp only [beq_true, beq_false] at htrue hfalse
  rw [htrue, hfalse]
  cases first path <;> simp

/-! ### Writes that all take the same time -/

theorem filter_splitReady_of_mem (ks : List Task) (h : path ∈ seen) :
    (splitReady seen ks).1.filter (·.path == path) = [] := by
  induction ks generalizing seen with
  | nil => rfl
  | cons k ks ih =>
    rw [splitReady]
    split_ifs with hk
    · exact ih h
    · have hne : (k.path == path) = false := by
        rw [beq_eq_false_iff_ne]
        rintro rfl
        exact hk h
      rw [List.filter_cons_of_neg (by simp [hne])]
      exact ih (List.mem_cons_of_mem _ h)

/-- To go before those that wait changes no order among writes with the same path. -/
theorem filter_splitReady (seen : List String) (ks : List Task) (path : String) :
    (splitReady seen ks).1.filter (·.path == path) ++
      (splitReady seen ks).2.filter (·.path == path) = ks.filter (·.path == path) := by
  induction ks generalizing seen with
  | nil => rfl
  | cons k ks ih =>
    rw [splitReady]
    split_ifs with hk
    · by_cases hpath : k.path = path
      · have hready := filter_splitReady_of_mem ks (hpath ▸ hk)
        have hrest := ih seen
        rw [hready] at hrest ⊢
        simpa [hpath] using hrest
      · simpa [hpath] using ih seen
    · by_cases hpath : k.path = path
      · simpa [hpath] using ih (k.path :: seen)
      · simpa [hpath] using ih (k.path :: seen)

/-- The order of writes that all take the same time is a schedule. -/
theorem isSchedule_turns (ks : List Task) : IsSchedule ks (turns ks) := by
  refine isSchedule_of_waits fun path => ?_
  fun_induction turns ks with
  | case1 => rfl
  | case2 k ks others ih =>
    have hsplit := filter_splitReady [k.path] (ks.take (workers - 1)) path
    have hrest : (others.1 ++ turns (others.2 ++ ks.drop (workers - 1))).filter (·.path == path) =
        ks.filter (·.path == path) := by
      rw [List.filter_append, ih, List.filter_append, ← List.append_assoc, hsplit,
        ← List.filter_append, List.take_append_drop]
    rw [List.filter_cons, hrest, List.filter_cons]

/-! ### The writes to be made -/

theorem mem_tasks {k : Task} :
    k ∈ tasks entries ↔ entries[k.index]? = some k.entry ∧ k.entry.error = none := by
  obtain ⟨index, e⟩ := k
  simp only [tasks, List.mem_filterMap, Prod.exists, List.mem_zipIdx_iff_getElem?]
  constructor
  · rintro ⟨e', index', hmem, hsome⟩
    split_ifs at hsome with herror
    cases hsome
    exact ⟨hmem, by simpa using herror⟩
  · rintro ⟨hmem, herror⟩
    exact ⟨e, index, hmem, by simp [herror]⟩

/-- No two writes are for the entry in the same place. -/
theorem nodup_index (entries : List InputEntry) : ((tasks entries).map Task.index).Nodup := by
  have hindices : (entries.zipIdx.map Prod.snd).Nodup := by
    rw [List.zipIdx_map_snd]
    exact List.nodup_range'
  rw [List.Nodup, List.pairwise_map] at hindices ⊢
  rw [tasks, List.pairwise_filterMap]
  refine hindices.imp fun {a b} hne j hj k hk => ?_
  dsimp only at hj hk
  split_ifs at hj hk
  cases hj
  cases hk
  exact hne

end KernelReach.Staging
