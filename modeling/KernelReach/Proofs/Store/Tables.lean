import KernelReach.Store.Database
import Mathlib.Data.List.Nodup
import Mathlib.Data.Prod.Basic

/-!
# Tables of rows

What adding rows to a table does and what is found in it, for any table whose rows belong to runs.

* Adding a list of rows works exactly if no key is there twice (`addAll_eq_ok`). For a run that has
  no rows yet, the rows that are keyed by their places always fit (`addAll_placed`), and those that
  are keyed by something else fit if the list does not repeat it (`addAll_keyed`).
* The rows of a run are found in the order in which they were added, however the table was sorted
  before (`ofRun_eq`).
-/

namespace KernelReach

theorem bind_eq_ok {ε α β : Type} {x : Except ε α} {f : α → Except ε β} {b : β} :
    (x >>= f) = .ok b ↔ ∃ a, x = .ok a ∧ f a = .ok b := by
  cases x with
  | error e => exact ⟨nofun, nofun⟩
  | ok a => exact ⟨fun h => ⟨a, rfl, h⟩, fun ⟨_, ha, h⟩ => Except.ok.inj ha ▸ h⟩

@[simp] theorem StoreError.during_eq_ok {α : Type} {what : String} {x : Except StoreError α}
    {a : α} : during what x = .ok a ↔ x = .ok a := by
  cases x with
  | error e => exact ⟨nofun, nofun⟩
  | ok b => exact Iff.rfl

/-! ### Rows of a run -/

namespace RunRow

variable {α : Type} (run : String)

/-- The rows of a run with some values, in places from `start` on. -/
def list (run : String) (start : Nat) (xs : List α) : List (RunRow α) :=
  (xs.zipIdx start).map fun (x, seq) => ⟨run, seq, x⟩

@[simp] theorem list_nil (start : Nat) : list run start ([] : List α) = [] := rfl

@[simp] theorem list_cons (start : Nat) (x : α) (xs : List α) :
    list run start (x :: xs) = ⟨run, start, x⟩ :: list run (start + 1) xs := rfl

theorem map_value_list (start : Nat) (xs : List α) : (list run start xs).map value = xs := by
  rw [list, List.map_map]
  exact List.zipIdx_map_fst start xs

theorem map_seq_list (start : Nat) (xs : List α) :
    (list run start xs).map seq = List.range' start xs.length := by
  rw [list, List.map_map]
  exact List.zipIdx_map_snd start xs

@[simp] theorem length_list (start : Nat) (xs : List α) :
    (list run start xs).length = xs.length := by
  rw [list, List.length_map, List.length_zipIdx]

theorem run_of_mem_list {run : String} {start : Nat} {xs : List α} {row : RunRow α}
    (hrow : row ∈ list run start xs) : row.run = run := by
  obtain ⟨_, -, rfl⟩ := List.mem_map.1 hrow
  rfl

/-- The rows of a list are in the order of their places. -/
theorem pairwise_list (start : Nat) (xs : List α) :
    (list run start xs).Pairwise fun a b => a.seq ≤ b.seq := by
  have hseq : ((list run start xs).map seq).Pairwise (· ≤ ·) := by
    rw [map_seq_list]
    exact List.pairwise_le_range'
  exact List.pairwise_map.1 hseq

/-- No two rows of a list are in one place. -/
theorem eq_of_seq_eq {run : String} {start : Nat} {xs : List α} {a b : RunRow α}
    (ha : a ∈ list run start xs) (hb : b ∈ list run start xs) (hseq : a.seq = b.seq) : a = b := by
  refine List.inj_on_of_nodup_map ?_ ha hb hseq
  rw [map_seq_list]
  exact List.nodup_range'

end RunRow

namespace Database

variable {α : Type} {run : String}

/-! ### Adding rows -/

theorem addRow_eq_ok {β κ : Type} [DecidableEq κ] {table : Table} {key : β → κ} {row : β}
    {rows : List β} {after : Option (List β)} :
    addRow table key row (some rows) = .ok after ↔
      key row ∉ rows.map key ∧ after = some (rows ++ [row]) := by
  have hany : (rows.any fun r => decide (key r = key row)) = true ↔ key row ∈ rows.map key := by
    simp
  simp only [addRow, rowsOf, bind, Except.bind]
  split_ifs with hold
  · exact ⟨nofun, fun hnew => absurd (hany.1 hold) hnew.1⟩
  · rw [Except.ok.injEq, eq_comm]
    exact (and_iff_right fun hmem => hold (hany.2 hmem)).symm

/-- A row is added and the table put in its place. -/
theorem addRow_bind_eq_ok {β κ : Type} [DecidableEq κ] {table : Table} {key : β → κ} {row : β}
    {rows : List β} {after : Database} (put : Option (List β) → Database) :
    (do pure (put (← addRow table key row (some rows)))) = Except.ok after ↔
      key row ∉ rows.map key ∧ after = put (some (rows ++ [row])) := by
  rw [bind_eq_ok]
  constructor
  · rintro ⟨_, hrows, hput⟩
    obtain ⟨hnew, rfl⟩ := addRow_eq_ok.1 hrows
    exact ⟨hnew, (Except.ok.inj hput).symm⟩
  · rintro ⟨hnew, rfl⟩
    exact ⟨_, addRow_eq_ok.2 ⟨hnew, rfl⟩, rfl⟩

section

variable {κ : Type} {add : Nat → α → Database → Except StoreError Database} {key : RunRow α → κ}
  {put : List (RunRow α) → Database}

/-- A step that adds one row of a run to the table that `put` fills, if its key is new. -/
def Adds (run : String) (key : RunRow α → κ) (put : List (RunRow α) → Database)
    (add : Nat → α → Database → Except StoreError Database) : Prop :=
  ∀ seq x rows db, add seq x (put rows) = .ok db ↔
    key ⟨run, seq, x⟩ ∉ rows.map key ∧ db = put (rows ++ [⟨run, seq, x⟩])

/-- Steps that put the table with one more row in its place are of this kind. -/
theorem adds_of_addRow [DecidableEq κ] {table : Table} {what : α → String}
    (put : Option (List (RunRow α)) → Database)
    (hadd : ∀ seq x rows, add seq x (put (some rows)) = StoreError.during (what x)
      (do pure (put (← addRow table key ⟨run, seq, x⟩ (some rows))))) :
    Adds run key (fun rows => put (some rows)) add := by
  intro seq x rows after
  rw [hadd, StoreError.during_eq_ok, addRow_bind_eq_ok]

/-- Rows are added one by one, so that each key is new among the rows before and the new ones. -/
theorem addAll_eq_ok (hadd : Adds run key put add) (xs : List α) (rows : List (RunRow α))
    (db : Database) :
    addAll add xs (put rows) = .ok db ↔
      (((RunRow.list run 0 xs).map key).Nodup ∧
        ∀ row ∈ RunRow.list run 0 xs, key row ∉ rows.map key) ∧
      db = put (rows ++ RunRow.list run 0 xs) := by
  rw [addAll]
  -- When the first row was added, the places of the others go on from the next one.
  generalize 0 = start
  induction xs generalizing start rows with
  | nil => simp [pure, Except.pure, eq_comm]
  | cons x xs ih =>
    simp only [List.zipIdx_cons, List.foldlM_cons, bind_eq_ok, RunRow.list_cons, List.map_cons,
      List.nodup_cons, List.forall_mem_cons]
    constructor
    · rintro ⟨next, hnext, hrest⟩
      obtain ⟨hnew, rfl⟩ := (hadd _ _ _ _).1 hnext
      obtain ⟨⟨hnodup, hfresh⟩, rfl⟩ := (ih _ _).1 hrest
      refine ⟨⟨⟨?_, hnodup⟩, hnew, fun row hrow hold => hfresh row hrow ?_⟩, by simp⟩
      · intro hx
        obtain ⟨row, hrow, heq⟩ := List.mem_map.1 hx
        exact hfresh row hrow (by simp [heq])
      · simp only [List.map_append, List.mem_append, hold, true_or]
    · rintro ⟨⟨⟨hx, hnodup⟩, hnew, hfresh⟩, rfl⟩
      refine ⟨_, (hadd _ _ _ _).2 ⟨hnew, rfl⟩, (ih _ _).2 ⟨⟨hnodup, fun row hrow => ?_⟩, by simp⟩⟩
      simp only [List.map_append, List.map_cons, List.map_nil, List.mem_append, List.mem_singleton,
        not_or]
      exact ⟨hfresh row hrow, fun heq => hx (heq ▸ List.mem_map_of_mem hrow)⟩

/-- A table without rows of a run. -/
def IsFree (run : String) (rows : List (RunRow α)) : Prop := ∀ row ∈ rows, row.run ≠ run

/-- Keys that name the run do not meet those of other runs. -/
theorem IsFree.key_notMem {rows : List (RunRow α)} (hfree : IsFree run rows) (part : RunRow α → κ)
    {row : RunRow α} (hrow : row.run = run) :
    (row.run, part row) ∉ rows.map fun r => (r.run, part r) := by
  intro hmem
  obtain ⟨other, hother, heq⟩ := List.mem_map.1 hmem
  exact hfree other hother ((Prod.mk.inj heq).1.trans hrow)

theorem addAll_placed (hadd : Adds run (fun r => (r.run, r.seq)) put add) {rows : List (RunRow α)}
    (hfree : IsFree run rows) (xs : List α) (db : Database) :
    addAll add xs (put rows) = .ok db ↔ db = put (rows ++ RunRow.list run 0 xs) := by
  have hnodup : ((RunRow.list run 0 xs).map fun r => (r.run, r.seq)).Nodup := by
    refine List.Nodup.of_map Prod.snd ?_
    rw [List.map_map]
    exact (RunRow.map_seq_list run 0 xs).symm ▸ List.nodup_range'
  rw [addAll_eq_ok hadd]
  exact and_iff_right ⟨hnodup, fun row hrow =>
    hfree.key_notMem RunRow.seq (RunRow.run_of_mem_list hrow)⟩

theorem addAll_keyed (name : α → κ) (hadd : Adds run (fun r => (r.run, name r.value)) put add)
    {rows : List (RunRow α)} (hfree : IsFree run rows) (xs : List α) (db : Database) :
    addAll add xs (put rows) = .ok db ↔
      (xs.map name).Nodup ∧ db = put (rows ++ RunRow.list run 0 xs) := by
  have hkeys : ((RunRow.list run 0 xs).map fun r => (r.run, name r.value)) =
      (xs.map name).map (Prod.mk run) := by
    conv_rhs => rw [← RunRow.map_value_list run 0 xs]
    rw [List.map_map, List.map_map]
    refine List.map_congr_left fun row hrow => ?_
    rw [RunRow.run_of_mem_list hrow]
    rfl
  have hnodup : ((RunRow.list run 0 xs).map fun r => (r.run, name r.value)).Nodup ↔
      (xs.map name).Nodup := by
    rw [hkeys]
    exact List.nodup_map_iff (Prod.mk_right_injective run)
  rw [addAll_eq_ok hadd, hnodup]
  exact and_congr_left fun _ => and_iff_left fun row hrow =>
    hfree.key_notMem (fun r => name r.value) (RunRow.run_of_mem_list hrow)

end

/-! ### Finding rows -/

theorem pairwise_mergeSort_seq (rows : List (RunRow α)) :
    (rows.mergeSort fun a b => a.seq ≤ b.seq).Pairwise fun a b => a.seq ≤ b.seq := by
  have htrans : ∀ a b c : RunRow α, decide (a.seq ≤ b.seq) = true → decide (b.seq ≤ c.seq) = true →
      decide (a.seq ≤ c.seq) = true := by
    simp only [decide_eq_true_eq]
    omega
  have htotal : ∀ a b : RunRow α, (decide (a.seq ≤ b.seq) || decide (b.seq ≤ a.seq)) = true := by
    simp only [Bool.or_eq_true, decide_eq_true_eq]
    omega
  exact (List.pairwise_mergeSort htrans htotal rows).imp of_decide_eq_true

/-- The rows of a run are given in the order of their places, whatever the order of the table is. -/
theorem ofRun_eq {rows : List (RunRow α)} {xs : List α}
    (hrows : (rows.filter fun r => r.run = run).Perm (RunRow.list run 0 xs)) :
    ofRun run rows = xs := by
  have hperm :=
    (List.mergeSort_perm (rows.filter fun r => r.run = run) fun a b => a.seq ≤ b.seq).trans hrows
  have hlist : ((rows.filter fun r => r.run = run).mergeSort fun a b => a.seq ≤ b.seq) =
      RunRow.list run 0 xs := by
    -- Both lists are in the order of the places, and no place is taken twice.
    refine hperm.eq_of_pairwise (fun a b ha hb hab hba => ?_) (pairwise_mergeSort_seq _)
      (RunRow.pairwise_list run 0 xs)
    exact RunRow.eq_of_seq_eq (hperm.mem_iff.1 ha) hb (Nat.le_antisymm hab hba)
  rw [ofRun, hlist, RunRow.map_value_list]

theorem ofRunBy_eq {rows : List (RunRow α)} {xs : List α} (key : α → String)
    (hrows : (rows.filter fun r => r.run = run) = RunRow.list run 0 xs) :
    ofRunBy key run rows = xs := by
  refine ofRun_eq ?_
  rw [← hrows]
  exact (List.mergeSort_perm rows _).filter _

end Database

end KernelReach
