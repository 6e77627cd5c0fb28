import KernelReach.Proofs.Store.History
import KernelReach.Proofs.Time.Order

/-!
# The order of runs

Runs are listed by the texts of their starts. These texts are in the order of the instants, so the
list is chronological: the latest run comes first, and runs that started at the same instant are in
the order of their names (`Store.listRuns_chronological`). A shorter list is the start of the whole
one, and the latest run is its head.
-/

namespace KernelReach

open Time (Timestamp)

/-- The run of the first report is listed before that of the second one: it started later, or at the
    same instant and has the smaller name. -/
def Report.IsListedBefore (r r' : Report) : Prop :=
  r'.run.startedAt.instant < r.run.startedAt.instant ∨
    r.run.startedAt.instant = r'.run.startedAt.instant ∧ r.run.id < r'.run.id

instance (r r' : Report) : Decidable (r.IsListedBefore r') :=
  inferInstanceAs (Decidable (_ ∨ _ ∧ _))

theorem Report.IsListedBefore.asymm {r r' : Report} (h : r.IsListedBefore r') :
    ¬ r'.IsListedBefore r := by
  rcases h with h | ⟨heq, hid⟩
  · rintro (h' | ⟨heq', -⟩)
    · exact lt_asymm h h'
    · exact h.ne heq'
  · rintro (h' | ⟨-, hid'⟩)
    · exact h'.ne heq
    · exact lt_asymm hid hid'

/-! ### Sorted rows -/

namespace SummaryRow

theorem listedBefore_iff {a b : SummaryRow} : a.listedBefore b = true ↔
    b.startedAt < a.startedAt ∨ a.startedAt = b.startedAt ∧ a.id ≤ b.id := by
  unfold listedBefore
  split_ifs with hstart
  · rw [hstart, decide_eq_true_eq, or_iff_right (lt_irrefl _), and_iff_right rfl]
  · rw [decide_eq_true_eq, or_iff_left fun h => hstart h.1]

theorem listedBefore_trans (a b c : SummaryRow) (hab : a.listedBefore b = true)
    (hbc : b.listedBefore c = true) : a.listedBefore c = true := by
  rw [listedBefore_iff] at hab hbc ⊢
  rcases hab with hab | ⟨hab, hid⟩
  · rcases hbc with hbc | ⟨hbc, -⟩
    · exact .inl (hbc.trans hab)
    · exact .inl (hbc ▸ hab)
  · rcases hbc with hbc | ⟨hbc, hid'⟩
    · exact .inl (hab ▸ hbc)
    · exact .inr ⟨hab.trans hbc, hid.trans hid'⟩

theorem listedBefore_total (a b : SummaryRow) : (a.listedBefore b || b.listedBefore a) = true := by
  rw [Bool.or_eq_true, listedBefore_iff, listedBefore_iff]
  rcases lt_trichotomy a.startedAt b.startedAt with h | h | h
  · exact .inr (.inl h)
  · rcases le_total a.id b.id with hid | hid
    · exact .inl (.inr ⟨h, hid⟩)
    · exact .inr (.inr ⟨h.symm, hid⟩)
  · exact .inl (.inl h)

end SummaryRow

namespace Database

variable {kept : List Report}

/-- Whether the row of one report is listed before that of another one. -/
def rowBefore (r r' : Report) : Bool :=
  (SummaryRow.ofSummary r.run).listedBefore (.ofSummary r'.run)

/-- The reports in the order of the list of runs. -/
def chronology (kept : List Report) : List Report := kept.mergeSort rowBefore

theorem perm_chronology (kept : List Report) : (chronology kept).Perm kept :=
  List.mergeSort_perm kept _

/-- The order of the texts is that of the instants, and no two runs have the same name. -/
theorem pairwise_chronology (hids : (kept.map (·.run.id)).Nodup)
    (hyears : ∀ r ∈ kept, r.run.startedAt.HasPlainYear) :
    (chronology kept).Pairwise Report.IsListedBefore := by
  have htrans : ∀ r₁ r₂ r₃, rowBefore r₁ r₂ = true → rowBefore r₂ r₃ = true →
      rowBefore r₁ r₃ = true := fun _ _ _ => SummaryRow.listedBefore_trans _ _ _
  have htotal : ∀ r₁ r₂, (rowBefore r₁ r₂ || rowBefore r₂ r₁) = true := fun _ _ =>
    SummaryRow.listedBefore_total _ _
  have hsorted : (chronology kept).Pairwise fun r r' => rowBefore r r' = true :=
    List.pairwise_mergeSort htrans htotal kept
  have hnames : (chronology kept).Pairwise fun r r' => r.run.id ≠ r'.run.id :=
    List.pairwise_map.1 (((perm_chronology kept).map _).nodup_iff.2 hids)
  refine (hsorted.and hnames).imp_of_mem fun {r r'} hr hr' hboth => ?_
  obtain ⟨hbefore, hne⟩ := hboth
  have hyear := hyears r ((perm_chronology kept).mem_iff.1 hr)
  have hyear' := hyears r' ((perm_chronology kept).mem_iff.1 hr')
  rw [rowBefore, SummaryRow.listedBefore_iff] at hbefore
  simp only [SummaryRow.ofSummary] at hbefore
  rw [Timestamp.storedText_lt_iff hyear' hyear, Timestamp.storedText_eq_iff hyear hyear'] at hbefore
  exact hbefore.imp_right fun hsame => ⟨hsame.1, lt_of_le_of_ne hsame.2 hne⟩

theorem mapM_toSummary (hyears : ∀ r ∈ kept, r.run.startedAt.HasPlainYear) :
    (kept.map fun r => SummaryRow.ofSummary r.run).mapM SummaryRow.toSummary =
      .ok (kept.map (·.asStored.run)) := by
  induction kept with
  | nil => rfl
  | cons r kept ih =>
    obtain ⟨hyear, hrest⟩ := List.forall_mem_cons.1 hyears
    rw [List.map_cons, List.mapM_cons, toSummary_ofSummary hyear, ih hrest]
    rfl

/-- The runs are listed in their order, up to the limit if it is positive. -/
theorem listRuns_holding (hyears : ∀ r ∈ kept, r.run.startedAt.HasPlainYear) (limit : Int) :
    (holding kept).listRuns limit = .ok ((if 0 < limit then (chronology kept).take limit.toNat
      else chronology kept).map (·.asStored.run)) := by
  have hrows : (kept.map fun r => SummaryRow.ofSummary r.run).mergeSort SummaryRow.listedBefore =
      (chronology kept).map fun r => .ofSummary r.run := by
    rw [chronology, List.map_mergeSort]
    exact fun _ _ _ _ => rfl
  have hlisted : ∀ listed : List Report, listed ⊆ chronology kept →
      (listed.map fun r => SummaryRow.ofSummary r.run).mapM SummaryRow.toSummary =
        .ok (listed.map (·.asStored.run)) := fun listed hsub =>
    mapM_toSummary fun r hr => hyears r ((perm_chronology kept).mem_iff.1 (hsub hr))
  simp only [listRuns, holding, ofContents, rowsOf, bind, Except.bind, hrows]
  split_ifs
  · rw [← List.map_take]
    exact hlisted _ (List.take_subset _ _)
  · exact hlisted _ (List.Subset.refl _)

theorem latestRun_holding (hyears : ∀ r ∈ kept, r.run.startedAt.HasPlainYear) :
    (holding kept).latestRun =
      match (chronology kept).head? with
      | some r => .ok r.asStored.run
      | none => .error .noRun := by
  rw [latestRun, listRuns_holding hyears]
  cases chronology kept with
  | nil => rfl
  | cons r listed => rfl

end Database

namespace Store

/-- The list of the runs that were saved in a store, all in years that are written with four digits.
    The texts under which their starts are stored are in the order of the instants. So all runs are
    listed by their instants, the latest first, and those of one instant by their names; a limited
    list is the start of that list, and the latest run its head. -/
theorem listRuns_chronological {s : Store} (hs : s.IsFresh) {actions : List Action}
    (hyears : ∀ r ∈ (s.tally actions).kept, r.run.startedAt.HasPlainYear) :
    let t := s.tally actions
    (∀ r ∈ t.kept, ∀ r' ∈ t.kept,
      let start := r.run.startedAt
      let start' := r'.run.startedAt
      (start.storedText < start'.storedText ↔ start.instant < start'.instant) ∧
        (start.storedText = start'.storedText ↔ start.instant = start'.instant)) ∧
    ∃ listed : List Report, listed.Perm t.kept ∧ listed.Pairwise Report.IsListedBefore ∧
      (∀ limit ≤ 0, t.store.ask (·.listRuns limit) = .ok (listed.map (·.asStored.run))) ∧
      (∀ limit > 0, t.store.ask (·.listRuns limit) =
        .ok ((listed.map (·.asStored.run)).take limit.toNat)) ∧
      t.store.ask (·.latestRun) =
        match (listed.map (·.asStored.run)).head? with
        | some run => .ok run
        | none => .error .noRun := by
  intro t
  have ht : t.Holds := holds_tally hs actions
  refine ⟨fun r hr r' hr' => ?_, Database.chronology t.kept, Database.perm_chronology t.kept,
    Database.pairwise_chronology ht.nodup hyears, fun limit hlimit => ?_,
    fun limit hlimit => ?_, ?_⟩
  · exact ⟨Timestamp.storedText_lt_iff (hyears r hr) (hyears r' hr'),
      Timestamp.storedText_eq_iff (hyears r hr) (hyears r' hr')⟩
  · rw [ht.ask_eq, Database.listRuns_holding hyears, if_neg hlimit.not_gt]
  · rw [ht.ask_eq, Database.listRuns_holding hyears, if_pos hlimit, List.map_take]
  · rw [ht.ask_eq, Database.latestRun_holding hyears, List.head?_map]
    cases (Database.chronology t.kept).head? with
    | none => rfl
    | some r => rfl

namespace Sample

/-- Three reports. The first two runs started at the same instant, told by different clocks, and the
    third one a nanosecond later. -/
def reports : List Report :=
  [report "b", { report "a" with run := { id := "a", startedAt := { start with offset := -330 } } },
    { report "c" with run := { id := "c", startedAt := { start with nanos := Time.nanosOf 8 } } }]

theorem kept_reports : (store.tally (reports.map (.save "" .zero))).kept = reports := rfl

theorem hasPlainYear_reports : ∀ r ∈ reports, r.run.startedAt.HasPlainYear := by
  simp only [reports, List.forall_mem_cons, List.not_mem_nil, false_imp_iff, implies_true, and_true]
  exact ⟨by cbv, by cbv, by cbv⟩

end Sample

/-- The runs of the three reports are listed from the last to the first. -/
theorem listRuns_chronological_sample :
    let t := Sample.store.tally (Sample.reports.map (.save "" .zero))
    t.kept = Sample.reports ∧
      t.store.ask (·.listRuns 0) = .ok (Sample.reports.reverse.map (·.asStored.run)) ∧
      t.store.ask (·.listRuns 2) = .ok ((Sample.reports.reverse.map (·.asStored.run)).take 2) := by
  obtain ⟨-, listed, hperm, hsorted, hall, hsome, -⟩ :=
    listRuns_chronological (s := Sample.store) ⟨rfl, rfl⟩
      (Sample.kept_reports ▸ Sample.hasPlainYear_reports)
  have hreverse : Sample.reports.reverse.Pairwise Report.IsListedBefore := by decide
  have hlisted : listed = Sample.reports.reverse := by
    refine (hperm.trans (List.reverse_perm _).symm).eq_of_pairwise ?_ hsorted hreverse
    exact fun _ _ _ _ h h' => absurd h' h.asymm
  rw [hlisted] at hall hsome
  exact ⟨Sample.kept_reports, hall 0 le_rfl, hsome 2 (by decide)⟩

end Store

end KernelReach
