import KernelReach.Proofs.Store.Holding
import KernelReach.Proofs.Text.Coercion
import KernelReach.Store.Basic
import Mathlib.Data.List.Forall2
import Mathlib.Data.List.Induction

/-!
# Histories of a store

A store is saved into and emptied, one action after the other. Along with the store a tally is kept
of the reports whose saving has worked since the store was last emptied. The tally is all that there
is to know of the store (`Tally.Holds`): each action keeps it so (`Holds.step`), hence every history
does (`holds_tally`), and `tally_contract` reads off what the store answers. A report comes back as
it was saved, except that inputs which are not text are coerced (`save_coerces_inputs`).
-/

namespace KernelReach

open Time (Timestamp)

/-- A report that names its run and its start, in a year that is written with four digits. -/
structure Report.IsDated (r : Report) : Prop where
  id : r.run.id ≠ ""
  start : r.run.startedAt.isZero = false
  year : r.run.startedAt.HasPlainYear

/-- A report that can be saved beside others: its run is new, and no key is repeated in it. -/
def Report.Fits (kept : List Report) (r : Report) : Prop :=
  r.run.id ∉ kept.map (·.run.id) ∧ r.IsKeyed

instance (kept : List Report) (r : Report) : Decidable (r.Fits kept) :=
  inferInstanceAs (Decidable (_ ∧ _))

/-! ### Inputs -/

/-- A report whose inputs are texts. -/
def Report.HasTextInputs (r : Report) : Prop :=
  ∀ bytes ∈ r.run.inputs.getD [], ∃ s, Text.toBytes s = bytes

/-- A store gives the inputs of a report back as texts. -/
theorem Report.coerces_inputs (r : Report) :
    Option.Rel (List.Forall₂ Text.Coerces) r.run.inputs r.asStored.run.inputs := by
  simp only [asStored]
  cases r.run.inputs with
  | none => exact .none
  | some inputs =>
    refine .some (List.forall₂_map_right_iff.2 (List.forall₂_same.2 fun bytes _ => ?_))
    exact Text.coerces_iff.2 rfl

/-- Inputs stay as they are exactly if they are texts. -/
theorem Report.inputs_asStored_eq_iff (r : Report) :
    r.asStored.run.inputs = r.run.inputs ↔ r.HasTextInputs := by
  simp only [asStored, HasTextInputs]
  cases r.run.inputs with
  | none => simp
  | some inputs =>
    have hmap : inputs.map (fun bytes => Text.toBytes (Text.ofBytes bytes)) = inputs ↔
        ∀ bytes ∈ inputs, Text.toBytes (Text.ofBytes bytes) = bytes := by
      conv_lhs => rhs; rw [← List.map_id inputs]
      exact List.map_inj_left
    simp only [Option.map_some, Option.some_inj, Option.getD_some, hmap,
      Text.toBytes_ofBytes_eq_iff]

namespace Store

/-- What is done to a store. -/
inductive Action
  | save (fresh : String) (now : Timestamp) (r : Report)
  | clear

/-- Whether all reports that are saved are dated. -/
def Action.IsDated : Action → Prop
  | save _ _ r => r.IsDated
  | clear => True

/-- A store, and the reports that were saved in it since it was last emptied. -/
structure Tally where
  store : Store
  kept : List Report

/-- What an action makes of a store. A report counts as saved as it was completed, and only if the
    store did not refuse it. -/
def Tally.step (t : Tally) : Action → Tally
  | .save fresh now r =>
    match t.store.save fresh now false r with
    | (.ok _, s) => ⟨s, t.kept ++ [complete fresh now r]⟩
    | (.error _, s) => ⟨s, t.kept⟩
  | .clear =>
    match t.store.clear with
    | (.ok _, s) => ⟨s, []⟩
    | (.error _, s) => ⟨s, t.kept⟩

/-- What a list of actions makes of a store. -/
def tally (s : Store) (actions : List Action) : Tally := actions.foldl Tally.step ⟨s, []⟩

theorem tally_concat (s : Store) (actions : List Action) (a : Action) :
    s.tally (actions ++ [a]) = (s.tally actions).step a := by
  rw [tally, List.foldl_append]
  rfl

/-- A store that is open and has all its tables, without a row in any of them. -/
structure IsFresh (s : Store) : Prop where
  isOpen : s.isOpen = true
  database : s.database = {}

theorem databaseAt_eq_blank {w : Workspace} (hnone : w.databases = ∅) {l : Location} {db : Database}
    (hdb : databaseAt w l = .ok db) : db = .blank := by
  simp only [databaseAt, hnone] at hdb
  split at hdb
  · cases hdb
  · exact (Except.ok.inj hdb).symm
  · cases hdb
  · simpa using hdb.symm

theorem makeTables_blank {isReadOnly : Bool} {maxPages : Option Nat} {db : Database}
    (hdb : makeTables isReadOnly maxPages .blank = .ok db) : db = {} := by
  rw [makeTables, if_neg (by decide)] at hdb
  split_ifs at hdb
  exact (Except.ok.inj hdb).symm

/-- A store is fresh when it is opened and there was no database before. -/
theorem isFresh_of_openIn {dir : String} {w w' : Workspace} {s : Store}
    (hopen : openIn dir w = .ok (s, w')) (hnone : w.databases = ∅) : s.IsFresh := by
  simp only [openIn, bind_eq_ok, StoreError.during_eq_ok] at hopen
  obtain ⟨files, -, _, ⟨place, -, found, hfound, effect, -, hplace⟩, database, htables, hs⟩ := hopen
  obtain rfl := Except.ok.inj hplace
  have hblank : found = .blank := by
    cases place with
    | none => exact (Except.ok.inj hfound).symm
    | some l => exact databaseAt_eq_blank (w := ⟨files, w.databases⟩) hnone hfound
  rw [hblank] at htables
  obtain ⟨rfl, -⟩ := Prod.mk.inj (Except.ok.inj hs)
  exact ⟨rfl, makeTables_blank htables⟩

/-! ### One action -/

namespace Tally

/-- The database of an open store holds the reports of the tally, one for each run. -/
structure Holds (t : Tally) : Prop where
  isOpen : t.store.isOpen = true
  database : t.store.database = .holding t.kept
  nodup : (t.kept.map (·.run.id)).Nodup

variable {t : Tally} {fresh : String} {now : Timestamp} {r : Report}

theorem Holds.ask_eq {α : Type} (ht : t.Holds) (question : Database → Except StoreError α) :
    t.store.ask question = question (.holding t.kept) := by
  rw [ask, ht.isOpen, ht.database]
  rfl

/-- A report that fits is saved. -/
theorem Holds.save_eq (ht : t.Holds) (hfits : (complete fresh now r).Fits t.kept) :
    t.store.save fresh now false r = (.ok (complete fresh now r).run.id,
      { t.store with database := .holding (t.kept ++ [complete fresh now r]) }) := by
  have hsave := Database.save_holding_eq_ok.2 ⟨hfits, rfl⟩
  simp only [Store.save, change, ht.ask_eq, Bool.false_eq_true, if_false, hsave]

/-- A report that does not fit is refused, and the store stays as it was. -/
theorem Holds.exists_save_eq (ht : t.Holds) (hfits : ¬(complete fresh now r).Fits t.kept) :
    ∃ e, t.store.save fresh now false r = (.error e, t.store) := by
  cases hsave : (Database.holding t.kept).save (complete fresh now r) with
  | ok after => exact absurd (Database.save_holding_eq_ok.1 hsave).1 hfits
  | error e =>
    refine ⟨e, ?_⟩
    simp only [Store.save, change, ht.ask_eq, Bool.false_eq_true, if_false, hsave]

theorem Holds.clear_eq (ht : t.Holds) :
    t.store.clear = (.ok (), { t.store with database := .holding [] }) := by
  simp only [Store.clear, ht.isOpen, ht.database, if_true, Database.clear_holding]

theorem Holds.step_save (ht : t.Holds) (hfits : (complete fresh now r).Fits t.kept) :
    t.step (.save fresh now r) =
      ⟨{ t.store with database := .holding (t.kept ++ [complete fresh now r]) },
        t.kept ++ [complete fresh now r]⟩ := by
  rw [step, ht.save_eq hfits]

theorem Holds.step_save_of_not (ht : t.Holds) (hfits : ¬(complete fresh now r).Fits t.kept) :
    t.step (.save fresh now r) = t := by
  obtain ⟨e, hsave⟩ := ht.exists_save_eq hfits
  rw [step, hsave]

theorem Holds.step_clear (ht : t.Holds) :
    t.step .clear = ⟨{ t.store with database := .holding [] }, []⟩ := by
  rw [step, ht.clear_eq]

/-- An action keeps the store and the tally in step. -/
theorem Holds.step (ht : t.Holds) (a : Action) : (t.step a).Holds := by
  cases a with
  | save fresh now r =>
    by_cases hfits : (complete fresh now r).Fits t.kept
    · rw [ht.step_save hfits]
      refine ⟨ht.isOpen, rfl, ?_⟩
      simpa [List.nodup_append, ht.nodup] using fun r' hr' heq =>
        hfits.1 (List.mem_map.2 ⟨r', hr', heq⟩)
    · rwa [ht.step_save_of_not hfits]
  | clear =>
    rw [ht.step_clear]
    exact ⟨ht.isOpen, rfl, List.nodup_nil⟩

end Tally

/-! ### Histories -/

theorem holds_tally {s : Store} (hs : s.IsFresh) (actions : List Action) :
    (s.tally actions).Holds := by
  induction actions using List.reverseRecOn with
  | nil => exact ⟨hs.isOpen, hs.database, List.nodup_nil⟩
  | append_singleton actions a ih =>
    rw [tally_concat]
    exact ih.step a

/-- Reports that name their runs and their starts are saved as they are. -/
theorem complete_of_isDated {r : Report} (hr : r.IsDated) (fresh : String) (now : Timestamp) :
    complete fresh now r = r := by
  simp only [complete, hr.id, hr.start, if_false, Bool.false_eq_true]

theorem Tally.Holds.isDated_step {t : Tally} (ht : t.Holds) (hkept : ∀ r ∈ t.kept, r.IsDated)
    {a : Action} (ha : a.IsDated) : ∀ r ∈ (t.step a).kept, r.IsDated := by
  cases a with
  | save fresh now r =>
    have hcomplete : complete fresh now r = r := complete_of_isDated ha fresh now
    by_cases hfits : (complete fresh now r).Fits t.kept
    · rw [ht.step_save hfits, hcomplete]
      intro r' hr'
      rcases List.mem_append.1 hr' with hr' | hr'
      · exact hkept r' hr'
      · rwa [List.mem_singleton.1 hr']
    · rwa [ht.step_save_of_not hfits]
  | clear =>
    rw [ht.step_clear]
    exact fun _ hr => absurd hr List.not_mem_nil

theorem isDated_tally {s : Store} (hs : s.IsFresh) {actions : List Action}
    (hactions : ∀ a ∈ actions, a.IsDated) : ∀ r ∈ (s.tally actions).kept, r.IsDated := by
  induction actions using List.reverseRecOn with
  | nil => exact fun _ hr => absurd hr List.not_mem_nil
  | append_singleton actions a ih =>
    rw [tally_concat]
    exact (holds_tally hs actions).isDated_step
      (ih fun b hb => hactions b (List.mem_append_left _ hb))
      (hactions a (List.mem_append_right _ List.mem_cons_self))

/-- What a store answers after any history of saving and emptying. With the reports that were saved
    since the store was last emptied,

    * saving fails exactly if the run is one of theirs or a key is repeated, and then nothing
      changes; otherwise the report is the next of them;
    * emptying works, and then there are none;
    * there is a report on a run exactly if there is one among them, and it is that one, with the
      bytes of its inputs that are not text replaced;
    * the counts are those over all of them. -/
theorem tally_contract {s : Store} (hs : s.IsFresh) {actions : List Action}
    (hactions : ∀ a ∈ actions, a.IsDated) :
    let t := s.tally actions
    (∀ fresh now (r : Report), r.IsDated →
      (r.Fits t.kept → ∃ after, t.store.save fresh now false r = (.ok r.run.id, after) ∧
        s.tally (actions ++ [.save fresh now r]) = ⟨after, t.kept ++ [r]⟩) ∧
      (¬r.Fits t.kept → ∃ e, t.store.save fresh now false r = (.error e, t.store))) ∧
    (∃ after, t.store.clear = (.ok (), after) ∧ s.tally (actions ++ [.clear]) = ⟨after, []⟩) ∧
    (∀ id, (∃ r, t.store.ask (·.reportOf id) = .ok r) ↔ id ∈ t.kept.map (·.run.id)) ∧
    (∀ r ∈ t.kept, t.store.ask (·.reportOf r.run.id) = .ok r.asStored ∧
      Option.Rel (List.Forall₂ Text.Coerces) r.run.inputs r.asStored.run.inputs ∧
      (r.asStored.run.inputs = r.run.inputs ↔ r.HasTextInputs)) ∧
    t.store.stats = .ok (Database.statsOf t.kept) := by
  intro t
  have ht : t.Holds := holds_tally hs actions
  have hkept : ∀ r ∈ t.kept, r.IsDated := isDated_tally hs hactions
  have hreport : ∀ r ∈ t.kept, t.store.ask (·.reportOf r.run.id) = .ok r.asStored := fun r hr =>
    (ht.ask_eq _).trans (Database.reportOf_holding ht.nodup hr (hkept r hr).year)
  refine ⟨fun fresh now r hr => ?_, ?_, fun id => ?_,
    fun r hr => ⟨hreport r hr, r.coerces_inputs, r.inputs_asStored_eq_iff⟩, ?_⟩
  · have hcomplete : complete fresh now r = r := complete_of_isDated hr fresh now
    constructor
    · intro hfits
      rw [← hcomplete] at hfits
      refine ⟨_, hcomplete ▸ ht.save_eq hfits, ?_⟩
      rw [tally_concat, ht.step_save hfits, hcomplete]
    · intro hfits
      rw [← hcomplete] at hfits
      exact ht.exists_save_eq hfits
  · exact ⟨_, ht.clear_eq, by rw [tally_concat, ht.step_clear]⟩
  · constructor
    · rintro ⟨r, hr⟩
      by_contra hid
      rw [ht.ask_eq, Database.reportOf_holding_of_notMem hid] at hr
      cases hr
    · intro hid
      obtain ⟨r, hr, rfl⟩ := List.mem_map.1 hid
      exact ⟨_, hreport r hr⟩
  · rw [Store.stats, ht.isOpen, ht.database]
    exact Database.stats_holding fun r hr => (hkept r hr).year

namespace Sample

theorem seven_lt_nanosPerSecond : 7 < Time.nanosPerSecond := by decide

/-- A moment of the year 2025, two hours east of universal time. -/
def start : Timestamp := ⟨63900000000, ⟨7, seven_lt_nanosPerSecond⟩, 120⟩

/-- The report on a run that found one kernel. Its first input is the text `<b>`, and the second
    one, the letter `a` and another byte, is not a text. -/
def report (id : String) : Report where
  run := { id, startedAt := start, inputs := some [[0x3c, 0x62, 0x3e], [0x61, 0xff]] }
  kernels := some ["K"]
  diagnostics := some []

theorem isDated_report {id : String} (hid : id ≠ "") : (report id).IsDated :=
  ⟨hid, rfl, (by cbv : start.HasPlainYear)⟩

/-- A store without reports. -/
def store : Store := { dir := "reports", path := "reports/report.db" }

/-- A run is saved twice, then the store is emptied and another run saved. -/
def actions : List Action :=
  [.save "" .zero (report "a"), .save "" .zero (report "a"), .clear, .save "" .zero (report "b")]

theorem isDated_actions : ∀ a ∈ actions, a.IsDated := by
  simp only [actions, List.forall_mem_cons, List.not_mem_nil, false_imp_iff, implies_true, and_true,
    Action.IsDated, true_and]
  exact ⟨isDated_report (by decide), isDated_report (by decide), isDated_report (by decide)⟩

theorem kept_actions : (store.tally actions).kept = [report "b"] := rfl

theorem inputs_asStored_report (id : String) :
    (report id).asStored.run.inputs = some [[0x3c, 0x62, 0x3e], [0x61, 0xef, 0xbf, 0xbd]] := by
  have htext : Text.Coerces [0x3c, 0x62, 0x3e] [0x3c, 0x62, 0x3e] :=
    .char '<' (.char 'b' (.char '>' .nil))
  have hstray : Text.Coerces [0x61, 0xff] [0x61, 0xef, 0xbf, 0xbd] :=
    .char 'a' (.stray (Text.charAt?_eq_none_iff.1 rfl) .nil)
  simp only [report, Report.asStored, Option.map_some, List.map_cons, List.map_nil,
    Text.coerces_iff.1 htext, Text.coerces_iff.1 hstray]

end Sample

/-- Of the runs that were saved, the one is left that was saved last. Its first input is as it was
    and its second one is coerced. -/
theorem tally_contract_sample :
    let t := Sample.store.tally Sample.actions
    t.kept = [Sample.report "b"] ∧
      t.store.ask (·.reportOf (Sample.report "b").run.id) = .ok (Sample.report "b").asStored ∧
      (Sample.report "b").asStored.run.inputs =
        some [[0x3c, 0x62, 0x3e], [0x61, 0xef, 0xbf, 0xbd]] ∧
      ¬(Sample.report "b").HasTextInputs ∧
      t.store.stats = .ok (Database.statsOf [Sample.report "b"]) ∧
      ∃ e, t.store.save "" .zero false (Sample.report "b") = (.error e, t.store) := by
  obtain ⟨hsave, -, -, hreport, hstats⟩ := tally_contract (s := Sample.store) ⟨rfl, rfl⟩
    Sample.isDated_actions
  rw [Sample.kept_actions] at hsave hreport hstats
  obtain ⟨hstored, -, htexts⟩ := hreport _ List.mem_cons_self
  have hinputs := Sample.inputs_asStored_report "b"
  refine ⟨Sample.kept_actions, hstored, hinputs, fun h => ?_, hstats, ?_⟩
  · exact absurd (hinputs.symm.trans (htexts.2 h)) (by decide)
  · refine (hsave "" .zero _ (Sample.isDated_report (by decide))).2 fun hfits => ?_
    exact hfits.1 List.mem_cons_self

/-- An input that is not a text comes back as another one. -/
theorem save_coerces_inputs :
    let t := Sample.store.tally [.save "" .zero (Sample.report "a")]
    t.kept = [Sample.report "a"] ∧
      (Sample.report "a").run.inputs = some [[0x3c, 0x62, 0x3e], [0x61, 0xff]] ∧
      ∃ r, t.store.ask (·.reportOf "a") = .ok r ∧
        r.run.inputs = some [[0x3c, 0x62, 0x3e], [0x61, 0xef, 0xbf, 0xbd]] := by
  intro t
  have ht : t.Holds := holds_tally ⟨rfl, rfl⟩ _
  refine ⟨rfl, rfl, _, ?_, Sample.inputs_asStored_report "a"⟩
  rw [ht.ask_eq]
  exact Database.reportOf_holding ht.nodup (List.mem_singleton.2 rfl)
    (Sample.isDated_report (by decide)).year

end Store

end KernelReach
