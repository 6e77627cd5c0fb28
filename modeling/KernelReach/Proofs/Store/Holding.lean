import KernelReach.Proofs.Collections
import KernelReach.Proofs.Json.Texts
import KernelReach.Proofs.Store.Tables
import KernelReach.Proofs.Time.Stored

/-!
# Databases that hold reports

`Database.holding kept` is the database that holds the reports of a list and nothing else. Saving a
report adds it at the end of the list, exactly if its run is new and no key is repeated
(`save_holding_eq_ok`), and everything that is asked of the database is answered from the list: the
report on a run (`reportOf_holding`) and the counts (`stats_holding`).
-/

namespace KernelReach

open Time (Timestamp)

namespace Report

/-- A report in which no kernel, no class and no method is there twice. -/
def IsKeyed (r : Report) : Prop :=
  (r.kernels.getD []).Nodup ∧ ((r.classes.getD []).map ClassRecord.name).Nodup ∧
    ((r.methods.getD []).map MethodRecord.signature).Nodup

instance (r : Report) : Decidable r.IsKeyed := inferInstanceAs (Decidable (_ ∧ _ ∧ _))

/-- The report as a store gives it back: the start in universal time, the inputs as texts, and no
    list that is empty. -/
def asStored (r : Report) : Report where
  run := { r.run with
    startedAt := r.run.startedAt.utc
    inputs := r.run.inputs.map (List.map fun bytes => Text.toBytes (Text.ofBytes bytes)) }
  kernels := presentRows (r.kernels.getD [])
  entryPoints := presentRows (r.entryPoints.getD [])
  classes := presentRows (r.classes.getD [])
  methods := presentRows (r.methods.getD [])
  edges := presentRows (r.edges.getD [])
  diagnostics := presentRows (r.diagnostics.getD [])

end Report

namespace Database

variable {α : Type} {kept : List Report} {r : Report}

/-! ### The rows of reports -/

/-- The rows of a list of all reports. -/
def allRows (part : Report → List α) (kept : List Report) : List (RunRow α) :=
  kept.flatMap fun r => RunRow.list r.run.id 0 (part r)

theorem allRows_concat (part : Report → List α) (kept : List Report) (r : Report) :
    allRows part (kept ++ [r]) = allRows part kept ++ RunRow.list r.run.id 0 (part r) := by
  simp [allRows]

theorem length_allRows (part : Report → List α) (kept : List Report) :
    (allRows part kept).length = (kept.map fun r => (part r).length).sum := by
  simp [allRows, List.length_flatMap]

theorem isFree_allRows {id : String} (hid : id ∉ kept.map (·.run.id)) (part : Report → List α) :
    IsFree id (allRows part kept) := by
  intro row hrow heq
  obtain ⟨r, hr, hmem⟩ := List.mem_flatMap.1 hrow
  rw [RunRow.run_of_mem_list hmem] at heq
  exact hid (heq ▸ List.mem_map_of_mem hr)

/-- Two reports on one run are one report. -/
theorem eq_of_id_eq (hids : (kept.map (·.run.id)).Nodup) {r' : Report} (hr : r ∈ kept)
    (hr' : r' ∈ kept) (hid : r'.run.id = r.run.id) : r' = r :=
  List.inj_on_of_nodup_map hids hr' hr hid

/-- The rows of a run are those of the one report on it. -/
theorem filter_allRows (hids : (kept.map (·.run.id)).Nodup) (hr : r ∈ kept)
    (part : Report → List α) :
    ((allRows part kept).filter fun row => row.run = r.run.id) =
      RunRow.list r.run.id 0 (part r) := by
  refine filter_flatMap_eq (List.Nodup.of_map _ hids) hr ?_ ?_
  · intro row hrow
    exact decide_eq_true (RunRow.run_of_mem_list hrow)
  · intro r' hr' hne row hrow hrun
    have hid : r'.run.id = r.run.id :=
      (RunRow.run_of_mem_list hrow).symm.trans (of_decide_eq_true hrun)
    exact hne (eq_of_id_eq hids hr hr' hid)

/-! ### The database -/

/-- What the metadata say of the run that was saved last. -/
def lastSaved : Option Report → List (String × String)
  | none => []
  | some r => [(lastRunId, r.run.id), (lastRunAt, r.run.startedAt.storedText)]

/-- The reports whose rows are in the tables. While a report is saved, these differ from table to
    table. -/
abbrev Contents := Table → List Report

/-- The contents after the rows of a report were added to a table. -/
def Contents.add (f : Contents) (t : Table) (r : Report) : Contents :=
  Function.update f t (f t ++ [r])

/-- The database with the rows of reports in its tables. -/
def ofContents (f : Contents) : Database where
  runs := some ((f .runs).map fun r => .ofSummary r.run)
  classes := some (allRows (·.classes.getD []) (f .classes))
  methods := some (allRows (·.methods.getD []) (f .methods))
  callEdges := some (allRows (·.edges.getD []) (f .callEdges))
  entryPoints := some (allRows (·.entryPoints.getD []) (f .entryPoints))
  kernels := some (allRows (·.kernels.getD []) (f .kernels))
  diagnostics := some (allRows (·.diagnostics.getD []) (f .diagnostics))
  metadata := some (lastSaved (f .metadata).getLast?)

/-- The database that holds reports, in the order in which they were saved. -/
def holding (kept : List Report) : Database := ofContents fun _ => kept

theorem clear_holding (kept : List Report) : (holding kept).clear = (.ok (), holding []) := rfl

/-! ### Saving -/

section

variable {f : Contents} {after : Database}

theorem addRun_ofContents :
    (ofContents f).addRun r.run = .ok after ↔
      r.run.id ∉ (f .runs).map (·.run.id) ∧ after = ofContents (f.add .runs r) := by
  have hids : ((f .runs).map fun r => SummaryRow.ofSummary r.run).map SummaryRow.id =
      (f .runs).map (·.run.id) := by
    rw [List.map_map]
    rfl
  refine Iff.trans (addRow_bind_eq_ok fun runs => { ofContents f with runs }) ?_
  rw [hids, ← List.map_singleton (f := fun r : Report => SummaryRow.ofSummary r.run),
    ← List.map_append]
  exact Iff.rfl

/-- The rows of a report are added to a table in which the rows are keyed by something. -/
theorem addAll_ofContents_keyed {κ : Type} [DecidableEq κ] {table : Table} {what : α → String}
    {add : Nat → α → Database → Except StoreError Database} (part : Report → List α) (name : α → κ)
    (put : Option (List (RunRow α)) → Database)
    (hput : ∀ kept, put (some (allRows part kept)) = ofContents (Function.update f table kept))
    (hadd : ∀ seq x rows, add seq x (put (some rows)) = StoreError.during (what x) (do
      pure (put (← addRow table (fun r => (r.run, name r.value)) ⟨r.run.id, seq, x⟩ (some rows)))))
    (hnew : r.run.id ∉ (f table).map (·.run.id)) :
    addAll add (part r) (ofContents f) = .ok after ↔
      ((part r).map name).Nodup ∧ after = ofContents (f.add table r) := by
  have hall := addAll_keyed name (adds_of_addRow put hadd) (isFree_allRows hnew part) (part r) after
  rwa [← allRows_concat, hput, hput, Function.update_eq_self] at hall

/-- The rows of a report are added to a table in which the rows are keyed by their places. -/
theorem addAll_ofContents_placed {table : Table} {what : α → String}
    {add : Nat → α → Database → Except StoreError Database} (part : Report → List α)
    (put : Option (List (RunRow α)) → Database)
    (hput : ∀ kept, put (some (allRows part kept)) = ofContents (Function.update f table kept))
    (hadd : ∀ seq x rows, add seq x (put (some rows)) = StoreError.during (what x) (do
      pure (put (← addRow table (fun r => (r.run, r.seq)) ⟨r.run.id, seq, x⟩ (some rows)))))
    (hnew : r.run.id ∉ (f table).map (·.run.id)) :
    addAll add (part r) (ofContents f) = .ok after ↔ after = ofContents (f.add table r) := by
  have hall := addAll_placed (adds_of_addRow put hadd) (isFree_allRows hnew part) (part r) after
  rwa [← allRows_concat, hput, hput, Function.update_eq_self] at hall

theorem addAll_kernels (hnew : r.run.id ∉ (f .kernels).map (·.run.id)) :
    addAll (fun seq k db => StoreError.during ("inserting kernel " ++ k)
        (db.addKernel r.run.id seq k)) (r.kernels.getD []) (ofContents f) = .ok after ↔
      (r.kernels.getD []).Nodup ∧ after = ofContents (f.add .kernels r) := by
  refine Iff.trans (addAll_ofContents_keyed (·.kernels.getD []) (fun k => k)
    (fun kernels => { ofContents f with kernels }) (fun _ => rfl) (fun _ _ _ => rfl) hnew) ?_
  rw [List.map_id']

theorem addAll_entryPoints (hnew : r.run.id ∉ (f .entryPoints).map (·.run.id)) :
    addAll (fun seq e db => StoreError.during ("inserting entrypoint " ++ e.method)
        (db.addEntryPoint r.run.id seq e)) (r.entryPoints.getD []) (ofContents f) = .ok after ↔
      after = ofContents (f.add .entryPoints r) :=
  addAll_ofContents_placed (·.entryPoints.getD [])
    (fun entryPoints => { ofContents f with entryPoints }) (fun _ => rfl) (fun _ _ _ => rfl) hnew

theorem addAll_classes (hnew : r.run.id ∉ (f .classes).map (·.run.id)) :
    addAll (fun seq c db => StoreError.during ("inserting class " ++ c.name)
        (db.addClass r.run.id seq c)) (r.classes.getD []) (ofContents f) = .ok after ↔
      ((r.classes.getD []).map ClassRecord.name).Nodup ∧ after = ofContents (f.add .classes r) :=
  addAll_ofContents_keyed (·.classes.getD []) ClassRecord.name
    (fun classes => { ofContents f with classes }) (fun _ => rfl) (fun _ _ _ => rfl) hnew

theorem addAll_methods (hnew : r.run.id ∉ (f .methods).map (·.run.id)) :
    addAll (fun seq m db => StoreError.during ("inserting method " ++ m.signature)
        (db.addMethod r.run.id seq m)) (r.methods.getD []) (ofContents f) = .ok after ↔
      ((r.methods.getD []).map MethodRecord.signature).Nodup ∧
        after = ofContents (f.add .methods r) :=
  addAll_ofContents_keyed (·.methods.getD []) MethodRecord.signature
    (fun methods => { ofContents f with methods }) (fun _ => rfl) (fun _ _ _ => rfl) hnew

theorem addAll_edges (hnew : r.run.id ∉ (f .callEdges).map (·.run.id)) :
    addAll (fun seq e db => StoreError.during "inserting call edge"
        (db.addEdge r.run.id seq e)) (r.edges.getD []) (ofContents f) = .ok after ↔
      after = ofContents (f.add .callEdges r) :=
  addAll_ofContents_placed (·.edges.getD [])
    (fun callEdges => { ofContents f with callEdges }) (fun _ => rfl) (fun _ _ _ => rfl) hnew

theorem addAll_diagnostics (hnew : r.run.id ∉ (f .diagnostics).map (·.run.id)) :
    addAll (fun seq d db => StoreError.during "inserting diagnostic"
        (db.addDiagnostic r.run.id seq d)) (r.diagnostics.getD []) (ofContents f) = .ok after ↔
      after = ofContents (f.add .diagnostics r) :=
  addAll_ofContents_placed (·.diagnostics.getD [])
    (fun diagnostics => { ofContents f with diagnostics }) (fun _ => rfl) (fun _ _ _ => rfl) hnew

/-- The metadata of the run that was saved last replace those of the one before. -/
theorem setMetadata_ofContents (f : Contents) (r : Report) :
    ((ofContents f).setMetadata lastRunId r.run.id >>=
      setMetadata lastRunAt r.run.startedAt.storedText) = .ok (ofContents (f.add .metadata r)) := by
  have hreplace : ∀ old, ((lastSaved old).filter (fun row => row.1 ≠ lastRunId) ++
        [(lastRunId, r.run.id)]).filter (fun row => row.1 ≠ lastRunAt) ++
          [(lastRunAt, r.run.startedAt.storedText)] = lastSaved (some r) := by
    rintro (_ | old) <;> rfl
  have hlast : (f.add .metadata r .metadata).getLast? = some r := List.getLast?_concat
  simp only [setMetadata, rowsOf, ofContents, bind, Except.bind, pure, Except.pure, hreplace, hlast]
  rfl

end

/-- A report is added exactly if its run is new and no key is repeated. -/
theorem save_holding_eq_ok {after : Database} :
    (holding kept).save r = .ok after ↔
      (r.run.id ∉ kept.map (·.run.id) ∧ r.IsKeyed) ∧ after = holding (kept ++ [r]) := by
  simp only [save, holding, bind_eq_ok, StoreError.during_eq_ok, addRun_ofContents]
  constructor
  · rintro ⟨_, ⟨hnew, rfl⟩, _, h₁, _, h₂, _, h₃, _, h₄, _, h₅, _, h₆, hlast⟩
    obtain ⟨hkernels, rfl⟩ := (addAll_kernels hnew).1 h₁
    obtain rfl := (addAll_entryPoints hnew).1 h₂
    obtain ⟨hclasses, rfl⟩ := (addAll_classes hnew).1 h₃
    obtain ⟨hmethods, rfl⟩ := (addAll_methods hnew).1 h₄
    obtain rfl := (addAll_edges hnew).1 h₅
    obtain rfl := (addAll_diagnostics hnew).1 h₆
    rw [← bind_eq_ok, setMetadata_ofContents] at hlast
    -- By now the rows of the report are in all tables.
    exact ⟨⟨hnew, hkernels, hclasses, hmethods⟩, (Except.ok.inj hlast).symm⟩
  · rintro ⟨⟨hnew, hkernels, hclasses, hmethods⟩, rfl⟩
    refine ⟨_, ⟨hnew, rfl⟩, _, (addAll_kernels hnew).2 ⟨hkernels, rfl⟩,
      _, (addAll_entryPoints hnew).2 rfl, _, (addAll_classes hnew).2 ⟨hclasses, rfl⟩,
      _, (addAll_methods hnew).2 ⟨hmethods, rfl⟩, _, (addAll_edges hnew).2 rfl,
      _, (addAll_diagnostics hnew).2 rfl, ?_⟩
    rw [← bind_eq_ok, setMetadata_ofContents]
    rfl

/-! ### Asking -/

/-- A summary is read as it was written, apart from the offset of its start and from bytes of its
    inputs that are not text. -/
theorem toSummary_ofSummary {r : Report} (hstart : r.run.startedAt.HasPlainYear) :
    (SummaryRow.ofSummary r.run).toSummary = .ok r.asStored.run := by
  simp only [SummaryRow.toSummary, SummaryRow.ofSummary, SummaryRow.wholeIn, bind, Except.bind,
    Timestamp.ofStored_storedText hstart, Json.parseTexts_writeTexts]
  rfl

theorem find?_id (hids : (kept.map (·.run.id)).Nodup) (hr : r ∈ kept) :
    kept.find? (fun r' => r'.run.id = r.run.id) = some r := by
  have hsome : (kept.find? fun r' => r'.run.id = r.run.id).isSome :=
    List.find?_isSome.2 ⟨r, hr, decide_eq_true rfl⟩
  obtain ⟨r', hr'⟩ := Option.isSome_iff_exists.1 hsome
  have hid : r'.run.id = r.run.id := by simpa using List.find?_some hr'
  rw [hr', eq_of_id_eq hids hr (List.mem_of_find?_eq_some hr') hid]

theorem getRun_holding (hids : (kept.map (·.run.id)).Nodup) (hr : r ∈ kept)
    (hstart : r.run.startedAt.HasPlainYear) :
    (holding kept).getRun r.run.id = .ok r.asStored.run := by
  have hfind : (kept.map fun r => SummaryRow.ofSummary r.run).find? (fun row => row.id = r.run.id) =
      some (.ofSummary r.run) := by
    rw [List.find?_map]
    exact congrArg (Option.map _) (find?_id hids hr)
  simp only [getRun, holding, ofContents, rowsOf, bind, Except.bind, hfind]
  exact toSummary_ofSummary hstart

theorem getRun_holding_of_notMem {id : String} (hid : id ∉ kept.map (·.run.id)) :
    (holding kept).getRun id = .error (.context id .noRun) := by
  have hfind : (kept.map fun r => SummaryRow.ofSummary r.run).find? (fun row => row.id = id) =
      none := by
    simpa [List.find?_eq_none, SummaryRow.ofSummary] using hid
  simp only [getRun, holding, ofContents, rowsOf, bind, Except.bind, hfind]

/-- The report on a run is the one that was saved. -/
theorem reportOf_holding (hids : (kept.map (·.run.id)).Nodup) (hr : r ∈ kept)
    (hstart : r.run.startedAt.HasPlainYear) :
    (holding kept).reportOf r.run.id = .ok r.asStored := by
  have hrows : ∀ {α : Type} (part : Report → List α),
      ofRun r.run.id (allRows part kept) = part r := fun part =>
    ofRun_eq (by rw [filter_allRows hids hr])
  have hrowsBy : ∀ {α : Type} (key : α → String) (part : Report → List α),
      ofRunBy key r.run.id (allRows part kept) = part r := fun key part =>
    ofRunBy_eq key (filter_allRows hids hr part)
  rw [reportOf, getRun_holding hids hr hstart]
  simp only [holding, ofContents, kernelsOf, entryPointsOf, classesOf, methodsOf, edgesOf,
    diagnosticsOf, rowsOf, Except.map, StoreError.during, Except.mapError, bind, Except.bind, pure,
    Except.pure, hrows, hrowsBy, true_or, decide_true, List.filter_true]
  rfl

theorem reportOf_holding_of_notMem {id : String} (hid : id ∉ kept.map (·.run.id)) :
    (holding kept).reportOf id = .error (.context id .noRun) := by
  rw [reportOf, getRun_holding_of_notMem hid]
  rfl

/-- The counts over reports. -/
def statsOf (kept : List Report) : Stats where
  runCount := kept.length
  kernelCount := (kept.map fun r => (r.kernels.getD []).length).sum
  classCount := (kept.map fun r => (r.classes.getD []).length).sum
  methodCount := (kept.map fun r => (r.methods.getD []).length).sum
  edgeCount := (kept.map fun r => (r.edges.getD []).length).sum
  lastRunId := (kept.getLast?.map (·.run.id)).getD ""
  lastRunAt := (kept.getLast?.map (·.run.startedAt.utc)).getD .zero

theorem getMetadata_lastRunId (kept : List Report) :
    ((holding kept).getMetadata lastRunId).toOption = kept.getLast?.map (·.run.id) := by
  simp only [getMetadata, holding, ofContents]
  cases kept.getLast? with
  | none => rfl
  | some r => rfl

theorem getMetadata_lastRunAt (kept : List Report) :
    ((holding kept).getMetadata lastRunAt).toOption =
      kept.getLast?.map (·.run.startedAt.storedText) := by
  simp only [getMetadata, holding, ofContents]
  cases kept.getLast? with
  | none => rfl
  | some r => rfl

/-- The counts are those over the reports that are held. -/
theorem stats_holding (hstart : ∀ r ∈ kept, r.run.startedAt.HasPlainYear) :
    (holding kept).stats = .ok (statsOf kept) := by
  have hat : (kept.getLast?.map (·.run.startedAt.storedText)).bind
      (fun text => (Timestamp.ofStored text).toOption) =
        kept.getLast?.map (·.run.startedAt.utc) := by
    cases hlast : kept.getLast? with
    | none => rfl
    | some r =>
      have hread := Timestamp.ofStored_storedText (hstart r (List.mem_of_getLast? hlast))
      simp only [Option.map_some, Option.bind_some, hread]
      rfl
  simp only [stats, getMetadata_lastRunId, getMetadata_lastRunAt, hat]
  simp only [holding, ofContents, countOf, rowsOf, Except.map, StoreError.during, Except.mapError,
    bind, Except.bind, pure, Except.pure, length_allRows, List.length_map, statsOf]

end Database

end KernelReach
