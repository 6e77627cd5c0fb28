import KernelReach.Export.Loader
import KernelReach.Proofs.Export.CallGroups

/-!
# What an export issues

An export hands its statements to an executor until one of them fails. Whatever the phases are, this
is one run over all their statements (`runPhases_state`, `isSome_failure_runPhases`).

* The rows of each kind are cut into batches, none of which is empty or too large, and nothing is
  lost between them (`isCut_chunks`).
* There is one row for every caller and callee, and every call is in one of them, so that the rows
  have as many offsets as there are calls (`forall₂_callRow`, `sum_offsets_callRow`).
* `export_issues` puts the two together for an executor that fails at some call or never.
-/

namespace KernelReach.Export

/-! ### Batches -/

/-- The batches of some rows: none is empty or has more rows than `size`, and they make up the
    rows. -/
structure IsCut {α : Type} (size : Nat) (rows : List α) (batches : List (List α)) : Prop where
  ne_nil : ∀ batch ∈ batches, batch ≠ []
  length_le : ∀ batch ∈ batches, batch.length ≤ size
  flatten_eq : batches.flatten = rows

theorem isCut_chunks {α : Type} (n : Nat) (rows : List α) : IsCut (n + 1) rows (chunks n rows) := by
  fun_induction chunks n rows with
  | case1 => exact ⟨by simp, by simp, rfl⟩
  | case2 row rows ih =>
    refine ⟨List.forall_mem_cons.2 ⟨by simp, ih.ne_nil⟩,
      List.forall_mem_cons.2 ⟨?_, ih.length_le⟩, ?_⟩
    · simp only [List.length_cons, List.length_take]
      omega
    · rw [List.flatten_cons, ih.flatten_eq, List.cons_append, List.take_append_drop]

theorem batchSize_pos (configured : Int) : 0 < batchSize configured := by
  unfold batchSize defaultBatchSize
  split_ifs with h
  · decide
  · omega

/-- The statements that run one text over batches of rows. -/
def overEach (text : String) (batches : List (List Json)) : List Statement :=
  batches.map fun rows => ⟨text, some rows⟩

theorem flatMap_rows_overEach (text : String) (batches : List (List Json)) :
    (overEach text batches).flatMap (fun st => st.rows.getD []) = batches.flatten := by
  induction batches with
  | nil => rfl
  | cons rows batches ih =>
    rw [List.flatten_cons, ← ih]
    rfl

theorem exists_batches_eq (configured : Int) (text : String) (rows : List Json) :
    ∃ cut, batches (batchSize configured) text rows = overEach text cut ∧
      IsCut (batchSize configured) rows cut := by
  have hcut := isCut_chunks (batchSize configured - 1) rows
  rw [Nat.sub_add_cancel (batchSize_pos configured)] at hcut
  exact ⟨_, rfl, hcut⟩

/-! ### Rows of calls -/

/-- The items in a field of a row. -/
def rowItems (field : String) : Json → List Json
  | .object fields =>
    match fields.lookup field with
    | some (.array items) => items
    | _ => []
  | _ => []

theorem keys_groupCalls (edges : List EdgeRecord) :
    (groupCalls edges).map (fun g => (g.caller, g.callee)) =
      (edges.map fun e => (e.caller, e.callee)).eraseDups := by
  -- Pairs can be compared in two ways, which come to the same.
  rw [lawful_beq_subsingleton (instBEqProd : BEq (String × String)) instBEqOfDecidableEq]
  exact (groups_groupCalls edges).keys

/-- There is one row for every caller and callee. It says of them what the first of their calls
    says, and has the offsets of all of them. -/
theorem forall₂_callRow (run : String) (edges : List EdgeRecord) :
    List.Forall₂ (fun pair row => ∃ first rest,
        edges.filter (fun e => (e.caller, e.callee) = pair) = first :: rest ∧
        row = .object [("run", .string run), ("caller", .string pair.1), ("callee", .string pair.2),
          ("kind", .string first.kind), ("status", .string first.status),
          ("reason", .string first.reason),
          ("offsets", .array ((first :: rest).map fun e => .int e.offset))])
      (edges.map fun e => (e.caller, e.callee)).eraseDups
      ((groupCalls edges).map (callRow run)) := by
  rw [← keys_groupCalls, List.forall₂_map_left_iff, List.forall₂_map_right_iff, List.forall₂_same]
  intro g hg
  obtain ⟨first, rest, hitems, hgroup⟩ := (groups_groupCalls edges).members g hg
  refine ⟨first, rest, hitems, ?_⟩
  rw [group_callGroups] at hgroup
  subst hgroup
  rw [callRow, Json.list, List.map_map]
  rfl

/-- Every call is in the row of its caller and callee. -/
theorem sum_offsets_callRow (run : String) (edges : List EdgeRecord) :
    (((groupCalls edges).map (callRow run)).map fun row => (rowItems "offsets" row).length).sum =
      edges.length := by
  rw [← (groups_groupCalls edges).sum_length_filter, List.map_map]
  refine congrArg List.sum (List.map_congr_left fun g hg => ?_)
  obtain ⟨first, rest, hitems, hgroup⟩ := (groups_groupCalls edges).members g hg
  rw [hitems, hgroup, group_callGroups]
  simp [rowItems, callRow, Json.list, List.lookup_cons]

/-! ### Runs -/

section

variable {σ : Type} (exec : Executor σ)

theorem runStatements_append (first rest : List Statement) (s : σ) :
    runStatements exec (first ++ rest) s =
      match runStatements exec first s with
      | (.ok (), s) => runStatements exec rest s
      | (.error e, s) => (.error e, s) := by
  induction first generalizing s with
  | nil => rfl
  | cons st first ih =>
    rw [List.cons_append, runStatements, runStatements]
    split
    · rw [ih]
    · rfl

/-- Phases are run as one list of statements. -/
theorem runPhases_state (phases : List Phase) (s : σ) :
    (runPhases exec phases s).state =
      (runStatements exec (phases.flatMap Phase.statements) s).2 := by
  induction phases generalizing s with
  | nil => rfl
  | cons p phases ih =>
    rw [List.flatMap_cons, runStatements_append, runPhases]
    rcases runStatements exec p.statements s with ⟨_ | _, s'⟩
    · rfl
    · exact ih s'

theorem isSome_failure_runPhases (phases : List Phase) (s : σ) :
    (runPhases exec phases s).failure.isSome ↔
      ∃ e, (runStatements exec (phases.flatMap Phase.statements) s).1 = .error e := by
  induction phases generalizing s with
  | nil => simp [runPhases, runStatements]
  | cons p phases ih =>
    rw [List.flatMap_cons, runStatements_append, runPhases]
    rcases runStatements exec p.statements s with ⟨_ | _, s'⟩
    · exact iff_of_true rfl ⟨_, rfl⟩
    · exact ih s'

end

/-- An executor that keeps the statements it is given. If a number is given, it fails at the call
    after so many. -/
def failingAfter (calls : Option Nat) (fault : String) : Executor (List Statement) :=
  fun st given =>
  (if calls = some given.length then .error fault else .ok (), given ++ [st])

theorem runStatements_failingAfter_none (fault : String) (sts given : List Statement) :
    runStatements (failingAfter none fault) sts given = (.ok (), given ++ sts) := by
  induction sts generalizing given with
  | nil => simp [runStatements]
  | cons st sts ih => simp [runStatements, failingAfter, ih]

/-- After so many calls that went well there is one that fails, if there are enough statements. -/
theorem runStatements_failingAfter_some (fault : String) (sts given : List Statement) (n : Nat) :
    runStatements (failingAfter (some (given.length + n)) fault) sts given =
      (if n < sts.length then .error fault else .ok (), given ++ sts.take (n + 1)) := by
  induction sts generalizing given n with
  | nil => simp [runStatements]
  | cons st sts ih =>
    cases n with
    | zero => simp [runStatements, failingAfter]
    | succ n =>
      have hrest := ih (given ++ [st]) n
      have hcalls : (given ++ [st]).length + n = given.length + (n + 1) := by
        simp only [List.length_append, List.length_singleton]
        omega
      rw [hcalls] at hrest
      have hgood : ¬ given.length + (n + 1) = given.length := by omega
      simp only [runStatements, failingAfter, Option.some.injEq, hgood, if_false]
      exact hrest.trans (by simp)

/-- The statements that are issued if the call after `calls` good ones fails. -/
def issued (calls : Option Nat) (all : List Statement) : List Statement :=
  match calls with
  | none => all
  | some n => all.take (n + 1)

theorem runStatements_failingAfter (calls : Option Nat) (fault : String) (all : List Statement) :
    runStatements (failingAfter calls fault) all [] =
      (if ∃ n, calls = some n ∧ n < all.length then .error fault else .ok (),
        issued calls all) := by
  cases calls with
  | none => simp [runStatements_failingAfter_none, issued]
  | some n =>
    have hrun := runStatements_failingAfter_some fault all [] n
    rw [List.length_nil, Nat.zero_add] at hrun
    simp [hrun, issued]

/-- What the export of a report issues, for any size of batches and an executor that fails at some
    call or never: the batches of the classes, the methods, the calls, the kernels and the entry
    points, up to the call that fails. There is one row of calls for each caller and callee, in the
    order of the first ones, with what the first of their calls says and the offsets of all of them.
    So there are as many offsets as there are calls. -/
theorem export_issues (configured : Int) (r : Report) (calls : Option Nat) (fault : String) :
    let size := if configured ≤ 0 then 500 else configured.toNat
    let outcome := runPhases (failingAfter calls fault) (exportPlan (batchSize configured) r) []
    let run := ("run", Json.string r.run.id)
    let edges := r.edges.getD []
    ∃ callRows : List Json, ∃ classes methods grouped kernels entryPoints : List (List Json),
      let all := overEach classText classes ++ overEach methodText methods ++
        overEach callText grouped ++ overEach kernelText kernels ++
        overEach entryPointText entryPoints
      (outcome.state = issued calls all ∧
        (outcome.failure.isSome ↔ ∃ n, calls = some n ∧ n < all.length)) ∧
      (IsCut size ((r.classes.getD []).map fun c => .object [run, ("name", .string c.name),
          ("level", .string c.level), ("disposition", .string c.disposition),
          ("application", .bool c.application), ("runtime", .bool c.runtime),
          ("reason", .string c.reason)]) classes ∧
        IsCut size ((r.methods.getD []).map fun m => .object [run,
          ("signature", .string m.signature), ("name", .string m.name), ("class", .string m.owner),
          ("params", .string m.params), ("return_type", .string m.result)]) methods ∧
        IsCut size callRows grouped ∧
        IsCut size ((r.kernels.getD []).map fun k => .object [run, ("name", .string k)]) kernels ∧
        IsCut size ((r.entryPoints.getD []).map fun e => .object [run,
          ("signature", .string e.method), ("kind", .string e.kind)]) entryPoints) ∧
      List.Forall₂ (fun pair row => ∃ first rest,
          edges.filter (fun e => (e.caller, e.callee) = pair) = first :: rest ∧
          row = .object [run, ("caller", .string pair.1), ("callee", .string pair.2),
            ("kind", .string first.kind), ("status", .string first.status),
            ("reason", .string first.reason),
            ("offsets", .array ((first :: rest).map fun e => .int e.offset))])
        (edges.map fun e => (e.caller, e.callee)).eraseDups callRows ∧
      (callRows.map fun row => (rowItems "offsets" row).length).sum = edges.length := by
  intro size outcome run edges
  obtain ⟨classes, hclasses, hclassCut⟩ :=
    exists_batches_eq configured classText ((r.classes.getD []).map (classRow r.run.id))
  obtain ⟨methods, hmethods, hmethodCut⟩ :=
    exists_batches_eq configured methodText ((r.methods.getD []).map (methodRow r.run.id))
  obtain ⟨grouped, hgrouped, hgroupCut⟩ :=
    exists_batches_eq configured callText ((groupCalls edges).map (callRow r.run.id))
  obtain ⟨kernels, hkernels, hkernelCut⟩ :=
    exists_batches_eq configured kernelText ((r.kernels.getD []).map (kernelRow r.run.id))
  obtain ⟨entryPoints, hentryPoints, hentryCut⟩ := exists_batches_eq configured entryPointText
    ((r.entryPoints.getD []).map (entryPointRow r.run.id))
  refine ⟨(groupCalls edges).map (callRow r.run.id), classes, methods, grouped, kernels,
    entryPoints, ?_⟩
  intro all
  have hall : (exportPlan (batchSize configured) r).flatMap Phase.statements = all := by
    simp only [exportPlan, List.flatMap_cons, List.flatMap_nil, hclasses, hmethods, hkernels,
      hentryPoints, List.append_nil, all, List.append_assoc]
    rw [← hgrouped]
  refine ⟨⟨?_, ?_⟩, ⟨hclassCut, hmethodCut, hgroupCut, hkernelCut, hentryCut⟩,
    forall₂_callRow r.run.id edges, sum_offsets_callRow r.run.id edges⟩
  · rw [runPhases_state, hall, runStatements_failingAfter]
  · rw [isSome_failure_runPhases, hall, runStatements_failingAfter]
    split_ifs with hfails
    · exact iff_of_true ⟨fault, rfl⟩ hfails
    · exact iff_of_false nofun hfails

/-! ### A report with two calls of one method -/

namespace Sample

/-- A method calls another one at two places, and a third one between them. -/
def report : Report where
  run := { id := "run-1" }
  kernels := some ["app.K"]
  entryPoints := some [⟨"app.K.run", "app.K", "kernel"⟩]
  classes := some [{ name := "app.K", level := "bodies", application := true }]
  methods := some [{ signature := "app.K.run", name := "run", owner := "app.K" }]
  edges := some [
    { caller := "app.K.run", callee := "app.K.step", kind := "virtual", offset := 2
      status := "followed" },
    { caller := "app.K.run", callee := "app.K.stop", kind := "static", offset := 5
      status := "unavailable", reason := "lost" },
    { caller := "app.K.run", callee := "app.K.step", kind := "special", offset := 8
      status := "followed" }]

end Sample

/-- The rows that are issued of the report: the two calls of one method share a row. -/
theorem export_issues_sample :
    let run := ("run", Json.string "run-1")
    let caller := ("caller", Json.string "app.K.run")
    let outcome := runPhases (failingAfter none "") (exportPlan (batchSize 0) Sample.report) []
    outcome.failure = none ∧
    outcome.state.flatMap (fun st => st.rows.getD []) = [
      .object [run, ("name", .string "app.K"), ("level", .string "bodies"),
        ("disposition", .string ""), ("application", .bool true), ("runtime", .bool false),
        ("reason", .string "")],
      .object [run, ("signature", .string "app.K.run"), ("name", .string "run"),
        ("class", .string "app.K"), ("params", .string ""), ("return_type", .string "")],
      .object [run, caller, ("callee", .string "app.K.step"), ("kind", .string "virtual"),
        ("status", .string "followed"), ("reason", .string ""),
        ("offsets", .array [.int 2, .int 8])],
      .object [run, caller, ("callee", .string "app.K.stop"), ("kind", .string "static"),
        ("status", .string "unavailable"), ("reason", .string "lost"),
        ("offsets", .array [.int 5])],
      .object [run, ("name", .string "app.K")],
      .object [run, ("signature", .string "app.K.run"), ("kind", .string "kernel")]] := by
  intro run caller outcome
  obtain ⟨callRows, classes, methods, grouped, kernels, entryPoints, ⟨hstate, hfailure⟩,
    ⟨hclasses, hmethods, hgrouped, hkernels, hentryPoints⟩, hrows, -⟩ :=
    export_issues 0 Sample.report none ""
  have hpairs : ((Sample.report.edges.getD []).map fun e => (e.caller, e.callee)).eraseDups =
      [("app.K.run", "app.K.step"), ("app.K.run", "app.K.stop")] := by decide
  rw [hpairs] at hrows
  obtain _ | ⟨⟨step, steps, hstep, rfl⟩, hrows⟩ := hrows
  obtain _ | ⟨⟨stop, stops, hstop, rfl⟩, hrows⟩ := hrows
  obtain _ | _ := hrows
  obtain ⟨rfl, rfl⟩ := List.cons.inj hstep
  obtain ⟨rfl, rfl⟩ := List.cons.inj hstop
  refine ⟨?_, ?_⟩
  · rw [← Option.not_isSome_iff_eq_none, hfailure]
    simp
  · rw [show outcome.state = _ from hstate, issued]
    simp only [List.flatMap_append, flatMap_rows_overEach, hclasses.flatten_eq, hmethods.flatten_eq,
      hgrouped.flatten_eq, hkernels.flatten_eq, hentryPoints.flatten_eq]
    rfl

end KernelReach.Export
