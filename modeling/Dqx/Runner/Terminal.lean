import Dqx.Runner.Task

/-! The terminal row of a check run. It is appended before the quarantine and the metrics, so what
fails after it leaves a run that succeeded and failed. -/

namespace Dqx.Runner

open Lib Action

variable {ρ : Type} (spark : Spark ρ) (args : Args) (config : Config)

/-! ### What a run is to write -/

/-- The run type of the success row. -/
def runType : String :=
  match args.taskType with
  | .dryrun => dryrunType config
  | .scheduled => "scheduled"

def isPreview : Bool := runType args config = "preview"

/-- The query of a scheduled SQL check. -/
def query : Option String :=
  if args.taskType = .scheduled ∧ config.isSqlCheck then config.sqlQuery.filter (! ·.isEmpty)
  else none

def isRefused : Bool := (query args config).any fun query => ! spark.isSqlQuerySafe query

/-- The rows that the run reads. -/
def source : List ρ :=
  match query args config with
  | some query => spark.sql query
  | none =>
    limited (if args.taskType = .dryrun then config.sampleSize else 0) (spark.table args.viewFqn)

def invalidRows : List ρ :=
  if config.isSqlCheck then source spark args config
  else (spark.applyChecks (source spark args config) config.checks).invalid

def observed : List (String × Metric) :=
  if config.isSqlCheck then synthesized config (invalidRows spark args config).length
  else (spark.applyChecks (source spark args config) config.checks).observed

/-- The invalid rows of the run for the quarantine: of a SQL check, not more than the cap. -/
def quarantined : List (QuarantineRow ρ) :=
  if config.isSqlCheck then ((invalidRows spark args config).take sqlQuarantineMaxRows).map
    (quarantineRow args config (some ⟨checkName config, "SQL check violation"⟩))
  else (invalidRows spark args config).map (quarantineRow args config none)

/-- The metrics of the run. -/
def measured : List MetricRow :=
  metricRows spark args config (runType args config)
    (if config.isSqlCheck ∧ (invalidRows spark args config).length = 0 then none
      else some (quarantineTable args)) (observed spark args config)

/-! ### The steps of a run -/

def readSteps : List Step :=
  (if (query args config).isSome then [.createView] else []) ++ [.readView] ++
    (if config.isSqlCheck then [] else [.applyChecks]) ++ [.countInvalid] ++
    if (invalidRows spark args config).length = 0 ∨ args.taskType = .scheduled ∧ ! config.isSqlCheck
      then [] else [.sampleInvalid]

def quarantineSteps : List Step :=
  (if config.isSqlCheck then [] else [.countQuarantine]) ++
    if (invalidRows spark args config).length = 0 then [] else [.appendQuarantine]

def metricsSteps : List Step :=
  if (observed spark args config).isEmpty then [] else [.appendMetrics]

/-- The steps that follow the success row. -/
def lateSteps : List Step :=
  if isPreview args config then []
  else quarantineSteps spark args config ++ metricsSteps spark args config

theorem pure_action {steps : List Step} :
    ∀ a ∈ steps.map (action (ρ := ρ)), a.Pure := by
  simp only [List.mem_map]
  rintro _ ⟨step, -, rfl⟩
  exact fun _ => rfl

variable {fails : Step → Option String}

theorem succeeds_action {steps : List Step} :
    Succeeds fails (steps.map (action (ρ := ρ))) ↔ ∀ step ∈ steps, fails step = none :=
  List.forall_mem_map

/-- A phase of the run: its steps, and what it changes where none of them fails. -/
structure Phase (fails : Step → Option String) (program : Program ρ) (steps : List Step)
    (effect : Written ρ → Written ρ) : Prop where
  succeeds : Succeeds fails program ↔ ∀ step ∈ steps, fails step = none
  commits : Commits fails program effect

theorem phase_append {steps : List Step} {last : Action Step (Written ρ) String} {step : Step}
    (hlast : last.error fails = fails step) :
    Phase fails (steps.map action ++ [last]) (steps ++ [step]) last.apply where
  succeeds := by
    rw [succeeds_append, succeeds_action, List.forall_mem_append, List.forall_mem_singleton, ← hlast,
      Succeeds, List.forall_mem_singleton]
  commits := commits_append pure_action

theorem phase_pure {steps : List Step} : Phase fails (steps.map (action (ρ := ρ))) steps id where
  succeeds := succeeds_action
  commits := commits_pure pure_action

/-! ### The phases of a run -/

def quarantineProgram : Program ρ :=
  let invalid := invalidRows spark args config
  if config.isSqlCheck then
    writeSqlQuarantineRecords args config invalid (checkName config) invalid.length
  else writeQuarantineRecords args config invalid

theorem capped_eq (rows : List ρ) :
    (if min rows.length sqlQuarantineMaxRows < rows.length
      then rows.take (min rows.length sqlQuarantineMaxRows) else rows) =
      rows.take sqlQuarantineMaxRows := by
  split
  · next hlt => rw [Nat.min_eq_right (by omega)]
  · next hle => rw [List.take_of_length_le (by omega)]

theorem quarantine_phase : Phase fails (quarantineProgram spark args config)
    (quarantineSteps spark args config)
    fun w => { w with quarantine := w.quarantine ++ quarantined spark args config } := by
  by_cases hempty : (invalidRows spark args config).length = 0
  · have hrows : invalidRows spark args config = [] := List.eq_nil_of_length_eq_zero hempty
    have heffect : (fun w : Written ρ =>
        { w with quarantine := w.quarantine ++ quarantined spark args config }) = id := by
      funext w
      simp [quarantined, hrows]
    rw [heffect]
    cases hsql : config.isSqlCheck with
    | true =>
      have hprogram : quarantineProgram spark args config = [].map action := by
        simp [quarantineProgram, writeSqlQuarantineRecords, hsql, hempty]
      have hsteps : quarantineSteps spark args config = [] := by simp [quarantineSteps, hsql, hempty]
      rw [hprogram, hsteps]
      exact phase_pure
    | false =>
      have hprogram : quarantineProgram spark args config = [.countQuarantine].map action := by
        simp [quarantineProgram, writeQuarantineRecords, hsql, hempty]
      have hsteps : quarantineSteps spark args config = [.countQuarantine] := by
        simp [quarantineSteps, hsql, hempty]
      rw [hprogram, hsteps]
      exact phase_pure
  · cases hsql : config.isSqlCheck with
    | true =>
      have hprogram : quarantineProgram spark args config =
          [].map action ++ [appendQuarantine (quarantined spark args config)] := by
        simp only [quarantineProgram, writeSqlQuarantineRecords, quarantined, hsql, hempty, if_true,
          if_false, capped_eq]
        rfl
      have hsteps : quarantineSteps spark args config = [] ++ [.appendQuarantine] := by
        simp [quarantineSteps, hsql, hempty]
      rw [hprogram, hsteps]
      exact phase_append rfl
    | false =>
      have hprogram : quarantineProgram spark args config =
          [.countQuarantine].map action ++ [appendQuarantine (quarantined spark args config)] := by
        simp [quarantineProgram, writeQuarantineRecords, quarantined, hsql, hempty]
      have hsteps :
          quarantineSteps spark args config = [.countQuarantine] ++ [.appendQuarantine] := by
        simp [quarantineSteps, hsql, hempty]
      rw [hprogram, hsteps]
      exact phase_append rfl

def metricsProgram : Program ρ :=
  persistObservedMetrics spark args config (runType args config)
    (if config.isSqlCheck ∧ (invalidRows spark args config).length = 0 then none
      else some (quarantineTable args)) (observed spark args config)

theorem metrics_phase : Phase fails (metricsProgram spark args config)
    (metricsSteps spark args config)
    fun w => { w with metrics := w.metrics ++ measured spark args config } := by
  cases hempty : (observed spark args config).isEmpty with
  | true =>
    have hobserved : observed spark args config = [] := List.isEmpty_iff.mp hempty
    have heffect : (fun w : Written ρ =>
        { w with metrics := w.metrics ++ measured spark args config }) = id := by
      funext w
      simp [measured, metricRows, hobserved]
    have hprogram : metricsProgram spark args config = [].map action := by
      simp [metricsProgram, persistObservedMetrics, hempty]
    have hsteps : metricsSteps spark args config = [] := by simp [metricsSteps, hempty]
    rw [heffect, hprogram, hsteps]
    exact phase_pure
  | false =>
    have hprogram : metricsProgram spark args config =
        [].map action ++ [appendMetrics (measured spark args config)] := by
      simp [metricsProgram, persistObservedMetrics, measured, hempty]
    have hsteps : metricsSteps spark args config = [] ++ [.appendMetrics] := by
      simp [metricsSteps, hempty]
    rw [hprogram, hsteps]
    exact phase_append rfl

/-- A program that reads, appends the success row, and, except for a preview, writes the quarantine
and the metrics. -/
def InPhases (reads : List Step) (program : Program ρ) : Prop :=
  ∃ row : RunRow ρ, row.status = .success ∧
    program = reads.map action ++ [appendRun row] ++
      if isPreview args config then []
      else quarantineProgram spark args config ++ metricsProgram spark args config

def sampleSteps : List Step :=
  if (invalidRows spark args config).length = 0 then [] else [.sampleInvalid]

theorem map_sampleSteps : (sampleSteps spark args config).map (action (ρ := ρ)) =
    if (invalidRows spark args config).length = 0 then [] else [action .sampleInvalid] := by
  unfold sampleSteps
  split <;> rfl

variable {args config}

theorem runDryrunSqlCheck_inPhases {table : List ρ} {sampleSize : Nat} (view : String)
    (hsql : config.isSqlCheck = true) (hrows : limited sampleSize table = source spark args config) :
    InPhases spark args config ([.readView, .countInvalid] ++ sampleSteps spark args config)
      (runDryrunSqlCheck spark args config view table sampleSize (runType args config)) := by
  have hinvalid : limited sampleSize table = invalidRows spark args config := by
    rw [hrows, invalidRows, if_pos hsql]
  have hlocation : (if min (invalidRows spark args config).length sqlQuarantineMaxRows = 0 then none
      else some (quarantineTable args)) =
        if config.isSqlCheck = true ∧ (invalidRows spark args config).length = 0 then none
        else some (quarantineTable args) := by
    have hcap : sqlQuarantineMaxRows ≠ 0 := by decide
    simp only [Nat.min_eq_zero_iff, hcap, or_false, hsql, true_and]
  refine ⟨sqlSuccessRow spark args config view (runType args config) sampleSize
    (invalidRows spark args config), rfl, ?_⟩
  simp only [runDryrunSqlCheck, hinvalid, ← map_sampleSteps, hlocation, isPreview, decide_eq_true_eq,
    quarantineProgram, metricsProgram, observed, hsql, if_true, List.map_append]
  rfl

theorem InPhases.cons {step : Step} {reads : List Step} {program : Program ρ}
    (h : InPhases spark args config reads program) :
    InPhases spark args config (step :: reads) (action step :: program) := by
  obtain ⟨row, hstatus, rfl⟩ := h
  exact ⟨row, hstatus, rfl⟩

theorem runDryrun_inPhases (htask : args.taskType = .dryrun) :
    InPhases spark args config (readSteps spark args config) (runDryrun spark args config) := by
  have hquery : query args config = none := by simp [query, htask]
  have hrows : limited config.sampleSize (spark.table args.viewFqn) = source spark args config := by
    simp [source, hquery, htask]
  have hrun : dryrunType config = runType args config := by rw [runType, htask]
  cases hsql : config.isSqlCheck with
  | true =>
    have hreads : readSteps spark args config =
        [.readView, .countInvalid] ++ sampleSteps spark args config := by
      simp [readSteps, sampleSteps, hquery, hsql]
    have hphases := runDryrunSqlCheck_inPhases spark args.viewFqn hsql hrows
    rw [hreads, runDryrun, if_pos hsql, hrun]
    exact hphases
  | false =>
    have hreads : readSteps spark args config =
        [.readView, .applyChecks, .countInvalid] ++ sampleSteps spark args config := by
      simp [readSteps, sampleSteps, hquery, hsql, htask]
    have hinvalid : (spark.applyChecks (source spark args config) config.checks).invalid =
        invalidRows spark args config := by
      simp [invalidRows, hsql]
    refine ⟨successRow spark args config (runType args config) (some config.sampleSize)
      (spark.applyChecks (source spark args config) config.checks).observed
      (invalidRows spark args config)
      (some (((invalidRows spark args config).take 10).map fun r => (r, none))), rfl, ?_⟩
    simp only [hreads, runDryrun, hsql, hrun, hrows, hinvalid, ← map_sampleSteps, isPreview,
      decide_eq_true_eq, quarantineProgram, metricsProgram, observed, List.map_append,
      Bool.false_eq_true, false_and, if_false]
    rfl

theorem runScheduled_inPhases (htask : args.taskType = .scheduled)
    (h : isRefused spark args config = false) :
    InPhases spark args config (readSteps spark args config) (runScheduled spark args config) := by
  have hrun : runType args config = "scheduled" := by rw [runType, htask]
  cases hsql : config.isSqlCheck with
  | true =>
    have hreads : readSteps spark args config = (if (query args config).isSome then [.createView]
        else []) ++ ([.readView, .countInvalid] ++ sampleSteps spark args config) := by
      simp [readSteps, sampleSteps, hsql]
    have hphases (view : String) {table : List ρ} (hrows : table = source spark args config) :
        InPhases spark args config ([.readView, .countInvalid] ++ sampleSteps spark args config)
          (runDryrunSqlCheck spark args config view table 0 "scheduled") := by
      rw [← hrun]
      exact runDryrunSqlCheck_inPhases spark view hsql (by rw [limited, if_pos rfl, hrows])
    cases hquery : query args config with
    | none =>
      have hrows : spark.table args.viewFqn = source spark args config := by
        simp [source, hquery, htask, limited]
      have hprogram : runScheduled spark args config =
          runDryrunSqlCheck spark args config args.viewFqn (spark.table args.viewFqn) 0
            "scheduled" := by
        simp only [query, htask, hsql, and_self, if_true] at hquery
        rw [runScheduled, if_pos hsql]
        cases htext : config.sqlQuery with
        | none => rfl
        | some text =>
          have hempty : text.isEmpty = true := by simpa [htext] using hquery
          dsimp only
          rw [if_pos hempty]
      rw [hreads, hquery, hprogram]
      exact hphases _ hrows
    | some text =>
      have hrows : spark.sql text = source spark args config := by simp [source, hquery]
      have hprogram : runScheduled spark args config =
          action .createView :: runDryrunSqlCheck spark args config (temporaryView args)
            (spark.sql text) 0 "scheduled" := by
        have hsafe : spark.isSqlQuerySafe text = true := by simpa [isRefused, hquery] using h
        simp only [query, htask, hsql, and_self, if_true] at hquery
        obtain ⟨htext, hne⟩ : config.sqlQuery = some text ∧ text.isEmpty = false := by
          simpa [Option.filter_eq_some_iff] using hquery
        rw [runScheduled, if_pos hsql, htext]
        dsimp only
        rw [hne, if_neg (by decide), if_pos hsafe]
      rw [hreads, hquery, hprogram]
      exact (hphases _ hrows).cons
  | false =>
    have hquery : query args config = none := by simp [query, hsql]
    have hrows : spark.table args.viewFqn = source spark args config := by
      simp [source, hquery, htask, limited]
    have hreads : readSteps spark args config = [.readView, .applyChecks, .countInvalid] := by
      simp [readSteps, hquery, hsql, htask]
    have hinvalid : (spark.applyChecks (source spark args config) config.checks).invalid =
        invalidRows spark args config := by
      simp [invalidRows, hsql]
    have hpreview : isPreview args config = false := by simp [isPreview, hrun]
    refine ⟨successRow spark args config "scheduled" none
      (spark.applyChecks (source spark args config) config.checks).observed
      (invalidRows spark args config) none, rfl, ?_⟩
    simp only [hreads, runScheduled, hsql, hrun, hrows, hinvalid, hpreview, quarantineProgram,
      metricsProgram, observed, Bool.false_eq_true, false_and, if_false, List.append_assoc]
    rfl

theorem body_inPhases (h : isRefused spark args config = false) :
    InPhases spark args config (readSteps spark args config) (body spark args config) := by
  cases htask : args.taskType with
  | dryrun =>
    rw [body, htask]
    exact runDryrun_inPhases spark htask
  | scheduled =>
    rw [body, htask]
    exact runScheduled_inPhases spark htask h

theorem body_refused (h : isRefused spark args config = true) :
    ∃ message, body spark args config = [.raise message] := by
  obtain ⟨text, hquery, hunsafe⟩ : ∃ text, query args config = some text ∧
      spark.isSqlQuerySafe text = false := by
    simpa [isRefused, Option.any_eq_true] using h
  obtain ⟨⟨htask, hsql⟩, hfilter⟩ : (args.taskType = .scheduled ∧ config.isSqlCheck = true) ∧
      config.sqlQuery.filter (! ·.isEmpty) = some text := by
    simpa [query] using hquery
  obtain ⟨htext, hne⟩ : config.sqlQuery = some text ∧ text.isEmpty = false := by
    simpa [Option.filter_eq_some_iff] using hfilter
  refine ⟨"Refusing to execute unsafe sql_query in task runner", ?_⟩
  rw [body, htask]
  dsimp only
  rw [runScheduled, if_pos hsql, htext]
  dsimp only
  rw [hne, if_neg (by decide), hunsafe, if_neg (by decide)]

/-! ### The terminal row -/

variable (args config) (fails)

/-- What the tables should say of a run: one terminal row, unless that of a failure cannot be
appended, and success only with all of the quarantine and the metrics. -/
structure Accounted (written : Written ρ) : Prop where
  once : written.runs.length ≤ 1
  reported : fails .appendFailed = none → written.runs ≠ []
  complete : (∃ row ∈ written.runs, row.status = .success) → isPreview args config = false →
    written.quarantine = quarantined spark args config ∧ written.metrics = measured spark args config

/-- The run gets as far as its success row. -/
def Succeeded : Prop :=
  isRefused spark args config = false ∧
    ∀ step ∈ .resolveConfig :: (readSteps spark args config ++ [.appendRun]), fails step = none

/-- A step after the success row fails, and shows: in a second row, or in rows that are missing. -/
def FailsLate : Prop :=
  (∃ step ∈ lateSteps spark args config, fails step ≠ none) ∧
    (fails .appendFailed = none ∨ measured spark args config ≠ [] ∨
      quarantined spark args config ≠ [] ∧
        ∃ step ∈ quarantineSteps spark args config, fails step ≠ none)

variable {args config fails} {w : Written ρ}

theorem perform_writeError (message : String) :
    (perform fails (writeError spark args config message) w).1 =
      if fails .appendFailed = none
      then { w with runs := w.runs ++ [failedRow spark args config message] } else w := by
  have herror : (appendFailed (failedRow spark args config message)).error fails =
    fails .appendFailed := rfl
  rw [writeError]
  cases hfails : fails .appendFailed with
  | none =>
    rw [perform_cons_ok (herror.trans hfails), if_pos rfl]
    rfl
  | some error => rw [perform_cons_error (herror.trans hfails), if_neg nofun]

/-- A run that fails before its success row is accounted for, whichever config its failure shows. -/
theorem accounted_of_failed (shown : Config) (message : String) :
    Accounted spark args config fails
      (perform fails (writeError spark args shown message) ({} : Written ρ)).1 := by
  rw [perform_writeError]
  split
  · refine ⟨Nat.le_refl _, fun _ => List.cons_ne_nil _ _, ?_⟩
    rintro ⟨row, hrow, hsuccess⟩
    rw [List.mem_singleton.mp hrow] at hsuccess
    cases hsuccess
  · next hfails => exact ⟨Nat.zero_le _, fun h => absurd h hfails, fun ⟨_, hrow, _⟩ => nomatch hrow⟩

theorem main_of_error {message : String} (hresolve : fails .resolveConfig = none)
    (hbody : perform fails (body spark args config) {} = (w, some message)) :
    main spark args config fails = (perform fails (writeError spark args config message) w).1 := by
  rw [main, hresolve]
  dsimp only
  rw [hbody]

theorem main_of_ok (hresolve : fails .resolveConfig = none)
    (hbody : perform fails (body spark args config) {} = (w, none)) :
    main spark args config fails = w := by
  rw [main, hresolve]
  dsimp only
  rw [hbody]

/-- Up to its success row, a run leaves no trace or that row. -/
theorem accounted_of_not_succeeded (h : ¬Succeeded spark args config fails) :
    Accounted spark args config fails (main spark args config fails) := by
  cases hresolve : fails .resolveConfig with
  | some message =>
    rw [main, hresolve]
    exact accounted_of_failed spark {} message
  | none =>
    obtain ⟨message, hbody⟩ : ∃ message,
        perform fails (body spark args config) {} = ({}, some message) := by
      cases hrefused : isRefused spark args config with
      | true =>
        obtain ⟨message, hbody⟩ := body_refused spark hrefused
        exact ⟨message, by rw [hbody]; rfl⟩
      | false =>
        obtain ⟨row, -, hbody⟩ := body_inPhases spark hrefused
        have hphase :=
          @phase_append ρ fails (readSteps spark args config) (appendRun row) .appendRun rfl
        have hfails : ¬∀ step ∈ readSteps spark args config ++ [.appendRun], fails step = none :=
          fun hall => h ⟨hrefused, List.forall_mem_cons.mpr ⟨hresolve, hall⟩⟩
        rw [hbody]
        exact hphase.commits.append_of_fails fun hall => hfails (hphase.succeeds.mp hall)
    rw [main_of_error spark hresolve hbody]
    exact accounted_of_failed spark config message

/-- What a run that has succeeded does after its success row. -/
theorem perform_body (h : Succeeded spark args config fails) :
    ∃ row : RunRow ρ, row.status = .success ∧
      perform fails (body spark args config) {} =
        perform fails (if isPreview args config then []
          else quarantineProgram spark args config ++ metricsProgram spark args config)
            { runs := [row] } := by
  obtain ⟨hrefused, hsteps⟩ := h
  obtain ⟨-, hreads⟩ := List.forall_mem_cons.mp hsteps
  obtain ⟨row, hstatus, hbody⟩ := body_inPhases spark hrefused
  have hphase := @phase_append ρ fails (readSteps spark args config) (appendRun row) .appendRun rfl
  refine ⟨row, hstatus, ?_⟩
  rw [hbody, hphase.commits.append_of_succeeds (hphase.succeeds.mpr hreads)]
  rfl

theorem accounted_of_not_failsLate (h : Succeeded spark args config fails)
    (hlate : ∀ step ∈ lateSteps spark args config, fails step = none) :
    Accounted spark args config fails (main spark args config fails) := by
  have hresolve := (List.forall_mem_cons.mp h.2).1
  obtain ⟨row, hstatus, hbody⟩ := perform_body spark h
  cases hpreview : isPreview args config with
  | true =>
    rw [hpreview, if_pos rfl] at hbody
    rw [main_of_ok spark hresolve hbody]
    refine ⟨Nat.le_refl _, fun _ => List.cons_ne_nil _ _, fun _ hnot => ?_⟩
    rw [hpreview] at hnot
    cases hnot
  | false =>
    rw [lateSteps, hpreview, if_neg (by decide), List.forall_mem_append] at hlate
    have hquarantine := @quarantine_phase ρ spark args config fails
    have hmetrics := @metrics_phase ρ spark args config fails
    rw [hpreview, if_neg (by decide),
      hquarantine.commits.append_of_succeeds (hquarantine.succeeds.mpr hlate.1),
      (hmetrics.commits _).1 (hmetrics.succeeds.mpr hlate.2)] at hbody
    rw [main_of_ok spark hresolve hbody]
    exact ⟨Nat.le_refl _, fun _ => List.cons_ne_nil _ _, fun _ _ => ⟨rfl, rfl⟩⟩

/-- Where a step after the success row fails, the metrics are missing, and the quarantine too unless
all of its steps went well. -/
theorem exists_written_of_late (h : Succeeded spark args config fails)
    (hlate : ∃ step ∈ lateSteps spark args config, fails step ≠ none) :
    ∃ (row : RunRow ρ) (w : Written ρ) (message : String), row.status = .success ∧
      perform fails (body spark args config) {} = (w, some message) ∧ w.runs = [row] ∧
      w.metrics = [] ∧ w.quarantine =
        if ∀ step ∈ quarantineSteps spark args config, fails step = none
        then quarantined spark args config else [] := by
  obtain ⟨row, hstatus, hbody⟩ := perform_body spark h
  have hquarantine := @quarantine_phase ρ spark args config fails
  have hmetrics := @metrics_phase ρ spark args config fails
  cases hpreview : isPreview args config with
  | true =>
    rw [lateSteps, hpreview, if_pos rfl] at hlate
    exact absurd hlate (by simp)
  | false =>
    rw [hpreview, if_neg (by decide)] at hbody
    by_cases hsteps : ∀ step ∈ quarantineSteps spark args config, fails step = none
    · have hfails : ¬Succeeds fails (metricsProgram spark args config) := by
        intro hsucceeds
        obtain ⟨step, hstep, hfails⟩ := hlate
        rw [lateSteps, hpreview, if_neg (by decide)] at hstep
        rcases List.mem_append.mp hstep with hstep | hstep
        · exact hfails (hsteps step hstep)
        · exact hfails (hmetrics.succeeds.mp hsucceeds step hstep)
      obtain ⟨message, herror⟩ := (hmetrics.commits _).2 hfails
      rw [hquarantine.commits.append_of_succeeds (hquarantine.succeeds.mpr hsteps), herror] at hbody
      exact ⟨row, _, message, hstatus, hbody, rfl, rfl, (if_pos hsteps).symm⟩
    · obtain ⟨message, herror⟩ := hquarantine.commits.append_of_fails
        (fun hsucceeds => hsteps (hquarantine.succeeds.mp hsucceeds))
      rw [herror] at hbody
      exact ⟨row, _, message, hstatus, hbody, rfl, rfl, (if_neg hsteps).symm⟩

/-- The run is accounted for unless a step that follows its success row fails and shows. -/
theorem accounted_iff : Accounted spark args config fails (main spark args config fails) ↔
    ¬(Succeeded spark args config fails ∧ FailsLate spark args config fails) := by
  by_cases hsucceeded : Succeeded spark args config fails
  swap
  · exact iff_of_true (accounted_of_not_succeeded spark hsucceeded) fun h => hsucceeded h.1
  by_cases hlate : ∀ step ∈ lateSteps spark args config, fails step = none
  · refine iff_of_true (accounted_of_not_failsLate spark hsucceeded hlate) ?_
    rintro ⟨-, ⟨step, hstep, hfails⟩, -⟩
    exact hfails (hlate step hstep)
  push Not at hlate
  obtain ⟨row, w, message, hstatus, hbody, hruns, hmetrics, hquarantine⟩ :=
    exists_written_of_late spark hsucceeded hlate
  have hpreview : isPreview args config = false := by
    obtain ⟨step, hstep, -⟩ := hlate
    by_contra hpreview
    rw [lateSteps, if_pos (by simpa using hpreview)] at hstep
    cases hstep
  rw [main_of_error spark (List.forall_mem_cons.mp hsucceeded.2).1 hbody, perform_writeError]
  by_cases hfailed : fails .appendFailed = none
  · rw [if_pos hfailed]
    refine iff_of_false (fun haccounted => ?_) fun h => h ⟨hsucceeded, hlate, .inl hfailed⟩
    have honce := haccounted.once
    simp [hruns] at honce
  rw [if_neg hfailed]
  constructor
  · rintro haccounted ⟨-, -, hshows⟩
    obtain ⟨hall, hmeasured⟩ := haccounted.complete ⟨row, by simp [hruns], hstatus⟩ hpreview
    rcases hshows with hfailed' | hmissing | ⟨hmissing, step, hstep, hfails⟩
    · exact hfailed hfailed'
    · exact hmissing (hmeasured.symm.trans hmetrics)
    · rw [hquarantine, if_neg fun h => hfails (h step hstep)] at hall
      exact hmissing hall.symm
  · intro hnot
    have hshows : ¬(measured spark args config ≠ [] ∨ quarantined spark args config ≠ [] ∧
        ∃ step ∈ quarantineSteps spark args config, fails step ≠ none) :=
      fun h => hnot ⟨hsucceeded, hlate, .inr h⟩
    obtain ⟨hmeasured, hpart⟩ := not_or.mp hshows
    refine ⟨by simp [hruns], fun h => absurd h hfailed, fun _ _ => ⟨?_, ?_⟩⟩
    · rw [hquarantine]
      split
      · rfl
      · next hsteps =>
        push Not at hsteps
        by_contra hne
        exact hpart ⟨Ne.symm hne, hsteps⟩
    · rw [hmetrics, not_not.mp hmeasured]

/-- A table of one row, which is invalid. -/
def oneInvalidRow : Spark Nat where
  table := fun _ => [7]
  sql := fun _ => []
  applyChecks := fun rows _ =>
    ⟨rows, [("input_row_count", .count 1), ("error_row_count", .count 1)]⟩
  errorSummary := fun _ => []
  isSqlQuerySafe := fun _ => true
  fingerprint := fun _ => none

def manualRun : Args where
  taskType := .dryrun
  viewFqn := "c.s.tmp_view_a"
  runId := "r1"
  requestingUser := "u"
  resultSchema := "c.s"

def quarantineFails (step : Step) : Option String :=
  if step = .appendQuarantine then some "timeout" else none

/-- The run whose quarantine cannot be appended has succeeded, and has failed. -/
theorem not_accounted_quarantine_fails : ¬Accounted oneInvalidRow manualRun {} quarantineFails
    (main oneInvalidRow manualRun {} quarantineFails) := by
  intro haccounted
  have hrows : (main oneInvalidRow manualRun {} quarantineFails).runs.map (·.status) =
      [.success, .failed] := by decide
  have honce := haccounted.once
  rw [← List.length_map, hrows] at honce
  exact absurd honce (by decide)

end Dqx.Runner
