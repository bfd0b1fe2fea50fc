import Dqx.Lib.Steps

/-! The check-run task: which steps its three run paths take, and what each append writes. -/

namespace Dqx.Runner

open Lib

/-- What can fail: reading the config, Spark actions, and the appends to the result tables. -/
inductive Step where
  | resolveConfig
  | createView
  | readView
  | applyChecks
  | countInvalid
  | sampleInvalid
  | appendRun
  | countQuarantine
  | appendQuarantine
  | appendMetrics
  | appendFailed
  deriving DecidableEq, Repr

inductive TaskType where
  | dryrun
  | scheduled
  deriving DecidableEq, Repr

inductive Status where
  | success
  | failed
  deriving DecidableEq, Repr

/-- A check: its name, and what else is in its dictionary. -/
structure Check where
  name : Option String
  definition : String
  deriving DecidableEq, Repr

/-- The job config. A config that cannot be resolved stays empty. -/
structure Config where
  checks : List Check := []
  sampleSize : Nat := 1000
  sourceTableFqn : String := ""
  skipHistory : Bool := false
  runType : Option String := none
  isSqlCheck : Bool := false
  sqlQuery : Option String := none
  deriving DecidableEq, Repr

structure Args where
  taskType : TaskType
  viewFqn : String
  runId : String
  requestingUser : String
  /-- The schema of the result tables. -/
  resultSchema : String
  deriving DecidableEq, Repr

inductive Metric where
  | null
  | count (n : Nat)
  | text (s : String)
  deriving DecidableEq, Repr

structure SummaryItem where
  error : String
  count : Nat
  errorCount : Nat
  warningCount : Nat
  deriving DecidableEq, Repr

/-- An error of a SQL check as the columns `_errors` and `errors` show it. -/
structure ErrorItem where
  name : String
  message : String
  deriving DecidableEq, Repr

variable {ρ : Type}

/-- A row of `dq_validation_runs`. A sampled row of a SQL check has the error stamped on it. -/
structure RunRow (ρ : Type) where
  runId : String
  requestingUser : String
  sourceTableFqn : String
  viewFqn : String
  checks : Option (List Check)
  sampleSize : Option Nat := none
  totalRows : Option Nat := none
  validRows : Option Nat := none
  invalidRows : Option Nat := none
  errorRows : Option Nat := none
  warningRows : Option Nat := none
  errorSummary : Option (List SummaryItem) := none
  sampleInvalid : Option (List (ρ × Option ErrorItem)) := none
  status : Status
  errorMessage : Option String := none
  runType : String
  fingerprint : Option String
  deriving DecidableEq

/-- A row of `dq_quarantine_records`: the errors are those of the row itself, or that of the SQL
check. -/
structure QuarantineRow (ρ : Type) where
  runId : String
  sourceTableFqn : String
  requestingUser : String
  row : ρ
  errors : Option ErrorItem
  deriving DecidableEq

/-- A row of `dq_metrics`. -/
structure MetricRow where
  runId : String
  runName : String
  inputLocation : String
  quarantineLocation : Option String
  metricName : String
  metricValue : String
  fingerprint : Option String
  deriving DecidableEq, Repr

/-- What the task has appended to the result tables. -/
structure Written (ρ : Type) where
  runs : List (RunRow ρ) := []
  quarantine : List (QuarantineRow ρ) := []
  metrics : List MetricRow := []
  deriving DecidableEq

/-- The result of applying checks: the invalid rows, and the snapshot of the observation. -/
structure Split (ρ : Type) where
  invalid : List ρ
  observed : List (String × Metric)

/-- What Spark and the library find, where they do not fail. -/
structure Spark (ρ : Type) where
  table : String → List ρ
  sql : String → List ρ
  applyChecks : List ρ → List Check → Split ρ
  errorSummary : Option Metric → List SummaryItem
  isSqlQuerySafe : String → Bool
  fingerprint : List Check → Option String

abbrev Program (ρ : Type) := List (Action Step (Written ρ) String)

/-- A step that writes nothing. -/
def action (step : Step) : Action Step (Written ρ) String := .attempt step id

def observerRunName (runType : String) : String :=
  if runType = "dryrun" then "dqx_app_manual" else "dqx_app_" ++ runType

def sqlQuarantineMaxRows : Nat := 100000

/-- `df.limit(sample_size) if sample_size else df` -/
def limited (sampleSize : Nat) (rows : List ρ) : List ρ :=
  if sampleSize = 0 then rows else rows.take sampleSize

def observedCount (observed : List (String × Metric)) (name : String) : Nat :=
  match observed.lookup name with
  | some (.count n) => n
  | _ => 0

def serialize : Metric → Option String
  | .null => none
  | .count n => some (toString n)
  | .text s => some s

def appendRun (row : RunRow ρ) : Action Step (Written ρ) String :=
  .attempt .appendRun fun w => { w with runs := w.runs ++ [row] }

def appendFailed (row : RunRow ρ) : Action Step (Written ρ) String :=
  .attempt .appendFailed fun w => { w with runs := w.runs ++ [row] }

def appendQuarantine (rows : List (QuarantineRow ρ)) : Action Step (Written ρ) String :=
  .attempt .appendQuarantine fun w => { w with quarantine := w.quarantine ++ rows }

def appendMetrics (rows : List MetricRow) : Action Step (Written ρ) String :=
  .attempt .appendMetrics fun w => { w with metrics := w.metrics ++ rows }

variable (spark : Spark ρ) (args : Args) (config : Config)

def quarantineTable : String := args.resultSchema ++ ".dq_quarantine_records"

def quarantineRow (errors : Option ErrorItem) (row : ρ) : QuarantineRow ρ where
  runId := args.runId
  sourceTableFqn := config.sourceTableFqn
  requestingUser := args.requestingUser
  row := row
  errors := errors

def writeQuarantineRecords (invalid : List ρ) : Program ρ :=
  action .countQuarantine ::
    if invalid.length = 0 then []
    else [appendQuarantine (invalid.map (quarantineRow args config none))]

def writeSqlQuarantineRecords (violations : List ρ) (checkName : String) (invalidCount : Nat) :
    Program ρ :=
  if invalidCount = 0 then []
  else
    let persistedTarget := min invalidCount sqlQuarantineMaxRows
    let capped :=
      if persistedTarget < invalidCount then violations.take persistedTarget else violations
    [appendQuarantine (capped.map
      (quarantineRow args config (some ⟨checkName, "SQL check violation"⟩)))]

/-- The rows that an observation makes: a metric without a value makes none. -/
def metricRows (runType : String) (quarantineLocation : Option String)
    (observed : List (String × Metric)) : List MetricRow :=
  observed.filterMap fun (name, metric) => (serialize metric).map fun value =>
    { runId := args.runId
      runName := observerRunName runType
      inputLocation := config.sourceTableFqn
      quarantineLocation := quarantineLocation
      metricName := name
      metricValue := value
      fingerprint := spark.fingerprint config.checks }

def persistObservedMetrics (runType : String) (quarantineLocation : Option String)
    (observed : List (String × Metric)) : Program ρ :=
  if observed.isEmpty then []
  else [appendMetrics (metricRows spark args config runType quarantineLocation observed)]

/-- The counts of a terminal row, and what is sampled. -/
def successRow (runType : String) (sampleSize : Option Nat) (observed : List (String × Metric))
    (invalid : List ρ) (sampleInvalid : Option (List (ρ × Option ErrorItem))) : RunRow ρ where
  runId := args.runId
  requestingUser := args.requestingUser
  sourceTableFqn := config.sourceTableFqn
  viewFqn := args.viewFqn
  checks := some config.checks
  sampleSize := sampleSize
  totalRows := some (observedCount observed "input_row_count")
  validRows := some (observedCount observed "valid_row_count")
  invalidRows := some invalid.length
  errorRows := some (observedCount observed "error_row_count")
  warningRows := some (observedCount observed "warning_row_count")
  errorSummary := some (spark.errorSummary (observed.lookup "check_metrics"))
  sampleInvalid := sampleInvalid
  status := .success
  runType := runType
  fingerprint := spark.fingerprint config.checks

/-- The name of a SQL check is that of the first check. -/
def checkName : String :=
  match config.checks with
  | [] => config.sourceTableFqn
  | check :: _ => check.name.getD config.sourceTableFqn

/-- The metrics of a SQL check: each of its rows is an error of one check. -/
def synthesized (invalidRows : Nat) : List (String × Metric) :=
  [("input_row_count", .text (toString invalidRows)),
    ("error_row_count", .text (toString invalidRows)),
    ("warning_row_count", .text "0"), ("valid_row_count", .text "0"),
    ("check_metrics", .text ("[\x7b\"check_name\": \"" ++ checkName config ++
      "\", \"error_count\": " ++ toString invalidRows ++ ", \"warning_count\": 0\x7d]"))]

/-- Every row of the view of a SQL check is a violation. -/
def sqlSuccessRow (view runType : String) (sampleSize : Nat) (violations : List ρ) : RunRow ρ :=
  let invalidRows := violations.length
  let name := checkName config
  { runId := args.runId
    requestingUser := args.requestingUser
    sourceTableFqn := config.sourceTableFqn
    viewFqn := view
    checks := some config.checks
    sampleSize := some sampleSize
    totalRows := some invalidRows
    validRows := some 0
    invalidRows := some invalidRows
    errorRows := some invalidRows
    warningRows := some 0
    errorSummary := some (if invalidRows = 0 then [] else
      [⟨"SQL check '" ++ name ++ "' returned " ++ toString invalidRows ++ " violation row(s)",
        invalidRows, invalidRows, 0⟩])
    sampleInvalid := some ((violations.take 10).map fun r => (r, some ⟨name, "SQL check violation"⟩))
    status := .success
    runType := runType
    fingerprint := spark.fingerprint config.checks }

def runDryrunSqlCheck (view : String) (table : List ρ) (sampleSize : Nat) (runType : String) :
    Program ρ :=
  let violations := limited sampleSize table
  let invalidRows := violations.length
  -- The location is the quarantine table only if rows go there.
  let location := if min invalidRows sqlQuarantineMaxRows = 0 then none
    else some (quarantineTable args)
  [action .readView, action .countInvalid] ++
    (if invalidRows = 0 then [] else [action .sampleInvalid]) ++
    [appendRun (sqlSuccessRow spark args config view runType sampleSize violations)] ++
    if runType = "preview" then []
    else writeSqlQuarantineRecords args config violations (checkName config) invalidRows ++
      persistObservedMetrics spark args config runType location (synthesized config invalidRows)

/-- A preview overrides the run type of the config. -/
def dryrunType : String :=
  if config.skipHistory then "preview"
  else match config.runType with
    | none => "dryrun"
    | some runType => if runType.isEmpty then "dryrun" else runType

def runDryrun : Program ρ :=
  let runType := dryrunType config
  if config.isSqlCheck then
    runDryrunSqlCheck spark args config args.viewFqn (spark.table args.viewFqn) config.sampleSize
      runType
  else
    let rows := limited config.sampleSize (spark.table args.viewFqn)
    let split := spark.applyChecks rows config.checks
    let sample := (split.invalid.take 10).map fun r => (r, none)
    [action .readView, action .applyChecks, action .countInvalid] ++
      (if split.invalid.length = 0 then [] else [action .sampleInvalid]) ++
      [appendRun (successRow spark args config runType (some config.sampleSize) split.observed
        split.invalid (some sample))] ++
      if runType = "preview" then []
      else writeQuarantineRecords args config split.invalid ++
        persistObservedMetrics spark args config runType (some (quarantineTable args)) split.observed

def temporaryView : String := "_dqx_scheduled_sql_" ++ args.runId

def runScheduled : Program ρ :=
  if config.isSqlCheck then
    match config.sqlQuery with
    | none =>
      runDryrunSqlCheck spark args config args.viewFqn (spark.table args.viewFqn) 0 "scheduled"
    | some query =>
      if query.isEmpty then
        runDryrunSqlCheck spark args config args.viewFqn (spark.table args.viewFqn) 0 "scheduled"
      else if spark.isSqlQuerySafe query then
        action .createView ::
          runDryrunSqlCheck spark args config (temporaryView args) (spark.sql query) 0 "scheduled"
      else [.raise "Refusing to execute unsafe sql_query in task runner"]
  else
    let split := spark.applyChecks (spark.table args.viewFqn) config.checks
    [action .readView, action .applyChecks, action .countInvalid] ++
      [appendRun
        (successRow spark args config "scheduled" none split.observed split.invalid none)] ++
      writeQuarantineRecords args config split.invalid ++
      persistObservedMetrics spark args config "scheduled" (some (quarantineTable args))
        split.observed

/-- The run type that the config has goes before the task type. -/
def errorRunType : String :=
  if config.skipHistory then "preview"
  else
    let byTask := match args.taskType with
      | .scheduled => "scheduled"
      | .dryrun => "dryrun"
    match config.runType with
    | none => byTask
    | some runType => if runType.isEmpty then byTask else runType

def failedRow (message : String) : RunRow ρ where
  runId := args.runId
  requestingUser := args.requestingUser
  sourceTableFqn := config.sourceTableFqn
  viewFqn := args.viewFqn
  checks := if config.checks.isEmpty then none else some config.checks
  status := .failed
  errorMessage := some message
  runType := errorRunType args config
  fingerprint := spark.fingerprint config.checks

def writeError (message : String) : Program ρ := [appendFailed (failedRow spark args config message)]

def body : Program ρ :=
  match args.taskType with
  | .dryrun => runDryrun spark args config
  | .scheduled => runScheduled spark args config

variable (fails : Step → Option String)

/-- What the task appends, whatever fails of its steps. -/
def main : Written ρ :=
  match fails .resolveConfig with
  | some message => (Action.perform fails (writeError spark args {} message) {}).1
  | none =>
    match Action.perform fails (body spark args config) {} with
    | (written, none) => written
    | (written, some message) =>
      (Action.perform fails (writeError spark args config message) written).1

end Dqx.Runner
