import Dqx.Engine.Split

/-! The summary metrics of a run: as Spark observes them on the checked table, and as a plain aggregation
computes them later. -/

namespace Dqx.Engine

open Lib Lib.Sql Lib.Tabular Utils

variable {V : Type}

/-- An entry of `check_metrics`. -/
structure CheckMetrics where
  checkName : Text
  ruleFingerprint : Text
  errorCount : Nat
  warningCount : Nat
  checkedCount : Nat
  userMetadata : Option (List (Text × Text))
  deriving DecidableEq, Repr

/-- The default metrics and the breakdown by check, without the custom metrics. -/
structure Metrics where
  inputRowCount : Nat
  errorRowCount : Nat
  warningRowCount : Nat
  validRowCount : Nat
  checkMetrics : Option (List CheckMetrics)
  deriving DecidableEq, Repr

/-- `count(case when … then 1 end)` -/
def countWhen (df : DataFrame V) (condition : Expr V Bool) : Except EngineError Nat :=
  if condition.resolves df.columns then .ok (df.rows.countP condition.eval) else .error .analysis

/-- `exists(column, x -> x.rule_fingerprint = …)` -/
def hasFingerprint (column fingerprint : Text) : Expr V Bool :=
  (Column.col column).map fun cell =>
    match cell with
    | .results (some entries) => entries.any fun entry => entry.ruleFingerprint = fingerprint
    | _ => false

/-- `_build_checked_count_expr` -/
def checkedCount (session : Session V) (df : DataFrame V) (skippedChecks : List Text)
    (check : DQRule V) : Except EngineError Nat :=
  match DQRule.truthy check.effectiveFilter with
  | none => if check.ruleFingerprint ∈ skippedChecks then .ok 0 else .ok df.rows.length
  | some filter =>
    if check.ruleFingerprint ∈ skippedChecks || !isSqlQuerySafe session.unicode filter then .ok 0
    else do
      let condition ← analyzed (session.expr filter)
      countWhen df (condition.map fun cell => session.truth cell = some true)

namespace DQEngineCore

variable (session : Session V) (engine : DQEngineCore)

/-- `_build_check_fragment` -/
def checkMetrics (df : DataFrame V) (skippedChecks : List Text) (check : DQRule V) :
    Except EngineError CheckMetrics := do
  let errorCount ← countWhen df (hasFingerprint engine.errors check.ruleFingerprint)
  let warningCount ← countWhen df (hasFingerprint engine.warnings check.ruleFingerprint)
  let checkedCount ← checkedCount session df skippedChecks check
  pure
    { checkName := check.name
      ruleFingerprint := check.ruleFingerprint
      errorCount, warningCount, checkedCount
      userMetadata := check.userMetadata.filter fun metadata => !metadata.isEmpty }

/-- `get_metrics`, over a table with the result columns of a run. -/
def getMetrics (checks : List (DQRule V)) (df : DataFrame V) (skippedChecks : List Text) :
    Except EngineError Metrics := do
  let errors := hasResults engine.errors
  let warnings := hasResults engine.warnings
  let errorRowCount ← countWhen df errors
  let warningRowCount ← countWhen df warnings
  let validRowCount ← countWhen df ((errors.zip warnings).map fun values => !values.1 && !values.2)
  let breakdown ← checks.mapM (engine.checkMetrics session df skippedChecks)
  pure
    { inputRowCount := df.rows.length
      errorRowCount, warningRowCount, validRowCount
      checkMetrics := if checks.isEmpty then none else some breakdown }

/-- `_observe_metrics`: what the observation holds once the table has been written. -/
def observeMetrics (df : DataFrame V) (checks : List (DQRule V)) (skippedChecks : List Text) :
    Except EngineError (Option Metrics) :=
  if !engine.hasObserver || session.isDltPipeline then pure none
  else some <$> engine.getMetrics session checks df skippedChecks

/-- `apply_checks`, with the metrics that are observed on its result. -/
def applyChecksObserved (ruleSetFingerprint : Text) (df : DataFrame V) (checks : List (DQRule V)) :
    Except EngineError (DataFrame V × Option Metrics) := do
  let (checkedDf, skippedChecks) ← engine.applyChecks session ruleSetFingerprint df checks
  let metrics ← engine.observeMetrics session checkedDf checks skippedChecks
  pure (checkedDf, metrics)

/-- The manager with which `compute_summary_metrics` asks whether a check was skipped. -/
def summaryManager (checkedDf : DataFrame V) (rule : DQRule V) : DQRuleManager V where
  check := rule
  body := rule.body none
  df := checkedDf
  inputDf := checkedDf
  ruleFingerprint := rule.ruleFingerprint
  ruleSetFingerprint := []

/-- `compute_summary_metrics`, from the rules that were applied. -/
def computeSummaryMetrics (checkedDf : DataFrame V) (rules : List (DQRule V)) :
    Except EngineError Metrics :=
  if !engine.hasObserver then
    throw (.invalidParameter ("Summary metrics cannot be computed for an engine with no observer. " ++
      "Configure a DQMetricsObserver on the engine, e.g. DQEngine(workspace_client, " ++
      "observer=DQMetricsObserver(...)).").toList)
  else
    let missingColumns := [engine.errors, engine.warnings].filter (· ∉ checkedDf.columns)
    if !missingColumns.isEmpty then
      throw (.invalidParameter ("checked_df is missing the DQX result column(s) ".toList ++
        session.listRepr missingColumns ++ (". Pass the DataFrame returned by apply_checks / " ++
        "apply_checks_by_metadata (before get_valid / get_invalid drop the result columns).").toList))
    else
      let skippedChecks := (rules.filter fun rule =>
        (summaryManager checkedDf rule).isSkipped session).map (·.ruleFingerprint)
      engine.getMetrics session rules checkedDf skippedChecks

end DQEngineCore

end Dqx.Engine
