import Dqx.Engine.Manager

/-! `DQEngineCore`: the pass over the checks of one criticality, the result columns that it adds, and
the split into good and bad rows. -/

namespace Dqx.Engine

open Lib Lib.Sql Lib.Tabular

variable {V : Type}

/-- `Criticality` -/
def warn : Text := "warn".toList

def error : Text := "error".toList

/-- `DQEngineCore`, without its workspace client. -/
structure DQEngineCore where
  errors : Text
  warnings : Text
  info : Text
  settings : Settings
  hasObserver : Bool

/-- The managers of the checks that read the input, by the identity of the check. -/
abbrev InputManagers (V : Type) := List (Nat × DQRuleManager V)

/-- What a pass carries from check to check. -/
structure Progress (V : Type) where
  currentDf : DataFrame V
  rowsDf : DataFrame V
  checkConditions : List (Expr V (Option ResultItem))
  skippedChecks : List Text
  infoColNames : List Text

/-- `F.array_compact(F.array(…))`, and null where nothing is left. -/
def combinedResults (conditions : List (Expr V (Option ResultItem))) : Expr V (Cell V) :=
  (Column.all conditions).map fun entries =>
    .results (if (entries.filterMap id).isEmpty then none else some (entries.filterMap id))

/-- The elements of an array. -/
def Cell.elements : Cell V → List (Cell V)
  | .array cells => cells
  | _ => []

def mergeInfoColumns (destName : Text) (df : DataFrame V) (infoColNames : List Text) :
    Except EngineError (DataFrame V) :=
  let infoCols := infoColNames.filter (· ∈ df.columns)
  if infoCols.isEmpty && destName ∉ df.columns then pure df
  else do
    let structs := Column.all (infoCols.map Column.col)
    let merged ← analyzed (if destName ∈ df.columns then
        df.withColumn destName ((Column.zip (.col destName) structs).map fun values =>
          .array (values.1.elements ++ values.2))
      else df.withColumn destName (structs.map .array))
    pure (merged.drop infoCols)

namespace DQEngineCore

variable (session : Session V) (engine : DQEngineCore)

def resultColumnNames : List Text := [engine.errors, engine.warnings, engine.info]

def getCheckColumns (checks : List (DQRule V)) (criticality : Text) : List (DQRule V) :=
  checks.filter fun check => check.criticality = criticality

def validateResultColumnCollisions (df : DataFrame V) : Except EngineError Unit :=
  let collisions := engine.resultColumnNames.filter (· ∈ df.columns)
  if collisions.isEmpty then pure ()
  else throw (.invalidParameter ("Input DataFrame contains reserved DQX result columns: ".toList ++
    ", ".toList.intercalate collisions ++ (". Rename input columns or configure extra params in " ++
      "'DQEngine' for 'result_column_names'.").toList))

/-- The original columns that `_preselect_original_columns` gives to the check function. -/
def preselected (df : DataFrame V) (check : DQRule V) : Option (List Text) :=
  if check.needsOriginalColumns then some (df.columns.filter (· ∉ engine.resultColumnNames))
  else none

/-- `_preselect_original_columns`: a check without columns takes those that it is given. -/
def preselectOriginalColumns (df : DataFrame V) (check : DQRule V) : DQRule V :=
  { check with
    columns := check.columns.or ((engine.preselected df check).map (·.map CheckColumn.text)) }

def buildManager (ruleSetFingerprint : Text) (inputDf : DataFrame V) (check : DQRule V)
    (managerDf checkInputDf : DataFrame V) : DQRuleManager V where
  check := engine.preselectOriginalColumns inputDf check
  body := check.body (engine.preselected inputDf check)
  df := managerDf
  inputDf := checkInputDf
  ruleFingerprint := check.ruleFingerprint
  ruleSetFingerprint := ruleSetFingerprint

/-- One round of the loop over the checks. -/
def applyCheck (ruleSetFingerprint : Text) (inputDf : DataFrame V) (inputManagers : InputManagers V)
    (progress : Progress V) (check : DQRule V) : Except EngineError (Progress V) := do
  let found := inputManagers.lookup check.id
  let manager := found.getD
    (engine.buildManager ruleSetFingerprint inputDf check progress.currentDf progress.rowsDf)
  let result ← manager.process session engine.settings progress.currentDf found.isSome
  pure
    { currentDf := result.checkDf
      rowsDf := if check.keepsInputRows then progress.rowsDf else result.checkDf
      checkConditions := progress.checkConditions ++ [result.condition]
      skippedChecks := progress.skippedChecks ++
        if manager.isSkipped session then [check.ruleFingerprint] else []
      infoColNames := progress.infoColNames ++ (DQRule.truthy result.infoColumnName).toList }

/-- The temporary columns that a pass drops at its end. -/
def columnsToDrop (originalColumns : List Text) (destCol destInfoCol : Text) (df : DataFrame V) :
    List Text :=
  df.columns.filter fun column => column ∉ originalColumns &&
    column ∉ [destCol, destInfoCol, engine.errors, engine.warnings]

def createResultsArray (ruleSetFingerprint : Text) (df : DataFrame V) (checks : List (DQRule V))
    (destCol : Text) (inputDf : DataFrame V) (inputManagers : InputManagers V) :
    Except EngineError (DataFrame V × List Text) :=
  if checks.isEmpty then pure (df.selectAlso [(destCol, .results none)], [])
  else do
    let progress ← checks.foldlM
      (engine.applyCheck session ruleSetFingerprint inputDf inputManagers) ⟨df, df, [], [], []⟩
    let combined ← analyzed (progress.currentDf.withColumn destCol
      (combinedResults progress.checkConditions))
    let resultDf ← mergeInfoColumns engine.info combined progress.infoColNames
    pure (resultDf.drop (engine.columnsToDrop df.columns destCol engine.info resultDf),
      progress.skippedChecks)

/-- The managers of the dataset-level checks before the first one that may change the rows. -/
def inputManagers (ruleSetFingerprint : Text) (df : DataFrame V) (checks : List (DQRule V)) :
    InputManagers V :=
  ((checks.takeWhile DQRule.keepsInputRows).filter DQRule.isDataset |>.map fun check =>
    (check.id, engine.buildManager ruleSetFingerprint df check df df)).filter
      fun entry => (entry.2.skipMessage session).isEmpty

/-- The aggregates of the managers, one for every check. -/
def sharedAggregates (managers : InputManagers V) : List (DatasetAggregate V) :=
  (managers.map Prod.fst).dedup.filterMap fun id =>
    (managers.lookup id).bind (·.datasetAggregate session)

/-- `apply_checks`, up to the observation of metrics. -/
def applyChecks (ruleSetFingerprint : Text) (df : DataFrame V) (checks : List (DQRule V)) :
    Except EngineError (DataFrame V × List Text) := do
  engine.validateResultColumnCollisions df
  if checks.isEmpty then
    pure (df.selectAlso [(engine.errors, .results none), (engine.warnings, .results none)], [])
  else
    let warningChecks := getCheckColumns checks warn
    let errorChecks := getCheckColumns checks error
    let managers := engine.inputManagers session ruleSetFingerprint df (errorChecks ++ warningChecks)
    let shared := sharedAggregates session managers
    let sharedDf ← addDatasetAggregates df df shared
    let (errorsDf, skippedErrors) ← engine.createResultsArray session ruleSetFingerprint sharedDf
      errorChecks engine.errors df managers
    let (warningsDf, skippedWarnings) ← engine.createResultsArray session ruleSetFingerprint errorsDf
      warningChecks engine.warnings df managers
    pure (warningsDf.drop (shared.map (·.metricCol)), skippedErrors ++ skippedWarnings)

/-- `F.col(…).isNotNull()` of a result column. -/
def hasResults (column : Text) : Expr V Bool :=
  (Column.col column).map fun cell =>
    match cell with
    | .results entries => entries.isSome
    | _ => true

def getInvalid (df : DataFrame V) : Except EngineError (DataFrame V) :=
  analyzed (df.filterRows (((hasResults engine.errors).zip (hasResults engine.warnings)).map
    fun values => values.1 || values.2))

def getValid (df : DataFrame V) : Except EngineError (DataFrame V) := do
  let valid ← analyzed (df.filterRows ((hasResults engine.errors).map (!·)))
  pure (valid.drop [engine.errors, engine.warnings])

def applyChecksAndSplit (ruleSetFingerprint : Text) (df : DataFrame V) (checks : List (DQRule V)) :
    Except EngineError (DataFrame V × DataFrame V) := do
  let (checkedDf, _) ← engine.applyChecks session ruleSetFingerprint df checks
  let goodDf ← engine.getValid checkedDf
  let badDf ← engine.getInvalid checkedDf
  pure (goodDf, badDf)

end DQEngineCore

end Dqx.Engine
