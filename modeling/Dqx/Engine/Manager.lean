import Dqx.Engine.Rule
import Mathlib.Data.List.ReduceOption
import Dqx.Materializer.Substitution

/-! `DQRuleManager`: which checks are skipped, and the condition that a check leaves in the result
columns. -/

namespace Dqx.Engine

open Lib Lib.Sql Lib.Tabular Utils

variable {V : Type}

/-- What the engine tells every manager of a run. -/
structure Settings where
  engineUserMetadata : List (Text × Text)
  runTimeOverwrite : Option Int
  runId : Text
  suppressSkipped : Bool

structure DQRuleManager (V : Type) where
  check : DQRule V
  /-- What the check function returns for the check. -/
  body : Body V
  df : DataFrame V
  inputDf : DataFrame V
  ruleFingerprint : Text
  ruleSetFingerprint : Text

/-- `DQCheckResult` -/
structure DQCheckResult (V α : Type) where
  condition : Expr V α
  checkDf : DataFrame V
  infoColumnName : Option Text

/-- `name.replace("\r", "\\r").replace("\n", "\\n")` -/
def sanitizeForLogging (value : Text) : Text :=
  replaceChar '\n' ['\\', 'n'] (replaceChar '\r' ['\\', 'r'] value)

/-- `INVALID_COLUMN_NAME_PATTERN` matches none of the text. -/
def isSimpleColumnExpression (isSpace : Char → Bool) (column : Text) : Bool :=
  column.all fun c => !(isSpace c || c ∈ [',', ';', '{', '}', '(', ')', '\n', '\t', '='])

/-- `get_column_name_or_alias` -/
def CheckColumn.name : CheckColumn V → Text
  | .text name => unquoteColumnName name
  | .column name _ => name

/-- The expression that a check column is executed as. -/
def Session.checkColumn (session : Session V) : CheckColumn V → Option (Expr V (Cell V))
  | .text name => session.expr (normalizeColumnExpr name)
  | .column _ expr => some expr

def Session.column (session : Session V) : Text ⊕ Expr V (Cell V) → Option (Expr V (Cell V))
  | .inl text => session.expr text
  | .inr expr => some expr

namespace DQRuleManager

variable (session : Session V) (settings : Settings) (manager : DQRuleManager V)

/-- `(engine_user_metadata or {}) | check.user_metadata` -/
def userMetadata : List (Text × Text) :=
  (manager.check.userMetadata.getD []).foldl
    (fun merged entry => Materializer.setArgument entry.1 entry.2 merged)
    settings.engineUserMetadata

def displayColumnName (column : CheckColumn V) : Text :=
  let name := column.name
  if isSimpleColumnExpression session.isSpace name || (name.head? = some '`' && name.getLast? = some '`')
  then name
  else quoteColumnName name

def resolves (df : DataFrame V) (expr : Option (Expr V (Cell V))) : Bool :=
  expr.any fun column => column.resolves df.columns

def isInvalidCheckColumn (column : CheckColumn V) : Bool :=
  !resolves manager.inputDf (session.checkColumn column)

def isInvalidColumn (column : Text ⊕ Expr V (Cell V)) : Bool :=
  !resolves manager.df (session.column column)

def invalidColumns : List Text :=
  ((manager.check.columns.getD []).filter (manager.isInvalidCheckColumn session)).map
    (displayColumnName session)

def hasUnsafeFilter : Bool :=
  (DQRule.truthy manager.check.effectiveFilter).any fun filter =>
    !isSqlQuerySafe session.unicode filter

/-- `safe_filter_expr` of a filter that is not unsafe. -/
def filterExpr (filter : Option Text) : Option (Expr V (Option Bool)) :=
  match DQRule.truthy filter with
  | none => some (.lit (some true))
  | some text => (session.expr text).map fun column => column.map session.truth

def hasInvalidFilter : Bool :=
  manager.hasUnsafeFilter session ||
    !(filterExpr session manager.check.effectiveFilter).any fun column =>
      column.resolves manager.df.columns

def hasInvalidCustomMessage : Bool :=
  manager.check.messageExpr.any (manager.isInvalidColumn session)

def invalidSqlExpression : Option Text :=
  DQRule.truthy (manager.check.expression.filter fun text => manager.isInvalidColumn session (.inl text))

def isSkipped : Bool :=
  !(manager.invalidColumns session).isEmpty || manager.hasInvalidFilter session ||
    manager.hasInvalidCustomMessage session || (manager.invalidSqlExpression session).isSome

def skippedDueTo (reason : Text) : Text := "Check evaluation skipped due to ".toList ++ reason

def quoted (text : Text) : Text := '\'' :: text ++ ['\'']

def columnsPart : Option Text :=
  if (manager.invalidColumns session).isEmpty then none
  else some (skippedDueTo ("invalid check columns: ".toList ++
    session.listRepr (manager.invalidColumns session)))

def filterPart : Option Text :=
  let safeFilter := quoted (sanitizeForLogging (manager.check.effectiveFilter.getD []))
  if manager.hasUnsafeFilter session then
    some (skippedDueTo ("unsafe check filter: ".toList ++ safeFilter))
  else if manager.hasInvalidFilter session then
    some (skippedDueTo ("invalid check filter: ".toList ++ safeFilter))
  else none

def customMessageDetail : Text :=
  match manager.check.messageExpr with
  | some (.inl text) => ": ".toList ++ quoted text
  | _ => []

def messagePart : Option Text :=
  if manager.hasInvalidCustomMessage session then
    some (skippedDueTo ("invalid custom message expression".toList ++ manager.customMessageDetail))
  else none

def expressionPart : Option Text :=
  (manager.invalidSqlExpression session).map fun text =>
    skippedDueTo ("invalid sql expression: ".toList ++ quoted text)

/-- The parts of `_get_invalid_cols_message`. -/
def skipParts : List Text :=
  [manager.columnsPart session, manager.filterPart session, manager.messagePart session,
    manager.expressionPart session].reduceOption

def skipMessage : Text := "; ".toList.intercalate (manager.skipParts session)

/-- The names of the check columns, as the entries show them. -/
def columnNames : Option (List Text) := manager.check.columns.map (·.map CheckColumn.name)

def resultItem (message : Option Text) (skipped : Bool) : ResultItem where
  name := manager.check.name
  message := message
  columns := manager.columnNames
  filter := DQRule.truthy manager.check.filter
  function := manager.check.checkFunc
  runTime := settings.runTimeOverwrite.getD session.currentTimestamp
  runId := settings.runId
  userMetadata := manager.userMetadata settings
  ruleFingerprint := manager.ruleFingerprint
  ruleSetFingerprint := manager.ruleSetFingerprint
  skipped := if skipped then some true else none

def maxMessageLength : Nat := 500

/-- `_build_message_col` of a check that is not skipped. -/
def buildMessageCol (condition : Expr V (Option Text)) : Except EngineError (Expr V (Option Text)) :=
  match manager.check.messageExpr with
  | none => .ok condition
  | some messageExpr => do
    let expr ← analyzed (session.column messageExpr)
    pure ((condition.zip expr).map fun values =>
      values.1.bind fun _ => (session.string values.2).map (·.take maxMessageLength))

/-- `_wrap_result` -/
def wrapResult (raw : DQCheckResult V (Option Text)) :
    Except EngineError (DQCheckResult V (Option ResultItem)) := do
  let message ← manager.buildMessageCol session raw.condition
  let filter ← analyzed (filterExpr session manager.check.filter)
  pure
    { condition := (filter.zip (raw.condition.zip message)).map fun values =>
        if values.1 = some true ∧ values.2.1.isSome then
          some (manager.resultItem session settings values.2.2 false)
        else none
      checkDf := raw.checkDf
      infoColumnName := raw.infoColumnName }

/-- `executor.apply` -/
def execute (df : DataFrame V) : Except EngineError (DQCheckResult V (Option Text)) :=
  match manager.body with
  | .row condition => .ok ⟨condition, df, none⟩
  | .dataset condition closure info => do
    let checkDf ← closure.apply df manager.inputDf
    pure ⟨condition, checkDf, info⟩

/-- The aggregate of a built-in aggregate check that is not skipped. -/
def datasetAggregate : Option (DatasetAggregate V) :=
  if !manager.check.isDataset || !(manager.skipMessage session).isEmpty then none
  else match manager.body with
    | .dataset _ (.aggregate aggregate) _ => some aggregate
    | _ => none

def process (df : DataFrame V) (aggregateAdded : Bool) :
    Except EngineError (DQCheckResult V (Option ResultItem)) :=
  if !(manager.skipMessage session).isEmpty then
    let entry := manager.resultItem session settings (some (manager.skipMessage session)) true
    .ok ⟨.lit (if settings.suppressSkipped then none else some entry), df, none⟩
  else do
    let raw ← match aggregateAdded, manager.datasetAggregate session with
      | true, some aggregate => do
        let checkDf ← aggregate.addCondition df
        pure ⟨manager.body.condition, checkDf, none⟩
      | _, _ => manager.execute df
    manager.wrapResult session settings raw

end DQRuleManager

end Dqx.Engine
