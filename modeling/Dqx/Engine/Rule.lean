import Dqx.Lib.Tabular
import Dqx.Utils.Quoting

/-! Rules as the engine applies them: their check columns, filters and messages, the condition and
the closure of their check function, and the entries that they leave in the result columns. -/

namespace Dqx.Engine

open Lib Lib.Sql Lib.Tabular Utils

/-- `dq_result_item_schema` -/
structure ResultItem where
  name : Text
  message : Option Text
  columns : Option (List Text)
  filter : Option Text
  function : Text
  runTime : Int
  runId : Text
  userMetadata : List (Text × Text)
  ruleFingerprint : Text
  ruleSetFingerprint : Text
  skipped : Option Bool
  deriving DecidableEq, Repr

/-- What a row has in a column: a value of the data, or what the engine puts there. -/
inductive Cell (V : Type) where
  | value (v : V)
  | results (entries : Option (List ResultItem))
  | array (cells : List (Cell V))

abbrev DataFrame (V : Type) := Frame Text (Cell V)

/-- `pyspark.sql.Column` -/
abbrev Expr (V α : Type) := Column Text (Cell V) α

inductive EngineError where
  | analysis
  | invalidParameter (message : Text)
  | invalidCheck (message : Text)
  | unsafeSqlQuery
  deriving DecidableEq, Repr

/-- An operation of Spark that fails only when a name cannot be resolved. -/
def analyzed {α : Type} : Option α → Except EngineError α
  | some a => .ok a
  | none => .error .analysis

/-- What the engine needs of Spark and of Python. -/
structure Session (V : Type) where
  /-- `F.expr`; `none` where the text is not an expression, which Spark says when it is used. -/
  expr : Text → Option (Expr V (Cell V))
  /-- A cell as a condition; `none` for NULL. -/
  truth : Cell V → Option Bool
  /-- A cell cast to a string. -/
  string : Cell V → Option Text
  currentTimestamp : Int
  unicode : Unicode
  /-- `repr` of a list of strings. -/
  listRepr : List Text → Text
  /-- `str(n)` -/
  number : Nat → Text
  isDltPipeline : Bool
  /-- `\s` -/
  isSpace : Char → Bool

/-- `str | Column` -/
inductive CheckColumn (V : Type) where
  | text (column : Text)
  | column (name : Text) (expr : Expr V (Cell V))

/-- An aggregate expression over all rows of a table. -/
structure Aggregation (V : Type) where
  reads : List Text
  eval : List (Text → Cell V) → Cell V

/-- `DatasetAggregate` -/
structure DatasetAggregate (V : Type) where
  metricCol : Text
  /-- What `_validate_aggregate_return_type` says, which a curated aggregate is not asked. -/
  returnType : Except EngineError Unit
  buildExpression : Except EngineError (Aggregation V)
  conditionCol : Text
  conditionResult : Expr V (Cell V)

def DatasetAggregate.addCondition {V : Type} (aggregate : DatasetAggregate V) (df : DataFrame V) :
    Except EngineError (DataFrame V) :=
  analyzed (df.withColumn aggregate.conditionCol aggregate.conditionResult)

section Aggregates

variable {V : Type}

/-- The metric of an aggregate over the rows of the input. -/
def DatasetAggregate.metric (inputDf : DataFrame V) (aggregate : DatasetAggregate V) :
    Except EngineError (Text × Cell V) := do
  let expression ← aggregate.buildExpression
  if expression.reads.all (inputDf.columns.count · = 1) then
    pure (aggregate.metricCol, expression.eval inputDf.rows)
  else throw .analysis

def addDatasetAggregates (df inputDf : DataFrame V) (aggregates : List (DatasetAggregate V)) :
    Except EngineError (DataFrame V) :=
  if aggregates.isEmpty then pure df
  else do
    let metrics ← aggregates.mapM (DatasetAggregate.metric inputDf)
    aggregates.forM (·.returnType)
    pure (df.crossJoin metrics)

end Aggregates

/-- The closure of a dataset-level check, with the reference tables and the cache it was given. -/
inductive Closure (V : Type) where
  | aggregate (shared : DatasetAggregate V)
  | custom (run : DataFrame V → DataFrame V → Except EngineError (DataFrame V))

/-- The closure on `df`, with `inputDf` as the untouched input. -/
def Closure.apply {V : Type} (closure : Closure V) (df inputDf : DataFrame V) :
    Except EngineError (DataFrame V) :=
  match closure with
  | .aggregate shared => do
    let joined ← addDatasetAggregates df inputDf [shared]
    shared.addCondition joined
  | .custom run => run df inputDf

/-- What a check function returns. -/
inductive Body (V : Type) where
  | row (condition : Expr V (Option Text))
  | dataset (condition : Expr V (Option Text)) (closure : Closure V) (infoColumnName : Option Text)

def Body.condition {V : Type} : Body V → Expr V (Option Text)
  | .row condition => condition
  | .dataset condition _ _ => condition

def Body.isDataset {V : Type} : Body V → Bool
  | .row _ => false
  | .dataset _ _ _ => true

/-- `DQRule`, with what its check function returns when it is given these original columns. -/
structure DQRule (V : Type) where
  /-- `id(check)` -/
  id : Nat
  /-- `isinstance(check, DQDatasetRule)` -/
  isDataset : Bool
  rowPreserving : Bool
  /-- The check function is registered for original columns, and has been given none. -/
  needsOriginalColumns : Bool
  checkFunc : Text
  name : Text
  criticality : Text
  /-- The column or the columns. -/
  columns : Option (List (CheckColumn V))
  filter : Option Text
  rowFilter : Option Text
  messageExpr : Option (Text ⊕ Expr V (Cell V))
  /-- The expression of a `sql_expression` check. -/
  expression : Option Text
  userMetadata : Option (List (Text × Text))
  ruleFingerprint : Text
  body : Option (List Text) → Body V
  isDataset_body : ∀ given, (body given).isDataset = isDataset

namespace DQRule

variable {V : Type}

/-- A text that Python takes for true. -/
def truthy (text : Option Text) : Option Text := text.filter fun chars => !chars.isEmpty

def effectiveFilter (check : DQRule V) : Option Text :=
  match truthy check.filter with
  | some filter => some filter
  | none => check.rowFilter

/-- `_keeps_input_rows` -/
def keepsInputRows (check : DQRule V) : Bool := !check.isDataset || check.rowPreserving

end DQRule

end Dqx.Engine
