import Dqx.Lib.SqlValue
import Dqx.Utils.ColumnPath
import Dqx.Contracts.LibraryMetrics

/-! What the checks of the library metrics report about the rows of a table. -/

namespace Dqx.Contracts

open Lib.Sql Utils

/-- What Spark reads of the rows, and of the texts that it is given. -/
structure Spark (Row V : Type) where
  /-- The value of a column, or of a field in it, unless it is NULL. -/
  cell : List Text → Row → Option V
  /-- Whether a value equals a literal. -/
  equals : V → Scalar → Truth
  equalsIgnoringCase : V → Scalar → Truth
  rlike : V → Text → Truth
  /-- The value of a condition, given by its text. -/
  filter : Text → Row → Truth
  /-- The condition that a query selects from the rows of a view, given by its name. -/
  query : Text → Text → List Row → Truth

variable {Row V : Type} (spark : Spark Row V)

/-- The value of a column reference. -/
def Spark.column (reference : Text) (row : Row) : Option V :=
  (columnPath reference).bind fun path => spark.cell path row

/-- The rows that a filter is true for. -/
def Spark.inScope (filter : Option Text) (row : Row) : Bool :=
  filter.all fun condition => spark.filter condition row = some true

def Spark.scope (filter : Option Text) (rows : List Row) : List Row :=
  rows.filter (spark.inScope filter)

/-- The string that an expression is the literal of. -/
def readLiteral (text : Text) : Option Text :=
  match lex text with
  | [.string '\'' content] => some (denotes content)
  | _ => none

/-- The literal that an entry of a list is read as. -/
def getLimitExpr : Raw → Option Scalar
  | .bool value => some (.bool value)
  | .number n => some (.number n)
  | .text value => (readLiteral value).map .text
  | _ => none

def Spark.isIn (value : Option V) (values : List (Option Scalar)) (caseSensitive : Bool) : Truth :=
  Truth.any (values.map fun s => value.bind fun v => s.bind fun s =>
    if caseSensitive then spark.equals v s else spark.equalsIgnoringCase v s)

def Spark.matches (value : Option V) (pattern : Text) : Truth := value.bind (spark.rlike · pattern)

namespace Predicate

def eval : Predicate → Row → Truth
  | .isNull column, row => some (spark.column (sqlIdentifier column) row).isNone
  | .isIn column values, row =>
    spark.isIn (spark.column (sqlIdentifier column) row) (values.map some) true
  | .notIn column values, row =>
    (spark.isIn (spark.column (sqlIdentifier column) row) (values.map some) true).not
  | .notRlike column pattern, row =>
    (spark.matches (spark.column (sqlIdentifier column) row) pattern).not
  | .or a b, row => (a.eval row).or (b.eval row)

end Predicate

def AggregateColumn.eval : AggregateColumn → Row → Option ℚ
  | .star, _ => some 1
  | .indicator predicate, row => caseWhen (predicate.eval spark row) (some 1)
  | .percentage predicate, row => some (if predicate.eval spark row = some true then 100 else 0)

def AggrType.eval : AggrType → List (Option ℚ) → Option ℚ
  | .count, column => some (Lib.Sql.count column)
  | .avg, column => Lib.Sql.avg column

def AggregateFunction.violates : AggregateFunction → ℚ → ℚ → Bool
  | .isAggrEqual, metric, limit => metric ≠ limit
  | .isAggrNotEqual, metric, limit => metric = limit
  | .isAggrNotLessThan, metric, limit => metric < limit
  | .isAggrNotGreaterThan, metric, limit => limit < metric

/-- The column that is aggregated: only the rows of a filter count. -/
def buildFilteredAggregateInput (filter : Option Text) (column : AggregateColumn) (row : Row) :
    Option ℚ :=
  match filter with
  | none => column.eval spark row
  | some condition => caseWhen (spark.filter condition row) (column.eval spark row)

def isAggrCompare (function : AggregateFunction) (column : AggregateColumn) (aggrType : AggrType)
    (limit : Option Number) (filter : Option Text) (rows : List Row) : Truth :=
  (aggrType.eval (rows.map (buildFilteredAggregateInput spark filter column))).bind fun metric =>
    limit.map fun limit => function.violates metric limit.value

/-- The condition of a row whose key columns must be unique. -/
def isUniqueCondition [DecidableEq V] (columns : List Text) (filter : Option Text)
    (rows : List Row) (row : Row) : Truth :=
  let key (row : Row) := columns.map fun column => spark.cell (column.splitOn '.') row
  let filterCondition (row : Row) : Truth :=
    Truth.and (filter.elim (some true) (spark.filter · row))
      (some ((key row).all Option.isSome))
  let windowCount :=
    (rows.filter fun r => key r = key row ∧ filterCondition r = some true).length
  (filterCondition row).and (some (decide (1 < windowCount)))

/-- Where a query runs: what makes the view of its rows unique, and the names of the reference
tables. -/
structure Run where
  unique : Text
  references : List (Text × Text)
  hex : (unique.all fun c => "0123456789abcdef".toList.contains c) = true

def viewPrefix : Text := "query_condition_violation_input_view_".toList

/-- The name of the view. -/
def Run.view (run : Run) : Text := viewPrefix ++ run.unique

/-- What a placeholder stands for. -/
def Run.values (run : Run) (name : Text) : Option Text :=
  (run.references.lookup name).orElse fun _ =>
    if name = "input_view".toList then some run.view else none

def sqlQueryCondition (unicode : Unicode) (run : Run) (query : Text) (filter : Option Text)
    (rows : List Row) : Truth :=
  let resolved := replaceTemplate query run.values
  if isSqlQuerySafe unicode query && isSqlQuerySafe unicode resolved then
    spark.query run.view resolved (spark.scope filter rows)
  else none

/-- The condition of a check: it is violated where it is true. -/
def Check.condition [DecidableEq V] (unicode : Unicode) (run : Run) (filter : Option Text)
    (rows : List Row) (check : Check) (row : Row) : Truth :=
  match check with
  | .isNotNull column => some (spark.column (normalizeColumnExpr column) row).isNone
  | .isInList column allowed caseSensitive =>
    (spark.isIn (spark.column (normalizeColumnExpr column) row) (allowed.map getLimitExpr)
      caseSensitive).not
  | .isNotInList column forbidden caseSensitive =>
    spark.isIn (spark.column (normalizeColumnExpr column) row) (forbidden.map getLimitExpr)
      caseSensitive
  | .regexMatch column regex =>
    (spark.matches (spark.column (normalizeColumnExpr column) row) regex).not
  | .isUnique columns => isUniqueCondition spark columns filter rows row
  | .isAggr function column aggrType limit =>
    isAggrCompare spark function column aggrType limit filter rows
  | .sqlQuery query => sqlQueryCondition spark unicode run query filter rows

/-- A rule reports a row of its filter where its check is violated. -/
def Rule.reports [DecidableEq V] (unicode : Unicode) (run : Run) (rule : Rule) (rows : List Row) :
    Prop :=
  ∃ row ∈ spark.scope rule.filter rows,
    rule.check.condition spark unicode run rule.filter rows row = some true

/-! ### The queries -/

def Comparison.holds : Comparison → ℚ → ℚ → Bool
  | .ne, a, b => a ≠ b
  | .eq, a, b => a = b
  | .lt, a, b => a < b
  | .gt, a, b => b < a
  | .le, a, b => a ≤ b
  | .ge, a, b => b ≤ a

/-- The value of the condition on a measure. -/
def Threshold.sqlCondition (threshold : Threshold) (measure : ℚ) : Truth :=
  match threshold.bounds with
  | some (low, high) =>
    let within : Truth :=
      Truth.and (some (Comparison.ge.holds measure low.value))
        (some (Comparison.le.holds measure high.value))
    if threshold.field = .mustNotBeBetween then within else within.not
  | none =>
    (violationOperators threshold.field).bind fun operator =>
      threshold.value.map fun value => operator.holds measure value.value

/-- The value of the measure that a query selects from the rows of its view. -/
def Measure.sqlValue [DecidableEq V] (measure : Measure) (unit : Text) (rows : List Row) : ℚ :=
  match measure with
  | .rowCount => count (rows.map fun _ => some ())
  | .badRows predicate =>
    if unit = percent then
      (avg (rows.map ((AggregateColumn.percentage predicate).eval spark))).getD 0
    else count (rows.map ((AggregateColumn.indicator predicate).eval spark))
  | .duplicateValues keyColumns =>
    let key (row : Row) := keyColumns.map fun column => spark.column (sqlIdentifier column) row
    let groups := Lib.groupCounts key (rows.filter fun row => (key row).all Option.isSome)
    let duplicates := (groups.filter fun group => 1 < group.2).length
    -- a division by no rows is NULL
    if unit = percent then if rows.length = 0 then 0 else 100 * duplicates / rows.length
    else duplicates

/-- Spark reads the query of a threshold as it is written. -/
def Spark.Reads [DecidableEq V] (run : Run) (measure : Measure) (unit : Text)
    (threshold : Threshold) : Prop :=
  ∀ rows, spark.query run.view (measure.conditionQuery unit threshold run.view) rows =
    threshold.sqlCondition (measure.sqlValue spark unit rows)

end Dqx.Contracts
