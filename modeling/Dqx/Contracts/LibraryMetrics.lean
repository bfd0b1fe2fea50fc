import Mathlib.Algebra.Order.Field.Rat
import Dqx.Utils.Template

/-! The checks that are built for the library metrics of a data contract. -/

namespace Dqx.Contracts

open Lib.Sql (Text)
open Utils

/-- A number: its value, and what `str` writes. -/
structure Number where
  value : ℚ
  isFloat : Bool
  text : Text
  numeral : isNumeral text = true

/-- A value in a contract. -/
inductive Raw where
  | null
  | bool (value : Bool)
  | number (value : Number)
  | text (value : Text)
  | list (items : List Raw)
  | mapping (entries : List (Text × Raw))

/-- A value that can be written as a SQL literal. -/
inductive Scalar where
  | bool (value : Bool)
  | number (value : Number)
  | text (value : Text)

inductive Field where
  | mustBe
  | mustNotBe
  | mustBeGreaterOrEqualTo
  | mustBeLessOrEqualTo
  | mustBeGreaterThan
  | mustBeLessThan
  | mustBeBetween
  | mustNotBeBetween
  deriving DecidableEq

def thresholdFields : List Field :=
  [.mustBe, .mustNotBe, .mustBeGreaterOrEqualTo, .mustBeLessOrEqualTo, .mustBeGreaterThan,
    .mustBeLessThan, .mustBeBetween, .mustNotBeBetween]

def Field.name : Field → Text
  | .mustBe => "mustBe".toList
  | .mustNotBe => "mustNotBe".toList
  | .mustBeGreaterOrEqualTo => "mustBeGreaterOrEqualTo".toList
  | .mustBeLessOrEqualTo => "mustBeLessOrEqualTo".toList
  | .mustBeGreaterThan => "mustBeGreaterThan".toList
  | .mustBeLessThan => "mustBeLessThan".toList
  | .mustBeBetween => "mustBeBetween".toList
  | .mustNotBeBetween => "mustNotBeBetween".toList

def Field.isRange : Field → Bool
  | .mustBeBetween | .mustNotBeBetween => true
  | _ => false

/-- The dataset-level checks of an aggregate. -/
inductive AggregateFunction where
  | isAggrEqual
  | isAggrNotEqual
  | isAggrNotLessThan
  | isAggrNotGreaterThan

def aggregateFunctions : Field → Option AggregateFunction
  | .mustBe => some .isAggrEqual
  | .mustNotBe => some .isAggrNotEqual
  | .mustBeGreaterOrEqualTo => some .isAggrNotLessThan
  | .mustBeLessOrEqualTo => some .isAggrNotGreaterThan
  | _ => none

inductive Comparison where
  | ne | eq | lt | gt | le | ge

def Comparison.text : Comparison → Text
  | .ne => "<>".toList
  | .eq => "=".toList
  | .lt => "<".toList
  | .gt => ">".toList
  | .le => "<=".toList
  | .ge => ">=".toList

/-- The comparison that holds when a value violates a threshold. -/
def violationOperators : Field → Option Comparison
  | .mustBe => some .ne
  | .mustNotBe => some .eq
  | .mustBeGreaterOrEqualTo => some .lt
  | .mustBeLessOrEqualTo => some .gt
  | .mustBeGreaterThan => some .le
  | .mustBeLessThan => some .ge
  | .mustBeBetween | .mustNotBeBetween => none

/-- An entry of the quality section. -/
structure Entry where
  metric : Option Text
  rule : Option Text
  /-- The threshold fields: null where the entry has none. -/
  threshold : Field → Raw
  unit : Option Text
  arguments : Raw
  rowFilter : Option Text

/-- Where an entry stands in the contract. -/
structure MetricTarget where
  schemaName : Text
  propertyName : Option Text

def maxSqlInteger : ℚ := 10 ^ 38

def isSqlNumber (number : Number) : Bool :=
  number.isFloat || |number.value| < maxSqlInteger

/-- What the generator calls: Python's reading of numbers, and the inspection of patterns. -/
structure Host where
  unicode : Unicode
  parseNumber : Text → Option Number
  /-- Whether there is a problem with a pattern. -/
  patternProblem : Text → Bool

variable (host : Host)

def asNumber : Raw → Option Number
  | .text text => (host.parseNumber text).filter isSqlNumber
  | .number number => if isSqlNumber number then some number else none
  | _ => none

structure Threshold where
  field : Field
  value : Option Number
  bounds : Option (Number × Number)

def asBounds : Raw → Option (Number × Number)
  | .list [low, high] =>
    match asNumber host low, asNumber host high with
    | some low, some high => if low.value > high.value then none else some (low, high)
    | _, _ => none
  | _ => none

/-- The threshold of one field, if the entry has one and it is valid. -/
def resolveThreshold (entry : Entry) (field : Field) : Option Threshold :=
  if field.isRange then
    (asBounds host (entry.threshold field)).map fun bounds => ⟨field, none, some bounds⟩
  else (asNumber host (entry.threshold field)).map fun value => ⟨field, some value, none⟩

def resolveThresholds (entry : Entry) : List Threshold :=
  thresholdFields.filterMap (resolveThreshold host entry)

namespace Threshold

def isZeroMustBe (threshold : Threshold) : Bool :=
  threshold.field = .mustBe && threshold.value.any (·.value = 0)

def aggregateFunction (threshold : Threshold) : Option AggregateFunction :=
  aggregateFunctions threshold.field

/-- A condition that holds when a measure violates the threshold. -/
def violationSql (threshold : Threshold) (measure : Text) : Text :=
  match threshold.bounds with
  | some (low, high) =>
    let within := measure ++ " >= ".toList ++ low.text ++ " AND ".toList ++ measure ++
      " <= ".toList ++ high.text
    if threshold.field = .mustNotBeBetween then "(".toList ++ within ++ ")".toList
    else "NOT (".toList ++ within ++ ")".toList
  | none =>
    measure ++ " ".toList ++ ((violationOperators threshold.field).elim [] Comparison.text) ++
      " ".toList ++ (threshold.value.elim "None".toList Number.text)

end Threshold

def sqlIdentifier (columnPath : Text) : Text :=
  ['.'].intercalate ((columnPath.splitOn '.').map quoteColumnName)

def sqlLiteral : Scalar → Text
  | .bool value => if value then "TRUE".toList else "FALSE".toList
  | .number number => number.text
  | .text value => '\'' :: (escapeSqlStringLiteral value ++ ['\''])

/-- An entry of the list that a check compares with: a string is read as an expression. -/
def inListLiteral : Scalar → Raw
  | .bool value => .bool value
  | .number number => .number number
  | .text value => .text (sqlLiteral (.text value))

/-- Which rows are bad, as a condition in SQL. -/
inductive Predicate where
  | isNull (column : Text)
  | isIn (column : Text) (values : List Scalar)
  | notIn (column : Text) (values : List Scalar)
  | notRlike (column : Text) (pattern : Text)
  | or (a b : Predicate)

def Predicate.sql : Predicate → Text
  | .isNull column => sqlIdentifier column ++ " IS NULL".toList
  | .isIn column values =>
    sqlIdentifier column ++ " IN (".toList ++ ", ".toList.intercalate (values.map sqlLiteral) ++
      ")".toList
  | .notIn column values =>
    sqlIdentifier column ++ " NOT IN (".toList ++ ", ".toList.intercalate (values.map sqlLiteral) ++
      ")".toList
  | .notRlike column pattern =>
    "NOT (".toList ++ sqlIdentifier column ++ " RLIKE ".toList ++ sqlLiteral (.text pattern) ++
      ")".toList
  | .or a b => a.sql ++ " OR ".toList ++ b.sql

/-- How the value of a metric is computed. -/
inductive Measure where
  | rowCount
  | badRows (predicate : Predicate)
  | duplicateValues (keyColumns : List Text)

inductive AggregateColumn where
  | star
  | indicator (predicate : Predicate)
  | percentage (predicate : Predicate)

def AggregateColumn.text : AggregateColumn → Text
  | .star => "*".toList
  | .indicator predicate => "(CASE WHEN ".toList ++ predicate.sql ++ " THEN 1 END)".toList
  | .percentage predicate =>
    "(CASE WHEN ".toList ++ predicate.sql ++ " THEN 100.0 ELSE 0.0 END)".toList

inductive AggrType where
  | count | avg

def percent : Text := "percent".toList

def inputView : Text := "\x7b\x7b input_view \x7d\x7d".toList

namespace Measure

def aggregateArguments (measure : Measure) (unit : Text) : Option (AggregateColumn × AggrType) :=
  match measure with
  | .rowCount => some (.star, .count)
  | .badRows predicate =>
    if unit = percent then some (.percentage predicate, .avg)
    else some (.indicator predicate, .count)
  | .duplicateValues _ => none

/-- The number of groups with several rows. -/
def duplicateCount (keyColumns : List Text) (view : Text) : Text :=
  let quoted := keyColumns.map sqlIdentifier
  let notNull :=
    " AND ".toList.intercalate (quoted.map fun column => column ++ " IS NOT NULL".toList)
  "(SELECT COUNT(*) FROM (SELECT 1 FROM ".toList ++ view ++ " WHERE ".toList ++ notNull ++
    " GROUP BY ".toList ++ ", ".toList.intercalate quoted ++
    " HAVING COUNT(*) > 1) AS dqx_dup_groups)".toList

/-- A query for whether the measure of a view's rows violates a threshold. -/
def conditionQuery (measure : Measure) (unit : Text) (threshold : Threshold) (view : Text) : Text :=
  match measure with
  | .rowCount =>
    "SELECT ".toList ++ threshold.violationSql "COUNT(*)".toList ++ " AS condition FROM ".toList ++
      view
  | .badRows predicate =>
    let value :=
      if unit = percent then
        "COALESCE(AVG(CASE WHEN ".toList ++ predicate.sql ++
          " THEN 100.0 ELSE 0.0 END), 0.0)".toList
      else "COUNT(CASE WHEN ".toList ++ predicate.sql ++ " THEN 1 END)".toList
    "SELECT ".toList ++ threshold.violationSql value ++ " AS condition FROM ".toList ++ view
  | .duplicateValues keyColumns =>
    let duplicates := duplicateCount keyColumns view
    let value :=
      if unit = percent then
        "COALESCE(100.0 * ".toList ++ duplicates ++ " / NULLIF((SELECT COUNT(*) FROM ".toList ++
          view ++ "), 0), 0.0)".toList
      else duplicates
    "SELECT ".toList ++ threshold.violationSql value ++ " AS condition".toList

end Measure

/-- A check function and its arguments. -/
inductive Check where
  | isNotNull (column : Text)
  | isInList (column : Text) (allowed : List Raw) (caseSensitive : Bool)
  | isNotInList (column : Text) (forbidden : List Raw) (caseSensitive : Bool)
  | regexMatch (column : Text) (regex : Text)
  | isUnique (columns : List Text)
  | isAggr (function : AggregateFunction) (column : AggregateColumn) (aggrType : AggrType)
      (limit : Option Number)
  | sqlQuery (query : Text)

structure MetricPlan where
  measure : Measure
  /-- The row-level checks that are used where no row must be bad. -/
  zeroChecks : List (Text × Check)

inductive LibraryMetric where
  | rowCount
  | nullValues
  | missingValues
  | invalidValues
  | duplicateValues
  deriving DecidableEq

namespace LibraryMetric

def name : LibraryMetric → Text
  | .rowCount => "rowCount".toList
  | .nullValues => "nullValues".toList
  | .missingValues => "missingValues".toList
  | .invalidValues => "invalidValues".toList
  | .duplicateValues => "duplicateValues".toList

def all : List LibraryMetric :=
  [.rowCount, .nullValues, .missingValues, .invalidValues, .duplicateValues]

def units : LibraryMetric → List Text
  | .rowCount => ["rows".toList]
  | _ => ["rows".toList, percent]

def allowsSchemaLevel : LibraryMetric → Bool
  | .rowCount | .duplicateValues => true
  | _ => false

def allowsPropertyLevel : LibraryMetric → Bool
  | .rowCount => false
  | _ => true

end LibraryMetric

def Raw.get? (key : Text) : Raw → Option Raw
  | .mapping entries => entries.lookup key
  | _ => none

def Raw.asScalar : Raw → Option Scalar
  | .bool value => some (.bool value)
  | .number n => if isSqlNumber n then some (.number n) else none
  | .text value => some (.text value)
  | _ => none

/-- An entry of a list of scalars: null stands for itself, where it may stand at all. -/
def readScalar (allowNull : Bool) : Raw → Option (Option Scalar)
  | .null => if allowNull then some none else none
  | item => item.asScalar.map some

def readScalarList (arguments : Raw) (key : Text) (allowNull : Bool) :
    Option (List (Option Scalar)) :=
  match arguments.get? key with
  | some (.list items) => if items.isEmpty then none else items.mapM (readScalar allowNull)
  | _ => none

def readPattern (arguments : Raw) : Option Text :=
  match arguments.get? "pattern".toList with
  | some (.text pattern) =>
    if pattern.isEmpty || host.patternProblem pattern then none else some pattern
  | _ => none

def readProperty : Raw → Option Text
  | .text name => if name.isEmpty then none else some name
  | _ => none

/-- The names of the columns of a composite key. -/
def readProperties (arguments : Raw) : Option (List Text) :=
  match arguments.get? "properties".toList with
  | some (.list items) => if items.isEmpty then none else items.mapM readProperty
  | _ => none

namespace LibraryMetric

def nullValuesPlan (column : Text) : MetricPlan :=
  { measure := .badRows (.isNull column)
    zeroChecks := [([], .isNotNull column)] }

def missingValuesPlan (column : Text) (sentinels : List (Option Scalar)) : MetricPlan :=
  let nonNull := sentinels.filterMap id
  if nonNull.isEmpty then
    { measure := .badRows (.isNull column)
      zeroChecks := [("null".toList, .isNotNull column)] }
  else
    { measure := .badRows (.or (.isNull column) (.isIn column nonNull))
      zeroChecks := [("null".toList, .isNotNull column),
        ("sentinel".toList, .isNotInList column (nonNull.map inListLiteral) true)] }

def invalidValuesPlan (column : Text) (validValues : Option (List Scalar))
    (pattern : Option Text) : Option MetricPlan :=
  let allowed (values : List Scalar) : Text × Check :=
    ("allowed".toList, .isInList column (values.map inListLiteral) true)
  let matching (pattern : Text) : Text × Check := ("pattern".toList, .regexMatch column pattern)
  match validValues, pattern with
  | none, none => none
  | some values, none => some ⟨.badRows (.notIn column values), [allowed values]⟩
  | none, some pattern => some ⟨.badRows (.notRlike column pattern), [matching pattern]⟩
  | some values, some pattern =>
    some ⟨.badRows (.or (.notIn column values) (.notRlike column pattern)),
      [allowed values, matching pattern]⟩

def duplicateValuesPlan (keyColumns : List Text) : MetricPlan :=
  { measure := .duplicateValues keyColumns
    zeroChecks := [([], .isUnique keyColumns)] }

/-- The valid values of an entry: none where they are not usable. -/
def validValues (arguments : Raw) : Option (List Scalar) :=
  (readScalarList arguments "validValues".toList false).map fun values => values.filterMap id

def plan (metric : LibraryMetric) (entry : Entry) (target : MetricTarget) : Option MetricPlan :=
  let column := target.propertyName.getD []
  match metric with
  | .rowCount => some ⟨.rowCount, []⟩
  | .nullValues => some (nullValuesPlan column)
  | .missingValues =>
    (readScalarList entry.arguments "missingValues".toList true).map (missingValuesPlan column)
  | .invalidValues =>
    invalidValuesPlan column (validValues entry.arguments) (readPattern host entry.arguments)
  | .duplicateValues =>
    match target.propertyName with
    | some name => some (duplicateValuesPlan [name])
    | none => (readProperties entry.arguments).map duplicateValuesPlan

end LibraryMetric

structure Rule where
  check : Check
  name : Text
  filter : Option Text

def usesZeroChecks (threshold : Threshold) (plan : MetricPlan) : Bool :=
  threshold.isZeroMustBe && !plan.zeroChecks.isEmpty

/-- The check of a threshold: that of an aggregate where it fits, a query elsewhere. -/
def thresholdCheck (measure : Measure) (unit : Text) (threshold : Threshold) : Option Check :=
  match threshold.aggregateFunction, measure.aggregateArguments unit with
  | some function, some (column, aggrType) =>
    some (.isAggr function column aggrType threshold.value)
  | _, _ =>
    let query := measure.conditionQuery unit threshold inputView
    if isSqlQuerySafe host.unicode query then some (.sqlQuery query) else none

/-- The name that the rules of a target begin with. -/
def MetricTarget.subject (target : MetricTarget) : Text :=
  match target.propertyName with
  | some (c :: name) => c :: name
  | _ => target.schemaName

def buildForThreshold (entry : Entry) (metric : LibraryMetric) (target : MetricTarget)
    (threshold : Threshold) (plan : MetricPlan) (unit : Text) : List Rule :=
  let baseName := target.subject ++ "_".toList ++ metric.name ++ "_".toList ++ threshold.field.name
  if usesZeroChecks threshold plan then
    plan.zeroChecks.map fun (suffix, check) =>
      ⟨check, if suffix.isEmpty then baseName else baseName ++ "_".toList ++ suffix, entry.rowFilter⟩
  else
    match thresholdCheck host plan.measure unit threshold with
    | some check => [⟨check, baseName, entry.rowFilter⟩]
    | none => []

/-- The first of two texts that is there and not empty. -/
def firstText (a b : Option Text) : Option Text :=
  match a with
  | some (c :: text) => some (c :: text)
  | _ => b

def resolveMetric (entry : Entry) : Option LibraryMetric :=
  LibraryMetric.all.find? fun metric => firstText entry.metric entry.rule = some metric.name

def Entry.unitName (entry : Entry) : Text :=
  (firstText entry.unit none).getD "rows".toList

/-- The rules of an entry. -/
def build (entry : Entry) (target : MetricTarget) : List Rule :=
  match resolveMetric entry with
  | none => []
  | some metric =>
    let allowed :=
      if target.propertyName.isNone then metric.allowsSchemaLevel else metric.allowsPropertyLevel
    let thresholds := resolveThresholds host entry
    if !allowed || thresholds.isEmpty then []
    else
      match metric.plan host entry target with
      | none => []
      | some plan =>
        let known := metric.units.contains entry.unitName
        -- no rows and no percentage are the same, whatever the unit is
        let thresholds := if known then thresholds else thresholds.filter (usesZeroChecks · plan)
        let unit := if known then entry.unitName else "rows".toList
        thresholds.flatMap fun threshold =>
          buildForThreshold host entry metric target threshold plan unit

end Dqx.Contracts
