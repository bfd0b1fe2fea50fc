import Dqx.Lib.SqlLexer

/-! The low-code rules of the visual builder: rows of conditions, joins, and their vocabulary. -/

namespace Dqx.LowCode

open Lib.Sql (Text)

/-- A JSON value, whatever its numbers are. -/
inductive Json (ν : Type) where
  | null
  | bool (b : Bool)
  | num (n : ν)
  | str (s : Text)
  | list (items : List (Json ν))
  | obj (entries : List (Text × Json ν))

/-- An object's own field. -/
def Json.get {ν : Type} (entries : List (Text × Json ν)) (key : String) : Option (Json ν) :=
  entries.lookup key.toList

def Json.field {ν : Type} (entries : List (Text × Json ν)) (key : String) : Json ν :=
  (Json.get entries key).getD .null

/-- A condition row. A missing field is null. -/
structure Row (ν : Type) where
  kind : Json ν
  combinator : Json ν
  aggregate : Json ν
  columnRef : Json ν
  operator : Json ν
  value : Json ν
  aggregateParam : Json ν

/-- An element of the row list, which need not be an object. -/
inductive Entry (ν : Type) where
  | row (row : Row ν)
  | null
  | scalar

structure JoinKey (ν : Type) where
  joinedColumn : Json ν
  columnRef : Json ν

structure Join (ν : Type) where
  joinType : Json ν
  targetTable : Json ν
  keys : List (JoinKey ν)

structure Ast (ν : Type) where
  rows : List (Entry ν)
  joins : List (Join ν)

inductive Operator where
  | eq | ne | lt | le | gt | ge
  | equals | notEquals
  | contains | doesNotContain | startsWith | endsWith | matchesRegex
  | between | isIn | isNotIn
  | isNull | isNotNull | isTrue | isFalse
  | before | after | onOrBefore | onOrAfter | isInLast
  | isAValid | isNotAValid
  | hasOuterWhitespace | hasNoOuterWhitespace
  | hasLength | isLongerThan | isShorterThan | lengthBetween | isNotEmpty | isEmpty
  | doesNotMatchRegex | containsOnlyDigits | isUppercase | isLowercase | isAValidUuid | isAValidIpv4
  | isPositive | isNegative | isNonNegative | isAWholeNumber | isAMultipleOf
  | isInTheFuture | isInThePast | isToday
  | hasPositiveSentiment | hasNegativeSentiment
  | passesLuhnCheck
  deriving DecidableEq, Repr

/-- The operators and the names that a row gives them. -/
def operatorNames : List (String × Operator) :=
  [("=", .eq), ("!=", .ne), ("<", .lt), ("<=", .le), (">", .gt), (">=", .ge),
    ("equals", .equals), ("not equals", .notEquals),
    ("contains", .contains), ("does not contain", .doesNotContain),
    ("starts with", .startsWith), ("ends with", .endsWith), ("matches regex", .matchesRegex),
    ("between", .between), ("in", .isIn), ("not in", .isNotIn),
    ("is null", .isNull), ("is not null", .isNotNull), ("is true", .isTrue), ("is false", .isFalse),
    ("before", .before), ("after", .after), ("on or before", .onOrBefore),
    ("on or after", .onOrAfter), ("is in last", .isInLast),
    ("is a valid", .isAValid), ("is not a valid", .isNotAValid),
    ("has leading or trailing whitespace", .hasOuterWhitespace),
    ("has no leading or trailing whitespace", .hasNoOuterWhitespace),
    ("has length", .hasLength), ("is longer than", .isLongerThan),
    ("is shorter than", .isShorterThan), ("length between", .lengthBetween),
    ("is not empty", .isNotEmpty), ("is empty", .isEmpty),
    ("does not match regex", .doesNotMatchRegex), ("contains only digits", .containsOnlyDigits),
    ("is uppercase", .isUppercase), ("is lowercase", .isLowercase),
    ("is a valid uuid", .isAValidUuid), ("is a valid ipv4", .isAValidIpv4),
    ("is positive", .isPositive), ("is negative", .isNegative),
    ("is non-negative", .isNonNegative), ("is a whole number", .isAWholeNumber),
    ("is a multiple of", .isAMultipleOf),
    ("is in the future", .isInTheFuture), ("is in the past", .isInThePast), ("is today", .isToday),
    ("has positive sentiment", .hasPositiveSentiment),
    ("has negative sentiment", .hasNegativeSentiment),
    ("passes luhn check", .passesLuhnCheck)]

def Operator.ofName (name : Text) : Option Operator :=
  (operatorNames.map fun (name, op) => (name.toList, op)).lookup name

inductive Aggregate where
  | count | countDistinct | approxCountDistinct | nullRate
  | sum | avg | min | max | stddev | stddevSamp | variance | varSamp | median
  | percentile | percentileApprox | boolAnd | boolOr | anyValue | mode
  deriving DecidableEq, Repr

def aggregateNames : List (String × Aggregate) :=
  [("count", .count), ("count_distinct", .countDistinct),
    ("approx_count_distinct", .approxCountDistinct), ("null_rate", .nullRate),
    ("sum", .sum), ("avg", .avg), ("min", .min), ("max", .max),
    ("stddev", .stddev), ("stddev_samp", .stddevSamp),
    ("variance", .variance), ("var_samp", .varSamp), ("median", .median),
    ("percentile", .percentile), ("percentile_approx", .percentileApprox),
    ("bool_and", .boolAnd), ("bool_or", .boolOr), ("any_value", .anyValue), ("mode", .mode)]

def Aggregate.ofName (name : Text) : Option Aggregate :=
  (aggregateNames.map fun (name, aggregate) => (name.toList, aggregate)).lookup name

/-- The types that a text column can be validated against. -/
def validitySqlType : List (String × String) :=
  [("tinyint", "TINYINT"), ("smallint", "SMALLINT"), ("int", "INT"), ("bigint", "BIGINT"),
    ("float", "FLOAT"), ("double", "DOUBLE"), ("decimal", "DECIMAL"), ("date", "DATE"),
    ("timestamp", "TIMESTAMP"), ("timestamp_ntz", "TIMESTAMP_NTZ"), ("boolean", "BOOLEAN"),
    ("binary", "BINARY")]

def joinTypeSql : List (String × String) :=
  [("INNER", "INNER JOIN"), ("LEFT", "LEFT JOIN"), ("RIGHT", "RIGHT JOIN"),
    ("FULL", "FULL OUTER JOIN"), ("LEFT SEMI", "LEFT SEMI JOIN"), ("LEFT ANTI", "LEFT ANTI JOIN"),
    ("CROSS", "CROSS JOIN")]

/-- The text that a table of names and texts has for a name. -/
def textOf (table : List (String × String)) (name : Text) : Option Text :=
  (table.map fun (name, text) => (name.toList, text.toList)).lookup name

/-- A part of a SQL template: fixed text, the left side, or one of the operands. -/
inductive Part where
  | sql (text : String)
  | left
  | operand (index : Nat)

/-- The condition that an operator puts on its left side. -/
def Operator.template : Operator → List Part
  | .eq => [.left, .sql " = ", .operand 0]
  | .ne => [.left, .sql " != ", .operand 0]
  | .lt => [.left, .sql " < ", .operand 0]
  | .le => [.left, .sql " <= ", .operand 0]
  | .gt => [.left, .sql " > ", .operand 0]
  | .ge => [.left, .sql " >= ", .operand 0]
  | .equals => [.left, .sql " = ", .operand 0]
  | .notEquals => [.left, .sql " != ", .operand 0]
  | .contains => [.sql "contains(", .left, .sql ", ", .operand 0, .sql ")"]
  | .doesNotContain => [.sql "NOT contains(", .left, .sql ", ", .operand 0, .sql ")"]
  | .startsWith => [.sql "startswith(", .left, .sql ", ", .operand 0, .sql ")"]
  | .endsWith => [.sql "endswith(", .left, .sql ", ", .operand 0, .sql ")"]
  | .matchesRegex => [.left, .sql " RLIKE ", .operand 0]
  | .between => [.left, .sql " BETWEEN ", .operand 0, .sql " AND ", .operand 1]
  | .isIn => [.left, .sql " IN (", .operand 0, .sql ")"]
  | .isNotIn => [.left, .sql " NOT IN (", .operand 0, .sql ")"]
  | .isNull => [.left, .sql " IS NULL"]
  | .isNotNull => [.left, .sql " IS NOT NULL"]
  | .isTrue => [.left, .sql " = TRUE"]
  | .isFalse => [.left, .sql " = FALSE"]
  | .before => [.left, .sql " < ", .operand 0]
  | .after => [.left, .sql " > ", .operand 0]
  | .onOrBefore => [.left, .sql " <= ", .operand 0]
  | .onOrAfter => [.left, .sql " >= ", .operand 0]
  | .isInLast => [.left, .sql " >= current_timestamp() - INTERVAL ", .operand 0]
  | .isAValid => [.sql "TRY_CAST(", .left, .sql " AS ", .operand 0, .sql ") IS NOT NULL"]
  | .isNotAValid => [.sql "TRY_CAST(", .left, .sql " AS ", .operand 0, .sql ") IS NULL"]
  | .hasOuterWhitespace => [.left, .sql " != TRIM(", .left, .sql ")"]
  | .hasNoOuterWhitespace => [.left, .sql " = TRIM(", .left, .sql ")"]
  | .hasLength => [.sql "length(", .left, .sql ") = ", .operand 0]
  | .isLongerThan => [.sql "length(", .left, .sql ") > ", .operand 0]
  | .isShorterThan => [.sql "length(", .left, .sql ") < ", .operand 0]
  | .lengthBetween =>
    [.sql "length(", .left, .sql ") BETWEEN ", .operand 0, .sql " AND ", .operand 1]
  | .isNotEmpty => [.sql "length(trim(", .left, .sql ")) > 0"]
  | .isEmpty => [.sql "length(trim(", .left, .sql ")) = 0"]
  | .doesNotMatchRegex => [.sql "NOT (", .left, .sql " RLIKE ", .operand 0, .sql ")"]
  | .containsOnlyDigits => [.left, .sql " RLIKE '^[0-9]+$'"]
  | .isUppercase => [.left, .sql " = upper(", .left, .sql ")"]
  | .isLowercase => [.left, .sql " = lower(", .left, .sql ")"]
  | .isAValidUuid =>
    [.left, .sql (" RLIKE '^[0-9a-fA-F]\x7b8\x7d-[0-9a-fA-F]\x7b4\x7d-[0-9a-fA-F]\x7b4\x7d-" ++
      "[0-9a-fA-F]\x7b4\x7d-[0-9a-fA-F]\x7b12\x7d$'")]
  | .isAValidIpv4 =>
    [.left, .sql (" RLIKE '^((25[0-5]|2[0-4][0-9]|1?[0-9]?[0-9])\\.)\x7b3\x7d" ++
      "(25[0-5]|2[0-4][0-9]|1?[0-9]?[0-9])$'")]
  | .isPositive => [.left, .sql " > 0"]
  | .isNegative => [.left, .sql " < 0"]
  | .isNonNegative => [.left, .sql " >= 0"]
  | .isAWholeNumber => [.left, .sql " = round(", .left, .sql ")"]
  | .isAMultipleOf => [.sql "mod(", .left, .sql ", ", .operand 0, .sql ") = 0"]
  | .isInTheFuture => [.left, .sql " > current_timestamp()"]
  | .isInThePast => [.left, .sql " < current_timestamp()"]
  | .isToday => [.sql "to_date(", .left, .sql ") = current_date()"]
  | .hasPositiveSentiment => [.sql "ai_analyze_sentiment(", .left, .sql ") = 'positive'"]
  | .hasNegativeSentiment => [.sql "ai_analyze_sentiment(", .left, .sql ") = 'negative'"]
  | .passesLuhnCheck =>
    [.sql "length(regexp_replace(", .left, .sql ", '[^0-9]', '')) > 0 AND luhn_check(regexp_replace(",
      .left, .sql ", '[^0-9]', ''))"]

/-- An aggregate of its left side; the operand is the aggregate's parameter. -/
def Aggregate.template : Aggregate → List Part
  | .count => [.sql "COUNT(", .left, .sql ")"]
  | .countDistinct => [.sql "COUNT(DISTINCT ", .left, .sql ")"]
  | .approxCountDistinct => [.sql "APPROX_COUNT_DISTINCT(", .left, .sql ")"]
  | .nullRate =>
    [.sql "(SUM(CASE WHEN ", .left,
      .sql " IS NULL THEN 1 ELSE 0 END) * 1.0 / NULLIF(COUNT(*), 0))"]
  | .sum => [.sql "SUM(", .left, .sql ")"]
  | .avg => [.sql "AVG(", .left, .sql ")"]
  | .min => [.sql "MIN(", .left, .sql ")"]
  | .max => [.sql "MAX(", .left, .sql ")"]
  | .stddev => [.sql "STDDEV_POP(", .left, .sql ")"]
  | .stddevSamp => [.sql "STDDEV_SAMP(", .left, .sql ")"]
  | .variance => [.sql "VAR_POP(", .left, .sql ")"]
  | .varSamp => [.sql "VAR_SAMP(", .left, .sql ")"]
  | .median => [.sql "MEDIAN(", .left, .sql ")"]
  | .percentile => [.sql "PERCENTILE(", .left, .sql ", ", .operand 0, .sql ")"]
  | .percentileApprox => [.sql "PERCENTILE_APPROX(", .left, .sql ", ", .operand 0, .sql ")"]
  | .boolAnd => [.sql "BOOL_AND(", .left, .sql ")"]
  | .boolOr => [.sql "BOOL_OR(", .left, .sql ")"]
  | .anyValue => [.sql "ANY_VALUE(", .left, .sql ")"]
  | .mode => [.sql "MODE(", .left, .sql ")"]

/-- How an operator reads a row's value. -/
inductive OperandKind where
  | unused
  | value
  | literal
  | pair
  | list
  | interval
  | validity

def Operator.operandKind : Operator → OperandKind
  | .eq | .ne | .lt | .le | .gt | .ge | .equals | .notEquals => .value
  | .before | .after | .onOrBefore | .onOrAfter => .value
  | .contains | .doesNotContain | .startsWith | .endsWith => .literal
  | .matchesRegex | .doesNotMatchRegex => .literal
  | .hasLength | .isLongerThan | .isShorterThan | .isAMultipleOf => .literal
  | .between | .lengthBetween => .pair
  | .isIn | .isNotIn => .list
  | .isInLast => .interval
  | .isAValid | .isNotAValid => .validity
  | _ => .unused

/-- The operators that an aggregated row can use. -/
def Operator.isComparison : Operator → Bool
  | .eq | .ne | .lt | .le | .gt | .ge => true
  | _ => false

end Dqx.LowCode
