import Dqx.Lib.SqlString
import Dqx.LowCode.Ast

/-! The compiler of low-code rules to SQL. The Python compiler and its TypeScript twin use the same
templates; what their languages do differently is the `Host` that each is compiled with. -/

namespace Dqx.LowCode

open Lib.Sql (Text double)

/-- A piece of compiled SQL. -/
inductive Piece where
  | sql (text : Text)
  /-- A `{{name}}` placeholder. -/
  | slot (name : Text)
  /-- One quoted part of an identifier path. -/
  | ident (part : Text)
  /-- A number, `TRUE`, `FALSE` or `NULL`. -/
  | word (text : Text)
  /-- A string between quotes, its own quotes doubled. -/
  | quoted (text : Text)
  /-- The number and the unit of an interval between quotes, as they are. -/
  | interval (text : Text)
  /-- A parameter as it is. -/
  | param (text : Text)
  /-- A combinator or a group-by column. -/
  | raw (text : Text)
  deriving DecidableEq

abbrev Sql := List Piece

def Piece.text : Piece → Text
  | .sql text => text
  | .slot name => "\x7b\x7b".toList ++ name ++ "\x7d\x7d".toList
  | .ident part => '`' :: (double '`' part ++ ['`'])
  | .word text => text
  | .quoted text => Lib.Sql.quoted text
  | .interval text => '\'' :: (text ++ ['\''])
  | .param text => text
  | .raw text => text

def render (sql : Sql) : Text :=
  sql.flatMap Piece.text

/-- A fixed piece of SQL text. -/
def sql (text : String) : Piece :=
  .sql text.toList

/-- A template with its left side and its operands filled in. -/
def fill (left : Sql) (operands : List Sql) (template : List Part) : Sql :=
  template.flatMap fun
    | .sql text => [LowCode.sql text]
    | .left => left
    | .operand index => operands.getD index []

/-- Pieces with a separator between them. -/
def join (separator : String) (parts : List Sql) : Sql :=
  [LowCode.sql separator].intercalate parts

/-- What the compiler finds under the name of an aggregate. -/
inductive AggregateEntry where
  | missing
  | own (aggregate : Aggregate)
  /-- A function that every object of the language has under this name. -/
  | inherited (name : String)

/-- What the language of a compiler does with JSON values. -/
structure Host (ν : Type) where
  /-- The text of a value. -/
  str : Json ν → Option Text
  number : ν → Text
  truthy : Json ν → Bool
  /-- Whether a column name has a dot in it. -/
  hasDot : Json ν → Option Bool
  /-- The text of a table or column name that is quoted part by part. -/
  path : Json ν → Option Text
  validIdentifier : Text → Bool
  /-- A part of an identifier path without the backquotes it already has. -/
  unquoted : Text → Text
  /-- The two bounds of a range. -/
  bounds : Json ν → Json ν × Json ν
  items : Json ν → Option (List (Json ν))
  /-- A field of an interval, or its default. -/
  intervalField : String → String → Json ν → Option Text
  /-- The SQL type to validate against. -/
  validityType : Json ν → Option (Option Text)
  aggregate : Json ν → Option AggregateEntry
  /-- What calling an inherited function with a column gives: its text, and whether it is truthy. -/
  inherited : String → Sql → Option (Sql × Bool)
  combinator : Json ν → Option Text
  joinType : Json ν → Option Text
  /-- Whether a null in the row list is passed over. -/
  skipsNull : Bool
  isSpace : Char → Bool
  /-- Whether a merge key is one placeholder that the query qualifies and aliases. -/
  isBareSlot : Text → Bool

variable {ν : Type} (host : Host ν)

/-- Each part of a dotted path is validated and quoted. -/
def quoteIdentPath (path : Text) : Option Sql :=
  let parts := path.splitOn '.'
  if parts.any (fun part => part.isEmpty || !host.validIdentifier part) then none
  else some (join "." (parts.map fun part => [.ident (host.unquoted part)]))

/-- A dotted name is a column of a joined table; a plain one is the placeholder of a slot. -/
def ref (column : Json ν) (qualify : Bool) : Option Sql := do
  let dotted ← host.hasDot column
  if dotted then
    match column with
    | .str path => quoteIdentPath host path
    | _ => none
  else
    let name ← host.str column
    if qualify then return [.slot "input_view".toList, sql ".", .slot name]
    else return [.slot name]

def quote (value : Json ν) : Option Sql :=
  match value with
  | .bool b => some [.word (if b then "TRUE" else "FALSE").toList]
  | .num n => some [.word (host.number n)]
  | .null => some [.word "NULL".toList]
  | value => (host.str value).map fun text => [.quoted text]

def columnRefName (value : Json ν) : Option Text :=
  match value with
  | .obj entries =>
    match Json.get entries "$col" with
    | some (.str name) => if name.isEmpty then none else some name
    | _ => none
  | _ => none

def valueSql (value : Json ν) (qualify : Bool) : Option Sql :=
  match columnRefName value with
  | some name => ref host (.str name) qualify
  | none => quote host value

def quoteList (values : List (Json ν)) (qualify : Bool) : Option Sql := do
  let parts ← values.mapM fun value => valueSql host value qualify
  return join ", " parts

/-- Where an aggregate is looked for: a row, or a value that is compared with. -/
structure AggregateSpec (ν : Type) where
  aggregate : Json ν
  columnRef : Json ν
  param : Json ν

def Row.spec (row : Row ν) : AggregateSpec ν :=
  ⟨row.aggregate, row.columnRef, row.aggregateParam⟩

def AggregateSpec.ofEntries (entries : List (Text × Json ν)) : AggregateSpec ν :=
  ⟨Json.field entries "aggregate", Json.field entries "column_ref",
    Json.field entries "aggregate_param"⟩

/-- A missing parameter is the median's. -/
def aggregateParam (param : Json ν) : Option Sql :=
  match param with
  | .null => some [.word "0.5".toList]
  | .num n => some [.word (host.number n)]
  | param => (host.str param).map fun text => [.param text]

/-- Only the percentiles have a parameter. -/
def aggregateOperand (aggregate : Aggregate) (param : Json ν) : Option Sql :=
  match aggregate with
  | .percentile | .percentileApprox => aggregateParam host param
  | _ => some []

/-- The SQL of an aggregate, and whether the language takes it for present. -/
def aggExpr (spec : AggregateSpec ν) (qualify : Bool) : Option (Sql × Bool) := do
  if !host.truthy spec.aggregate then return ([], false)
  let entry ← host.aggregate spec.aggregate
  match entry with
  | .missing => return ([], false)
  | .own aggregate =>
    if !host.truthy spec.columnRef then return ([], false)
    let column ← ref host spec.columnRef qualify
    let param ← aggregateOperand host aggregate spec.param
    return (fill column [param] aggregate.template, true)
  | .inherited name =>
    if !host.truthy spec.columnRef then return ([], false)
    let column ← ref host spec.columnRef qualify
    host.inherited name column

/-- The operands of a row, or nothing for a type that is not known. -/
def operands (kind : OperandKind) (value : Json ν) (qualify : Bool) : Option (Option (List Sql)) :=
  match kind with
  | .unused => some (some [])
  | .value => (valueSql host value qualify).map fun operand => some [operand]
  | .literal => (quote host value).map fun operand => some [operand]
  | .pair => do
    let low ← valueSql host (host.bounds value).1 qualify
    let high ← valueSql host (host.bounds value).2 qualify
    return some [low, high]
  | .list => do
    let items ← host.items value
    let list ← quoteList host items qualify
    return some [list]
  | .interval => do
    let number ← host.intervalField "number" "0" value
    let unit ← host.intervalField "unit" "days" value
    return some [[.interval (number ++ ' ' :: unit)]]
  | .validity => do
    let type ← host.validityType value
    return type.map fun text => [[.sql text]]

/-- An operator that is not known compiles to nothing. -/
def rowSql (left : Sql) (operator : Json ν) (value : Json ν) (qualify : Bool) : Option Sql :=
  match operator with
  | .str name =>
    match Operator.ofName name with
    | some op =>
      (operands host op.operandKind value qualify).map fun
        | some operands => fill left operands op.template
        | none => []
    | none => some []
  | _ => some []

/-- The right side of an aggregated comparison can be an aggregate too. -/
def aggregatedRight (value : Json ν) (qualify : Bool) : Option Sql :=
  match value with
  | .obj entries =>
    match Json.get entries "aggregate" with
    | some _ => (aggExpr host (.ofEntries entries) qualify).map Prod.fst
    | none => quote host value
  | value => quote host value

def aggregatedSql (left : Sql) (operator : Json ν) (value : Json ν) (qualify : Bool) :
    Option Sql :=
  match operator with
  | .str name =>
    match Operator.ofName name with
    | some op =>
      if op.isComparison then
        (aggregatedRight host value qualify).map fun right => fill left [right] op.template
      else
        match op with
        | .isNull | .isNotNull => some (fill left [] op.template)
        | .between => do
          let low ← quote host (host.bounds value).1
          let high ← quote host (host.bounds value).2
          return fill left [low, high] op.template
        | _ => some []
    | none => some []
  | _ => some []

def isRow (kind : Json ν) : Bool :=
  match kind with
  | .str s => s = "row".toList
  | _ => false

def compileRow (row : Row ν) (qualify : Bool) : Option Sql :=
  if isRow row.kind then
    if !host.truthy row.columnRef then some []
    else do
      let left ← ref host row.columnRef qualify
      rowSql host left row.operator row.value qualify
  else do
    let (left, present) ← aggExpr host row.spec qualify
    if present then aggregatedSql host left row.operator row.value qualify else return []

def entryFragment (entry : Entry ν) (qualify : Bool) : Option Sql :=
  match entry with
  | .row row => compileRow host row qualify
  | .null => if host.skipsNull then some [] else none
  | .scalar => some []

def Entry.combinator : Entry ν → Json ν
  | .row r => r.combinator
  | _ => .null

/-- An entry's fragment, behind its combinator unless the entry is the first. -/
def entryPart (index : Nat) (entry : Entry ν) (qualify : Bool) : Option Sql := do
  let fragment ← entryFragment host entry qualify
  if fragment.isEmpty || index = 0 then return fragment
  let combinator ← host.combinator entry.combinator
  return .raw combinator :: sql " " :: fragment

/-- The parts of the predicate, from an entry with some index on. -/
def compileEntries : Nat → List (Entry ν) → Bool → Option (List Sql)
  | _, [], _ => some []
  | index, entry :: entries, qualify => do
    let part ← entryPart host index entry qualify
    let rest ← compileEntries (index + 1) entries qualify
    return if part.isEmpty then rest else part :: rest

def compileAstToSql (ast : Ast ν) (qualify : Bool) : Option Sql :=
  (compileEntries host 0 ast.rows qualify).map (join " ")

def isCross (joinType : Json ν) : Bool :=
  match joinType with
  | .str s => s = "CROSS".toList
  | _ => false

/-- A join is emitted when it has a table, and keys unless it is a cross join. -/
def Join.emitted (join : Join ν) : Bool :=
  host.truthy join.targetTable && (isCross join.joinType || !join.keys.isEmpty)

def JoinKey.usable (key : JoinKey ν) : Bool :=
  host.truthy key.joinedColumn && host.truthy key.columnRef

def onConditions (target : Sql) (keys : List (JoinKey ν)) : Option (List Sql) :=
  (keys.filter (JoinKey.usable host)).mapM fun key => do
    let path ← host.path key.joinedColumn
    let joined ← quoteIdentPath host path
    let own ← ref host key.columnRef true
    return target ++ sql "." :: joined ++ sql " = " :: own

def joinSql (j : Join ν) : Option Sql := do
  let path ← host.path j.targetTable
  let target ← quoteIdentPath host path
  let joinType ← host.joinType j.joinType
  let head := .sql joinType :: sql " " :: target
  if isCross j.joinType then return head
  let conditions ← onConditions host target j.keys
  return head ++ sql " ON " :: join " AND " conditions

def compileJoinsToSql (joins : List (Join ν)) : Option Sql := do
  let parts ← (joins.filter (Join.emitted host)).mapM (joinSql host)
  return join " " parts

/-- The keys whose text has not been seen. -/
def unseen : List Text → List Sql → List Sql
  | _, [] => []
  | seen, key :: keys =>
    if seen.contains (render key) then unseen seen keys
    else key :: unseen (render key :: seen) keys

/-- The columns of the input that the joins are on, each once. -/
def joinKeyRefs (joins : List (Join ν)) : Option (List Sql) := do
  let keyed := joins.filter fun join => !isCross join.joinType && host.truthy join.targetTable
  let keys := (keyed.flatMap Join.keys).filter fun key => host.truthy key.columnRef
  let refs ← keys.mapM fun key => ref host key.columnRef false
  return unseen [] refs

/-- A key that is a bare slot is qualified with the input view and keeps its name. -/
def selectKeyProjection (key : Sql) : Sql :=
  if host.isBareSlot (render key) then
    .slot "input_view".toList :: sql "." :: key ++ sql " AS " :: key
  else key

/-- The text between the commas that are outside of parentheses and quotes. -/
def splitAtCommas : Bool → Nat → Text → Text → List Text
  | _, _, current, [] => [current]
  | true, depth, current, '\'' :: '\'' :: rest =>
    splitAtCommas true depth (current ++ ['\'', '\'']) rest
  | true, depth, current, c :: rest => splitAtCommas (c ≠ '\'') depth (current ++ [c]) rest
  | false, depth, current, c :: rest =>
    if c = '\'' then splitAtCommas true depth (current ++ [c]) rest
    else if c = '(' then splitAtCommas false (depth + 1) (current ++ [c]) rest
    else if c = ')' then splitAtCommas false (depth - 1) (current ++ [c]) rest
    else if c = ',' ∧ depth = 0 then current :: splitAtCommas false depth [] rest
    else splitAtCommas false depth (current ++ [c]) rest

def trim (isSpace : Char → Bool) (text : Text) : Text :=
  ((text.dropWhile isSpace).reverse.dropWhile isSpace).reverse

def splitTopLevelCommas (groupBy : Text) : List Text :=
  ((splitAtCommas false 0 [] groupBy).map (trim host.isSpace)).filter fun part => !part.isEmpty

/-- What a rule's rows, joins and group-by fold into. -/
inductive Body where
  | predicate (sql : Sql)
  | query (sql : Sql) (mergeColumns : Option (List Sql))
  deriving DecidableEq

def Body.sql : Body → Sql
  | .predicate sql => sql
  | .query sql _ => sql

def failCondition (predicate : Sql) : Sql :=
  sql "NOT (" :: predicate ++ [sql ")"]

def fromClause (joins : Sql) : Sql :=
  .slot "input_view".toList :: if joins.isEmpty then [] else sql " " :: joins

/-- A query of a select list, if any, and the failing condition. -/
def selectQuery (select : Option Sql) (predicate joins : Sql) : Sql :=
  sql "SELECT " :: (select.elim [] fun list => list ++ [sql ", "]) ++
    sql "(" :: failCondition predicate ++ sql ") AS condition FROM " :: fromClause joins

def compileLowcodeBody (ast : Ast ν) (groupBy : Text) : Option Body := do
  let joins ← compileJoinsToSql host ast.joins
  let predicate ← compileAstToSql host ast (!joins.isEmpty)
  let columns : List Sql := (splitTopLevelCommas host groupBy).map fun column => [.raw column]
  if joins.isEmpty && columns.isEmpty then return .predicate predicate
  if !columns.isEmpty then
    let select := if joins.isEmpty then columns else columns.map (selectKeyProjection host)
    return .query (selectQuery (some (join ", " select)) predicate joins ++
      sql " GROUP BY " :: join ", " columns) (some columns)
  let keyRefs ← joinKeyRefs host ast.joins
  if !keyRefs.isEmpty then
    let select := join ", " (keyRefs.map (selectKeyProjection host))
    return .query (selectQuery (some select) predicate joins) (some keyRefs)
  return .query (selectQuery none predicate joins) none

/-- A body is the predicate, or a query around it with or without a select list. -/
theorem compileLowcodeBody_cases {ast : Ast ν} {groupBy : Text} {body : Body}
    (h : compileLowcodeBody host ast groupBy = some body) :
    ∃ joins predicate, compileJoinsToSql host ast.joins = some joins ∧
      compileAstToSql host ast (!joins.isEmpty) = some predicate ∧
      ((joins = [] ∧ splitTopLevelCommas host groupBy = [] ∧ body = .predicate predicate) ∨
      (∃ columns : List Sql, splitTopLevelCommas host groupBy ≠ [] ∧
        columns = (splitTopLevelCommas host groupBy).map (fun column => [.raw column]) ∧
        body = .query (selectQuery (some (join ", " (if joins.isEmpty then columns
          else columns.map (selectKeyProjection host)))) predicate joins ++
            sql " GROUP BY " :: join ", " columns) (some columns)) ∨
      (∃ keyRefs : List Sql, joins ≠ [] ∧ splitTopLevelCommas host groupBy = [] ∧
        joinKeyRefs host ast.joins = some keyRefs ∧ keyRefs ≠ [] ∧
        body = .query (selectQuery (some (join ", " (keyRefs.map (selectKeyProjection host))))
          predicate joins) (some keyRefs)) ∨
      (joins ≠ [] ∧ splitTopLevelCommas host groupBy = [] ∧
        joinKeyRefs host ast.joins = some [] ∧
        body = .query (selectQuery none predicate joins) none)) := by
  simp only [compileLowcodeBody, bind, pure, Option.bind_eq_some_iff] at h
  obtain ⟨joins, hjoins, predicate, hpredicate, h⟩ := h
  refine ⟨joins, predicate, hjoins, hpredicate, ?_⟩
  split at h
  · rename_i hnone
    obtain rfl := Option.some.inj h
    simp only [Bool.and_eq_true, List.isEmpty_iff, List.map_eq_nil_iff] at hnone
    exact .inl ⟨hnone.1, hnone.2, rfl⟩
  · rename_i hsome
    split at h
    · rename_i hcolumns
      obtain rfl := Option.some.inj h
      refine .inr (.inl ⟨_, ?_, rfl, rfl⟩)
      simpa using hcolumns
    · rename_i hcolumns
      have hcolumns : splitTopLevelCommas host groupBy = [] := by simpa using hcolumns
      have hjoined : joins ≠ [] := by simpa [hcolumns] using hsome
      simp only [Option.bind_eq_some_iff] at h
      obtain ⟨keyRefs, hrefs, h⟩ := h
      split at h
      · rename_i hkeyed
        obtain rfl := Option.some.inj h
        exact .inr (.inr (.inl ⟨keyRefs, hjoined, hcolumns, hrefs, by simpa using hkeyed, rfl⟩))
      · rename_i hunkeyed
        obtain rfl := Option.some.inj h
        obtain rfl : keyRefs = [] := by simpa using hunkeyed
        exact .inr (.inr (.inr ⟨hjoined, hcolumns, hrefs, rfl⟩))

/-- The stored payload. -/
structure CompiledLowcodeBody where
  predicate : Option Text
  sqlQuery : Option Text
  mergeColumns : Option (List Text)
  deriving DecidableEq

def Body.compiled : Body → CompiledLowcodeBody
  | .predicate sql => ⟨some (render sql), none, none⟩
  | .query sql mergeColumns => ⟨none, some (render sql), mergeColumns.map (·.map render)⟩

end Dqx.LowCode
