import Dqx.Lib.SqlValue

/-! The keys of a foreign-key check: what the join compares on either side, when a row's key counts
as non-null, and under which key a reference projection is shared. -/

namespace Dqx.ForeignKeys

open Lib Lib.Sql

abbrev Text := List Char

/-- An expression over the rows of a table, once it resolves against the table's schema. -/
abbrev Analysed (σ ρ β : Type) := σ → Option (ρ → β)

abbrev Column (σ ρ α : Type) := Analysed σ ρ (Option α)

/-- `F.col`, `F.expr` of a normalized name, and `=` of two values that are not null, which may be of
different types. -/
structure Spark (σ ρ α : Type) where
  col : Text → Column σ ρ α
  expr : Text → Column σ ρ α
  equal : α → α → Bool

structure Table (σ ρ : Type) where
  schema : σ
  rows : List ρ

/-- A key column is given by its name, or as a *Column* with the name or alias it shows. -/
inductive ColumnInput (σ ρ α : Type) where
  | name (name : Text)
  | column (nameOrAlias : Text) (expression : Column σ ρ α)

/-- What a key expression evaluates to: a value, or a struct of named ones. -/
inductive KeyValue (α : Type) where
  | plain (value : Option α)
  | struct (fields : List (Text × Option α))
  deriving DecidableEq

variable {σ ρ α : Type}

namespace KeyValue

/-- A struct is never null. -/
def isNotNull : KeyValue α → Bool
  | plain value => value.isSome
  | struct _ => true

/-- Inside a struct, nulls are equal. -/
def fieldsEqual (spark : Spark σ ρ α) : List (Text × Option α) → List (Text × Option α) → Bool
  | [], [] => true
  | (_, some a) :: fields, (_, some b) :: fields' =>
    spark.equal a b && fieldsEqual spark fields fields'
  | (_, none) :: fields, (_, none) :: fields' => fieldsEqual spark fields fields'
  | _, _ => false

def equal (spark : Spark σ ρ α) : KeyValue α → KeyValue α → Truth
  | plain (some a), plain (some b) => some (spark.equal a b)
  | plain _, plain _ => none
  | struct fields, struct fields' => some (fieldsEqual spark fields fields')
  | _, _ => some false

end KeyValue

abbrev KeyColumn (σ ρ α : Type) := Analysed σ ρ (KeyValue α)

namespace ColumnInput

def nameOrAlias : ColumnInput σ ρ α → Text
  | name n => n
  | column n _ => n

/-- The name of a column that is given by one. -/
def name? : ColumnInput σ ρ α → Option Text
  | name n => some n
  | column _ _ => none

/-- The field of a key struct. -/
def field (spark : Spark σ ρ α) : ColumnInput σ ρ α → Column σ ρ α
  | name n => spark.col n
  | column _ expression => expression

/-- The expression of `get_normalized_column_and_expr`. -/
def normalizedExpr (spark : Spark σ ρ α) : ColumnInput σ ρ α → Column σ ρ α
  | name n => spark.expr n
  | column _ expression => expression

end ColumnInput

/-- All of the columns, or none if one does not resolve. -/
def analyse (columns : List (Column σ ρ α)) : Analysed σ ρ (List (Option α)) := fun schema =>
  (columns.mapM fun (column : Column σ ρ α) => column schema).map fun cells row =>
    cells.map fun cell => cell row

def buildFkCompositeKeyStruct (spark : Spark σ ρ α) (columns : List (ColumnInput σ ρ α))
    (columnsNames : List Text) : KeyColumn σ ρ α := fun schema =>
  (analyse ((columnsNames.zip columns).map fun field => field.2.field spark) schema).map
    fun cells row => .struct (columnsNames.zip (cells row))

/-- The key structs of both sides, and the condition that no column of a name is null. -/
def handleFkCompositeKeys (spark : Spark σ ρ α) (columns refColumns : List (ColumnInput σ ρ α))
    (nullSafe : Bool) : KeyColumn σ ρ α × KeyColumn σ ρ α × Analysed σ ρ Bool :=
  let columnsNames := columns.map ColumnInput.nameOrAlias
  let notNullCondition : Analysed σ ρ Bool := fun schema =>
    if nullSafe then
      some fun _ => true
    else
      (analyse (columnsNames.map spark.col) schema).map fun cells row =>
        (cells row).all Option.isSome
  (buildFkCompositeKeyStruct spark columns columnsNames,
    buildFkCompositeKeyStruct spark refColumns columnsNames, notNullCondition)

/-- The tuple whose text is the cache key. -/
abbrev ReferenceKey := List Text × Bool × List Text

def referenceCacheKey (columns refColumns : List (ColumnInput σ ρ α)) (nullSafe : Bool) :
    Option ReferenceKey := do
  let buildsStruct := decide (1 < columns.length) || nullSafe
  let references ← refColumns.mapM ColumnInput.name?
  if buildsStruct then
    let names ← columns.mapM ColumnInput.name?
    return (references, nullSafe, names)
  else
    return (references, nullSafe, [])

structure ForeignKeyColumns (σ ρ α : Type) where
  sourceExpression : KeyColumn σ ρ α
  referenceExpression : KeyColumn σ ρ α
  referenceCacheKey : Option ReferenceKey
  notNullCondition : Analysed σ ρ Bool

def resolveForeignKeyColumns (spark : Spark σ ρ α) (columns refColumns : List (ColumnInput σ ρ α))
    (nullSafe : Bool) : ForeignKeyColumns σ ρ α :=
  let cacheKey := referenceCacheKey columns refColumns nullSafe
  match columns, refColumns, nullSafe with
  | [column], [refColumn], false =>
    { sourceExpression := fun schema =>
        (column.normalizedExpr spark schema).map fun cell row => .plain (cell row)
      referenceExpression := fun schema =>
        (refColumn.normalizedExpr spark schema).map fun cell row => .plain (cell row)
      referenceCacheKey := cacheKey
      notNullCondition := fun _ => some fun _ => true }
  | _, _, _ =>
    let (joinCol, joinRefCol, notNullCondition) :=
      handleFkCompositeKeys spark columns refColumns nullSafe
    { sourceExpression := joinCol
      referenceExpression := joinRefCol
      referenceCacheKey := cacheKey
      notNullCondition }

end Dqx.ForeignKeys
