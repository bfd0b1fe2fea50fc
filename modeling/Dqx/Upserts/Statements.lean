import Dqx.Scheduler.TmpViews
import Dqx.SqlUtils.Embedding

/-! The statements that the executors of Delta and of Postgres build to insert or update one row by
its key: a `MERGE` with literals, and an `INSERT … ON CONFLICT`. -/

namespace Dqx.Upserts

open Lib.Sql SqlUtils

/-- A value of a column, as the services pass it. -/
inductive Value where
  | raw (expr : Text)
  | none
  | bool (b : Bool)
  | int (n : Int)
  | str (text : Text)
  deriving DecidableEq

/-- `repr` of an integer -/
def intRepr (n : Int) : Text :=
  (if n < 0 then ['-'] else []) ++ Nat.toDigits 10 n.natAbs

def renderValue : Value → Text
  | .raw expr => expr
  | .none => "NULL".toList
  | .bool b => if b then "TRUE".toList else "FALSE".toList
  | .int n => intRepr n
  | .str text => '\'' :: (escapeSqlString text ++ ['\''])

/-- The Spark idioms that Postgres does not parse are translated. No letter outside of ASCII is one
of theirs in lower case. -/
def pgRenderValue : Value → Text
  | .raw expr =>
    if ["current_timestamp()".toList, "now()".toList].contains
      ((Scheduler.strip expr).map Char.toLower) then "CURRENT_TIMESTAMP".toList
    else expr
  | value => renderValue value

/-- What a column is set to on a hit. -/
inductive Assigned where
  | value (text : Text)
  /-- `EXCLUDED.col`, the value proposed for the insertion. -/
  | excluded
  /-- One more than the column of the row that is there, under the name of the target. -/
  | increment

/-- `MERGE INTO table AS target USING (SELECT source) AS source ON target.k = source.k AND …
WHEN MATCHED THEN UPDATE SET updateSet WHEN NOT MATCHED THEN INSERT (…) VALUES (…)` -/
structure Merge where
  table : Text
  on : List Text
  source : List (Text × Text)
  updateSet : List (Text × Assigned)
  insert : List (Text × Text)

/-- `INSERT INTO table (…) VALUES (…) ON CONFLICT (conflict) DO UPDATE SET update`, or
`DO NOTHING`. -/
structure Insert where
  table : Text
  aliased : Bool
  insert : List (Text × Text)
  conflict : List Text
  update : Option (List (Text × Assigned))

inductive UpsertError where
  | noKey (operation : String)
  | unknownIncrement (column : Text)
  deriving DecidableEq

def UpsertError.message (repr : Text → String) : UpsertError → String
  | .noKey operation => operation ++ " requires at least one key column"
  | .unknownIncrement column => "increment_on_update=" ++ repr column ++
      " must be present in value_cols with its initial INSERT value (e.g. \x7b'version': 1\x7d)"

/-- A column that an update leaves as it was inserted. -/
def preserves (preserveCreated : Bool) (col : Text) : Bool :=
  preserveCreated && "created_".toList.isPrefixOf col

section Executors

variable (table : Text) (keyCols valueCols : List (Text × Value)) (preserveCreated : Bool)
  (incrementOnUpdate : Option Text)

namespace SqlExecutor

def upsert : Except UpsertError Merge :=
  if keyCols.isEmpty then .error (.noKey "upsert")
  else .ok {
    table
    on := keyCols.map fun (k, _) => k
    source := keyCols.map fun (k, v) => (k, renderValue v)
    updateSet := valueCols.map fun (k, v) => (k, .value (renderValue v))
    insert := (keyCols ++ valueCols).map fun (k, v) => (k, renderValue v) }

def upsertWithAudit : Except UpsertError Merge :=
  if keyCols.isEmpty then .error (.noKey "upsert_with_audit")
  else match incrementOnUpdate.filter fun col => !(valueCols.map Prod.fst).contains col with
    | some col => .error (.unknownIncrement col)
    | none =>
      let updatePairs := (valueCols.filter fun (col, _) => !preserves preserveCreated col).map
        fun (col, val) => (col, if some col = incrementOnUpdate then .increment
          else .value (renderValue val))
      .ok {
        table
        on := keyCols.map fun (k, _) => k
        source := keyCols.map fun (k, v) => (k, renderValue v)
        updateSet := updatePairs
        insert := (keyCols ++ valueCols).map fun (k, v) => (k, renderValue v) }

end SqlExecutor

namespace PgExecutor

def upsert : Except UpsertError Insert :=
  if keyCols.isEmpty then .error (.noKey "upsert")
  else .ok {
    table
    aliased := false
    insert := (keyCols ++ valueCols).map fun (k, v) => (k, pgRenderValue v)
    conflict := keyCols.map fun (k, _) => k
    update := if valueCols.isEmpty then none else some (valueCols.map fun (c, _) => (c, .excluded)) }

def upsertWithAudit : Except UpsertError Insert :=
  if keyCols.isEmpty then .error (.noKey "upsert_with_audit")
  else match incrementOnUpdate.filter fun col => !(valueCols.map Prod.fst).contains col with
    | some col => .error (.unknownIncrement col)
    | none =>
      let updatePairs := (valueCols.filter fun (col, _) => !preserves preserveCreated col).map
        fun (col, val) => (col, if some col = incrementOnUpdate then .increment
          else .value (pgRenderValue val))
      let needsAlias := (valueCols.filter fun (col, _) => !preserves preserveCreated col).any
        fun (col, _) => some col = incrementOnUpdate
      .ok {
        table
        aliased := needsAlias
        insert := (keyCols ++ valueCols).map fun (k, v) => (k, pgRenderValue v)
        conflict := keyCols.map fun (k, _) => k
        update := if updatePairs.isEmpty then none else some updatePairs }

end PgExecutor

end Executors

end Dqx.Upserts
