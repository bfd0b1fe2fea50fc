import Dqx.Lib.Digits
import Dqx.Lib.SqlEscape
import Dqx.Lib.Upsert
import Dqx.Upserts.Statements

/-! What the two dialects make of the statements: the value that each text of a value stands for,
read on its own, and the rows that a statement leaves behind. -/

namespace Dqx.Upserts

open Lib Lib.Sql SqlUtils

/-- What a column of a row holds. -/
inductive Cell where
  | null
  | bool (b : Bool)
  | int (n : Int)
  | text (text : Text)
  | timestamp (t : Int)
  deriving DecidableEq, Repr

inductive SqlError where
  | syntaxError
  | repeatedColumn
  | wrongType
  deriving DecidableEq, Repr

/-- A row, by the names of its columns. -/
abbrev Row := Text → Cell

/-- No NULL is equal to anything. -/
def Cell.same (a b : Cell) : Bool := a ≠ .null && a = b

def Cell.plusOne : Cell → Except SqlError Cell
  | .null => .ok .null
  | .int n => .ok (.int (n + 1))
  | _ => .error .wrongType

/-! ### Values -/

/-- A word that is a value, in every dialect. -/
def constant (word : Text) : Except SqlError Cell :=
  if word ≠ [] ∧ word.all Char.isDigit then .ok (.int (Digits.value 10 word))
  else if word.map Char.toUpper = "NULL".toList then .ok .null
  else if word.map Char.toUpper = "TRUE".toList then .ok (.bool true)
  else if word.map Char.toUpper = "FALSE".toList then .ok (.bool false)
  else .error .syntaxError

namespace Databricks

/-- A backslash in a string literal escapes what follows it. -/
def evaluate (now : Int) (text : Text) : Except SqlError Cell :=
  match lex text with
  | [.string '\'' content] => .ok (.text (denotes content))
  | [.symbol ['-'], .word digits] =>
    if digits.all Char.isDigit then .ok (.int (-Digits.value 10 digits)) else .error .syntaxError
  | [.word name, .symbol ['('], .symbol [')']] =>
    if ["current_timestamp".toList, "now".toList].contains (name.map Char.toLower) then
      .ok (.timestamp now)
    else .error .syntaxError
  | [.word word] => constant word
  | _ => .error .syntaxError

end Databricks

namespace Postgres

/-- What a standard-conforming literal holds, from behind its opening quote on. The server takes no
NUL. -/
def literal : Text → Except SqlError Text
  | [] => .error .syntaxError
  | [c] => if c = '\'' then .ok [] else .error .syntaxError
  | c :: d :: text =>
    if c = '\'' then if d = '\'' then (literal text).map ('\'' :: ·) else .error .syntaxError
    else if c = Char.ofNat 0 then .error .syntaxError
    else (literal (d :: text)).map (c :: ·)

def evaluate (now : Int) (text : Text) : Except SqlError Cell :=
  match text with
  | '\'' :: rest => (literal rest).map .text
  | '-' :: digits =>
    if digits ≠ [] ∧ digits.all Char.isDigit then .ok (.int (-Digits.value 10 digits))
    else .error .syntaxError
  | _ =>
    match constant text with
    | .ok cell => .ok cell
    | .error e =>
      if text.map Char.toUpper = "CURRENT_TIMESTAMP".toList then .ok (.timestamp now) else .error e

end Postgres

/-! ### Statements -/

/-- The row of the named values. The other columns take their defaults. -/
def insertedRow (default : Row) (values : List (Text × Cell)) : Row :=
  fun col => (values.lookup col).getD (default col)

/-- What an update does to a column. -/
inductive Assignment where
  | set (cell : Cell)
  | increment
  deriving DecidableEq

def Assignment.cell (old : Cell) : Assignment → Except SqlError Cell
  | .set cell => .ok cell
  | .increment => old.plusOne

/-- What an assignment of a statement stands for. The target has a name only if it is aliased. -/
def Assigned.resolve (evaluate : Text → Except SqlError Cell) (excluded : Row) (aliased : Bool)
    (col : Text) : Assigned → Except SqlError Assignment
  | .value text => (evaluate text).map .set
  | .excluded => .ok (.set (excluded col))
  | .increment => if aliased then .ok .increment else .error .syntaxError

def resolveAll (evaluate : Text → Except SqlError Cell) (excluded : Row) (aliased : Bool)
    (assignments : List (Text × Assigned)) : Except SqlError (List (Text × Assignment)) :=
  assignments.mapM fun (col, assigned) =>
    (assigned.resolve evaluate excluded aliased col).map (col, ·)

/-- The assigned columns change, the others do not. -/
def assign (assignments : List (Text × Assignment)) (row : Row) : Except SqlError Row := do
  let cells ← assignments.mapM fun (col, assignment) =>
    (assignment.cell (row col)).map fun cell => (col, cell)
  .ok fun col => (cells.lookup col).getD (row col)

/-- Without an assignment, `UPDATE SET` is no clause. -/
def Merge.run (now : Int) (default : Row) (merge : Merge) (rows : List Row) :
    Except SqlError (List Row) :=
  if merge.updateSet.isEmpty then .error .syntaxError
  else if ¬(merge.insert.map Prod.fst).Nodup then .error .repeatedColumn
  else do
    let source ← mapValuesM (Databricks.evaluate now) merge.source
    let assignments ← resolveAll (Databricks.evaluate now) (fun _ => .null) true merge.updateSet
    let values ← mapValuesM (Databricks.evaluate now) merge.insert
    mergeInto (fun target => merge.on.all fun k =>
        (target k).same (insertedRow (fun _ => .null) source k))
      (assign assignments) (insertedRow default values) rows

/-- The run of a statement whose parts are all understood. -/
theorem Merge.run_eq {now : Int} {default : Row} {merge : Merge}
    {source values : List (Text × Cell)} {assignments : List (Text × Assignment)}
    (hset : merge.updateSet ≠ []) (hdistinct : (merge.insert.map Prod.fst).Nodup)
    (hsource : mapValuesM (Databricks.evaluate now) merge.source = .ok source)
    (hassignments : resolveAll (Databricks.evaluate now) (fun _ => .null) true merge.updateSet =
      .ok assignments)
    (hvalues : mapValuesM (Databricks.evaluate now) merge.insert = .ok values) (rows : List Row) :
    merge.run now default rows =
      mergeInto (fun target => merge.on.all fun k =>
          (target k).same (insertedRow (fun _ => .null) source k))
        (assign assignments) (insertedRow default values) rows := by
  have hempty : ¬merge.updateSet.isEmpty = true := by simpa using hset
  rw [Merge.run, if_neg hempty, if_neg (not_not_intro hdistinct), hsource, hassignments, hvalues]
  rfl

/-- The key columns have a unique index, which holds no row twice and finds no NULL. -/
def Insert.run (now : Int) (default : Row) (insert : Insert) (rows : List Row) :
    Except SqlError (List Row) :=
  if insert.update.any List.isEmpty then .error .syntaxError
  else if ¬(insert.insert.map Prod.fst).Nodup then .error .repeatedColumn
  else do
    let values ← mapValuesM (Postgres.evaluate now) insert.insert
    let proposed := insertedRow default values
    let found (row : Row) : Bool := insert.conflict.all fun k => (row k).same (proposed k)
    match insert.update with
    | none => insertOnConflict found .ok proposed rows
    | some assigned =>
      let assignments ← resolveAll (Postgres.evaluate now) proposed insert.aliased assigned
      insertOnConflict found (assign assignments) proposed rows

theorem Insert.run_eq {now : Int} {default : Row} {insert : Insert} {values : List (Text × Cell)}
    {assigned : List (Text × Assigned)} {assignments : List (Text × Assignment)}
    (hupdate : insert.update = some assigned) (hset : assigned ≠ [])
    (hdistinct : (insert.insert.map Prod.fst).Nodup)
    (hvalues : mapValuesM (Postgres.evaluate now) insert.insert = .ok values)
    (hassignments : resolveAll (Postgres.evaluate now) (insertedRow default values) insert.aliased
      assigned = .ok assignments) (rows : List Row) :
    insert.run now default rows =
      insertOnConflict (fun row => insert.conflict.all fun k =>
          (row k).same (insertedRow default values k))
        (assign assignments) (insertedRow default values) rows := by
  obtain ⟨table, aliased, inserted, conflict, update⟩ := insert
  obtain rfl : update = some assigned := hupdate
  have hempty : ¬(some assigned).any List.isEmpty = true := by simpa using hset
  rw [Insert.run, if_neg hempty, if_neg (not_not_intro hdistinct), hvalues]
  change (resolveAll (Postgres.evaluate now) (insertedRow default values) aliased assigned >>= _) = _
  rw [hassignments]
  rfl

end Dqx.Upserts
