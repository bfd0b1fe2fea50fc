import Dqx.Scheduler.ScoreRuns
import Dqx.SqlUtils
import Mathlib.Data.Char
import Mathlib.Data.List.Lex

/-! The views that the scheduler drops from its schema of temporary views: the daily sweep over the
two tables of runs, the weekly collection of orphans, and the drops of a pass that observes runs. -/

namespace Dqx.Scheduler

open Lib Lib.Sql LowCode SqlUtils

/-- `str.strip()` -/
def strip (text : Text) : Text := trim (fun c => Python.spaces.contains c.toNat) text

/-- The catalog of the app and its schema of temporary views. Names of Unity Catalog hold no dots and
no spaces. -/
structure TmpSchema where
  catalog : Text
  schema : Text
  catalog_plain : ∀ c ∈ catalog, c ≠ '.' ∧ Python.spaces.contains c.toNat = false
  schema_plain : '.' ∉ schema

def tmpViewPrefix : Text := "tmp_view_".toList

/-- `[a-f0-9]` -/
def isHex (c : Char) : Bool := ('0' ≤ c && c ≤ '9') || ('a' ≤ c && c ≤ 'f')

def TmpSchema.viewName (tmp : TmpSchema) (name : Text) : Text :=
  tmp.catalog ++ '.' :: (tmp.schema ++ '.' :: name)

/-- The name that `_create_view` returns for the hex digits of a view id. -/
def TmpSchema.createView (tmp : TmpSchema) (viewId : Text) : Text :=
  tmp.viewName (tmpViewPrefix ++ viewId)

/-- The name that `_trigger_run` passes as the view of a scheduled run. -/
def viewFqnParam (tableFqn : Text) : Text :=
  if !sqlCheckPrefix.toList.isPrefixOf tableFqn && fqnNeedsQuoting tableFqn then quoteFqn tableFqn
  else tableFqn

def dropView (viewFqn : Text) : Text := "DROP VIEW IF EXISTS ".toList ++ quoteFqn viewFqn

/-! ### The sweep -/

def tmpViewSweepMaxRuns : Nat := 50

/-- A table of runs, newest first, as the sweep reads it: either of its queries may fail. -/
structure SweptTable where
  rows : List RunRow
  terminalAnswers : Bool
  runningAnswers : Bool

/-- The stripped view of a row, if it is not blank. -/
def RunRow.view (row : RunRow) : Option Text :=
  (row.viewFqn.map fun viewFqn => strip viewFqn.toList).filter fun view => !view.isEmpty

def SweptTable.terminal (table : SweptTable) : List RunRow :=
  if table.terminalAnswers then table.rows.filter fun row => row.status ≠ .running else []

/-- The newest `RUNNING` rows with a view and a job. -/
def SweptTable.running (table : SweptTable) : List RunRow :=
  if table.runningAnswers then
    (table.rows.filter fun row =>
      row.status = .running ∧ row.viewFqn.isSome ∧ row.jobRunId.isSome).take tmpViewSweepMaxRuns
  else []

/-- The life cycle of a job, unless it cannot be fetched. -/
abbrev Jobs := Int → Option String

/-- The job of a row has ended. -/
def RunRow.hasEnded (jobs : Jobs) (row : RunRow) : Bool :=
  ((row.jobRunId.bind jobs).map fun lifecycle =>
    ["TERMINATED", "INTERNAL_ERROR", "SKIPPED"].contains lifecycle).getD false

/-- The rows whose views the sweep drops. -/
def SweptTable.swept (table : SweptTable) (jobs : Jobs) : List RunRow :=
  table.terminal ++ table.running.filter (·.hasEnded jobs)

def sweepStaleTmpViews (profiling validation : SweptTable) (jobs : Jobs) : List Text :=
  let views := (profiling.swept jobs ++ validation.swept jobs).filterMap (·.view)
  (views.dedup.mergeSort fun a b => decide (a ≤ b)).map dropView

/-! ### The collection of orphans -/

/-- `^tmp_view_[a-f0-9]{8,32}$` -/
def isTmpViewName (name : Text) : Bool :=
  let body := patternBody name
  let viewId := body.drop tmpViewPrefix.length
  tmpViewPrefix.isPrefixOf body && 8 ≤ viewId.length && viewId.length ≤ 32 && viewId.all isHex

/-- `fqn.rsplit(".", 1)[-1].strip("`")` -/
def lastPart (viewFqn : Text) : Text :=
  trim (· = '`') ((viewFqn.splitOn '.').getLast?.getD [])

/-- The last parts of the views of `RUNNING` rows, if they can be read. -/
def inUse (runs : Option (List RunRow)) : List Text :=
  (((runs.getD []).filter fun row => row.status = .running).filterMap (·.viewFqn)).filterMap
    fun viewFqn => if viewFqn.isEmpty then none else some (lastPart viewFqn.toList)

/-- The listed views of the schema, unless listing fails, that are named like temporary views and not
in use. -/
def orphans (listed : Option (List Text)) (runs : Option (List RunRow)) : List Text :=
  ((listed.getD []).filter isTmpViewName).filter fun name => !(inUse runs).contains name

def gcOrphanViews (tmp : TmpSchema) (listed : Option (List Text)) (runs : Option (List RunRow)) :
    List Text :=
  (orphans listed runs).map fun name => dropView (tmp.viewName name)

/-! ### The drops on completion -/

/-- The views of observed runs that are dropped. -/
def droppable (viewFqn : Text) : Bool := decide (tmpViewPrefix <:+: viewFqn) && validateFqn viewFqn

def dropCompletedRunViews (viewFqns : List String) : List Text :=
  ((viewFqns.map String.toList).filter droppable).map dropView

end Dqx.Scheduler
