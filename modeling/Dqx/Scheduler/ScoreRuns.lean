import Dqx.Lib.Entries
import Dqx.Lib.Run
import Dqx.Scheduler.Cron
import Mathlib.Data.Finset.Basic
import Mathlib.Data.Finset.Dedup
import Mathlib.Data.Finset.Filter

/-! The runs that the scheduler tracks in memory until it has read their terminal rows, and the pass
of a tick over them. -/

namespace Dqx.Scheduler

open Lib

inductive RunStatus where
  | running | success | failed | canceled
  deriving DecidableEq, Repr

/-- A row of `dq_validation_runs` or of `dq_profiling_results`. -/
structure RunRow where
  runId : String
  sourceTableFqn : String
  viewFqn : Option String
  status : RunStatus
  jobRunId : Option Int
  deriving DecidableEq, Repr

def sqlCheckPrefix : String := "__sql_check__/"

/-- How long a run stays tracked. -/
def scoreRefreshTtl : Nat := 24 * hour

/-- How long a run that was never listed as active counts as executing. -/
def jobStateGrace : Nat := 2 * minute

/-- A run that is tracked from `since` has waited too long. -/
def scoreRunExpired (now since : Nat) : Bool := since + scoreRefreshTtl < now

def pastJobStateGrace (now since : Nat) : Bool := since + jobStateGrace ≤ now

/-- The runs that wait for their terminal rows, with the times they are tracked from, those handled
since the boot, those listed as active so far, and those whose last lookup found no row. -/
structure ScoreRuns where
  pending : List (String × Nat)
  seen : Finset String
  seenActive : Finset String
  missingRow : Finset String

/-- A row that a lookup of terminal rows selects. -/
structure CompletedRun where
  runId : String
  sourceTableFqn : String
  viewFqn : Option String
  deriving DecidableEq, Repr

/-- What a pass reads: the rows of the runs that it observes, their tables, which go to the score
refresh, and their views, which are to be dropped. -/
structure Completed where
  rows : List CompletedRun
  fqns : Finset String
  views : List String

/-- What a pass meets: the run ids that its sweep selects, unless that query fails, the runs whose
jobs still execute, whether the Jobs API answers, and `dq_validation_runs`. -/
structure ScorePass where
  now : Nat
  window : Option (List String)
  executing : List String
  jobsAnswer : Bool
  table : List RunRow

/-- The active task-runner runs, unless they cannot be listed. -/
def ScorePass.active (pass : ScorePass) : Option (List String) :=
  if pass.jobsAnswer then some pass.executing else none

namespace ScoreRuns

variable (s : ScoreRuns)

def tracked : Finset String := (s.pending.map Prod.fst).toFinset

def trackRunForScoreRefresh (run : String) (launched : Nat) : ScoreRuns :=
  { s with
    pending := (run, launched) :: s.pending.filter (·.1 ≠ run)
    seen := insert run s.seen }

def forget (runs : Finset String) : ScoreRuns :=
  { s with
    pending := s.pending.filter (·.1 ∉ runs)
    seenActive := s.seenActive \ runs
    missingRow := s.missingRow \ runs }

def sweepRecentRunSets (now : Nat) : Option (List String) → ScoreRuns
  | none => s
  | some rows =>
    let windowIds := rows.filter (· ≠ "")
    let unseen := windowIds.filter (· ∉ s.seen)
    let pending := unseen.map (·, now) ++ s.pending.filter (·.1 ∉ unseen)
    { s with
      pending
      seen := (s.seen ∪ unseen.toFinset) ∩ (windowIds ++ pending.map Prod.fst).toFinset }

def expire (now : Nat) : ScoreRuns :=
  s.forget (s.tracked.filter fun run => (s.pending.lookup run).any (scoreRunExpired now))

/-- The tracked runs to look up: those whose jobs are known to have finished, or all if the active
runs cannot be listed. -/
def runsWithFinishedJobs (now : Nat) : Option (List String) → ScoreRuns × Finset String
  | none => (s, s.tracked)
  | some active =>
    let seenActive := s.seenActive ∪ (active.toFinset ∩ s.tracked)
    ({ s with seenActive },
      (s.tracked \ active.toFinset).filter fun run =>
        run ∈ seenActive ∨ (s.pending.lookup run).any (pastJobStateGrace now))

/-- Drops the runs of a lookup that have no row for the second time. -/
def dropMissing (finished : Finset String) : ScoreRuns :=
  let missing := finished ∩ s.tracked
  let dropped := s.forget (missing ∩ s.missingRow)
  { dropped with missingRow := dropped.missingRow ∪ (missing \ s.missingRow) }

end ScoreRuns

/-- The rows of finished runs that are not `RUNNING`. -/
def terminalRows (table : List RunRow) (finished : Finset String) : List CompletedRun :=
  ((table.filter fun row => row.runId ∈ finished ∧ row.status ≠ .running).map fun row =>
    (⟨row.runId, row.sourceTableFqn, row.viewFqn⟩ : CompletedRun)).dedup

def Completed.ofRows (rows : List CompletedRun) : Completed where
  rows
  fqns := ((rows.map (·.sourceTableFqn)).filter fun fqn =>
    fqn ≠ "" ∧ ¬sqlCheckPrefix.toList <+: fqn.toList).toFinset
  views := (rows.filterMap (·.viewFqn)).filter (· ≠ "")

namespace ScoreRuns

variable (s : ScoreRuns)

def collectCompletedScoreRunFqns (now : Nat) (active : Option (List String)) (table : List RunRow) :
    ScoreRuns × Completed :=
  let (listed, finished) := (s.expire now).runsWithFinishedJobs now active
  let rows := (terminalRows table finished).filter (·.runId ≠ "")
  ((listed.forget (rows.map (·.runId)).toFinset).dropMissing finished, .ofRows rows)

def refreshScoresForCompletedRuns (pass : ScorePass) : ScoreRuns × Completed :=
  (s.sweepRecentRunSets pass.now pass.window).collectCompletedScoreRunFqns pass.now pass.active
    pass.table

end ScoreRuns

/-- The score refresh of one scheduler, pass by pass. -/
def scoreRefresh : Machine ScoreRuns ScorePass Completed where
  step := ScoreRuns.refreshScoresForCompletedRuns

end Dqx.Scheduler
