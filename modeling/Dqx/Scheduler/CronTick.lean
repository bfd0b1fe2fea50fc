import Dqx.Scheduler.Tracker
import Dqx.Lib.Run

/-! The ticks of a monitored table or a data product with a cron schedule: the seed of its tracker,
the realignment of its next run, and the firing or the skip of a run that is due. The schedule is that
of the cron expression. -/

namespace Dqx.Scheduler

open Lib

/-- A tick of a schedule: when it is, what it decides about an overlap, and the runs it submits if it
fires. -/
structure CronTick where
  now : Nat
  overlap : Overlap
  kind : ScheduleKind
  runId : String
  runs : Submission

/-- The next run is derived again from the last one, or from `now` if there is none, while it is in
the future. -/
def realignNextRun (schedule : Schedule) (row : Tracker) (stored now : Nat) : Tracker × Nat :=
  if stored ≤ now then (row, stored)
  else
    match schedule.next (row.lastRunAt.getD (now - second)) with
    | none => (row, stored)
    | some expected =>
      if stored = expected then (row, stored)
      else
        (upsertTracker (some row) row.lastRunAt (some expected) row.lastRunId
          (row.status.getD .pending), expected)

def finishScheduleFiring (schedule : Schedule) (row : Option Tracker) (tick : CronTick) : Tracker :=
  let newNext := (schedule.next tick.now).getD (tick.now + failureBackoff)
  let outcome := tick.runs.outcome tick.kind
  upsertTracker row (some tick.now) (some newNext) (some (outcome.recordedId tick.runId))
    outcome.status

/-- A schedule that is due. The tracker is the one that the tick began with. -/
def tickDue (schedule : Schedule) (row : Tracker) (tracker : Option Tracker) (tick : CronTick) :
    Tracker × Action :=
  match tick.overlap with
  | .fire => (finishScheduleFiring schedule (some row) tick, .fired)
  | .defer => (row, .idle)
  | .skip =>
    let newNext := (schedule.next tick.now).getD (tick.now + failureBackoff)
    (recordSkip (some row) newNext tracker, .skipped)

/-- The first tick seeds the next run. -/
def seedTracker (schedule : Schedule) (tracker : Option Tracker) (tick : CronTick) : Tracker × Action :=
  let lastRunAt := tracker.bind (·.lastRunAt)
  let lastRunId := tracker.bind (·.lastRunId)
  match schedule.next (tick.now - second) with
  | none =>
    (upsertTracker tracker lastRunAt (some (tick.now + failureBackoff)) lastRunId .pending, .idle)
  | some computed =>
    let row := upsertTracker tracker lastRunAt (some computed) lastRunId .pending
    if computed ≤ tick.now then tickDue schedule row tracker tick else (row, .idle)

/-- `_tick_one_table` and `_tick_one_product`, which differ in the runs that a firing submits. -/
def tickOne (schedule : Schedule) (tracker : Option Tracker) (tick : CronTick) : Tracker × Action :=
  match tracker with
  | none => seedTracker schedule none tick
  | some row =>
    if row.paused then (row, .idle)
    else
      match row.nextRunAt with
      | none => seedTracker schedule (some row) tick
      | some stored =>
        let (realigned, nextRun) := realignNextRun schedule row stored tick.now
        if tick.now < nextRun then (realigned, .idle) else tickDue schedule realigned (some row) tick

end Dqx.Scheduler
