import Dqx.Scheduler.Frequency
import Dqx.Scheduler.Tracker
import Mathlib.Logic.Function.Basic

/-! The ticks of the scope schedules: one tick goes through all configs, and each of them reads and
writes the tracker of its own name. -/

namespace Dqx.Scheduler

/-- What a tick meets with for one schedule: whether its reads and writes go through, what it decides
about an overlap if the scope can be resolved, and what the triggered run comes to. -/
structure ScopeRun where
  readable : Bool
  seedWritten : Bool
  overlap : Option Overlap
  skipWritten : Bool
  runId : String
  /-- Whether the run had errors and the ids that it submitted, if it could be triggered. -/
  trigger : Option (Bool × List String)
  resultWritten : Bool
  failureWritten : Bool

structure ScopeTick where
  now : Nat
  recalc : Bool
  runs : String → ScopeRun

def advanceAfterFailure (cfg : ScopeConfig) (row : Tracker) (now : Nat) (run : ScopeRun) : Tracker :=
  let newNext := (computeNextRun cfg now).getD (now + failureBackoff)
  if run.failureWritten then upsertTracker (some row) (some now) (some newNext) (some run.runId) .failed
  else row

/-- The tracker of a schedule whose run was triggered. -/
def finishRun (cfg : ScopeConfig) (row : Tracker) (now : Nat) (run : ScopeRun) : Tracker :=
  match run.trigger, computeNextRun cfg now with
  | some (errors, submitted), some newNext =>
    if run.resultWritten then
      upsertTracker (some row) (some now) (some newNext)
        (some (Outcome.recordedId ⟨submitted, true, errors⟩ run.runId))
        (if errors then .partialFailure else .success)
    else advanceAfterFailure cfg row now run
  | _, _ => advanceAfterFailure cfg row now run

/-- A schedule whose next run may be due. The tracker is the one that the tick began with. -/
def tickRun (cfg : ScopeConfig) (row : Tracker) (tracker : Option Tracker) (nextRun now : Nat)
    (run : ScopeRun) : Tracker × Action :=
  if now < nextRun then (row, .idle)
  else
    match run.overlap with
    | none => (row, .idle)
    | some .fire => (finishRun cfg row now run, .fired)
    | some .defer => (row, .idle)
    | some .skip =>
      let newNext := (computeNextRun cfg now).getD (now + failureBackoff)
      if run.skipWritten then (recordSkip (some row) newNext tracker, .skipped) else (row, .idle)

/-- The next run from a second ago, if a `datetime` can be that early. -/
def computeFromLastSecond (cfg : ScopeConfig) (now : Nat) : Option Nat :=
  if second ≤ now then computeNextRun cfg (now - second) else none

/-- A tracker whose next run was computed again keeps its last run. -/
def reseedTracker (tracker : Option Tracker) (computed : Nat) : Tracker :=
  upsertTracker tracker (tracker.bind (·.lastRunAt)) (some computed) (tracker.bind (·.lastRunId))
    .pending

/-- The next run is computed again when there is none, or when it is recalculated. -/
def recalculate (cfg : ScopeConfig) (tracker : Option Tracker) (now : Nat) (run : ScopeRun) :
    Option Tracker × Action :=
  match computeFromLastSecond cfg now with
  | none => (tracker, .idle)
  | some computed =>
    if run.seedWritten then
      let (row, action) := tickRun cfg (reseedTracker tracker computed) tracker computed now run
      (some row, action)
    else (tracker, .idle)

/-- The turn of one schedule in `_tick`. -/
def tickScope (cfg : ScopeConfig) (tracker : Option Tracker) (now : Nat) (recalc : Bool)
    (run : ScopeRun) : Option Tracker × Action :=
  if !run.readable then (tracker, .idle)
  else
    match tracker, tracker.bind (·.nextRunAt) with
    | some row, some nextRun =>
      if recalc then recalculate cfg tracker now run
      else
        let (row, action) := tickRun cfg row tracker nextRun now run
        (some row, action)
    | _, _ => recalculate cfg tracker now run

/-- A schedule with the times of the tick that seeded it first and of the last one that fired it or
recorded a skip. -/
structure WatchedScope where
  tracker : Option Tracker
  seededAt : Option Nat
  handledAt : Option Nat

def isSeeded (tracker : Option Tracker) : Bool :=
  (tracker.bind (·.nextRunAt)).isSome

def watchScope (cfg : ScopeConfig) (s : WatchedScope) (now : Nat) (recalc : Bool) (run : ScopeRun) :
    WatchedScope :=
  let (tracker, action) := tickScope cfg s.tracker now recalc run
  { tracker
    seededAt := s.seededAt.or (if isSeeded tracker then some now else none)
    handledAt := if action = .idle then s.handledAt else some now }

def ScopeConfig.active (cfg : ScopeConfig) : Bool :=
  cfg.frequency ≠ .manual && !cfg.paused

/-- The turn of a config, if it is active. -/
def takeTurn (tick : ScopeTick) (s : String → WatchedScope) (entry : String × ScopeConfig) :
    String → WatchedScope :=
  if entry.2.active then
    Function.update s entry.1
      (watchScope entry.2 (s entry.1) tick.now tick.recalc (tick.runs entry.1))
  else s

/-- A tick takes the configs in turn. -/
def tickConfigs (configs : List (String × ScopeConfig)) (s : String → WatchedScope)
    (tick : ScopeTick) : String → WatchedScope :=
  configs.foldl (takeTurn tick) s

end Dqx.Scheduler
