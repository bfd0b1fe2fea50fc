import Dqx.Scheduler.Cron

/-! The tracker of a schedule, a row of `dq_schedule_runs`, and the writes that a tick makes to it. -/

namespace Dqx.Scheduler

inductive TrackerStatus where
  | pending | success | partialFailure | failed | skipped
  deriving DecidableEq, Repr

/-- A row of `dq_schedule_runs`. A status that is not one of the valid ones is read as none. -/
structure Tracker where
  lastRunAt : Option Nat
  nextRunAt : Option Nat
  lastRunId : Option String
  status : Option TrackerStatus
  paused : Bool
  deriving DecidableEq, Repr

/-- What a tick does about a schedule that is due while other runs are active. -/
inductive Overlap where
  | fire | defer | skip
  deriving DecidableEq, Repr

/-- What a tick did with a schedule. -/
inductive Action where
  | idle | fired | skipped
  deriving DecidableEq, Repr

/-- What the runs of a firing came to. -/
structure Outcome where
  submittedIds : List String
  anySucceeded : Bool
  anyFailed : Bool

def Outcome.none : Outcome := ⟨[], false, false⟩

def Outcome.failure : Outcome := ⟨[], false, true⟩

def Outcome.append (a b : Outcome) : Outcome :=
  ⟨a.submittedIds ++ b.submittedIds, a.anySucceeded || b.anySucceeded, a.anyFailed || b.anyFailed⟩

/-- One run that was submitted under an id, or failed to be triggered. -/
def Outcome.ofRun : Option String → Outcome
  | some runId => ⟨[runId], true, false⟩
  | none => failure

inductive ScheduleKind where
  | dqOnly | profilingOnly | profilingAndDq

def ScheduleKind.withDq : ScheduleKind → Bool
  | .dqOnly | .profilingAndDq => true
  | .profilingOnly => false

def ScheduleKind.withProfiling : ScheduleKind → Bool
  | .profilingOnly | .profilingAndDq => true
  | .dqOnly => false

/-- The runs that a firing submits: of one table, or of the members of a product. -/
inductive Submission where
  | table (dq profile : Option String)
  /-- The submitted runs of a product with whether members were skipped, and the profiling runs of its
  members, if they can be listed. -/
  | product (dq : Option (List String × Bool)) (profiles : Option (List (Option String)))

def Submission.dq : Submission → Outcome
  | .table dq _ => .ofRun dq
  | .product (some (runIds, skipped)) _ => ⟨runIds, true, skipped⟩
  | .product none _ => .failure

def Submission.profile : Submission → Outcome
  | .table _ profile => .ofRun profile
  | .product _ (some profiles) => (profiles.map .ofRun).foldl .append .none
  | .product _ none => .failure

def Submission.outcome (submission : Submission) (kind : ScheduleKind) : Outcome :=
  (if kind.withDq then submission.dq else .none).append
    (if kind.withProfiling then submission.profile else .none)

def failureBackoff : Nat := hour

def Outcome.status (outcome : Outcome) : TrackerStatus :=
  if !outcome.anySucceeded && outcome.anyFailed then .failed
  else if outcome.anyFailed then .partialFailure
  else .success

/-- The run ids that are recorded for a firing. -/
def Outcome.recordedId (outcome : Outcome) (runId : String) : String :=
  if outcome.submittedIds.isEmpty then runId
  else ",".intercalate (outcome.submittedIds.mergeSort fun a b => a ≤ b)

/-- A write leaves the pause of the row alone. -/
def upsertTracker (row : Option Tracker) (lastRunAt nextRunAt : Option Nat)
    (lastRunId : Option String) (status : TrackerStatus) : Tracker :=
  ⟨lastRunAt, nextRunAt, lastRunId, some status, row.any (·.paused)⟩

/-- A skip advances `next_run_at` and leaves the last run as the tracker read has it. -/
def recordSkip (row : Option Tracker) (nextRunAt : Nat) (tracker : Option Tracker) : Tracker :=
  upsertTracker row (tracker.bind (·.lastRunAt)) (some nextRunAt) (tracker.bind (·.lastRunId)) .skipped

end Dqx.Scheduler
