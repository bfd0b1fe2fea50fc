import Dqx.Lib.Run
import Mathlib.Data.List.Defs

/-! How listing the runs corrects the placeholders that a dead task left `RUNNING`: the Jobs API is
asked for the first of them, and those that cannot be asked about are judged by their age. -/

namespace Dqx.Runs

open Lib

/-! ### Jobs -/

/-- What the Jobs API answers for a job run. -/
structure JobStatus where
  state : String
  resultState : Option String
  message : Option String
  deriving DecidableEq, Repr

def terminalLifecycleStates : List String := ["TERMINATED", "INTERNAL_ERROR", "SKIPPED"]

def maxReconcilePerCall : Nat := 25

/-- Microseconds. -/
def second : Nat := 1000000

def statusCacheTtl : Nat := 30 * second

def staleRunningMaxAge : Int := 12 * 3600 * second

structure CacheEntry where
  jobRunId : Int
  status : JobStatus
  expiresAt : Nat
  deriving DecidableEq, Repr

/-- What surrounds the visit to a row: the monotonic clock, the answers of the Jobs API, which may
raise, and whether an update of the run table succeeds. -/
structure Moment where
  now : Nat
  statusFn : Int → Option JobStatus
  executes : Bool

/-- `x or default` for a text that may be missing. -/
def orElse (text : Option String) (default : String) : String :=
  if text.getD "" = "" then default else text.getD ""

/-! ### Rows -/

/-- A row of the run table. -/
structure StoredRun where
  runId : String
  status : String
  jobRunId : Option Int
  errorMessage : String
  deriving DecidableEq, Repr

/-- A listed row. -/
structure Row where
  runId : Option String
  status : Option String
  createdAt : Option String
  errorMessage : Option String
  deriving DecidableEq, Repr

/-- The run of a `RUNNING` row. -/
def Row.running (row : Row) : Option String :=
  if row.status = some "RUNNING" then row.runId.filter (· ≠ "") else none

/-- The memory of a worker and the run table. Every lookup in the Jobs API is kept, the latest
first. -/
structure Worker where
  cache : List CacheEntry
  table : List StoredRun
  lookups : List (Int × Option JobStatus)

/-- `update_run_status`, which swallows the failure of its statement. -/
def Worker.updateRunStatus (worker : Worker) (moment : Moment) (runId status message : String) :
    Worker :=
  if moment.executes then
    { worker with
      table := worker.table.map fun stored =>
        if stored.runId = runId ∧ stored.status = "RUNNING" then
          { stored with status, errorMessage := message }
        else stored }
  else worker

/-- Expired entries go once there are many. -/
def evict (now : Nat) (cache : List CacheEntry) : List CacheEntry :=
  if 512 < cache.length then cache.filter fun entry => now < entry.expiresAt else cache

def Worker.cachedJobStatus (worker : Worker) (moment : Moment) (jobRunId : Int) :
    Option JobStatus × Worker :=
  match (worker.cache.find? (·.jobRunId = jobRunId)).filter (moment.now < ·.expiresAt) with
  | some entry => (some entry.status, worker)
  | none =>
    let asked := { worker with lookups := (jobRunId, moment.statusFn jobRunId) :: worker.lookups }
    match moment.statusFn jobRunId with
    | none => (none, asked)
    | some status =>
      let entry := ⟨jobRunId, status, moment.now + statusCacheTtl⟩
      let cache := entry :: worker.cache.filter (·.jobRunId ≠ jobRunId)
      (some status, { asked with cache := evict moment.now cache })

/-- The pairs that the query of the run table yields, unless it fails. -/
def getRunningJobRunIds (table : List StoredRun) (answers : Bool) (runIds : List String) :
    List (String × Int) :=
  if runIds.isEmpty || !answers then []
  else
    table.filterMap fun stored =>
      if stored.status = "RUNNING" ∧ stored.runId ∈ runIds ∧ stored.runId ≠ "" then
        stored.jobRunId.map fun jobRunId => (stored.runId, jobRunId)
      else none

/-- The value of a key in a dictionary that was filled in order. -/
def lookUp (pairs : List (String × Int)) (key : String) : Option Int :=
  (pairs.reverse.find? (·.1 = key)).map (·.2)

/-! ### Reconciliation -/

/-- One request for the list: the time, the rows as listed, each with what surrounds its visit, and
what the run table holds when it is queried. -/
structure Call where
  nowUtc : Int
  rows : List (Row × Moment)
  table : List StoredRun
  answers : Bool

namespace Call

-- `datetime.fromisoformat`: a local time and its offset, if it has one.
variable (fromIsoformat : String → Option (Int × Option Int)) (call : Call)

/-- The row is old enough to be unrecoverable. -/
def stale (row : Row) : Bool :=
  match row.createdAt with
  | none => false
  | some createdAt =>
    if createdAt = "" then false
    else
      match fromIsoformat (createdAt.replace " " "T") with
      | none => false
      | some (time, offset) => staleRunningMaxAge ≤ call.nowUtc - (time - offset.getD 0)

def staleMessage : String :=
  "Run status unrecoverable (stale RUNNING placeholder); marked failed after 12h."

def mark (worker : Worker) (moment : Moment) (row : Row) (runId status message : String) :
    Worker × Row :=
  (worker.updateRunStatus moment runId status message,
    { row with status := some status, errorMessage := some (orElse row.errorMessage message) })

def staleFallback (worker : Worker) (moment : Moment) (row : Row) (runId : String) : Worker × Row :=
  if call.stale fromIsoformat row then mark worker moment row runId "FAILED" staleMessage
  else (worker, row)

/-- One pass of the loop. -/
def visit (jobRunIds : List (String × Int)) (worker : Worker) (row : Row) (moment : Moment) :
    Worker × Row :=
  match row.running with
  | none => (worker, row)
  | some runId =>
    match lookUp jobRunIds runId with
    | none => call.staleFallback fromIsoformat worker moment row runId
    | some jobRunId =>
      match worker.cachedJobStatus moment jobRunId with
      | (none, worker) => call.staleFallback fromIsoformat worker moment row runId
      | (some status, worker) =>
        if status.state ∉ terminalLifecycleStates then (worker, row)
        else if status.resultState = some "SUCCESS" then (worker, row)
        else
          mark worker moment row runId
            (if status.resultState = some "CANCELED" then "CANCELED" else "FAILED")
            (orElse status.message s!"Run finished with state: {status.state}")

def runningIds : List String := call.rows.filterMap (·.1.running)

/-- The job runs that the loop knows of. -/
def jobRunIds : List (String × Int) :=
  getRunningJobRunIds call.table call.answers (call.runningIds.take maxReconcilePerCall)

/-- The loop over the rows. -/
def visits : Machine Worker (Row × Moment) Row :=
  ⟨fun worker listed => call.visit fromIsoformat call.jobRunIds worker listed.1 listed.2⟩

/-- `reconcile_running_rows`: the worker behind it, and the rows as they are answered. -/
def reconcileRunningRows (worker : Worker) : Worker × List Row :=
  let worker := { worker with table := call.table }
  if call.runningIds.isEmpty then (worker, call.rows.map (·.1))
  else
    ((call.visits fromIsoformat).final worker call.rows,
      (call.visits fromIsoformat).outputs worker call.rows)

end Call

/-- A worker that answers one request after the other. -/
def requests (fromIsoformat : String → Option (Int × Option Int)) :
    Machine Worker Call (List Row) :=
  ⟨fun worker call => call.reconcileRunningRows fromIsoformat worker⟩

end Dqx.Runs
