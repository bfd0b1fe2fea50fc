import Dqx.Runs.Reconcile

/-! What has to be known of a job before its run is marked as failed, and which runs are marked
without that knowledge. -/

namespace Dqx.Runs

open Lib

/-! ### What is known -/

/-- The job has stopped for good, and not with success. -/
def JobStatus.Failed (status : JobStatus) : Prop :=
  status.state ∈ terminalLifecycleStates ∧ status.resultState ≠ some "SUCCESS"

/-- The latest answer of the Jobs API for a job run. -/
def Worker.reported (worker : Worker) (jobRunId : Int) : Option JobStatus :=
  (worker.lookups.find? fun lookup => lookup.1 = jobRunId ∧ lookup.2.isSome).bind (·.2)

def Worker.ReportedFailed (worker : Worker) (jobRunId : Int) : Prop :=
  ∃ status, worker.reported jobRunId = some status ∧ status.Failed

/-- The cache holds the latest answers. -/
def Worker.Remembers (worker : Worker) : Prop :=
  ∀ entry ∈ worker.cache, worker.reported entry.jobRunId = some entry.status

@[simp] theorem Worker.reported_table (worker : Worker) (table : List StoredRun) (jobRunId : Int) :
    { worker with table }.reported jobRunId = worker.reported jobRunId := rfl

@[simp] theorem Worker.updateRunStatus_lookups (worker : Worker) (moment : Moment)
    (runId status message : String) :
    (worker.updateRunStatus moment runId status message).lookups = worker.lookups := by
  unfold updateRunStatus
  split <;> rfl

@[simp] theorem Worker.updateRunStatus_cache (worker : Worker) (moment : Moment)
    (runId status message : String) :
    (worker.updateRunStatus moment runId status message).cache = worker.cache := by
  unfold updateRunStatus
  split <;> rfl

@[simp] theorem Worker.reported_updateRunStatus (worker : Worker) (moment : Moment)
    (runId status message : String) (jobRunId : Int) :
    (worker.updateRunStatus moment runId status message).reported jobRunId =
      worker.reported jobRunId := by
  simp [reported]

theorem Worker.filter_updateRunStatus (worker : Worker) (moment : Moment)
    {runId other : String} (hother : runId ≠ other) (status message : String) :
    (worker.updateRunStatus moment runId status message).table.filter (·.runId = other) =
      worker.table.filter (·.runId = other) := by
  unfold updateRunStatus
  split
  · dsimp only
    induction worker.table with
    | nil => rfl
    | cons stored table ih =>
      by_cases hrun : stored.runId = runId
      · have hne : stored.runId ≠ other := hrun ▸ hother
        rw [List.map_cons]
        split <;> simp [hne, ih]
      · simp [hrun, List.filter_cons, ih]
  · rfl

theorem Worker.Remembers.updateRunStatus {worker : Worker} (h : worker.Remembers) (moment : Moment)
    (runId status message : String) :
    (worker.updateRunStatus moment runId status message).Remembers := by
  intro entry hentry
  rw [updateRunStatus_cache] at hentry
  rw [reported_updateRunStatus]
  exact h entry hentry

theorem mem_of_mem_evict {now : Nat} {cache : List CacheEntry} {entry : CacheEntry}
    (h : entry ∈ evict now cache) : entry ∈ cache := by
  unfold evict at h
  split at h
  · exact List.mem_of_mem_filter h
  · exact h

/-- A lookup for a row that the cache does not answer. -/
def Worker.asks (worker : Worker) (jobRunId : Int) (answer : Option JobStatus) : Worker :=
  { worker with lookups := (jobRunId, answer) :: worker.lookups }

theorem Worker.reported_asks_none (worker : Worker) (asked jobRunId : Int) :
    (worker.asks asked none).reported jobRunId = worker.reported jobRunId := by
  simp [reported, asks]

theorem Worker.reported_asks_some (worker : Worker) (asked jobRunId : Int) (status : JobStatus) :
    (worker.asks asked (some status)).reported jobRunId =
      if asked = jobRunId then some status else worker.reported jobRunId := by
  by_cases h : asked = jobRunId <;> simp [reported, asks, h]

/-- What a lookup with the cache in front of it says, and what it leaves. -/
structure Looked (before : Worker) (jobRunId : Int) (answer : Option JobStatus) (after : Worker) :
    Prop where
  table : after.table = before.table
  remembers : after.Remembers
  reported : ∀ status, answer = some status → after.reported jobRunId = some status
  raised : answer = none → after.lookups = (jobRunId, none) :: before.lookups
  others : ∀ other ≠ jobRunId, after.reported other = before.reported other

theorem Worker.cachedJobStatus_spec {worker : Worker} (h : worker.Remembers) (moment : Moment)
    (jobRunId : Int) :
    Looked worker jobRunId (worker.cachedJobStatus moment jobRunId).1
      (worker.cachedJobStatus moment jobRunId).2 := by
  unfold cachedJobStatus
  cases hfound : (worker.cache.find? (·.jobRunId = jobRunId)).filter
      (moment.now < ·.expiresAt) with
  | some entry =>
    obtain ⟨hfind, -⟩ := Option.filter_eq_some_iff.mp hfound
    have hid : entry.jobRunId = jobRunId := by simpa using List.find?_some hfind
    refine ⟨rfl, h, ?_, nofun, fun _ _ => rfl⟩
    rintro status ⟨⟩
    exact hid ▸ h entry (List.mem_of_find?_eq_some hfind)
  | none =>
    cases hanswer : moment.statusFn jobRunId with
    | none =>
      have hsame := worker.reported_asks_none jobRunId
      refine ⟨rfl, ?_, nofun, fun _ => rfl, fun other _ => hsame other⟩
      intro entry hentry
      exact (hsame entry.jobRunId).trans (h entry hentry)
    | some status =>
      have hasked := fun other => worker.reported_asks_some jobRunId other status
      refine ⟨rfl, ?_, ?_, nofun, fun other hne => (hasked other).trans (if_neg hne.symm)⟩
      · intro entry hentry
        refine (hasked entry.jobRunId).trans ?_
        rcases List.mem_cons.mp (mem_of_mem_evict hentry) with rfl | hold
        · exact if_pos rfl
        · obtain ⟨hold, hne⟩ := List.mem_filter.mp hold
          rw [if_neg (Ne.symm (of_decide_eq_true hne))]
          exact h entry hold
      · rintro _ ⟨⟩
        exact (hasked jobRunId).trans (if_pos rfl)

/-! ### One visit -/

namespace Call

variable (fromIsoformat : String → Option (Int × Option Int)) (call : Call)

/-- The job runs that the run table has for a run. -/
def jobsOf (runId : String) : List Int :=
  (call.table.filter (·.runId = runId)).filterMap (·.jobRunId)

/-- The job run of a run is looked up: the query answers, the run is among the first that are listed
as `RUNNING`, and the run table still holds it as such with a job run. -/
def LooksUp (runId : String) : Prop :=
  call.answers = true ∧ runId ∈ call.runningIds.take maxReconcilePerCall ∧
    ∃ stored ∈ call.table,
      stored.runId = runId ∧ stored.status = "RUNNING" ∧ stored.jobRunId.isSome

theorem lookUp_eq_none_iff (pairs : List (String × Int)) (key : String) :
    lookUp pairs key = none ↔ ∀ value, (key, value) ∉ pairs := by
  simp only [lookUp, Option.map_eq_none_iff, List.find?_eq_none, List.mem_reverse,
    decide_eq_true_eq]
  constructor
  · intro h value hmem
    exact h _ hmem rfl
  · rintro h ⟨key', value⟩ hmem rfl
    exact h value hmem

theorem mem_of_lookUp {pairs : List (String × Int)} {key : String} {value : Int}
    (h : lookUp pairs key = some value) : (key, value) ∈ pairs := by
  obtain ⟨pair, hfound, rfl⟩ := Option.map_eq_some_iff.mp h
  have hkey := List.find?_some hfound
  have hmem := List.mem_reverse.mp (List.mem_of_find?_eq_some hfound)
  rwa [← of_decide_eq_true hkey]

theorem mem_jobRunIds {runId : String} {jobRunId : Int} :
    (runId, jobRunId) ∈ call.jobRunIds ↔
      call.answers = true ∧ runId ∈ call.runningIds.take maxReconcilePerCall ∧ runId ≠ "" ∧
        ∃ stored ∈ call.table,
          stored.runId = runId ∧ stored.status = "RUNNING" ∧ stored.jobRunId = some jobRunId := by
  unfold jobRunIds getRunningJobRunIds
  split
  · next h =>
    rcases Bool.or_eq_true_iff.mp h with h | h
    · simp [List.isEmpty_iff.mp h]
    · simp_all
  · next h =>
    simp only [Bool.or_eq_true, Bool.not_eq_true', not_or] at h
    simp only [List.mem_filterMap]
    constructor
    · rintro ⟨stored, hstored, hpair⟩
      split at hpair
      · next hrow =>
        obtain ⟨hstatus, hlisted, hne⟩ := hrow
        simp only [Option.map_eq_some_iff, Prod.mk.injEq] at hpair
        obtain ⟨_, hjob, rfl, rfl⟩ := hpair
        exact ⟨by simpa using h.2, hlisted, hne, stored, hstored, rfl, hstatus, hjob⟩
      · cases hpair
    · rintro ⟨-, hlisted, hne, stored, hstored, rfl, hstatus, hjob⟩
      exact ⟨stored, hstored, by simp [hstatus, hlisted, hne, hjob]⟩

theorem running_ne {row : Row} {runId : String} (h : row.running = some runId) :
    runId ≠ "" ∧ row.status = some "RUNNING" := by
  unfold Row.running at h
  split at h
  · next hstatus =>
    obtain ⟨-, hne⟩ := Option.filter_eq_some_iff.mp h
    exact ⟨by simpa using hne, hstatus⟩
  · cases h

theorem lookUp_jobRunIds_eq_none_iff {row : Row} {runId : String}
    (hrunning : row.running = some runId) :
    lookUp call.jobRunIds runId = none ↔ ¬call.LooksUp runId := by
  obtain ⟨hne, -⟩ := running_ne hrunning
  simp only [lookUp_eq_none_iff, mem_jobRunIds]
  constructor
  · rintro h ⟨hanswers, hlisted, stored, hstored, hrun, hstatus, hjob⟩
    obtain ⟨jobRunId, hjob⟩ := Option.isSome_iff_exists.mp hjob
    exact h jobRunId ⟨hanswers, hlisted, hne, stored, hstored, hrun, hstatus, hjob⟩
  · rintro h jobRunId ⟨hanswers, hlisted, -, stored, hstored, hrun, hstatus, hjob⟩
    exact h ⟨hanswers, hlisted, stored, hstored, hrun, hstatus, by simp [hjob]⟩

theorem mem_jobsOf_of_lookUp {runId : String} {jobRunId : Int}
    (h : lookUp call.jobRunIds runId = some jobRunId) : jobRunId ∈ call.jobsOf runId := by
  obtain ⟨-, -, -, stored, hstored, hrun, -, hjob⟩ := call.mem_jobRunIds.mp (mem_of_lookUp h)
  exact List.mem_filterMap.mpr ⟨stored, List.mem_filter.mpr ⟨hstored, by simp [hrun]⟩, hjob⟩

/-- How a visit can end. -/
inductive Visited (worker : Worker) (row : Row) (moment : Moment) : Worker × Row → Prop
  | idle : Visited worker row moment (worker, row)
  | spared {runId : String} {jobRunId : Int} (job : lookUp call.jobRunIds runId = some jobRunId) :
      Visited worker row moment ((worker.cachedJobStatus moment jobRunId).2, row)
  | failed {runId : String} {jobRunId : Int} {status : JobStatus} (new message : String)
      (running : row.running = some runId) (job : lookUp call.jobRunIds runId = some jobRunId)
      (answer : (worker.cachedJobStatus moment jobRunId).1 = some status) (bad : status.Failed) :
      Visited worker row moment
        (mark (worker.cachedJobStatus moment jobRunId).2 moment row runId new message)
  | unknown {runId : String} (running : row.running = some runId)
      (job : lookUp call.jobRunIds runId = none) (old : call.stale fromIsoformat row = true) :
      Visited worker row moment (mark worker moment row runId "FAILED" staleMessage)
  | raised {runId : String} {jobRunId : Int} (running : row.running = some runId)
      (job : lookUp call.jobRunIds runId = some jobRunId)
      (answer : (worker.cachedJobStatus moment jobRunId).1 = none)
      (old : call.stale fromIsoformat row = true) :
      Visited worker row moment
        (mark (worker.cachedJobStatus moment jobRunId).2 moment row runId "FAILED" staleMessage)

theorem visited (worker : Worker) (row : Row) (moment : Moment) :
    call.Visited fromIsoformat worker row moment
      (call.visit fromIsoformat call.jobRunIds worker row moment) := by
  unfold visit
  cases hrunning : row.running with
  | none => exact .idle
  | some runId =>
    cases hjob : lookUp call.jobRunIds runId with
    | none =>
      simp only [hjob, staleFallback]
      split
      · next old => exact .unknown hrunning hjob old
      · exact .idle
    | some jobRunId =>
      simp only [hjob]
      split
      · next after hlooked =>
        have hafter : after = (worker.cachedJobStatus moment jobRunId).2 := by rw [hlooked]
        subst hafter
        unfold staleFallback
        split
        · next old => exact .raised hrunning hjob (by rw [hlooked]) old
        · exact .spared hjob
      · next status after hlooked =>
        have hafter : after = (worker.cachedJobStatus moment jobRunId).2 := by rw [hlooked]
        subst hafter
        split
        · exact .spared hjob
        · next hstopped =>
          split
          · exact .spared hjob
          · next hbad =>
            exact .failed _ _ hrunning hjob (by rw [hlooked]) ⟨not_not.mp hstopped, hbad⟩

theorem visit_of_unknown {worker : Worker} {row : Row} {moment : Moment} {runId : String}
    (running : row.running = some runId) (job : lookUp call.jobRunIds runId = none)
    (old : call.stale fromIsoformat row = true) :
    call.visit fromIsoformat call.jobRunIds worker row moment =
      mark worker moment row runId "FAILED" staleMessage := by
  simp [visit, running, job, staleFallback, old]

/-! ### The evidence -/

/-- What a visit that marks the run of its row has to go by: the Jobs API has reported that a job of
the run failed, or the row is old, and the run has no job or the lookup of one has just raised. -/
def Evidence (row : Row) (runId : String) (before after : Worker) : Prop :=
  (∃ jobRunId ∈ call.jobsOf runId, after.ReportedFailed jobRunId) ∨
    call.stale fromIsoformat row = true ∧ (call.jobsOf runId = [] ∨
      ∃ jobRunId ∈ call.jobsOf runId, after.lookups = (jobRunId, none) :: before.lookups)

/-- A visit marks its row, or a row of the run table, only on evidence, and it touches no other
run. -/
def Justified (worker : Worker) (listed : Row × Moment) : Prop :=
  let visited := call.visit fromIsoformat call.jobRunIds worker listed.1 listed.2
  ((visited.2.status ≠ listed.1.status ∨ visited.1.table ≠ worker.table) →
    ∃ runId, listed.1.running = some runId ∧
      call.Evidence fromIsoformat listed.1 runId worker visited.1) ∧
  ∀ runId, listed.1.running ≠ some runId →
    visited.1.table.filter (·.runId = runId) = worker.table.filter (·.runId = runId)

/-- An old row of a run with a job is judged by its age only after a lookup of the job, unless the
Jobs API has reported before that the job failed. -/
def Resolved (worker : Worker) (listed : Row × Moment) : Prop :=
  ∀ runId, listed.1.running = some runId → call.stale fromIsoformat listed.1 = true →
    call.LooksUp runId ∨ call.jobsOf runId = [] ∨
      ∃ jobRunId ∈ call.jobsOf runId, worker.ReportedFailed jobRunId

theorem remembers_visit {worker : Worker} (h : worker.Remembers) (row : Row) (moment : Moment) :
    (call.visit fromIsoformat call.jobRunIds worker row moment).1.Remembers := by
  have hvisited := call.visited fromIsoformat worker row moment
  generalize call.visit fromIsoformat call.jobRunIds worker row moment = outcome at hvisited ⊢
  cases hvisited with
  | idle => exact h
  | spared job => exact (worker.cachedJobStatus_spec h moment _).remembers
  | failed new message running job answer bad =>
    exact (worker.cachedJobStatus_spec h moment _).remembers.updateRunStatus moment _ _ _
  | unknown running job old => exact h.updateRunStatus moment _ _ _
  | raised running job answer old =>
    exact (worker.cachedJobStatus_spec h moment _).remembers.updateRunStatus moment _ _ _

/-- Nothing is asked about a job that no run is known to have. -/
theorem reported_visit {worker : Worker} (h : worker.Remembers) (row : Row) (moment : Moment)
    {other : Int} (hother : other ∉ call.jobRunIds.map (·.2)) :
    (call.visit fromIsoformat call.jobRunIds worker row moment).1.reported other =
      worker.reported other := by
  have hasked {runId : String} {jobRunId : Int} (job : lookUp call.jobRunIds runId = some jobRunId) :
      (worker.cachedJobStatus moment jobRunId).2.reported other = worker.reported other := by
    have hmem : jobRunId ∈ call.jobRunIds.map (·.2) := List.mem_map_of_mem (mem_of_lookUp job)
    apply (worker.cachedJobStatus_spec h moment jobRunId).others
    rintro rfl
    exact hother hmem
  have hvisited := call.visited fromIsoformat worker row moment
  generalize call.visit fromIsoformat call.jobRunIds worker row moment = outcome at hvisited ⊢
  cases hvisited with
  | idle => rfl
  | spared job => exact hasked job
  | failed new message running job answer bad =>
    exact (Worker.reported_updateRunStatus ..).trans (hasked job)
  | unknown running job old => exact Worker.reported_updateRunStatus ..
  | raised running job answer old =>
    exact (Worker.reported_updateRunStatus ..).trans (hasked job)

theorem justified_iff {worker : Worker} (h : worker.Remembers) (listed : Row × Moment) :
    call.Justified fromIsoformat worker listed ↔ call.Resolved fromIsoformat worker listed := by
  obtain ⟨row, moment⟩ := listed
  constructor
  · rintro ⟨justified, -⟩ runId running old
    by_cases known : call.LooksUp runId
    · exact .inl known
    have job := (call.lookUp_jobRunIds_eq_none_iff running).mpr known
    have hvisit : call.visit fromIsoformat call.jobRunIds worker row moment =
        mark worker moment row runId "FAILED" staleMessage :=
      call.visit_of_unknown fromIsoformat running job old
    have hstatus : row.status = some "RUNNING" := (running_ne running).2
    simp only [hvisit, mark] at justified
    obtain ⟨runId', running', evidence⟩ := justified (.inl (by simp [hstatus]))
    obtain rfl : runId = runId' := Option.some.inj (running.symm.trans running')
    rcases evidence with ⟨jobRunId, hmem, status, hreported, bad⟩ | ⟨-, hnone | ⟨_, _, hraised⟩⟩
    · rw [Worker.reported_updateRunStatus] at hreported
      exact .inr (.inr ⟨jobRunId, hmem, status, hreported, bad⟩)
    · exact .inr (.inl hnone)
    · rw [Worker.updateRunStatus_lookups] at hraised
      exact absurd hraised.symm (List.cons_ne_self _ _)
  · intro resolved
    unfold Justified
    dsimp only
    have hvisited := call.visited fromIsoformat worker row moment
    generalize call.visit fromIsoformat call.jobRunIds worker row moment = outcome at hvisited ⊢
    cases hvisited with
    | idle => exact ⟨fun changed => absurd changed (by simp), fun _ _ => rfl⟩
    | @spared runId jobRunId job =>
      have hlooked := worker.cachedJobStatus_spec h moment jobRunId
      refine ⟨fun changed => absurd changed (by simp [hlooked.table]), fun _ _ => ?_⟩
      rw [hlooked.table]
    | @failed runId jobRunId status new message running job answer bad =>
      have hlooked := worker.cachedJobStatus_spec h moment jobRunId
      refine ⟨fun _ => ⟨runId, running, .inl ⟨jobRunId, ?_, status, ?_, bad⟩⟩,
        fun other hother => ?_⟩
      · exact call.mem_jobsOf_of_lookUp job
      · exact (Worker.reported_updateRunStatus ..).trans (hlooked.reported status answer)
      · have hne : runId ≠ other := fun heq => hother (heq ▸ running)
        exact (Worker.filter_updateRunStatus _ moment hne _ _).trans (by rw [hlooked.table])
    | @unknown runId running job old =>
      refine ⟨fun _ => ⟨runId, running, ?_⟩, fun other hother => ?_⟩
      · rcases resolved runId running old with
          known | hnone | ⟨jobRunId, hmem, status, hstatus, bad⟩
        · exact absurd known ((call.lookUp_jobRunIds_eq_none_iff running).mp job)
        · exact .inr ⟨old, .inl hnone⟩
        · refine .inl ⟨jobRunId, hmem, status, ?_, bad⟩
          exact (Worker.reported_updateRunStatus ..).trans hstatus
      · have hne : runId ≠ other := fun heq => hother (heq ▸ running)
        exact Worker.filter_updateRunStatus _ moment hne _ _
    | @raised runId jobRunId running job answer old =>
      have hlooked := worker.cachedJobStatus_spec h moment jobRunId
      refine ⟨fun _ => ⟨runId, running, .inr ⟨old, .inr ⟨jobRunId, ?_, ?_⟩⟩⟩, fun other hother => ?_⟩
      · exact call.mem_jobsOf_of_lookUp job
      · exact (Worker.updateRunStatus_lookups ..).trans (hlooked.raised answer)
      · have hne : runId ≠ other := fun heq => hother (heq ▸ running)
        exact (Worker.filter_updateRunStatus _ moment hne _ _).trans (by rw [hlooked.table])

/-! ### Requests -/

/-- Every visit of the request is justified. -/
def Lawful (worker : Worker) : Prop :=
  (call.visits fromIsoformat).Guarded (call.Justified fromIsoformat)
    { worker with table := call.table } call.rows

/-- Every visit of the request is resolved. -/
def Conclusive (worker : Worker) : Prop :=
  (call.visits fromIsoformat).Guarded (call.Resolved fromIsoformat)
    { worker with table := call.table } call.rows

theorem lawful_iff {worker : Worker} (h : worker.Remembers) :
    call.Lawful fromIsoformat worker ↔ call.Conclusive fromIsoformat worker := by
  refine (call.visits fromIsoformat).guarded_iff (I := fun worker _ => worker.Remembers)
    (R := fun _ _ => True) (V := fun _ => True) ?_ (fun _ _ => h) (fun _ _ => trivial)
    (List.pairwise_of_forall fun _ _ => trivial)
  intro worker listed hremembers _
  refine ⟨call.justified_iff fromIsoformat hremembers listed, fun _ _ _ => ?_⟩
  exact call.remembers_visit fromIsoformat hremembers listed.1 listed.2

theorem remembers_final {worker : Worker} (h : worker.Remembers) (rows : List (Row × Moment)) :
    ((call.visits fromIsoformat).final worker rows).Remembers := by
  induction rows generalizing worker with
  | nil => exact h
  | cons listed rows ih =>
    exact ih (call.remembers_visit fromIsoformat h listed.1 listed.2)

theorem reported_final {worker : Worker} (h : worker.Remembers) (rows : List (Row × Moment))
    {other : Int} (hother : other ∉ call.jobRunIds.map (·.2)) :
    ((call.visits fromIsoformat).final worker rows).reported other = worker.reported other := by
  induction rows generalizing worker with
  | nil => rfl
  | cons listed rows ih =>
    exact (ih (call.remembers_visit fromIsoformat h listed.1 listed.2)).trans
      (call.reported_visit fromIsoformat h listed.1 listed.2 hother)

theorem remembers_reconcile {worker : Worker} (h : worker.Remembers) :
    (call.reconcileRunningRows fromIsoformat worker).1.Remembers := by
  unfold reconcileRunningRows
  dsimp only
  split
  · exact h
  · have hstart : ({ worker with table := call.table } : Worker).Remembers := h
    exact call.remembers_final fromIsoformat hstart call.rows

/-- Rows that are not `RUNNING` are passed over. -/
theorem visits_idle {rows : List (Row × Moment)} (h : ∀ listed ∈ rows, listed.1.running = none)
    (worker : Worker) :
    (call.visits fromIsoformat).final worker rows = worker ∧
      (call.visits fromIsoformat).outputs worker rows = rows.map (·.1) := by
  induction rows with
  | nil => exact ⟨rfl, rfl⟩
  | cons listed rows ih =>
    obtain ⟨hhere, hrest⟩ := List.forall_mem_cons.mp h
    have hstep : (call.visits fromIsoformat).step worker listed = (worker, listed.1) := by
      simp [visits, visit, hhere]
    simp [hstep, ih hrest]

/-- Without `RUNNING` rows the loop would have changed nothing either. -/
theorem reconcile_eq (worker : Worker) :
    call.reconcileRunningRows fromIsoformat worker =
      ((call.visits fromIsoformat).final { worker with table := call.table } call.rows,
        (call.visits fromIsoformat).outputs { worker with table := call.table } call.rows) := by
  unfold reconcileRunningRows
  dsimp only
  split
  · next hnone =>
    have hidle := List.filterMap_eq_nil_iff.mp (List.isEmpty_iff.mp hnone)
    obtain ⟨hfinal, houtputs⟩ :=
      call.visits_idle fromIsoformat hidle { worker with table := call.table }
    rw [hfinal, houtputs]
  · rfl

end Call

/-- A worker that has just started. -/
def Worker.started (table : List StoredRun) : Worker := ⟨[], table, []⟩

/-- In every run of requests each marks runs on evidence only, exactly if none judges an old row of a
run with a job without looking the job up. -/
theorem requests_lawful_iff (fromIsoformat : String → Option (Int × Option Int))
    (table : List StoredRun) (calls : List Call) :
    (requests fromIsoformat).Guarded (fun worker call => call.Lawful fromIsoformat worker)
        (.started table) calls ↔
      (requests fromIsoformat).Guarded (fun worker call => call.Conclusive fromIsoformat worker)
        (.started table) calls := by
  refine (requests fromIsoformat).guarded_iff (I := fun worker _ => worker.Remembers)
    (R := fun _ _ => True) (V := fun _ => True) ?_ (fun _ _ => nofun) (fun _ _ => trivial)
    (List.pairwise_of_forall fun _ _ => trivial)
  intro worker call hremembers _
  refine ⟨call.lawful_iff fromIsoformat hremembers, fun _ _ _ => ?_⟩
  exact call.remembers_reconcile fromIsoformat hremembers

/-! ### A run that is not among the first -/

def newYear : Int := 1767225600 * second

def listedRow (run : Nat) : Row × Moment :=
  (⟨some (toString run), some "RUNNING", some "2026-01-01 00:00:00", none⟩,
    ⟨0, fun _ => some ⟨"RUNNING", none, none⟩, true⟩)

/-- A day after they started, twenty-six runs are still active. -/
def busyDay : Call where
  nowUtc := newYear + 24 * 3600 * second
  rows := (List.range 26).map listedRow
  table := (List.range 26).map fun run => ⟨toString run, "RUNNING", some run, ""⟩
  answers := true

theorem not_all_requests_lawful :
    ¬∀ fromIsoformat table (calls : List Call),
      (requests fromIsoformat).Guarded (fun worker call => call.Lawful fromIsoformat worker)
        (.started table) calls := by
  intro h
  have hcalls := h (fun _ => some (newYear, none)) [] [busyDay]
  rw [requests_lawful_iff] at hcalls
  have hrows : busyDay.rows = (List.range 25).map listedRow ++ [listedRow 25] := rfl
  obtain ⟨hvisits, -⟩ := hcalls
  dsimp only [Call.Conclusive] at hvisits
  rw [hrows, Machine.guarded_append] at hvisits
  obtain ⟨-, hlast, -⟩ := hvisits
  -- the last run is old and has a job, but no visit asks about it
  rcases hlast "25" rfl (by decide) with known | hnone | ⟨jobRunId, hmem, status, hreported, bad⟩
  · exact absurd known.2.1 (by decide)
  · exact absurd hnone (by decide)
  · obtain rfl : jobRunId = 25 := List.mem_singleton.mp hmem
    have hknown : (25 : Int) ∉ busyDay.jobRunIds.map (·.2) := by decide
    have hstart : (Worker.started busyDay.table).Remembers := nofun
    have hnever := busyDay.reported_final (fun _ => some (newYear, none)) hstart
      ((List.range 25).map listedRow) hknown
    exact absurd (hnever.symm.trans hreported) nofun

end Dqx.Runs
