import Dqx.Lib.Run
import Dqx.Monitored.Lifecycle

/-! What a monitored table shows once all calls on it have returned: a version for each approval, each
frozen once, and a status that agrees with its checks. An approval counts if it writes the version that
follows the one that the table has, and a status agrees with the checks if its write finds them as they
were listed, or as the call wanted to leave them. -/

namespace Dqx.Monitored

open Lib
open Rules (RuleStatus)

abbrev Reviews := Session Store Event Result

/-- A state that a statement meets, with the event of the statement. -/
abbrev Moment := Store × Event

/-- The statuses of the materialized checks of the binding. -/
def Store.statuses (store : Store) : List RuleStatus :=
  (store.materialized store.appliedRuleIds).map (·.status)

/-- No check of a rejected or withdrawn table is pending, and an approved one has an approved check. -/
structure Agrees (store : Store) : Prop where
  pending : store.table.status = .rejected ∨ store.table.status = .draft →
    .pendingApproval ∉ store.statuses
  approved : store.table.status = .approved → .approved ∈ store.statuses

def Event.isSetStatus : Event → Bool
  | .setStatus .. => true
  | _ => false

def Event.writesChecks : Event → Bool
  | .materialize => true
  | .transition .. => true
  | _ => false

/-- What a statement does. -/
def Writes : Event → Store → Store → Prop
  | .read, s, s' => s' = s
  | .materialize, s, s' => ∃ checks, s' = { s with checks }
  | .transition entry status, s, s' => s' = writeTransition entry status s
  | .setStatus status rolledUp, s, s' => (rolledUp = true ∨ status ≠ .approved) ∧
      ∃ user rationale, s' = { s with table := s.table.setStatus status user rationale }
  | .setVersion version, s, s' => s' = { s with table := { s.table with version } }
  | .insertVersion version, s, s' => ∃ user, s' = (s.insertVersion version user).getD s

/-- What a statement does, and how its call goes on: the status is written after each write of the
checks, a version is inserted right after the table has got it, and that insert is the approval. -/
structure Effect (event : Event) (s s' : Store) (rest : ReviewCall) : Prop where
  writes : Writes event s s'
  owes : event.writesChecks = true → rest.Will fun event => event.isSetStatus = true
  inserts : ∀ version, rest.nextEvent = some (.insertVersion version) ↔ event = .setVersion version
  approves : rest.result?.any isApproval = true ↔
    ∃ version user, event = .insertVersion version ∧ (s.insertVersion version user).isSome = true

/-! ### The calls -/

/-- A call that obeys, and begins neither with an insert of a version nor with the reply of an
approval. -/
structure Begins (call : ReviewCall) : Prop where
  inserts : ∀ version, call.nextEvent ≠ some (.insertVersion version)
  approves : (call.result?.any isApproval) = false
  obeys : call.Obeys Effect

/-- It also writes the status before it returns. -/
structure BeginsOwing (call : ReviewCall) : Prop extends Begins call where
  owes : call.Will fun event => event.isSetStatus = true

theorem obeys_stmt {event : Event} {write : Store → Store} {next : Store → ReviewCall}
    (hevent : ∀ version, event ≠ .setVersion version ∧ event ≠ .insertVersion version)
    (hwrites : ∀ s, Writes event s (write s)) (hnext : ∀ s, Begins (next s))
    (howes : event.writesChecks = true → ∀ s, (next s).Will fun event => event.isSetStatus = true) :
    (Call.stmt event write next).Obeys Effect := by
  intro s
  refine ⟨⟨hwrites s, fun h => howes h s, ?_, ?_⟩, (hnext s).obeys⟩
  · intro version
    exact ⟨fun h => absurd h ((hnext s).inserts version), fun h => absurd h (hevent version).1⟩
  · rw [(hnext s).approves]
    refine ⟨nofun, ?_⟩
    rintro ⟨version, user, h, -⟩
    exact absurd h (hevent version).2

theorem begins_error (error : Error) : Begins (.done (.error error)) := ⟨fun _ => nofun, rfl, trivial⟩

theorem begins_done (table : MonitoredTable) (count : Nat) : Begins (.done (.ok ⟨table, count, none⟩)) :=
  ⟨fun _ => nofun, rfl, trivial⟩

theorem begins_read {next : Store → ReviewCall} (hnext : ∀ s, Begins (next s)) :
    Begins (.stmt .read id next) :=
  ⟨fun _ => nofun, rfl, obeys_stmt (fun _ => ⟨nofun, nofun⟩) (fun _ => rfl) hnext nofun⟩

theorem beginsOwing_stmt {event : Event} {write : Store → Store} {next : Store → ReviewCall}
    (hevent : ∀ version, event ≠ .setVersion version ∧ event ≠ .insertVersion version)
    (hwrites : ∀ s, Writes event s (write s)) (hnext : ∀ s, BeginsOwing (next s)) :
    BeginsOwing (.stmt event write next) where
  inserts version h := (hevent version).2 (Option.some.inj h)
  approves := rfl
  obeys := obeys_stmt hevent hwrites (fun s => (hnext s).toBegins) fun _ s => (hnext s).owes
  owes := .inr fun s => (hnext s).owes

theorem beginsOwing_read {next : Store → ReviewCall} (hnext : ∀ s, BeginsOwing (next s)) :
    BeginsOwing (.stmt .read id next) :=
  beginsOwing_stmt (fun _ => ⟨nofun, nofun⟩) (fun _ => rfl) hnext

theorem beginsOwing_listStatuses {next : List Check → ReviewCall}
    (hnext : ∀ rows, BeginsOwing (next rows)) : BeginsOwing (listStatuses next) := by
  apply beginsOwing_read
  intro s
  dsimp only
  split
  · exact hnext _
  · exact beginsOwing_read fun s => hnext _

theorem beginsOwing_checkStatement {fails : Bool} {event : Event} {write : Store → Store}
    {skip : ReviewCall} {next : Store → ReviewCall}
    (hevent : ∀ version, event ≠ .setVersion version ∧ event ≠ .insertVersion version)
    (hwrites : ∀ s, Writes event s (write s)) (hskip : BeginsOwing skip)
    (hnext : ∀ s, BeginsOwing (next s)) : BeginsOwing (checkStatement fails event write skip next) := by
  rw [checkStatement]
  split
  · exact beginsOwing_read fun _ => hskip
  · exact beginsOwing_stmt hevent hwrites hnext

theorem beginsOwing_setCheckStatus {faults : Faults} {ruleId : String} {status : RuleStatus}
    {skip next : ReviewCall} (hskip : BeginsOwing skip) (hnext : BeginsOwing next) :
    BeginsOwing (setCheckStatus faults ruleId status skip next) := by
  have hread : ∀ {fails : Bool} {next : Store → ReviewCall}, (∀ s, BeginsOwing (next s)) →
      BeginsOwing (checkStatement fails .read id skip next) := fun hnext =>
    beginsOwing_checkStatement (fun _ => ⟨nofun, nofun⟩) (fun _ => rfl) hskip hnext
  have hupdate : ∀ entry, BeginsOwing (checkStatement (faults.fails status ruleId 2)
      (.transition entry status) (writeTransition entry status) skip fun _ =>
        checkStatement (faults.fails status ruleId 3) .read id skip fun store =>
          if (store.check? ruleId).any (·.status = status) then next else skip) := by
    intro entry
    refine beginsOwing_checkStatement (fun _ => ⟨nofun, nofun⟩) (fun _ => rfl) hskip fun _ => ?_
    apply hread
    intro s
    split
    · exact hnext
    · exact hskip
  apply hread
  intro s
  split
  · exact hskip
  · rename_i entry _
    dsimp only
    split
    · exact hskip
    · split
      · apply hread
        intro s
        split
        · exact hskip
        · exact hupdate entry
      · exact hupdate entry

theorem beginsOwing_transitionEach {faults : Faults} {fromStatus toStatus : RuleStatus}
    {next : Nat → ReviewCall} (hnext : ∀ count, BeginsOwing (next count)) (rows : List Check)
    (count : Nat) : BeginsOwing (transitionEach faults fromStatus toStatus next rows count) := by
  induction rows generalizing count with
  | nil => exact hnext count
  | cons check rest ih =>
    rw [transitionEach]
    split
    · exact ih count
    · exact beginsOwing_setCheckStatus (ih count) (ih (count + 1))

theorem beginsOwing_transitionBindingChecks {faults : Faults} {fromStatus toStatus : RuleStatus}
    {next : Nat → ReviewCall} (hnext : ∀ count, BeginsOwing (next count)) :
    BeginsOwing (transitionBindingChecks faults fromStatus toStatus next) :=
  beginsOwing_listStatuses fun rows => beginsOwing_transitionEach hnext rows 0

theorem beginsOwing_setStatus {status : RuleStatus} {rolledUp : Bool} {user : String}
    {rationale : Option String} {next : MonitoredTable → ReviewCall}
    (hstatus : rolledUp = true ∨ status ≠ .approved) (hnext : ∀ table, Begins (next table)) :
    BeginsOwing (setStatus status rolledUp user rationale next) := by
  apply beginsOwing_read
  intro s
  exact ⟨⟨fun _ => nofun, rfl, obeys_stmt (fun _ => ⟨nofun, nofun⟩) (fun _ => ⟨hstatus, user, rationale, rfl⟩)
    (fun _ => hnext _) nofun⟩, .inl rfl⟩

theorem begins_freezeNewVersion (user : String) (table : MonitoredTable) (approved : Nat) :
    Begins (freezeNewVersion user fun newVersion =>
      .done (.ok ⟨table, approved, some newVersion⟩)) := by
  apply begins_read
  intro _
  apply begins_read
  intro _
  apply begins_read
  intro s
  apply begins_read
  intro _
  refine ⟨fun _ => nofun, rfl, fun t => ⟨⟨rfl, nofun, ?_, ?_⟩, fun u => ⟨⟨⟨user, rfl⟩, nofun, ?_, ?_⟩, ?_⟩⟩⟩
  · intro version
    simp
  · simp
  · intro version
    cases hinsert : u.insertVersion (s.table.version + 1) user <;> simp [hinsert]
  · have hsame : ∀ other, (u.insertVersion (s.table.version + 1) other).isSome =
        (u.insertVersion (s.table.version + 1) user).isSome := by
      intro other
      rw [Store.insertVersion, Store.insertVersion]
      split <;> rfl
    cases hinsert : u.insertVersion (s.table.version + 1) user with
    | none => simp [isApproval, hsame, hinsert]
    | some v => simp [isApproval, hsame, hinsert]
  · cases hinsert : u.insertVersion (s.table.version + 1) user <;> simp [hinsert]

theorem beginsOwing_approveBindingChecks (faults : Faults) (approver : String)
    (rationale : Option String) : BeginsOwing (approveBindingChecks faults approver rationale) :=
  beginsOwing_transitionBindingChecks fun approved => beginsOwing_listStatuses fun _ =>
    beginsOwing_setStatus (.inl rfl) fun table => begins_freezeNewVersion approver table approved

theorem begins_getTable {next : MonitoredTable → ReviewCall} (hnext : ∀ table, Begins (next table)) :
    Begins (getTable next) :=
  begins_read fun _ => begins_read fun _ => hnext _

theorem begins_whenPending {verb bindingId : String} {next : ReviewCall} (hnext : Begins next) :
    Begins (whenPending verb bindingId next) := by
  apply begins_getTable
  intro table
  split
  · exact hnext
  · exact begins_error _

theorem beginsOwing_materializeBinding (materialization : Materialization) {next : ReviewCall}
    (hnext : BeginsOwing next) : BeginsOwing (materializeBinding materialization next) := by
  induction materialization with
  | done _ => exact hnext
  | stmt _ write rest ih =>
    exact beginsOwing_stmt (fun _ => ⟨nofun, nofun⟩) (fun s => ⟨write s.checks, rfl⟩) fun s => ih s.checks

theorem begins_submitMonitoredTable (submission : Submission) (faults : Faults) (user : String)
    (rationale : Option String) : Begins (submitMonitoredTable submission faults user rationale) := by
  apply begins_getTable
  intro _
  split
  · exact begins_error _
  · refine (beginsOwing_materializeBinding _ (beginsOwing_transitionBindingChecks fun _ =>
      beginsOwing_transitionBindingChecks fun submitted => beginsOwing_listStatuses fun _ =>
        beginsOwing_setStatus (.inl rfl) fun table => ?_)).toBegins
    split
    · exact (beginsOwing_approveBindingChecks faults _ rationale).toBegins
    · exact begins_done table submitted

theorem Operation.begins (operation : Operation) : Begins operation.call := by
  cases operation with
  | submit submission faults user rationale =>
    exact begins_submitMonitoredTable submission faults user rationale
  | approve bindingId faults user rationale =>
    exact begins_whenPending (beginsOwing_approveBindingChecks faults user rationale).toBegins
  | reject bindingId faults user rationale =>
    have hstatus : false = true ∨ RuleStatus.rejected ≠ .approved := .inr nofun
    exact begins_whenPending (beginsOwing_transitionBindingChecks fun rejected =>
      beginsOwing_setStatus hstatus fun table => begins_done table rejected).toBegins
  | revert bindingId faults user =>
    have hstatus : false = true ∨ RuleStatus.draft ≠ .approved := .inr nofun
    exact begins_whenPending (beginsOwing_transitionBindingChecks fun reverted =>
      beginsOwing_setStatus hstatus fun table => begins_done table reverted).toBegins

/-! ### Runs -/

/-- A status other than `pending_approval` that is rolled up is that of the checks that its write meets.
The write of a rejection or a withdrawal meets no pending check. A version that is written follows the
one that its write meets. -/
def FindsAsRead (moment : Moment) : Prop :=
  match moment.2 with
  | .setStatus status true => status = .pendingApproval ∨ rollup moment.1.statuses = status
  | .setStatus _ false => .pendingApproval ∉ moment.1.statuses
  | .setVersion version => version = moment.1.table.version + 1
  | _ => True

instance : DecidablePred FindsAsRead
  | (_, .setStatus _ true) => inferInstanceAs (Decidable (_ = _ ∨ _ = _))
  | (_, .setStatus _ false) => inferInstanceAs (Decidable (_ ∉ _))
  | (_, .setVersion _) => inferInstanceAs (Decidable (_ = _))
  | (_, .read) => .isTrue trivial
  | (_, .materialize) => .isTrue trivial
  | (_, .transition ..) => .isTrue trivial
  | (_, .insertVersion _) => .isTrue trivial

theorem pending_notMem_of_rollup {statuses : List RuleStatus} (h : rollup statuses = .draft) :
    .pendingApproval ∉ statuses := by
  intro hmem
  rw [rollup, if_pos hmem] at h
  cases h

theorem approved_mem_of_rollup {statuses : List RuleStatus} (h : rollup statuses = .approved) :
    .approved ∈ statuses := by
  rw [rollup] at h
  split at h
  · cases h
  · split at h
    · assumption
    · cases h

theorem rollup_ne_rejected (statuses : List RuleStatus) : rollup statuses ≠ .rejected := by
  rw [rollup]
  split
  · nofun
  · split <;> nofun

theorem setStatus_status (table : MonitoredTable) (status : RuleStatus) (user : String)
    (rationale : Option String) : (table.setStatus status user rationale).status = status := by
  cases status <;> rfl

theorem setStatus_version (table : MonitoredTable) (status : RuleStatus) (user : String)
    (rationale : Option String) : (table.setStatus status user rationale).version = table.version := by
  cases status <;> rfl

/-- The write of a status leaves it in agreement with the checks. -/
theorem agrees_setStatus {s t : Store} {status : RuleStatus} {rolledUp : Bool}
    (hwrites : Writes (.setStatus status rolledUp) s t)
    (hfinds : FindsAsRead (s, .setStatus status rolledUp)) : Agrees t := by
  obtain ⟨hstatus, user, rationale, rfl⟩ := hwrites
  cases rolledUp with
  | true =>
    have hrollup : status = .pendingApproval ∨ rollup s.statuses = status := hfinds
    refine ⟨?_, ?_⟩
    · show (s.table.setStatus status user rationale).status = .rejected ∨
        (s.table.setStatus status user rationale).status = .draft → .pendingApproval ∉ s.statuses
      rw [setStatus_status]
      rintro (rfl | rfl)
      · exact absurd (hrollup.resolve_left nofun) (rollup_ne_rejected _)
      · exact pending_notMem_of_rollup (hrollup.resolve_left nofun)
    · show (s.table.setStatus status user rationale).status = .approved → .approved ∈ s.statuses
      rw [setStatus_status]
      rintro rfl
      exact approved_mem_of_rollup (hrollup.resolve_left nofun)
  | false =>
    refine ⟨fun _ => hfinds, ?_⟩
    show (s.table.setStatus status user rationale).status = .approved → .approved ∈ s.statuses
    rw [setStatus_status]
    exact fun happroved => absurd happroved (hstatus.resolve_left nofun)

/-- What a statement that writes neither checks nor the status preserves. -/
theorem agrees_of_writes {event : Event} {s t : Store} (hwrites : Writes event s t)
    (hchecks : event.writesChecks = false) (hstatus : event.isSetStatus = false) (h : Agrees s) :
    Agrees t := by
  cases event with
  | read =>
    obtain rfl : t = s := hwrites
    exact h
  | materialize => cases hchecks
  | transition entry status => cases hchecks
  | setStatus status rolledUp => cases hstatus
  | setVersion version =>
    obtain rfl : t = { s with table := { s.table with version } } := hwrites
    exact ⟨h.pending, h.approved⟩
  | insertVersion version =>
    obtain ⟨user, rfl⟩ := hwrites
    rw [Store.insertVersion]
    split
    · exact h
    · exact ⟨h.pending, h.approved⟩

/-- The rows of a version. -/
def Store.frozen (store : Store) (version : Nat) : Nat :=
  store.versions.countP (·.version = version)

/-- The calls that are about to insert a version. -/
def inserting (s : Reviews) (version : Nat) : Nat :=
  s.calls.countP fun call => call.nextEvent = some (.insertVersion version)

def isInsert : Option Event → Bool
  | some (.insertVersion _) => true
  | _ => false

/-- The versions of a run that began with `start`. One above that of `start` has one row, or one call
that is about to insert it. -/
structure Counted (start : Store) (t : Reviews) : Prop where
  above : ∀ call ∈ t.calls, ∀ version, call.nextEvent = some (.insertVersion version) →
    start.table.version < version ∧ version ≤ t.shared.table.version
  once : ∀ version, start.table.version < version → t.shared.frozen version + inserting t version =
    if version ≤ t.shared.table.version then 1 else 0
  version : t.shared.table.version =
    start.table.version + t.returned isApproval + t.calls.countP fun call => isInsert call.nextEvent

/-- What holds at the end of a run that began with `start`. -/
structure Faithful (start : Store) (t : Reviews) : Prop extends Counted start t where
  calls : ∀ call ∈ t.calls, call.Obeys Effect
  agrees : Agrees t.shared ∨ ∃ call ∈ t.calls, call.Will fun event => event.isSetStatus = true

/-- A statement that writes no version. -/
theorem versions_of_writes {event : Event} {s t : Store} (hwrites : Writes event s t)
    (hset : ∀ version, event ≠ .setVersion version)
    (hinsert : ∀ version, event ≠ .insertVersion version) :
    t.table.version = s.table.version ∧ t.versions = s.versions := by
  cases event with
  | read =>
    obtain rfl : t = s := hwrites
    exact ⟨rfl, rfl⟩
  | materialize =>
    obtain ⟨checks, rfl⟩ := hwrites
    exact ⟨rfl, rfl⟩
  | transition entry status =>
    obtain rfl : t = writeTransition entry status s := hwrites
    exact ⟨rfl, rfl⟩
  | setStatus status rolledUp =>
    obtain ⟨-, user, rationale, rfl⟩ := hwrites
    exact ⟨setStatus_version _ _ _ _, rfl⟩
  | setVersion version => exact absurd rfl (hset version)
  | insertVersion version => exact absurd rfl (hinsert version)

theorem insertVersion_of_frozen_zero {s : Store} {version : Nat} (h : s.frozen version = 0) (user : String) :
    s.insertVersion version user = some { s with versions := s.versions ++ [⟨version, user⟩] } := by
  have hnone : s.versions.any (·.version = version) = false := by
    rw [List.any_eq_false]
    exact List.countP_eq_zero.mp h
  rw [Store.insertVersion, hnone, Bool.and_false]
  rfl

/-! ### Steps -/

section Steps

variable {start : Store} {s t : Reviews} {i : Nat} {call rest : ReviewCall} {event : Event}

theorem inserting_set (hcall : s.calls[i]? = some call) (hnext : call.nextEvent = some event)
    (ht : t.calls = s.calls.set i rest) (heffect : Effect event s.shared t.shared rest)
    (version : Nat) : inserting t version + (decide (event = .insertVersion version)).toNat =
      inserting s version + (decide (event = .setVersion version)).toNat := by
  have hcount := Session.countP_set (fun call => call.nextEvent = some (.insertVersion version)) hcall ht
  simpa [inserting, hnext, heffect.inserts version] using hcount

theorem isInsert_rest (heffect : Effect event s.shared t.shared rest)
    (hset : ∀ version, event ≠ .setVersion version) : isInsert rest.nextEvent = false := by
  cases hevent : rest.nextEvent with
  | none => rfl
  | some next =>
    cases next with
    | insertVersion version => exact absurd ((heffect.inserts version).mp hevent) (hset version)
    | _ => rfl

theorem approval_rest (heffect : Effect event s.shared t.shared rest)
    (hinsert : ∀ version, event ≠ .insertVersion version) : rest.result?.any isApproval = false := by
  rw [Bool.eq_false_iff]
  rintro hany
  obtain ⟨version, _, hevent, -⟩ := heffect.approves.mp hany
  exact hinsert version hevent

theorem above_set (ht : t.calls = s.calls.set i rest) (heffect : Effect event s.shared t.shared rest)
    (hle : s.shared.table.version ≤ t.shared.table.version)
    (hrest : ∀ version, event = .setVersion version →
      start.table.version < version ∧ version ≤ t.shared.table.version) (h : Counted start s) :
    ∀ call ∈ t.calls, ∀ version, call.nextEvent = some (.insertVersion version) →
      start.table.version < version ∧ version ≤ t.shared.table.version := by
  intro other hother version hversion
  rw [ht] at hother
  rcases List.mem_or_eq_of_mem_set hother with hold | rfl
  · obtain ⟨hlow, hhigh⟩ := h.above other hold version hversion
    omega
  · exact hrest version ((heffect.inserts version).mp hversion)

theorem counted_setVersion {version : Nat} (hcall : s.calls[i]? = some call)
    (hnext : call.nextEvent = some (.setVersion version)) (ht : t.calls = s.calls.set i rest)
    (heffect : Effect (.setVersion version) s.shared t.shared rest)
    (hversion : version = s.shared.table.version + 1) (h : Counted start s) : Counted start t := by
  have hshared : t.shared = { s.shared with table := { s.shared.table with version } } := heffect.writes
  have htable : t.shared.table.version = version := by rw [hshared]
  have hfrozen : ∀ other, t.shared.frozen other = s.shared.frozen other := fun _ => by
    rw [hshared]
    rfl
  have hrest : isInsert rest.nextEvent = true := by
    rw [(heffect.inserts version).mpr rfl]
    rfl
  have hinserts := Session.countP_set (fun call => isInsert call.nextEvent) hcall ht
  rw [hrest, hnext, show isInsert (some (.setVersion version)) = false from rfl, Bool.toNat_true,
    Bool.toNat_false] at hinserts
  have hreturned := Session.returned_set isApproval hcall hnext ht
  rw [approval_rest heffect nofun, Bool.toNat_false] at hreturned
  have hcounted := h.version
  refine ⟨above_set ht heffect (by omega) ?_ h, ?_, by omega⟩
  · rintro _ ⟨⟩
    omega
  · intro new hnew
    have hold := h.once new hnew
    have hcount := inserting_set hcall hnext ht heffect new
    rw [hfrozen, htable]
    simp only [Event.setVersion.injEq, reduceCtorEq, decide_false, Bool.toNat_false] at hcount
    by_cases hsame : version = new
    · rw [decide_eq_true hsame, Bool.toNat_true] at hcount
      rw [if_neg (by omega)] at hold
      rw [if_pos (by omega)]
      omega
    · rw [decide_eq_false hsame, Bool.toNat_false] at hcount
      split at hold <;> split <;> omega

theorem counted_insertVersion {version : Nat} (hcall : s.calls[i]? = some call)
    (hnext : call.nextEvent = some (.insertVersion version)) (ht : t.calls = s.calls.set i rest)
    (heffect : Effect (.insertVersion version) s.shared t.shared rest) (h : Counted start s) :
    Counted start t := by
  obtain ⟨user, hshared⟩ := heffect.writes
  obtain ⟨hlow, hhigh⟩ := h.above call (List.mem_of_getElem? hcall) version hnext
  have hopen : 0 < inserting s version :=
    List.countP_pos_iff.mpr ⟨call, List.mem_of_getElem? hcall, decide_eq_true hnext⟩
  have honce := h.once version hlow
  rw [if_pos hhigh] at honce
  -- The call itself is the one that is about to insert the version.
  have hzero : s.shared.frozen version = 0 := by omega
  have hsome := insertVersion_of_frozen_zero hzero user
  rw [hsome, Option.getD_some] at hshared
  have htable : t.shared.table = s.shared.table := by rw [hshared]
  have hfrozen : ∀ other, t.shared.frozen other =
      s.shared.frozen other + (decide (version = other)).toNat := by
    intro other
    rw [hshared, Store.frozen, Store.frozen, List.countP_append, List.countP_singleton]
    by_cases hsame : version = other <;> simp [hsame]
  have happroval : rest.result?.any isApproval = true :=
    heffect.approves.mpr ⟨version, user, rfl, by rw [hsome]; rfl⟩
  have hinserts := Session.countP_set (fun call => isInsert call.nextEvent) hcall ht
  rw [isInsert_rest heffect nofun, hnext, show isInsert (some (.insertVersion version)) = true from rfl,
    Bool.toNat_true, Bool.toNat_false] at hinserts
  have hreturned := Session.returned_set isApproval hcall hnext ht
  rw [happroval, Bool.toNat_true] at hreturned
  have hcounted := h.version
  refine ⟨above_set ht heffect (Nat.le_of_eq (by rw [htable])) nofun h, ?_, by rw [htable]; omega⟩
  intro new hnew
  have hold := h.once new hnew
  have hcount := inserting_set hcall hnext ht heffect new
  rw [hfrozen, htable]
  simp only [Event.insertVersion.injEq, reduceCtorEq, decide_false, Bool.toNat_false] at hcount
  omega

theorem counted_other (hcall : s.calls[i]? = some call) (hnext : call.nextEvent = some event)
    (ht : t.calls = s.calls.set i rest) (heffect : Effect event s.shared t.shared rest)
    (hset : ∀ version, event ≠ .setVersion version)
    (hinsert : ∀ version, event ≠ .insertVersion version) (h : Counted start s) : Counted start t := by
  obtain ⟨htable, hversions⟩ := versions_of_writes heffect.writes hset hinsert
  have hfrozen : ∀ other, t.shared.frozen other = s.shared.frozen other := fun _ => by
    rw [Store.frozen, hversions, Store.frozen]
  have hevent : isInsert (some event) = false := by
    cases event with
    | insertVersion version => exact absurd rfl (hinsert version)
    | _ => rfl
  have hinserts := Session.countP_set (fun call => isInsert call.nextEvent) hcall ht
  rw [isInsert_rest heffect hset, hnext, hevent] at hinserts
  have hreturned := Session.returned_set isApproval hcall hnext ht
  rw [approval_rest heffect hinsert, Bool.toNat_false] at hreturned
  have hcounted := h.version
  refine ⟨above_set ht heffect (Nat.le_of_eq htable.symm)
    (fun version hevent => absurd hevent (hset version)) h, ?_, by omega⟩
  intro new hnew
  have hold := h.once new hnew
  have hcount := inserting_set hcall hnext ht heffect new
  simp only [hset new, hinsert new, decide_false, Bool.toNat_false] at hcount
  rw [hfrozen, htable]
  omega

theorem faithful_step {moment : Moment} (hstep : Session.Step s moment t) (hfinds : FindsAsRead moment)
    (h : Faithful start s) : Faithful start t := by
  obtain ⟨i, call, rest, hcall, hnext, hstate, ht, heffect, -⟩ := hstep.obeys h.calls
  obtain ⟨state, event⟩ := moment
  obtain rfl : state = s.shared := hstate
  have hnext : call.nextEvent = some event := hnext
  have hmem : rest ∈ t.calls := by
    rw [ht]
    exact List.mem_set (List.getElem?_eq_some_iff.mp hcall).1 rest
  refine ⟨?_, hstep.calls_obey h.calls, ?_⟩
  · cases event with
    | setVersion version => exact counted_setVersion hcall hnext ht heffect hfinds h.toCounted
    | insertVersion version => exact counted_insertVersion hcall hnext ht heffect h.toCounted
    | _ => exact counted_other hcall hnext ht heffect nofun nofun h.toCounted
  · cases hstatus : event.isSetStatus with
    | true =>
      cases event with
      | setStatus status rolledUp => exact .inl (agrees_setStatus heffect.writes hfinds)
      | _ => cases hstatus
    | false =>
      cases hchecks : event.writesChecks with
      | true => exact .inr ⟨rest, hmem, heffect.owes hchecks⟩
      | false =>
        rcases h.agrees with hagrees | hwill
        · exact .inl (agrees_of_writes heffect.writes hchecks hstatus hagrees)
        · exact .inr (hstep.will (by rw [hstatus]; nofun) hwill)

end Steps

def noFaults : Faults := ⟨fun _ => false, fun _ _ _ => false⟩

/-- The move of a check fails at its first statement. -/
def allFail : Faults := ⟨fun _ => false, fun _ _ _ => true⟩

def check (status : RuleStatus) : Check := ⟨"a-0", some "a", 1, status⟩

/-- A table of version 1 with one check, both in the same status. -/
def reviewed (status : RuleStatus) : Store where
  table := ⟨status, 1, none, none, "u"⟩
  appliedRuleIds := ["a"]
  checks := [check status]
  versions := [⟨1, "u"⟩]
  unique := false

/-- A submission that resets an approved check, whose content has changed. -/
def changed : Submission where
  gate := none
  materialization := .stmt () (fun checks => checks.map fun check =>
    if check.status = .approved then { check with status := .pendingApproval } else check) fun _ => .done ()
  mode := .enabled
  canEditAndApprove := false

def submitIt : Operation := .submit changed noFaults "u" none

def approveIt : Operation := .approve "b" noFaults "u" none

def concurrent (status : RuleStatus) (operations : List Operation) : Reviews :=
  ⟨reviewed status, operations.map Operation.call⟩

/-- A changed table is submitted, and then approved. -/
def inOrder : List Moment × Reviews :=
  (concurrent .approved [submitIt, approveIt]).run
    (List.replicate 11 0 ++ List.replicate 17 1)

/-- Two approvals read the version before either of them writes it. -/
def approvedTwice : List Moment × Reviews :=
  (concurrent .pendingApproval [approveIt, approveIt]).run
    ([0, 0, 1, 1] ++ List.replicate 13 0 ++ List.replicate 12 1 ++ [0, 0])

/-- The one check of a table cannot be moved while the table is rejected. -/
def rejectedPending : List Moment × Reviews :=
  (concurrent .pendingApproval [.reject "b" allFail "u" none]).run (List.replicate 7 0)

/-- A changed table is submitted after an approval has listed the check, before it writes the status. -/
def approvedPending : List Moment × Reviews :=
  (concurrent .pendingApproval [approveIt, submitIt]).run
    (List.replicate 9 0 ++ List.replicate 11 1 ++ List.replicate 8 0)

end Dqx.Monitored
