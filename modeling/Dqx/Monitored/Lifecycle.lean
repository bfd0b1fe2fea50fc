import Dqx.Rules.Resolved

/-! The review calls of one monitored table, statement by statement: submit, approve, reject and
revert. They move the checks of the table one by one, and a check whose move fails is skipped. -/

namespace Dqx.Monitored

open Lib
open Rules (RuleStatus)

/-- A row of `dq_resolved_rules`, without its check. -/
structure Check where
  ruleId : String
  appliedRuleId : Option String
  version : Nat
  status : RuleStatus
  deriving DecidableEq

/-- The row of the binding in `dq_monitored_tables`. -/
structure MonitoredTable where
  status : RuleStatus
  version : Nat
  pendingRationale : Option String
  lastDecisionRationale : Option String
  updatedBy : String
  deriving DecidableEq

/-- A row of `dq_monitored_table_versions`, without the rules that it freezes. -/
structure VersionRow where
  version : Nat
  createdBy : String
  deriving DecidableEq

/-- The binding, the ids of its applied rules, the materialized rows and its versions. Only Postgres
has the unique constraint on the versions. -/
structure Store where
  table : MonitoredTable
  appliedRuleIds : List String
  checks : List Check
  versions : List VersionRow
  unique : Bool

/-- The statements, each with what its call has read or computed before. -/
inductive Event where
  | read
  /-- A write of the materializer to the rows. -/
  | materialize
  | transition (entry : Check) (status : RuleStatus)
  /-- The status is rolled up from the checks, or that of a rejection or a withdrawal. -/
  | setStatus (status : RuleStatus) (rolledUp : Bool)
  | setVersion (version : Nat)
  | insertVersion (version : Nat)
  deriving DecidableEq

inductive Error where
  | draftRunRequired (message : String)
  | conflict (message : String)
  /-- The error of the database on an insert that breaks the unique constraint. -/
  | unique

structure Review where
  table : MonitoredTable
  affectedCheckCount : Nat
  newVersion : Option Nat

abbrev Result := Except Error Review

abbrev ReviewCall := Call Store Event Result

/-- A call has approved the table. -/
def isApproval : Result → Bool
  | .ok review => review.newVersion.isSome
  | .error _ => false

/-! ### The checks -/

/-- The rows that the applied rules of the binding have. -/
def Store.materialized (store : Store) (appliedRuleIds : List String) : List Check :=
  store.checks.filter fun check => check.appliedRuleId.any (appliedRuleIds.contains ·)

/-- `list_materialized_rule_statuses` -/
def listStatuses (next : List Check → ReviewCall) : ReviewCall :=
  .stmt .read id fun store =>
    let appliedRuleIds := store.appliedRuleIds
    if appliedRuleIds = [] then next []
    else .stmt .read id fun store => next (store.materialized appliedRuleIds)

/-- What goes wrong while a call moves checks: rows with a duplicate that is pending or approved, and
statements of a move that fail. -/
structure Faults where
  duplicate : String → Bool
  fails : RuleStatus → String → Nat → Bool

/-- The `n`th statement of the move of a check. -/
def checkStatement (fails : Bool) (event : Event) (write : Store → Store) (skip : ReviewCall)
    (next : Store → ReviewCall) : ReviewCall :=
  if fails then .stmt .read id fun _ => skip else .stmt event write next

def writeTransition (entry : Check) (status : RuleStatus) (store : Store) : Store :=
  { store with
    checks := store.checks.map fun check =>
      if check.ruleId = entry.ruleId ∧ check.version = entry.version then { check with status }
      else check }

def Store.check? (store : Store) (ruleId : String) : Option Check :=
  store.checks.find? fun check => check.ruleId = ruleId

/-- `RulesCatalogService.set_status`, without its row in the history. -/
def setCheckStatus (faults : Faults) (ruleId : String) (status : RuleStatus) (skip next : ReviewCall) :
    ReviewCall :=
  let fails := faults.fails status ruleId
  let confirm := checkStatement (fails 3) .read id skip fun store =>
    if (store.check? ruleId).any (·.status = status) then next else skip
  checkStatement (fails 0) .read id skip fun store =>
    match store.check? ruleId with
    | none => skip
    | some entry =>
      let update := checkStatement (fails 2) (.transition entry status) (writeTransition entry status)
        skip fun _ => confirm
      if status ∉ entry.status.transitions then skip
      else if status = .pendingApproval then
        checkStatement (fails 1) .read id skip fun _ => if faults.duplicate ruleId then skip else update
      else update

def transitionEach (faults : Faults) (fromStatus toStatus : RuleStatus) (next : Nat → ReviewCall) :
    List Check → Nat → ReviewCall
  | [], count => next count
  | check :: rest, count =>
    let skip := transitionEach faults fromStatus toStatus next rest count
    if check.status ≠ fromStatus then skip
    else setCheckStatus faults check.ruleId toStatus skip
      (transitionEach faults fromStatus toStatus next rest (count + 1))

/-- `_transition_binding_checks` -/
def transitionBindingChecks (faults : Faults) (fromStatus toStatus : RuleStatus)
    (next : Nat → ReviewCall) : ReviewCall :=
  listStatuses fun rows => transitionEach faults fromStatus toStatus next rows 0

def rollup (statuses : List RuleStatus) : RuleStatus :=
  if .pendingApproval ∈ statuses then .pendingApproval
  else if .approved ∈ statuses then .approved
  else .draft

/-- `_rollup_binding_status` -/
def rollupBindingStatus (next : RuleStatus → ReviewCall) : ReviewCall :=
  listStatuses fun rows => next (rollup (rows.map (·.status)))

/-! ### The binding -/

/-- The columns that `set_status` writes. -/
def MonitoredTable.setStatus (table : MonitoredTable) (status : RuleStatus) (user : String)
    (rationale : Option String) : MonitoredTable :=
  let table := { table with status, updatedBy := user }
  match status with
  | .pendingApproval => { table with pendingRationale := rationale }
  | .approved | .rejected =>
    { table with pendingRationale := none, lastDecisionRationale := rationale }
  | .draft => { table with pendingRationale := none }

def setStatus (status : RuleStatus) (rolledUp : Bool) (user : String) (rationale : Option String)
    (next : MonitoredTable → ReviewCall) : ReviewCall :=
  .stmt .read id fun store =>
    let table := store.table
    .stmt (.setStatus status rolledUp)
      (fun store => { store with table := store.table.setStatus status user rationale })
      fun _ => next (table.setStatus status user rationale)

/-- `MonitoredTableService.get`, which also reads the applied rules. -/
def getTable (next : MonitoredTable → ReviewCall) : ReviewCall :=
  .stmt .read id fun store => .stmt .read id fun _ => next store.table

def Store.insertVersion (store : Store) (version : Nat) (user : String) : Option Store :=
  if store.unique && store.versions.any (·.version = version) then none
  else some { store with versions := store.versions ++ [⟨version, user⟩] }

/-- The rules that are frozen are those of the approved checks, read before the writes. -/
def freezeNewVersion (user : String) (next : Nat → ReviewCall) : ReviewCall :=
  getTable fun _ => .stmt .read id fun store =>
    let newVersion := store.table.version + 1
    .stmt .read id fun _ =>
      .stmt (.setVersion newVersion)
        (fun store => { store with table := { store.table with version := newVersion } }) fun _ =>
        .stmt (.insertVersion newVersion)
          (fun store => (store.insertVersion newVersion user).getD store) fun store =>
          match store.insertVersion newVersion user with
          | none => .done (.error .unique)
          | some _ => next newVersion

/-- `_approve_binding_checks` -/
def approveBindingChecks (faults : Faults) (approver : String) (rationale : Option String) :
    ReviewCall :=
  transitionBindingChecks faults .pendingApproval .approved fun approved =>
    rollupBindingStatus fun status =>
      setStatus status true approver rationale fun table =>
        freezeNewVersion approver fun newVersion => .done (.ok ⟨table, approved, some newVersion⟩)

/-! ### The routes -/

inductive ApprovalMode where
  | enabled | autoBypass | disabled

def shouldAutoApprove (mode : ApprovalMode) (canEditAndApprove : Bool) : Bool :=
  match mode with
  | .disabled => true
  | .autoBypass => canEditAndApprove
  | .enabled => false

def autoApproverSuffix : List Char := " (auto)".toList

def markAutoApprover (user : String) : String :=
  if autoApproverSuffix.isSuffixOf user.toList then user
  else String.ofList (user.toList ++ autoApproverSuffix)

/-- The statements of a materialization that read or write the rows of `dq_resolved_rules`. What it
writes depends on applied rules, registry rules and settings that the review does not change. -/
abbrev Materialization := Call (List Check) Unit Unit

def materializeBinding : Materialization → ReviewCall → ReviewCall
  | .done _, next => next
  | .stmt _ write rest, next =>
    .stmt .materialize (fun store => { store with checks := write store.checks })
      fun store => materializeBinding (rest store.checks) next

/-- What a submission finds: what the draft run gate says, what is materialized, and whether it may
approve. -/
structure Submission where
  gate : Option String
  materialization : Materialization
  mode : ApprovalMode
  canEditAndApprove : Bool

def submitMonitoredTable (submission : Submission) (faults : Faults) (user : String)
    (rationale : Option String) : ReviewCall :=
  getTable fun _ =>
    match submission.gate with
    | some message => .done (.error (.draftRunRequired message))
    | none =>
      materializeBinding submission.materialization <|
        transitionBindingChecks faults .rejected .draft fun _ =>
          transitionBindingChecks faults .draft .pendingApproval fun submitted =>
            rollupBindingStatus fun status =>
              setStatus status true user rationale fun table =>
                if shouldAutoApprove submission.mode submission.canEditAndApprove then
                  approveBindingChecks faults (markAutoApprover user) rationale
                else .done (.ok ⟨table, submitted, none⟩)

/-- A call that needs the binding to be `pending_approval`. -/
def whenPending (verb bindingId : String) (next : ReviewCall) : ReviewCall :=
  getTable fun table =>
    if table.status = .pendingApproval then next
    else
      let status := table.status.text
      .done (.error (.conflict (s!"Cannot {verb} monitored table {bindingId}: status is " ++
        s!"'{status}', expected 'pending_approval'")))

def approveMonitoredTable (bindingId : String) (faults : Faults) (user : String)
    (rationale : Option String) : ReviewCall :=
  whenPending "approve" bindingId (approveBindingChecks faults user rationale)

def rejectMonitoredTable (bindingId : String) (faults : Faults) (user : String)
    (rationale : Option String) : ReviewCall :=
  whenPending "reject" bindingId <|
    transitionBindingChecks faults .pendingApproval .rejected fun rejected =>
      setStatus .rejected false user rationale fun table => .done (.ok ⟨table, rejected, none⟩)

def revertMonitoredTable (bindingId : String) (faults : Faults) (user : String) : ReviewCall :=
  whenPending "revert" bindingId <|
    transitionBindingChecks faults .pendingApproval .draft fun reverted =>
      setStatus .draft false user none fun table => .done (.ok ⟨table, reverted, none⟩)

inductive Operation where
  | submit (submission : Submission) (faults : Faults) (user : String) (rationale : Option String)
  | approve (bindingId : String) (faults : Faults) (user : String) (rationale : Option String)
  | reject (bindingId : String) (faults : Faults) (user : String) (rationale : Option String)
  | revert (bindingId : String) (faults : Faults) (user : String)

def Operation.call : Operation → ReviewCall
  | .submit submission faults user rationale => submitMonitoredTable submission faults user rationale
  | .approve bindingId faults user rationale => approveMonitoredTable bindingId faults user rationale
  | .reject bindingId faults user rationale => rejectMonitoredTable bindingId faults user rationale
  | .revert bindingId faults user => revertMonitoredTable bindingId faults user

end Dqx.Monitored
