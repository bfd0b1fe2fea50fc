import Dqx.Lib.Interleave

/-! One row of `dq_resolved_rules` under the calls that write it, statement by statement: the review of
the rules catalog, its edits, and the materializer. -/

namespace Dqx.Rules

open Lib

inductive RuleStatus where
  | draft | pendingApproval | approved | rejected
  deriving DecidableEq, Repr

namespace RuleStatus

def text : RuleStatus → String
  | draft => "draft"
  | pendingApproval => "pending_approval"
  | approved => "approved"
  | rejected => "rejected"

/-- `VALID_TRANSITIONS` -/
def transitions : RuleStatus → List RuleStatus
  | draft => [pendingApproval]
  | pendingApproval => [approved, rejected, draft]
  | approved => [draft]
  | rejected => [draft]

end RuleStatus

/-- A row of `dq_resolved_rules`. Its check is a JSON object up to the order of its keys. -/
structure ResolvedRule (κ : Type) where
  tableFqn : String
  check : κ
  version : Nat
  status : RuleStatus
  source : String
  registryRuleId : Option String
  registryVersion : Option Nat
  appliedRuleId : Option String
  ruleFingerprint : String
  updatedBy : Option String
  deriving DecidableEq

/-- A row of `dq_resolved_rules_history`. -/
structure HistoryRow (κ : Type) where
  tableFqn : String
  check : κ
  version : Nat
  source : String
  action : String
  prevStatus : RuleStatus
  newStatus : RuleStatus
  changedBy : String
  deriving DecidableEq

/-- The row, if it exists, and its history. -/
structure Store (κ : Type) where
  row : Option (ResolvedRule κ)
  history : List (HistoryRow κ)

/-- An applied rule as the materializer renders it: one check of one version. -/
structure Rendered (κ : Type) where
  tableFqn : String
  check : κ
  version : Nat
  registryRuleId : String
  appliedRuleId : String
  createdBy : Option String
  pinned : Bool
  autoUpgrade : Bool

/-- The statements, each with what its call has read before. -/
inductive Event (κ : Type) where
  | read
  | setStatus (status : RuleStatus) (user : String) (entry : ResolvedRule κ)
  | edit
  | insert
  | materialize (rendered : Rendered κ) (existing : ResolvedRule κ)
  | record (history : HistoryRow κ)

inductive Error where
  | runtime (message : String)
  | value (message : String)
  | unsafeSql
  | primaryKey

abbrev Result (κ : Type) := Except Error (Option (ResolvedRule κ))

abbrev RuleCall (κ : Type) := Call (Store κ) (Event κ) (Result κ)

/-- What the calls compute of a check. -/
structure CheckFunctions (κ : Type) where
  computeRuleFingerprint : κ → String
  normalizeWeight : κ → κ
  isSafe : κ → Bool

variable {κ : Type}

def fail (error : Error) : RuleCall κ := .done (.error error)

def getByRuleId (ruleId : String) (next : ResolvedRule κ → RuleCall κ) : RuleCall κ :=
  .stmt .read id fun store =>
    match store.row with
    | some entry => next entry
    | none => fail (.runtime s!"Rule not found: {ruleId}")

def recordHistory (history : HistoryRow κ) (next : RuleCall κ) : RuleCall κ :=
  .stmt (.record history) (fun store => { store with history := store.history ++ [history] })
    fun _ => next

/-! ### The review -/

/-- The status changes if the row has the version of `entry`. -/
def writeStatus (status : RuleStatus) (user : String) (entry : ResolvedRule κ) (store : Store κ) :
    Store κ :=
  { store with
    row := store.row.map fun row =>
      if row.version = entry.version then { row with status, updatedBy := some user } else row }

def statusHistory (status : RuleStatus) (user : String) (entry : ResolvedRule κ) : HistoryRow κ where
  tableFqn := entry.tableFqn
  check := entry.check
  version := entry.version
  source := entry.source
  action := "status:" ++ status.text
  prevStatus := entry.status
  newStatus := status
  changedBy := user

/-- The call ends by reading the row again. -/
def confirmStatus (ruleId : String) (status : RuleStatus) : RuleCall κ :=
  .stmt .read id fun store =>
    match store.row with
    | none => fail (.runtime s!"Rule not found after status update: {ruleId}")
    | some updated =>
      if updated.status = status then .done (.ok (some updated))
      else fail (.runtime (s!"Status update for rule {ruleId} did not take effect — " ++
        "the row may have been modified concurrently."))

def updateStatus (ruleId : String) (status : RuleStatus) (user : String) (entry : ResolvedRule κ) :
    RuleCall κ :=
  .stmt (.setStatus status user entry) (writeStatus status user entry) fun _ =>
    recordHistory (statusHistory status user entry) (confirmStatus ruleId status)

/-- The call fails on another version than the one its user has seen. -/
def expectVersion (ruleId : String) (expectedVersion : Option Nat) (entry : ResolvedRule κ)
    (next : RuleCall κ) : RuleCall κ :=
  match expectedVersion with
  | none => next
  | some expected =>
    if entry.version = expected then next
    else
      let version := entry.version
      fail (.runtime (s!"Version conflict for rule {ruleId}: expected v{expected}, " ++
        s!"but current is v{version}. Another user may have modified the rule."))

/-- `_check_no_duplicate_pending_or_approved`; `duplicate` is the id and the status of another rule of
the table with the same check that is pending or approved, if one is found. -/
def checkNoDuplicate (duplicate : Option (String × RuleStatus)) (next : RuleCall κ) : RuleCall κ :=
  .stmt .read id fun _ =>
    match duplicate with
    | none => next
    | some (sibling, siblingStatus) =>
      let other := siblingStatus.text
      fail (.value ("A duplicate rule with the same check already exists " ++
        s!"(rule_id={sibling}, status={other}). Cannot submit a duplicate for approval."))

def setStatus (ruleId : String) (status : RuleStatus) (user : String) (expectedVersion : Option Nat)
    (duplicate : Option (String × RuleStatus)) : RuleCall κ :=
  getByRuleId ruleId fun entry =>
    let update := expectVersion ruleId expectedVersion entry (updateStatus ruleId status user entry)
    if ¬status ∈ entry.status.transitions then
      let current := entry.status.text
      let wanted := status.text
      fail (.value s!"Cannot transition from '{current}' to '{wanted}'.")
    else if status = .pendingApproval then checkNoDuplicate duplicate update
    else update

/-! ### Edits -/

def editRow (functions : CheckFunctions κ) (check : κ) (user : String) (store : Store κ) : Store κ :=
  { store with
    row := store.row.map fun row =>
      { row with
        check
        version := row.version + 1
        status := .draft
        ruleFingerprint := functions.computeRuleFingerprint check
        updatedBy := some user } }

def editHistory (check : κ) (user : String) (entry : ResolvedRule κ) : HistoryRow κ where
  tableFqn := entry.tableFqn
  check
  version := entry.version + 1
  source := entry.source
  action := "update"
  prevStatus := entry.status
  newStatus := .draft
  changedBy := user

def updateRule (functions : CheckFunctions κ) (ruleId : String) (checks : List κ) (user : String) :
    RuleCall κ :=
  let checks := checks.map functions.normalizeWeight
  if ¬checks.all functions.isSafe then fail .unsafeSql
  else getByRuleId ruleId fun entry =>
    match checks with
    | [] => fail (.value "update_rule requires exactly one check; got none")
    | check :: _ =>
      .stmt .edit (editRow functions check user) fun _ =>
        recordHistory (editHistory check user entry) <|
          .stmt .read id fun store => .done (.ok (some (store.row.getD entry)))

/-! ### The materializer -/

def decideStatus (existing : RuleStatus) (contentChanged pinned autoUpgrade versionChanged : Bool) :
    RuleStatus :=
  if !contentChanged then existing
  else if existing = .approved then
    if pinned || !versionChanged then .pendingApproval
    else if autoUpgrade then .approved else .pendingApproval
  else if existing = .rejected then .draft
  else existing

/-- The status that a materialization gives to the row that it has read. -/
def Rendered.statusOf [DecidableEq κ] (rendered : Rendered κ) (existing : ResolvedRule κ) : RuleStatus :=
  decideStatus existing.status (existing.check ≠ rendered.check) rendered.pinned rendered.autoUpgrade
    (existing.registryVersion.any (· ≠ rendered.version))

/-- The row after a materialization, which keeps only who last updated it. -/
def Rendered.row (functions : CheckFunctions κ) (rendered : Rendered κ) (status : RuleStatus)
    (updatedBy : Option String) : ResolvedRule κ where
  tableFqn := rendered.tableFqn
  check := rendered.check
  version := rendered.version
  status
  source := "registry"
  registryRuleId := some rendered.registryRuleId
  registryVersion := some rendered.version
  appliedRuleId := some rendered.appliedRuleId
  ruleFingerprint := functions.computeRuleFingerprint rendered.check
  updatedBy

def upsertMaterializedRow [DecidableEq κ] (functions : CheckFunctions κ) (rendered : Rendered κ) :
    RuleCall κ :=
  .stmt .read id fun store =>
    match store.row with
    | none =>
      .stmt .insert
        (fun store =>
          { store with
            row := store.row.getD (rendered.row functions .draft rendered.createdBy) })
        fun store => if store.row.isSome then fail .primaryKey else .done (.ok none)
    | some existing =>
      .stmt (.materialize rendered existing)
        (fun store =>
          { store with
            row := store.row.map fun row =>
              rendered.row functions (rendered.statusOf existing) row.updatedBy })
        fun _ => .done (.ok none)

/-- A call on the row. -/
inductive Operation (κ : Type) where
  | setStatus (ruleId : String) (status : RuleStatus) (user : String) (expectedVersion : Option Nat)
      (duplicate : Option (String × RuleStatus))
  | updateRule (ruleId : String) (checks : List κ) (user : String)
  | materialize (rendered : Rendered κ)

def Operation.call [DecidableEq κ] (functions : CheckFunctions κ) : Operation κ → RuleCall κ
  | setStatus ruleId status user expectedVersion duplicate =>
    Rules.setStatus ruleId status user expectedVersion duplicate
  | updateRule ruleId checks user => Rules.updateRule functions ruleId checks user
  | materialize rendered => upsertMaterializedRow functions rendered

end Dqx.Rules
