import Dqx.Actions.Types
import Dqx.Lib.Interleave
import Mathlib.Data.List.Sort

/-! The registry rules that are applied to monitored tables, or wait to be applied, and
`ApplyRulesService.apply_rule`, statement by statement. A statement fails while the database does not
answer, or when it breaks a constraint. -/

namespace Dqx.Applications

open Lib

abbrev Text := List Char

inductive RuleStatus where
  | draft | pendingApproval | approved | rejected | deprecated
  deriving DecidableEq, Repr

def RuleStatus.text : RuleStatus → String
  | draft => "draft"
  | pendingApproval => "pending_approval"
  | approved => "approved"
  | rejected => "rejected"
  | deprecated => "deprecated"

/-- What an application reads of a registry rule. -/
structure RegistryRule where
  status : RuleStatus
  version : Nat
  slots : List String

/-- From slot names to column names, as the items of a dict. -/
abbrev ColumnMappingGroup := List (String × String)

/-- What is applied of a rule: the columns, which rows, and how many of them must pass. -/
structure Application where
  columnMapping : List ColumnMappingGroup
  rowFilter : Option Text
  passThreshold : Option Int
  deriving DecidableEq

/-- A row of `dq_applied_rules`. The values of its tags are JSON texts. -/
structure AppliedRule extends Application where
  id : Nat
  bindingId : String
  ruleId : String
  pinnedVersion : Option Nat
  severityOverride : Option String
  userMetadata : List (String × String)
  mappingHash : String
  createdBy : Option String
  deriving DecidableEq

/-- A row of `dq_pending_applications`. -/
structure PendingApplication extends Application where
  id : Nat
  bindingId : String
  ruleId : String
  createdBy : Option String
  deriving DecidableEq

/-- The tables, their rows in the order of their creation. Only Postgres has the unique constraints
on them. -/
structure Store where
  bindings : List String
  rules : String → Option RegistryRule
  autoUpgrade : Bool
  pending : List PendingApplication
  applied : List AppliedRule
  nextId : Nat
  unique : Bool
  available : Bool

inductive Error where
  /-- The database does not answer. -/
  | unavailable
  | unique
  | runtime (message : String)
  | ruleNotPublished (message : String)
  | mappingIncomplete (group : ColumnMappingGroup) (missing extra : List String)
  | unsafeRowFilter (message : String)
  deriving DecidableEq

/-! ### Values -/

/-- `_clean_row_filter` -/
def cleanRowFilter (rowFilter : Option Text) : Option Text :=
  (rowFilter.map Actions.strip).filter (· ≠ [])

/-- `_clamp_pass_threshold` -/
def clampPassThreshold (passThreshold : Option Int) : Option Int :=
  passThreshold.map fun threshold => max 0 (min 100 threshold)

/-- The order of pairs of strings. -/
def itemLe (a b : String × String) : Bool := a.1 < b.1 || (a.1 = b.1 && a.2 ≤ b.2)

/-- The lexicographic order of tuples of items. -/
def groupLe : ColumnMappingGroup → ColumnMappingGroup → Bool
  | [], _ => true
  | _ :: _, [] => false
  | a :: as, b :: bs => if a = b then groupLe as bs else itemLe a b

/-- The groups up to their order and that of their items. -/
def normalizedGroups (columnMapping : List ColumnMappingGroup) : List ColumnMappingGroup :=
  (columnMapping.map fun group => group.insertionSort (itemLe · ·)).insertionSort (groupLe · ·)

/-- What is not modelled of the code: the SHA-256 of the JSON text of normalized groups, and the scan
of a query for statements that write. -/
structure Functions where
  digest : List ColumnMappingGroup → String
  isSqlQuerySafe : Text → Bool

def rowFilterMaxLen : Nat := 4000

section Values

variable (functions : Functions)

def computeMappingHash (columnMapping : List ColumnMappingGroup) : String :=
  functions.digest (normalizedGroups columnMapping)

def validateRowFilter (rowFilter : Option Text) : Except Error Unit :=
  match cleanRowFilter rowFilter with
  | none => .ok ()
  | some cleaned =>
    if rowFilterMaxLen < cleaned.length then
      .error (.unsafeRowFilter s!"Row filter is too long (max {rowFilterMaxLen} characters).")
    else if functions.isSqlQuerySafe ("SELECT * FROM _t WHERE (".toList ++ cleaned ++ [')']) then .ok ()
    else .error (.unsafeRowFilter "Row filter contains prohibited SQL and cannot be used.")

end Values

/-- No group, or groups whose keys are the slots. -/
def validateMappingComplete (columnMapping : List ColumnMappingGroup) (slots : List String) :
    Except Error Unit :=
  let missing (group : ColumnMappingGroup) := slots.filter fun slot => !(group.map (·.1)).contains slot
  let extra (group : ColumnMappingGroup) := (group.map (·.1)).filter fun key => !slots.contains key
  match columnMapping.find? fun group => missing group ≠ [] || extra group ≠ [] with
  | none => .ok ()
  | some group => .error (.mappingIncomplete group (missing group) (extra group))

/-! ### Statements -/

/-- The statements, each with what its call has read before. -/
inductive Event where
  | read
  /-- The database stops to answer, or answers again. -/
  | outage
  | updatePending (id : Nat) (bindingId ruleId : String) (application : Application)
  | insertPending (bindingId ruleId user : String) (application : Application)
  | deletePending (pending : PendingApplication)
  /-- The columns that may change of the row with this id. -/
  | updateApplied (updated : AppliedRule)
  /-- The id is drawn by the statement. -/
  | insertApplied (applied : AppliedRule)

def AppliedRule.hasKey (bindingId ruleId mappingHash : String) (row : AppliedRule) : Bool :=
  row.bindingId = bindingId && row.ruleId = ruleId && row.mappingHash = mappingHash

def PendingApplication.hasKey (bindingId ruleId : String) (row : PendingApplication) : Bool :=
  row.bindingId = bindingId && row.ruleId = ruleId

/-- The row after `_update_mutable_fields`. -/
def AppliedRule.write (updated row : AppliedRule) : AppliedRule :=
  if row.id = updated.id then
    { row with
      pinnedVersion := updated.pinnedVersion
      severityOverride := updated.severityOverride
      rowFilter := updated.rowFilter
      passThreshold := updated.passThreshold
      userMetadata := updated.userMetadata }
  else row

def PendingApplication.write (id : Nat) (application : Application) (row : PendingApplication) :
    PendingApplication :=
  if row.id = id then { row with toApplication := application } else row

def Event.write (event : Event) (store : Store) : Except Error Store :=
  match event with
  | .read => .ok store
  | .outage => .ok { store with available := !store.available }
  | .updatePending id _ _ application =>
    .ok { store with pending := store.pending.map (PendingApplication.write id application) }
  | .insertPending bindingId ruleId user application =>
    if store.unique && store.pending.any (PendingApplication.hasKey bindingId ruleId) then .error .unique
    else
      let row := { application with id := store.nextId, bindingId, ruleId, createdBy := some user }
      .ok { store with pending := store.pending ++ [row], nextId := store.nextId + 1 }
  | .deletePending pending =>
    .ok { store with pending := store.pending.filter fun row => row.id ≠ pending.id }
  | .updateApplied updated => .ok { store with applied := store.applied.map updated.write }
  | .insertApplied row =>
    if store.unique && store.applied.any (AppliedRule.hasKey row.bindingId row.ruleId row.mappingHash)
      then .error .unique
    else
      let applied := store.applied ++ [{ row with id := store.nextId }]
      .ok { store with applied, nextId := store.nextId + 1 }

def Event.execute (event : Event) (store : Store) : Except Error Store :=
  match event with
  | .outage => Event.write .outage store
  | event => if store.available then event.write store else .error .unavailable

/-- A statement that fails leaves the tables as they are. -/
def Event.after (event : Event) (store : Store) : Store := (event.execute store).toOption.getD store

variable {ρ : Type}

abbrev AppCall (ρ : Type) := Call Store Event ρ

def sql (event : Event) (onError : Error → AppCall ρ) (next : Store → AppCall ρ) : AppCall ρ :=
  .stmt event event.after fun store =>
    match event.execute store with
    | .ok _ => next store
    | .error error => onError error

/-! ### Applying a rule -/

section ApplyRule

variable (functions : Functions)

/-- `_validate_applicable_rule`, and the check of the row filter. -/
def validateApplicableRule (bindingId ruleId : String) (application : Application)
    (onError : Error → AppCall ρ) (next : RegistryRule → AppCall ρ) : AppCall ρ :=
  sql .read onError fun store =>
    if bindingId ∉ store.bindings then onError (.runtime s!"Monitored table not found: {bindingId}")
    else sql .read onError fun store =>
      match store.rules ruleId with
      | none => onError (.runtime s!"Registry rule not found: {ruleId}")
      | some rule =>
        if rule.status ≠ .approved then
          onError (.ruleNotPublished (s!"Registry rule '{ruleId}' is not published " ++
            s!"(status='{rule.status.text}'); only published rules can be applied to a monitored table."))
        else
          match validateMappingComplete application.columnMapping rule.slots with
          | .error error => onError error
          | .ok () =>
            match validateRowFilter functions application.rowFilter with
            | .error error => onError error
            | .ok () => next rule

/-- `_get_by_natural_key` -/
def Store.appliedAt (store : Store) (bindingId ruleId mappingHash : String) : Option AppliedRule :=
  store.applied.find? (AppliedRule.hasKey bindingId ruleId mappingHash)

/-- `resolve_pinned_version_for_new_attachment` -/
def resolvePinnedVersion (pinnedVersion : Option Nat) (currentVersion : Nat)
    (onError : Error → AppCall ρ) (next : Option Nat → AppCall ρ) : AppCall ρ :=
  match pinnedVersion with
  | some version => next (some version)
  | none => sql .read onError fun store => next (if store.autoUpgrade then none else some currentVersion)

def applyRule (bindingId ruleId : String) (application : Application) (user : String)
    (pinnedVersion : Option Nat) (severityOverride : Option String)
    (tags : Option (List (String × String))) (onError : Error → AppCall ρ)
    (next : AppliedRule → AppCall ρ) : AppCall ρ :=
  validateApplicableRule functions bindingId ruleId application onError fun rule =>
    let mappingHash := computeMappingHash functions application.columnMapping
    let rowFilter := cleanRowFilter application.rowFilter
    let passThreshold := clampPassThreshold application.passThreshold
    sql .read onError fun store =>
      match store.appliedAt bindingId ruleId mappingHash with
      | some existing =>
        let updated := { existing with
          pinnedVersion, severityOverride, rowFilter, passThreshold
          userMetadata := tags.getD existing.userMetadata }
        sql (.updateApplied updated) onError fun _ => next updated
      | none =>
        resolvePinnedVersion pinnedVersion rule.version onError fun pinnedVersion =>
          let applied : AppliedRule := { application with
            id := 0, bindingId, ruleId, pinnedVersion, severityOverride, rowFilter, passThreshold
            userMetadata := tags.getD [], mappingHash, createdBy := some user }
          sql (.insertApplied applied) onError fun store => next { applied with id := store.nextId }

end ApplyRule

end Dqx.Applications
