import Mathlib.Data.List.Basic
import Mathlib.Data.List.Dedup

/-! The data of the actions subsystem: times, statuses, results, the alert action with its
validation, custom actions, and `DQAction`, which binds an action to a condition under a name. -/

namespace Dqx.Actions

/-- A `datetime`: wall clock in microseconds, and the offset from UTC of an aware value. -/
structure DateTime where
  wall : Int
  offset : Option Int
deriving DecidableEq, Repr

/-- `to_utc`, as the instant: a naive value is taken as UTC, an aware one is converted. -/
def DateTime.toUtc (value : DateTime) : Int :=
  match value.offset with
  | none => value.wall
  | some offset => value.wall - offset

/-- `timedelta(hours=n)` in microseconds. -/
def hours (n : Int) : Int := n * 3600000000

inductive ActionStatus where
  | healthy
  | unhealthy
  | configError
deriving DecidableEq, Repr

inductive DQAlertFrequency where
  | always
  | hourly
  | daily
deriving DecidableEq, Repr

inductive NotifyOn where
  | each
  | statusChange
deriving DecidableEq, Repr

/-- A `dict[str, str]` in insertion order. -/
abbrev StrDict := List (String × String)

/-- The snapshot of a run that actions read, over metric values of type `μ`. -/
structure ActionContext (μ : Type) where
  metrics : List (String × μ)
  runId : String
  runTime : DateTime
  inputLocation : Option String
  condition : Option String := none
  extras : Option (List (String × StrDict)) := none

structure ActionResult where
  actionName : String
  fired : Bool
  status : ActionStatus
  destinationErrors : StrDict := []
  extras : Option StrDict := none
deriving DecidableEq, Repr

/-- What `execute` can raise: a `TerminalActionError`, or anything else. -/
inductive ActionError where
  | terminal (message : String)
  | other (message : String)
deriving DecidableEq, Repr

/-- What a constructor raises. -/
inductive InvalidError where
  | action (message : String)
  | condition (message : String)
deriving DecidableEq, Repr

abbrev Validated := Except InvalidError

/-- An alert. Its fields state what `_validate_alert` leaves true of every instance. -/
structure DQAlert where
  destinations : List String
  name : String
  alertFrequency : DQAlertFrequency
  notifyOn : NotifyOn
  severity : String
  name_ne : name ≠ ""
  destinations_ne : destinations ≠ []
  destinations_nodup : destinations.Nodup

/-- The names that occur more than once, each once, sorted. -/
def duplicateNames (names : List String) : List String :=
  ((names.filter fun name => 1 < names.count name).dedup).mergeSort (· ≤ ·)

theorem nodup_of_duplicateNames_eq_nil {names : List String} (h : duplicateNames names = []) :
    names.Nodup := by
  rw [List.nodup_iff_count_le_one]
  intro name
  by_contra hc
  have hmem : name ∈ duplicateNames names := by
    simp only [duplicateNames, List.mem_mergeSort, List.mem_dedup, List.mem_filter,
      decide_eq_true_eq]
    exact ⟨List.count_pos_iff.mp (by omega), by omega⟩
  rw [h] at hmem
  simp at hmem

/-- Python's rendering of a list of plain names. -/
def listRepr (names : List String) : String :=
  "[" ++ ", ".intercalate (names.map fun name => "'" ++ name ++ "'") ++ "]"

/-- `DQAlert(...)` with `_validate_alert`. -/
def DQAlert.validateAlert (destinations : List String) (name : String := "")
    (alertFrequency : DQAlertFrequency := .always) (notifyOn : NotifyOn := .each)
    (severity : String := "error") : Validated DQAlert :=
  if hd : destinations = [] then
    .error (.action "DQAlert must have at least one destination configured.")
  else if hu : duplicateNames destinations = [] then
    .ok {
      destinations, alertFrequency, notifyOn, severity
      name := if name = "" then "alert" else name
      name_ne := by split <;> simp_all
      destinations_ne := hd
      destinations_nodup := nodup_of_duplicateNames_eq_nil hu }
  else
    .error (.action ("DQAlert destination names must be unique; duplicates found: "
      ++ listRepr (duplicateNames destinations)))

/-- An alert without a name of its own is called `alert`. -/
theorem DQAlert.validateAlert_name {destinations : List String} {name severity : String}
    {frequency : DQAlertFrequency} {notifyOn : NotifyOn} {alert : DQAlert}
    (h : DQAlert.validateAlert destinations name frequency notifyOn severity = .ok alert) :
    alert.name = if name = "" then "alert" else name := by
  unfold DQAlert.validateAlert at h
  split at h
  · cases h
  · split at h
    · cases h
      rfl
    · cases h

/-- A registered action that is no alert. `ω` is what a run's surroundings decide about one call:
what the destinations answer, what a custom action finds. -/
structure CustomAction (μ ω : Type) where
  className : String
  name : String
  execute : ActionContext μ → ω → Except ActionError ActionResult

inductive Action (μ ω : Type) where
  | alert (alert : DQAlert)
  | custom (action : CustomAction μ ω)

variable {μ ω : Type}

/-- `NoOpAction`. -/
def noOpAction (name : String := "noop") : CustomAction μ ω where
  className := "NoOpAction"
  name := name
  execute _ _ := .ok { actionName := name, fired := true, status := .unhealthy }

/-- `FailPipeline`, which never returns; `describe` renders the observed metrics. -/
def failPipeline (describe : List (String × μ) → String) (message : Option String := none)
    (name : String := "fail_pipeline") : CustomAction μ ω where
  className := "FailPipeline"
  name := name
  execute context _ :=
    .error (.terminal (message.getD ("Pipeline failed by DQX action '" ++ name ++ "'. "
      ++ "Observed metrics: " ++ describe context.metrics)))

namespace Action

/-- `type(action).__name__`. -/
def className : Action μ ω → String
  | .alert _ => "DQAlert"
  | .custom action => action.className

def name : Action μ ω → String
  | .alert a => a.name
  | .custom action => action.name

end Action

/-- `str.isspace` of one character. -/
def isSpace (c : Char) : Bool :=
  let n := c.toNat
  (9 ≤ n && n ≤ 13) || (28 ≤ n && n ≤ 32) || n == 0x85 || n == 0xa0 || n == 0x1680 ||
    (0x2000 ≤ n && n ≤ 0x200a) || n == 0x2028 || n == 0x2029 || n == 0x202f || n == 0x205f ||
    n == 0x3000

/-- `str.strip()`. -/
def strip (s : List Char) : List Char :=
  ((s.dropWhile isSpace).reverse.dropWhile isSpace).reverse

/-- `_derive_name`: the given name, the action's own, a label made of the condition, or the class
name, whichever comes first. -/
def deriveName (given : String) (action : Action μ ω) (condition : Option String) : String :=
  if given ≠ "" then given
  else if action.name ≠ "" then action.name
  else match condition with
    | some condition =>
      String.ofList (((strip condition.toList).map fun c => if c = ' ' then '_' else c).take 64)
    | none => action.className

/-- An action bound to its condition. The name is one that `_derive_name` gives. -/
structure DQAction (μ ω : Type) where
  action : Action μ ω
  condition : Option String
  name : String
  derived : ∃ given, name = deriveName given action condition

/-- `DQAction(action=..., condition=..., name=...)`. `validate` is `ConditionEvaluator.validate`,
`registered` is `_validate_action_registered`; both answer with the message they raise. -/
def DQAction.construct (validate : String → Option String)
    (registered : Action μ ω → Option String) (action : Action μ ω)
    (condition : Option String := none) (given : String := "") : Validated (DQAction μ ω) :=
  match condition.bind validate, registered action with
  | some message, _ => .error (.condition message)
  | none, some message => .error (.action message)
  | none, none =>
    .ok { action, condition, name := deriveName given action condition, derived := ⟨given, rfl⟩ }

/-- An alert bound without a name takes the alert's, whatever its condition. -/
theorem deriveName_alert (alert : DQAlert) (condition : Option String) :
    deriveName "" (.alert alert : Action μ ω) condition = alert.name := by
  simp [deriveName, Action.name, alert.name_ne]

end Dqx.Actions
