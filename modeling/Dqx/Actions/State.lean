import Dqx.Actions.Types
import Mathlib.Logic.Function.Basic

/-! The state store of alerts: the gates that decide whether an action fires, the reservation that
`try_fire` makes, and the stamps that `record` and `seed` leave. -/

namespace Dqx.Actions

variable {μ ω τ : Type}

/-- The record of one action's outcome in one run. -/
structure AlertEvent (μ : Type) where
  actionName : String
  condition : Option String
  fired : Bool
  status : ActionStatus
  observedMetrics : List (String × μ)
  runId : String
  runTime : DateTime
  inputLocation : Option String
  destinations : List String
  deliveryErrors : List String
  runConfigName : String := "default"

/-- The interface `ActionEventStore` over a backing table of type `τ`. An append that raises gives
`none`; what a load returns is keyed by action name, and metrics come back as text. -/
structure ActionEventStore (μ ω τ : Type) where
  append : AlertEvent μ → ω → τ → Option τ
  loadLatestPerAction : τ → String → Option (AlertEvent String)
  loadLastFiredPerAction : τ → String → Option DateTime

/-- `ActionStateStore`: its two maps, and the table behind its event store. -/
structure ActionStateStore (τ : Type) where
  lastFired : String → Option DateTime
  lastStatus : String → Option ActionStatus
  table : τ

namespace ActionStateStore

/-- A new store over `table`. -/
def fresh (table : τ) : ActionStateStore τ where
  lastFired _ := none
  lastStatus _ := none
  table

variable (store : ActionStateStore τ)

def seed (eventStore : Option (ActionEventStore μ ω τ)) : ActionStateStore τ :=
  match eventStore with
  | none => store
  | some events =>
    { store with
      lastFired := events.loadLastFiredPerAction store.table
      lastStatus := fun name => (events.loadLatestPerAction store.table name).map (·.status) }

/-- The window of a frequency, for those that have one. -/
def window : DQAlertFrequency → Option Int
  | .always => none
  | .hourly => some (hours 1)
  | .daily => some (hours 24)

def checkFrequency (frequency : DQAlertFrequency) (actionName : String) (runTime : DateTime) :
    Bool :=
  match window frequency with
  | none => true
  | some width =>
    match store.lastFired actionName with
    | none => true
    | some lastFired => width ≤ runTime.toUtc - lastFired.toUtc

def checkNotifyOn (notifyOn : NotifyOn) (actionName : String) : Bool :=
  match notifyOn with
  | .each => true
  | .statusChange => store.lastStatus actionName ≠ some .unhealthy

def shouldFire (dqAction : DQAction μ ω) (runTime : DateTime) (conditionResult : Bool) : Bool :=
  if conditionResult then
    match dqAction.action with
    | .custom _ => true
    | .alert alert =>
      store.checkFrequency alert.alertFrequency dqAction.name runTime &&
        store.checkNotifyOn alert.notifyOn dqAction.name
  else false

/-- The slot that a firing alert reserves. -/
def reserve (actionName : String) (runTime : DateTime) : ActionStateStore τ :=
  { store with
    lastFired := Function.update store.lastFired actionName (some runTime)
    lastStatus := Function.update store.lastStatus actionName (some .unhealthy) }

def tryFire (dqAction : DQAction μ ω) (runTime : DateTime) (conditionResult : Bool) :
    Bool × ActionStateStore τ :=
  if store.shouldFire dqAction runTime conditionResult then
    match dqAction.action with
    | .custom _ => (true, store)
    | .alert _ => (true, store.reserve dqAction.name runTime)
  else (false, store)

/-- What `record` stamps in memory. -/
def stamp (event : AlertEvent μ) : ActionStateStore τ :=
  { store with
    lastFired :=
      if event.fired then Function.update store.lastFired event.actionName (some event.runTime)
      else store.lastFired
    lastStatus := Function.update store.lastStatus event.actionName (some event.status) }

/-- Persistence is best effort: an append that raises leaves the table as it was. -/
def persist (eventStore : Option (ActionEventStore μ ω τ)) (world : ω) (event : AlertEvent μ) :
    ActionStateStore τ :=
  { store with
    table := (eventStore.bind fun events => events.append event world store.table).getD store.table }

def record (eventStore : Option (ActionEventStore μ ω τ)) (world : ω) (event : AlertEvent μ) :
    ActionStateStore τ :=
  (store.stamp event).persist eventStore world event

variable {store}

@[simp] theorem reserve_table (name : String) (t : DateTime) :
    (store.reserve name t).table = store.table := rfl

@[simp] theorem persist_lastFired (events : Option (ActionEventStore μ ω τ)) (world : ω)
    (event : AlertEvent μ) : (store.persist events world event).lastFired = store.lastFired := rfl

@[simp] theorem persist_lastStatus (events : Option (ActionEventStore μ ω τ)) (world : ω)
    (event : AlertEvent μ) : (store.persist events world event).lastStatus = store.lastStatus := rfl

@[simp] theorem stamp_table (event : AlertEvent μ) : (store.stamp event).table = store.table := rfl

theorem record_lastStatus (events : Option (ActionEventStore μ ω τ)) (world : ω)
    (event : AlertEvent μ) : (store.record events world event).lastStatus =
      Function.update store.lastStatus event.actionName (some event.status) := rfl

theorem record_lastFired (events : Option (ActionEventStore μ ω τ)) (world : ω)
    (event : AlertEvent μ) : (store.record events world event).lastFired =
      if event.fired then Function.update store.lastFired event.actionName (some event.runTime)
      else store.lastFired := rfl

theorem tryFire_fst (a : DQAction μ ω) (t : DateTime) (c : Bool) :
    (store.tryFire a t c).1 = store.shouldFire a t c := by
  unfold tryFire
  cases h : store.shouldFire a t c with
  | false => rfl
  | true => cases a.action <;> rfl

/-- `try_fire` either reserves the slot of an alert whose gates pass or leaves the store alone. -/
theorem tryFire_snd (a : DQAction μ ω) (t : DateTime) (c : Bool) :
    (store.tryFire a t c).2 = store ∨
      (store.shouldFire a t c = true ∧ (∃ alert, a.action = .alert alert) ∧
        (store.tryFire a t c).2 = store.reserve a.name t) := by
  unfold tryFire
  cases h : store.shouldFire a t c with
  | false => exact .inl rfl
  | true =>
    cases ha : a.action with
    | custom _ => exact .inl rfl
    | alert alert => exact .inr ⟨rfl, ⟨alert, rfl⟩, rfl⟩

/-- The record of a fire stamps again what the fire reserved. -/
theorem tryFire_record (a : DQAction μ ω) (t : DateTime) (c : Bool)
    (events : Option (ActionEventStore μ ω τ)) (world : ω) {event : AlertEvent μ}
    (hname : event.actionName = a.name) (hfired : event.fired = true) :
    (store.tryFire a t c).2.record events world event = store.record events world event := by
  rcases store.tryFire_snd a t c with h | ⟨-, -, h⟩
  · rw [h]
  · rw [h]
    simp only [record, persist, stamp, reserve, hfired, hname, if_true, Function.update_idem]

/-- An alert with a window fires only once the window has passed since the last fire. -/
theorem shouldFire_window {a : DQAction μ ω} {alert : DQAlert} (ha : a.action = .alert alert)
    {width : Int} (hw : window alert.alertFrequency = some width) {t last : DateTime} {c : Bool}
    (hlast : store.lastFired a.name = some last) (h : store.shouldFire a t c = true) :
    last.toUtc + width ≤ t.toUtc := by
  unfold shouldFire at h
  split at h
  · simp only [ha, checkFrequency, hw, hlast, Bool.and_eq_true, decide_eq_true_eq] at h
    omega
  · cases h

/-- A `STATUS_CHANGE` alert does not fire while its last recorded status is unhealthy. -/
theorem shouldFire_statusChange {a : DQAction μ ω} {alert : DQAlert}
    (ha : a.action = .alert alert) (hn : alert.notifyOn = .statusChange)
    (hs : store.lastStatus a.name = some .unhealthy) (t : DateTime) (c : Bool) :
    store.shouldFire a t c = false := by
  unfold shouldFire
  split
  · simp [ha, checkNotifyOn, hn, hs]
  · rfl

end ActionStateStore

end Dqx.Actions
