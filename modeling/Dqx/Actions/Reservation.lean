import Dqx.Actions.Evaluator
import Dqx.Lib.Run
import Mathlib.Algebra.Order.Group.Int
import Mathlib.Algebra.Order.Group.Unbundled.Abs
import Mathlib.Data.List.Pairwise

/-! Concurrent evaluations of one alert against one state store: each is an atomic `try_fire`
followed, later and in any order with the steps of the others, by a `record`. An alert with a window
keeps its fires that far apart as long as no record comes after a later reservation. -/

namespace Dqx.Actions

open Lib

variable {μ ω τ : Type}

/-- The store that evaluations of one alert share, with the run times of the evaluations that have
reserved a fire and not recorded it, and of all that have fired, newest first. -/
structure Evaluations (τ : Type) where
  store : ActionStateStore τ
  reserved : List DateTime := []
  fired : List DateTime := []

/-- The atomic steps of an evaluation. -/
inductive Move (μ ω : Type) where
  | tryFire (runTime : DateTime) (conditionResult : Bool)
  | record (event : AlertEvent μ) (world : ω)

namespace Evaluations

/-- The state after a `try_fire`, which reserves and fires when it returns `True`. -/
def tryFire (s : Evaluations τ) (a : DQAction μ ω) (t : DateTime) (c : Bool) : Evaluations τ :=
  match s.store.tryFire a t c with
  | (true, store) => { store, reserved := t :: s.reserved, fired := t :: s.fired }
  | (false, store) => { s with store }

/-- Steps of evaluations of `a`. A record of a fired event closes a reservation of its run time; a
record of an event that did not fire needs none. -/
inductive Step (eventStore : Option (ActionEventStore μ ω τ)) (a : DQAction μ ω) :
    Evaluations τ → Move μ ω → Evaluations τ → Prop
  | tryFire (s : Evaluations τ) (t : DateTime) (c : Bool) :
      Step eventStore a s (.tryFire t c) (s.tryFire a t c)
  | recordFired (s : Evaluations τ) (event : AlertEvent μ) (world : ω)
      (name : event.actionName = a.name) (fired : event.fired = true)
      (reserved : event.runTime ∈ s.reserved) :
      Step eventStore a s (.record event world)
        { s with
          store := s.store.record eventStore world event
          reserved := s.reserved.erase event.runTime }
  | recordUnfired (s : Evaluations τ) (event : AlertEvent μ) (world : ω)
      (name : event.actionName = a.name) (fired : event.fired = false) :
      Step eventStore a s (.record event world)
        { s with store := s.store.record eventStore world event }

/-- A step records no fired event behind a later reservation: the last fired time in the store is
not past the event's run time. -/
def Timely (a : DQAction μ ω) (s : Evaluations τ) : Move μ ω → Prop
  | .tryFire _ _ => True
  | .record event _ =>
    event.fired = true →
      ∀ last, s.store.lastFired a.name = some last → last.toUtc ≤ event.runTime.toUtc

/-- Run times at least `width` apart, whichever comes first. -/
def Apart (width : Int) (t u : DateTime) : Prop := width ≤ |t.toUtc - u.toUtc|

/-- The invariant of timely runs: the fires are `width` apart, newest first, and the store's last
fired time is the latest of them. -/
structure Spaced (width : Int) (name : String) (s : Evaluations τ) : Prop where
  gaps : s.fired.Pairwise fun newer older => older.toUtc + width ≤ newer.toUtc
  latest : ∀ t ∈ s.fired, ∃ last ∈ s.fired,
    s.store.lastFired name = some last ∧ t.toUtc ≤ last.toUtc
  reserved_fired : ∀ t ∈ s.reserved, t ∈ s.fired

variable {eventStore : Option (ActionEventStore μ ω τ)} {a : DQAction μ ω} {alert : DQAlert}
  {width : Int}

theorem Spaced.start (width : Int) (name : String) (store : ActionStateStore τ) :
    Spaced width name { store } where
  gaps := List.Pairwise.nil
  latest := by simp
  reserved_fired := by simp

/-- A fire comes a whole window after the last one, hence after all. -/
theorem Spaced.tryFire (ha : a.action = .alert alert)
    (hw : ActionStateStore.window alert.alertFrequency = some width) {s : Evaluations τ}
    (hwidth : 0 ≤ width) (h : Spaced width a.name s) (t : DateTime) (c : Bool) :
    Spaced width a.name (s.tryFire a t c) := by
  unfold Evaluations.tryFire
  cases hf : s.store.shouldFire a t c with
  | false =>
    simp only [ActionStateStore.tryFire, hf, Bool.false_eq_true, if_false]
    exact h
  | true =>
    simp only [ActionStateStore.tryFire, hf, if_true, ha]
    have hgap : ∀ u ∈ s.fired, u.toUtc + width ≤ t.toUtc := by
      intro u hu
      obtain ⟨last, -, hlast, hle⟩ := h.latest u hu
      have := ActionStateStore.shouldFire_window ha hw hlast hf
      omega
    refine ⟨List.pairwise_cons.mpr ⟨hgap, h.gaps⟩, ?_, ?_⟩
    · intro u hu
      refine ⟨t, List.mem_cons_self, by simp [ActionStateStore.reserve], ?_⟩
      rcases List.mem_cons.mp hu with rfl | hu
      · exact le_refl _
      · have := hgap u hu
        omega
    · intro u hu
      rcases List.mem_cons.mp hu with rfl | hu
      · exact List.mem_cons_self
      · exact List.mem_cons_of_mem _ (h.reserved_fired u hu)

/-- A timely record leaves the last fired instant where the reservation put it. -/
theorem Spaced.recordFired {s : Evaluations τ} (h : Spaced width a.name s) {event : AlertEvent μ}
    {world : ω} (hname : event.actionName = a.name) (hfired : event.fired = true)
    (hreserved : event.runTime ∈ s.reserved) (htimely : Timely a s (.record event world)) :
    Spaced width a.name
      { s with
        store := s.store.record eventStore world event
        reserved := s.reserved.erase event.runTime } := by
  refine ⟨h.gaps, ?_, fun t ht => h.reserved_fired t (List.mem_of_mem_erase ht)⟩
  intro t ht
  obtain ⟨last, -, hlast, hle⟩ := h.latest t ht
  refine ⟨event.runTime, h.reserved_fired _ hreserved, ?_, hle.trans (htimely hfired last hlast)⟩
  simp [ActionStateStore.record_lastFired, hfired, hname]

theorem Spaced.recordUnfired {s : Evaluations τ} (h : Spaced width a.name s)
    {event : AlertEvent μ} {world : ω} (hfired : event.fired = false) :
    Spaced width a.name { s with store := s.store.record eventStore world event } := by
  refine ⟨h.gaps, ?_, h.reserved_fired⟩
  simpa [ActionStateStore.record_lastFired, hfired] using h.latest

theorem Spaced.step (ha : a.action = .alert alert)
    (hw : ActionStateStore.window alert.alertFrequency = some width) (hwidth : 0 ≤ width)
    {s s' : Evaluations τ} {move : Move μ ω} (h : Spaced width a.name s)
    (hstep : Step eventStore a s move s') (htimely : Timely a s move) :
    Spaced width a.name s' := by
  cases hstep with
  | tryFire t c => exact h.tryFire ha hw hwidth t c
  | recordFired event world name fired reserved => exact h.recordFired name fired reserved htimely
  | recordUnfired event world name fired => exact h.recordUnfired fired

theorem window_pos {frequency : DQAlertFrequency}
    (hw : ActionStateStore.window frequency = some width) : 0 < width := by
  cases frequency with
  | always => cases hw
  | hourly => cases hw; decide
  | daily => cases hw; decide

/-- In every run whose records are timely, the fires of an alert with a window are that far
apart. -/
theorem fires_apart_of_timely (ha : a.action = .alert alert)
    (hw : ActionStateStore.window alert.alertFrequency = some width) {store : ActionStateStore τ}
    {moves : List (Move μ ω)} {s : Evaluations τ}
    (path : Path (fun s move s' => Step eventStore a s move s' ∧ Timely a s move)
      { store } moves s) :
    s.fired.Pairwise (Apart width) := by
  have hwidth := (window_pos hw).le
  have h : Spaced width a.name s :=
    path.invariant (fun _ _ _ hs hstep => hs.step ha hw hwidth hstep.1 hstep.2)
      (Spaced.start width a.name store)
  refine h.gaps.imp fun {newer older} hgap => ?_
  have := le_abs_self (newer.toUtc - older.toUtc)
  unfold Apart
  omega

/-- A record that is not timely forgets the later reservation: on an alert without a notify gate,
an evaluation at the run time of that reservation fires again. -/
theorem refires_of_not_timely (ha : a.action = .alert alert) (hn : alert.notifyOn = .each)
    (hw : ActionStateStore.window alert.alertFrequency = some width) {s : Evaluations τ}
    (h : Spaced width a.name s) {event : AlertEvent μ} {world : ω}
    (hname : event.actionName = a.name) (hfired : event.fired = true)
    (hreserved : event.runTime ∈ s.reserved) {last : DateTime}
    (hlast : s.store.lastFired a.name = some last) (hlate : event.runTime.toUtc < last.toUtc) :
    ¬(Evaluations.tryFire
        { s with
          store := s.store.record eventStore world event
          reserved := s.reserved.erase event.runTime } a last true).fired.Pairwise
      (Apart width) := by
  have hmem := h.reserved_fired _ hreserved
  have hlastmem : last ∈ s.fired := by
    obtain ⟨l, hl, hl', -⟩ := h.latest _ hmem
    rw [hlast] at hl'
    cases hl'
    exact hl
  have hwidth := window_pos hw
  -- The two fires are ordered in the list one way or the other, and so a window apart.
  have hgap : event.runTime.toUtc + width ≤ last.toUtc := by
    let R : DateTime → DateTime → Prop := fun t u =>
      t.toUtc + width ≤ u.toUtc ∨ u.toUtc + width ≤ t.toUtc
    have hR : s.fired.Pairwise R := h.gaps.imp fun hg => .inr hg
    have hsymm : Std.Symm R := ⟨fun _ _ hr => hr.symm⟩
    have hne : event.runTime ≠ last := fun he => by rw [he] at hlate; omega
    rcases hR.forall hmem hlastmem hne with hr | hr <;> omega
  have hshould : (s.store.record eventStore world event).shouldFire a last true = true := by
    have hrec : (s.store.record eventStore world event).lastFired a.name =
        some event.runTime := by
      simp [ActionStateStore.record_lastFired, hfired, hname]
    simp only [ActionStateStore.shouldFire, ha, ActionStateStore.checkFrequency, hw, hrec,
      ActionStateStore.checkNotifyOn, hn, if_true, Bool.and_true, decide_eq_true_eq]
    omega
  intro hp
  simp only [Evaluations.tryFire, ActionStateStore.tryFire, hshould, if_true, ha] at hp
  have := (List.pairwise_cons.mp hp).1 last hlastmem
  simp only [Apart, sub_self, abs_zero] at this
  omega

/-- An alert that fires at most once an hour. -/
def hourlyAlert : DQAlert where
  destinations := ["slack"]
  name := "alert"
  alertFrequency := .hourly
  notifyOn := .each
  severity := "error"
  name_ne := by decide
  destinations_ne := by decide
  destinations_nodup := by decide

def hourlyAction : DQAction Unit Unit where
  action := .alert hourlyAlert
  condition := none
  name := "alert"
  derived := ⟨"alert", by decide⟩

/-- `minutes` after midnight, UTC. -/
def utcMinute (minutes : Int) : DateTime := ⟨minutes * 60000000, some 0⟩

/-- The event of a fire of `hourlyAction`. -/
def firedAt (t : DateTime) : AlertEvent Unit where
  actionName := "alert"
  condition := none
  fired := true
  status := .unhealthy
  observedMetrics := []
  runId := "run"
  runTime := t
  inputLocation := none
  destinations := []
  deliveryErrors := []

/-- Fires at 10:00 and 11:00, then the record of the first: the store is back at 10:00, and an
evaluation at 11:30 fires half an hour after the second. -/
theorem late_record_refires :
    ¬∀ (a : DQAction Unit Unit) (alert : DQAlert) (width : Int), a.action = .alert alert →
      ActionStateStore.window alert.alertFrequency = some width →
      ∀ (moves : List (Move Unit Unit)) (s : Evaluations Unit),
        Path (Step none a) { store := ActionStateStore.fresh () } moves s →
        s.fired.Pairwise (Apart width) := by
  intro h
  have path : Path (Step none hourlyAction) { store := ActionStateStore.fresh () }
      [.tryFire (utcMinute 600) true, .tryFire (utcMinute 660) true,
        .record (firedAt (utcMinute 600)) (), .tryFire (utcMinute 690) true] _ :=
    .cons (.tryFire _ _ _) <| .cons (.tryFire _ _ _) <|
      .cons (.recordFired _ _ _ rfl rfl (by decide)) <| .cons (.tryFire _ _ _) (.nil _)
  have hp := h hourlyAction hourlyAlert (hours 1) rfl rfl _ _ path
  have hfired : ¬[utcMinute 690, utcMinute 660, utcMinute 600].Pairwise (Apart (hours 1)) := by
    unfold Apart
    decide
  exact hfired hp

/-- Two fires an hour apart, each recorded before the other evaluation starts. -/
theorem fires_apart_of_timely_hourly :
    [utcMinute 660, utcMinute 600].Pairwise (Apart (hours 1)) := by
  have path : Path (fun s move s' => Step none hourlyAction s move s' ∧
        Timely hourlyAction s move)
      { store := ActionStateStore.fresh () }
      [.tryFire (utcMinute 600) true, .record (firedAt (utcMinute 600)) (),
        .tryFire (utcMinute 660) true] _ :=
    .cons ⟨.tryFire _ _ _, trivial⟩ <|
      .cons ⟨.recordFired _ _ _ rfl rfl (by decide), fun _ last hlast => by
        cases hlast; decide⟩ <|
      .cons ⟨.tryFire _ _ _, trivial⟩ (.nil _)
  have ha : hourlyAction.action = .alert hourlyAlert := rfl
  exact fires_apart_of_timely ha rfl path

end Evaluations

end Dqx.Actions
