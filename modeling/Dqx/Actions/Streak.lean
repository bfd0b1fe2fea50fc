import Dqx.Actions.Turns

/-! Notifications of a `STATUS_CHANGE` alert over the runs of one evaluator. While its last recorded
status is unhealthy the alert is latched: it cannot fire until a run records it healthy, unless a
condition that fails to evaluate overwrites the status in between. -/

namespace Dqx.Actions

open Lib

variable {μ ω τ : Type}

namespace Services

/-- The alert at place `i` fired in a run with these decisions. -/
def FiredAt (i : Nat) (decisions : List Decision) : Prop := decisions[i]? = some .fired

/-- The condition of the alert at place `i` was false in a run with these decisions. -/
def HealthyAt (i : Nat) (decisions : List Decision) : Prop := decisions[i]? = some .healthy

instance (i : Nat) (decisions : List Decision) : Decidable (FiredAt i decisions) :=
  inferInstanceAs (Decidable (_ = _))

instance (i : Nat) (decisions : List Decision) : Decidable (HealthyAt i decisions) :=
  inferInstanceAs (Decidable (_ = _))

/-- The last recorded status under `name` is unhealthy. -/
def Latched (name : String) (store : ActionStateStore τ) : Prop :=
  store.lastStatus name = some .unhealthy

/-- The condition of `a` evaluates on the run's metrics, or the last recorded status is not
unhealthy. -/
def KeepsStatus (services : Services μ ω τ) (a : DQAction μ ω) (store : ActionStateStore τ)
    (run : ActionContext μ × ω) : Prop :=
  services.conditionResult a run.1 = none → ¬Latched a.name store

variable {services : Services μ ω τ} {a : DQAction μ ω} {alert : DQAlert}

/-- An alert that fires is latched. -/
theorem Turn.latched_of_fired (ha : a.action = .alert alert) {context : ActionContext μ}
    {world : ω} {store store' : ActionStateStore τ} {e : Option String}
    (h : Turn services context world a store .fired store' e) : Latched a.name store' := by
  cases h with
  | fired _ hf status errors hs =>
    rw [hs alert ha]
    simp [Latched, ActionStateStore.record_lastStatus, buildEvent]
  | raised _ hf message =>
    simp [Latched, ActionStateStore.tryFire, hf, ha, ActionStateStore.reserve]

/-- A latched `STATUS_CHANGE` alert whose condition evaluates does not fire, and stays latched
unless it is recorded healthy. -/
theorem Turn.of_latched (ha : a.action = .alert alert) (hn : alert.notifyOn = .statusChange)
    {context : ActionContext μ} {world : ω} {store store' : ActionStateStore τ} {d : Decision}
    {e : Option String} (h : Turn services context world a store d store' e)
    (hl : Latched a.name store) (hc : services.conditionResult a context ≠ none) :
    d ≠ .fired ∧ (d = .healthy ∨ Latched a.name store') := by
  have hno := ActionStateStore.shouldFire_statusChange ha hn hl context.runTime true
  cases h with
  | configError h => exact absurd h hc
  | healthy => exact ⟨by simp, .inl rfl⟩
  | suppressed =>
    refine ⟨by simp, .inr ?_⟩
    simp [Latched, ActionStateStore.record_lastStatus, buildEvent]
  | fired _ hf => rw [hno] at hf; cases hf
  | raised _ hf => rw [hno] at hf; cases hf

theorem SameAt.latched {name : String} {s t : ActionStateStore τ} (h : SameAt name s t)
    (hs : Latched name s) : Latched name t := h.lastStatus.symm.trans hs

/-- A `STATUS_CHANGE` alert that alone bears its name, and whose condition never fails to evaluate
while its last status is unhealthy, is healthy in some run between any two in which it fires. -/
theorem streak_notified_once (services : Services μ ω τ) (pre post : List (DQAction μ ω))
    (ha : a.action = .alert alert) (hn : alert.notifyOn = .statusChange)
    (hname : ∀ b ∈ pre ++ post, b.name ≠ a.name) (store : ActionStateStore τ)
    (runs : List (ActionContext μ × ω))
    (hkeep : (evaluator services (pre ++ a :: post)).Guarded (KeepsStatus services a) store runs) :
    Separated (FiredAt pre.length) (HealthyAt pre.length)
      ((evaluator services (pre ++ a :: post)).outputs store runs) := by
  have hpre : ∀ b ∈ pre, b.name ≠ a.name := fun b hb => hname b (List.mem_append_left _ hb)
  have hpost : ∀ b ∈ post, b.name ≠ a.name := fun b hb => hname b (List.mem_append_right _ hb)
  refine Machine.outputs_separated (Q := Latched a.name) ?_ ?_ store runs hkeep
  · intro s run _ hfired
    rcases loop_turn services run.1 run.2 pre post a s with
      ⟨hnone, -, -⟩ | ⟨d, before, after, e, -, hturn, hafter, hd⟩
    · exact absurd (hnone.symm.trans hfired) (by simp)
    · have hdf : d = .fired := Option.some.inj (hd.symm.trans hfired)
      subst hdf
      exact SameAt.latched (hafter _ hpost) (hturn.latched_of_fired ha)
  · intro s run hl hG
    rcases loop_turn services run.1 run.2 pre post a s with
      ⟨hnone, hsame, -⟩ | ⟨d, before, after, e, hbefore, hturn, hafter, hd⟩
    · refine ⟨fun hfired => absurd (hnone.symm.trans hfired) (by simp), .inr ?_⟩
      exact SameAt.latched (hsame _ hpre) hl
    · have hc : services.conditionResult a run.1 ≠ none := fun hc => hG hc hl
      obtain ⟨hne, hor⟩ := hturn.of_latched ha hn (SameAt.latched (hbefore _ hpre) hl) hc
      refine ⟨fun hfired => hne (Option.some.inj (hd.symm.trans hfired)), ?_⟩
      rcases hor with rfl | hl'
      · exact .inl hd
      · exact .inr (SameAt.latched (hafter _ hpost) hl')

/-- Services over boolean metrics: a condition is the name of a metric, and fails to evaluate when
the run has none of that name. -/
def flagServices : Services Bool Unit Unit where
  evaluateCondition condition metrics := metrics.lookup condition
  deliver _ _ _ := .ok []
  eventStore := none

theorem slack_ne : ["slack"] ≠ [] := by decide

theorem slack_nodup : ["slack"].Nodup := by decide

def statusChangeAlert : DQAlert where
  destinations := ["slack"]
  name := "alert"
  alertFrequency := .always
  notifyOn := .statusChange
  severity := "error"
  name_ne := alert_ne
  destinations_ne := slack_ne
  destinations_nodup := slack_nodup

def failedAction : DQAction Bool Unit where
  action := .alert statusChangeAlert
  condition := some "failed"
  name := "alert"
  derived := ⟨"", by decide⟩

/-- A run with these metrics. -/
def runWith (metrics : List (String × Bool)) (minutes : Int := 0) : ActionContext Bool × Unit :=
  ({ metrics, runId := "run", runTime := ⟨minutes * 60000000, some 0⟩, inputLocation := none }, ())

/-- A run without the metric overwrites the unhealthy status, and the streak is notified again. -/
theorem config_error_renotifies :
    ¬∀ (services : Services Bool Unit Unit) (a : DQAction Bool Unit) (alert : DQAlert),
      a.action = .alert alert → alert.notifyOn = .statusChange →
      ∀ (pre post : List (DQAction Bool Unit)) (store : ActionStateStore Unit)
        (runs : List (ActionContext Bool × Unit)),
        Separated (FiredAt pre.length) (HealthyAt pre.length)
          ((evaluator services (pre ++ a :: post)).outputs store runs) := by
  intro h
  have hs := h flagServices failedAction statusChangeAlert rfl rfl [] []
    (ActionStateStore.fresh ()) [runWith [("failed", true)], runWith [], runWith [("failed", true)]]
  have hout : (evaluator flagServices [failedAction]).outputs (ActionStateStore.fresh ())
      [runWith [("failed", true)], runWith [], runWith [("failed", true)]] =
        [[.fired], [.configError], [.fired]] := by decide
  rw [List.nil_append, hout] at hs
  obtain ⟨k, z, hk, hk', hz, hH⟩ := hs 0 2 _ _ (by omega) rfl rfl rfl rfl
  obtain rfl : k = 1 := by omega
  cases hz
  cases hH

/-- Four runs of one alert: unhealthy twice, healthy, unhealthy. -/
theorem streak_notified_once_recovery :
    Separated (FiredAt 0) (HealthyAt 0)
      ((evaluator flagServices [failedAction]).outputs (ActionStateStore.fresh ())
        [runWith [("failed", true)], runWith [("failed", true)], runWith [("failed", false)],
          runWith [("failed", true)]]) := by
  have ha : failedAction.action = .alert statusChangeAlert := rfl
  refine streak_notified_once flagServices [] [] ha rfl (by simp) _ _ ⟨?_, ?_, ?_, ?_, trivial⟩
  all_goals intro hc; cases hc

end Services

end Dqx.Actions
