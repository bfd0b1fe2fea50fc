import Dqx.Actions.Turns

/-! Isolation of alerts from one another: two configurations of an evaluator that share an alert
make the same decisions about it, run by run, when the state the alert reads is its own. -/

namespace Dqx.Actions

open Lib

variable {μ ω τ : Type}

namespace Services

variable {services : Services μ ω τ}

/-- No gate of this action ever suppresses it. -/
def Ungated (action : Action μ ω) : Prop :=
  ∀ alert, action = .alert alert → alert.alertFrequency = .always ∧ alert.notifyOn = .each

/-- None of these actions leaves the loop of a run in this world: each returns or raises a
`TerminalActionError`. -/
def ReturnsOrTerminal (services : Services μ ω τ) (actions : List (DQAction μ ω)) (world : ω) :
    Prop :=
  ∀ b ∈ actions, ∀ context message,
    services.execute b.action context world ≠ .error (.other message)

theorem evaluateAction_completes (context : ActionContext μ) {world : ω} {b : DQAction μ ω}
    (h : ∀ context message, services.execute b.action context world ≠ .error (.other message))
    (p : Progress τ) : (services.evaluateAction context world b p).2 = none := by
  unfold evaluateAction
  split
  · rfl
  · rfl
  · split
    · rfl
    · simp only
      split
      · rfl
      · rfl
      · rename_i message he
        exact absurd he (h _ message)

theorem evaluateActions_completes (context : ActionContext μ) {world : ω}
    {actions : List (DQAction μ ω)} (h : ReturnsOrTerminal services actions world)
    (p : Progress τ) : (services.evaluateActions context world actions p).2 = none := by
  induction actions generalizing p with
  | nil => rfl
  | cons b rest ih =>
    have hb := evaluateAction_completes context (h b List.mem_cons_self) p
    rw [evaluateActions]
    cases he : services.evaluateAction context world b p with
    | mk q e =>
      rw [he] at hb
      cases hb
      exact ih (fun c hc => h c (List.mem_cons_of_mem _ hc)) q

end Services

namespace ActionStateStore

theorem shouldFire_ungated {a : DQAction μ ω} (h : Services.Ungated a.action)
    (store : ActionStateStore τ) (runTime : DateTime) (c : Bool) :
    store.shouldFire a runTime c = c := by
  unfold shouldFire
  cases c with
  | false => rfl
  | true =>
    cases ha : a.action with
    | custom _ => rfl
    | alert alert =>
      obtain ⟨hf, hn⟩ := h alert ha
      simp [checkFrequency, hf, window, checkNotifyOn, hn]

end ActionStateStore

namespace Services

variable {services : Services μ ω τ} {a : DQAction μ ω}

/-- The decision of a turn follows from the condition and the gates. -/
theorem Turn.decision {context : ActionContext μ} {world : ω} {store store' : ActionStateStore τ}
    {d : Decision} {e : Option String} (h : Turn services context world a store d store' e) :
    d = match services.conditionResult a context with
      | none => .configError
      | some false => .healthy
      | some true => if store.shouldFire a context.runTime true then .fired else .suppressed := by
  cases h <;> simp_all

/-- Turns of `a` in stores with the same state of its name decide alike and leave the same state of
its name, whatever the world answers. -/
theorem Turn.congr {context : ActionContext μ} {world world' : ω}
    {s s' t t' : ActionStateStore τ} {d d' : Decision} {e e' : Option String}
    (halert : ∃ alert, a.action = .alert alert)
    (h : Turn services context world a s d s' e) (h' : Turn services context world' a t d' t' e')
    (hst : SameAt a.name s t) : d = d' ∧ SameAt a.name s' t' := by
  obtain ⟨alert, ha⟩ := halert
  have hd : d = d' := by
    rw [h.decision, h'.decision, hst.shouldFire]
  refine ⟨hd, ?_⟩
  subst hd
  have hrecord : ∀ (s t : ActionStateStore τ) (event event' : AlertEvent μ),
      SameAt a.name s t → event.actionName = a.name → event'.actionName = a.name →
      event.fired = event'.fired → event.status = event'.status →
      event.runTime = event'.runTime →
      SameAt a.name (s.record services.eventStore world event)
        (t.record services.eventStore world' event') := by
    intro s t event event' hst hn hn' hf hs ht
    constructor
    · rw [ActionStateStore.record_lastFired, ActionStateStore.record_lastFired, hf, hn, hn', ht]
      split
      · simp
      · exact hst.lastFired
    · simp [ActionStateStore.record_lastStatus, hn, hn', hs]
  have hreserve : SameAt a.name (s.reserve a.name context.runTime)
      (t.reserve a.name context.runTime) := by
    constructor <;> simp [ActionStateStore.reserve]
  cases h with
  | configError =>
    cases h'
    exact hrecord _ _ _ _ hst rfl rfl rfl rfl rfl
  | healthy =>
    cases h'
    exact hrecord _ _ _ _ hst rfl rfl rfl rfl rfl
  | suppressed =>
    cases h'
    exact hrecord _ _ _ _ hst rfl rfl rfl rfl rfl
  | fired _ hf status errors hs =>
    have hs' := hst.shouldFire context.runTime true ▸ hf
    cases h' with
    | fired _ hf' status' errors' hs'' =>
      simp only [ActionStateStore.tryFire, hf, hf', if_true, ha]
      rw [hs alert ha, hs'' alert ha]
      exact hrecord _ _ _ _ hreserve rfl rfl rfl rfl rfl
    | raised _ hf' message =>
      simp only [ActionStateStore.tryFire, hf, hf', if_true, ha, hs alert ha]
      constructor <;>
        simp [ActionStateStore.record_lastFired, ActionStateStore.record_lastStatus, buildEvent,
          ActionStateStore.reserve]
  | raised _ hf message =>
    cases h' with
    | fired _ hf' status' errors' hs'' =>
      simp only [ActionStateStore.tryFire, hf, hf', if_true, ha, hs'' alert ha]
      constructor <;>
        simp [ActionStateStore.record_lastFired, ActionStateStore.record_lastStatus, buildEvent,
          ActionStateStore.reserve]
    | raised _ hf' message' =>
      simp only [ActionStateStore.tryFire, hf, hf', if_true, ha]
      exact hreserve

/-- The condition on two runs of the two configurations: they are given the same context, and no
action listed before the alert leaves the loop. The worlds may differ. -/
structure SameRun (services : Services μ ω τ) (pre pre' : List (DQAction μ ω))
    (run run' : ActionContext μ × ω) : Prop where
  context : run.1 = run'.1
  completes : ReturnsOrTerminal services pre run.2
  completes' : ReturnsOrTerminal services pre' run'.2

/-- The turn of `a` in a run whose earlier actions complete. -/
theorem loop_turn_of_completes {pre : List (DQAction μ ω)} (post : List (DQAction μ ω))
    (store : ActionStateStore τ) {run : ActionContext μ × ω}
    (h : ReturnsOrTerminal services pre run.2) :
    ∃ d before after e, (∀ name, (∀ b ∈ pre, b.name ≠ name) → SameAt name store before) ∧
      Turn services run.1 run.2 a before d after e ∧
      (∀ name, (∀ b ∈ post, b.name ≠ name) →
        SameAt name after ((evaluator services (pre ++ a :: post)).step store run).1) ∧
      ((evaluator services (pre ++ a :: post)).step store run).2[pre.length]? = some d := by
  rcases loop_turn services run.1 run.2 pre post a store with
    ⟨-, -, hraised⟩ | hturn
  · exact absurd (evaluateActions_completes _ h _) hraised
  · exact hturn

/-- An ungated alert is decided about by its condition alone. -/
theorem decisions_eq_of_ungated (hu : Ungated a.action) (pre post pre' post' : List (DQAction μ ω))
    (store : ActionStateStore τ) {runs runs' : List (ActionContext μ × ω)}
    (hruns : List.Forall₂ (SameRun services pre pre') runs runs') :
    List.Forall₂ (fun ds ds' => ds[pre.length]? = ds'[pre'.length]?)
      ((evaluator services (pre ++ a :: post)).outputs store runs)
      ((evaluator services (pre' ++ a :: post')).outputs store runs') := by
  refine Machine.outputs_forall₂_of_simulation (R := fun _ _ => True) ?_ trivial hruns
  intro s t run run' _ hrun
  obtain ⟨d, before, after, e, -, hturn, -, hd⟩ :=
    loop_turn_of_completes (a := a) post s hrun.completes
  obtain ⟨d', before', after', e', -, hturn', -, hd'⟩ :=
    loop_turn_of_completes (a := a) post' t hrun.completes'
  refine ⟨?_, trivial⟩
  rw [hd, hd', hturn.decision, hturn'.decision, ← hrun.context,
    ActionStateStore.shouldFire_ungated hu, ActionStateStore.shouldFire_ungated hu]

/-- An alert that alone bears its name in both configurations keeps its state to itself. -/
theorem decisions_eq_of_unshared {alert : DQAlert} (ha : a.action = .alert alert)
    {pre post pre' post' : List (DQAction μ ω)} (hname : ∀ b ∈ pre ++ post, b.name ≠ a.name)
    (hname' : ∀ b ∈ pre' ++ post', b.name ≠ a.name) (store : ActionStateStore τ)
    {runs runs' : List (ActionContext μ × ω)}
    (hruns : List.Forall₂ (SameRun services pre pre') runs runs') :
    List.Forall₂ (fun ds ds' => ds[pre.length]? = ds'[pre'.length]?)
      ((evaluator services (pre ++ a :: post)).outputs store runs)
      ((evaluator services (pre' ++ a :: post')).outputs store runs') := by
  simp only [List.mem_append] at hname hname'
  refine Machine.outputs_forall₂_of_simulation (R := SameAt a.name) ?_ (SameAt.refl _ _) hruns
  intro s t run run' hst hrun
  obtain ⟨d, before, after, e, hbefore, hturn, hafter, hd⟩ :=
    loop_turn_of_completes (a := a) post s hrun.completes
  obtain ⟨d', before', after', e', hbefore', hturn', hafter', hd'⟩ :=
    loop_turn_of_completes (a := a) post' t hrun.completes'
  have hb := hbefore _ fun b hb => hname b (.inl hb)
  have hb' := hbefore' _ fun b hb => hname' b (.inl hb)
  rw [← hrun.context] at hturn'
  obtain ⟨rfl, hst'⟩ := hturn.congr ⟨alert, ha⟩ hturn' (hb.symm.trans (hst.trans hb'))
  refine ⟨hd.trans hd'.symm, ?_⟩
  exact ((hafter _ fun b hb => hname b (.inr hb)).symm.trans hst').trans
    (hafter' _ fun b hb => hname' b (.inr hb))

/-- The decisions about an alert do not depend on the other actions of the configuration, run by
run, when it is ungated or no other action of either configuration bears its name. -/
theorem alert_decisions_isolated {alert : DQAlert} (ha : a.action = .alert alert)
    (pre post pre' post' : List (DQAction μ ω))
    (h : Ungated a.action ∨
      (∀ b ∈ pre ++ post, b.name ≠ a.name) ∧ ∀ b ∈ pre' ++ post', b.name ≠ a.name)
    (store : ActionStateStore τ) (runs runs' : List (ActionContext μ × ω))
    (hruns : List.Forall₂ (SameRun services pre pre') runs runs') :
    List.Forall₂ (fun ds ds' => ds[pre.length]? = ds'[pre'.length]?)
      ((evaluator services (pre ++ a :: post)).outputs store runs)
      ((evaluator services (pre' ++ a :: post')).outputs store runs') := by
  rcases h with hu | ⟨hname, hname'⟩
  · exact decisions_eq_of_ungated hu pre post pre' post' store hruns
  · exact decisions_eq_of_unshared ha hname hname' store hruns

/-- Services under which every condition holds and every delivery succeeds. -/
def quietServices : Services Unit Unit Unit where
  evaluateCondition _ _ := some true
  deliver _ _ _ := .ok []
  eventStore := none

/-- An hourly alert to one destination, built without a name. -/
def unnamedAlert (destination : String) : DQAlert where
  destinations := [destination]
  name := "alert"
  alertFrequency := .hourly
  notifyOn := .each
  severity := "error"
  name_ne := alert_ne
  destinations_ne := by simp
  destinations_nodup := by simp

/-- The alert to one destination under its own condition, bound without a name. -/
def unnamedAction (destination condition : String) : DQAction Unit Unit where
  action := .alert (unnamedAlert destination)
  condition := some condition
  name := "alert"
  derived := ⟨"", by rw [deriveName_alert]; rfl⟩

def someRun : ActionContext Unit × Unit :=
  ({ metrics := [], runId := "run", runTime := ⟨0, some 0⟩, inputLocation := none }, ())

/-- Two alerts without names are both called `alert`: the first to fire suppresses the other, which
fires in the configuration without it. -/
theorem unnamed_alerts_share_state :
    ¬∀ (services : Services Unit Unit Unit) (a : DQAction Unit Unit) (alert : DQAlert),
      a.action = .alert alert →
      ∀ (pre post pre' post' : List (DQAction Unit Unit)) (store : ActionStateStore Unit)
        (runs : List (ActionContext Unit × Unit)),
        List.Forall₂ (fun ds ds' => ds[pre.length]? = ds'[pre'.length]?)
          ((evaluator services (pre ++ a :: post)).outputs store runs)
          ((evaluator services (pre' ++ a :: post')).outputs store runs) := by
  intro h
  have hs := h quietServices (unnamedAction "teams" "warning_row_count > 0") (unnamedAlert "teams")
    rfl [unnamedAction "slack" "error_row_count > 0"] [] [] [] (ActionStateStore.fresh ())
    [someRun]
  simp only [Machine.outputs_cons, List.forall₂_cons] at hs
  exact absurd hs.1 (by decide)

/-- An alert of another name before it changes nothing for an alert. -/
theorem alert_decisions_isolated_named :
    List.Forall₂ (fun ds ds' : List Decision => ds[1]? = ds'[0]?)
      ((evaluator quietServices [{ unnamedAction "slack" "error_row_count > 0" with
          name := "errors", derived := ⟨"errors", by decide⟩ },
        unnamedAction "teams" "warning_row_count > 0"]).outputs (ActionStateStore.fresh ())
        [someRun, someRun])
      ((evaluator quietServices [unnamedAction "teams" "warning_row_count > 0"]).outputs
        (ActionStateStore.fresh ()) [someRun, someRun]) := by
  have hrun : SameRun quietServices [{ unnamedAction "slack" "error_row_count > 0" with
      name := "errors", derived := ⟨"errors", by decide⟩ }] [] someRun someRun := by
    refine ⟨rfl, ?_, by simp [ReturnsOrTerminal]⟩
    intro b hb context message
    rw [List.mem_singleton.mp hb]
    simp [execute, unnamedAction, quietServices, Except.map]
  have ha : (unnamedAction "teams" "warning_row_count > 0").action =
    .alert (unnamedAlert "teams") := rfl
  exact alert_decisions_isolated ha
    [{ unnamedAction "slack" "error_row_count > 0" with
      name := "errors", derived := ⟨"errors", by decide⟩ }] [] [] []
    (.inr ⟨by simp [unnamedAction], by simp⟩) _ _ _ (.cons hrun (.cons hrun .nil))

end Services

end Dqx.Actions
