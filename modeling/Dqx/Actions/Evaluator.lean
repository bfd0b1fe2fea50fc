import Dqx.Actions.State

/-! The evaluator: the loop that takes every configured action through its condition, the gates of
the state store and its execution, and what each action's turn does to the store. -/

namespace Dqx.Actions

variable {μ ω τ : Type}

/-- What the evaluator is given to work with: `ConditionEvaluator.evaluate`, which raises
`InvalidConditionError` where it gives `none`; the delivery tasks of an alert, which leave the error
of each failed destination in the order they finish; and the event store. -/
structure Services (μ ω τ : Type) where
  evaluateCondition : String → List (String × μ) → Option Bool
  deliver : DQAlert → ActionContext μ → ω → Except ActionError StrDict
  eventStore : Option (ActionEventStore μ ω τ)

/-- What the evaluator decides, and logs, about one action in one run. -/
inductive Decision where
  | configError
  | healthy
  | suppressed
  | fired
deriving DecidableEq, Repr

/-- The local variables of `evaluate`, with the store and the decisions logged so far. -/
structure Progress (τ : Type) where
  store : ActionStateStore τ
  results : List ActionResult := []
  deferred : List String := []
  extras : Option (List (String × StrDict)) := none
  decisions : List Decision := []

namespace Services

variable (services : Services μ ω τ)

/-- The result of an action's condition; an action without one is not gated by it. -/
def conditionResult (a : DQAction μ ω) (context : ActionContext μ) : Option Bool :=
  match a.condition with
  | none => some true
  | some condition => services.evaluateCondition condition context.metrics

/-- `execute` of an action. An alert is unhealthy whenever it returns. -/
def execute (action : Action μ ω) (context : ActionContext μ) (world : ω) :
    Except ActionError ActionResult :=
  match action with
  | .custom action => action.execute context world
  | .alert alert =>
    (services.deliver alert context world).map fun errors =>
      { actionName := alert.name, fired := true, status := .unhealthy,
        destinationErrors := errors }

/-- `_build_event`. -/
def buildEvent (a : DQAction μ ω) (context : ActionContext μ) (fired : Bool)
    (status : ActionStatus) (destinationErrors : StrDict := []) : AlertEvent μ where
  actionName := a.name
  condition := a.condition
  fired := fired
  status := status
  observedMetrics := context.metrics
  runId := context.runId
  runTime := context.runTime
  inputLocation := context.inputLocation
  destinations := destinationErrors.map (·.1)
  deliveryErrors := destinationErrors.map (·.2)

/-- `dict[key] = value`, which keeps the place of a key it holds already. -/
def dictSet {α : Type} (key : String) (value : α) : List (String × α) → List (String × α)
  | [] => [(key, value)]
  | (k, v) :: rest => if k = key then (k, value) :: rest else (k, v) :: dictSet key value rest

/-- `_record_extras`. -/
def recordExtras (a : DQAction μ ω) (result : ActionResult)
    (accumulated : Option (List (String × StrDict))) : Option (List (String × StrDict)) :=
  match result.extras with
  | none => accumulated
  | some [] => accumulated
  | some extras => some (dictSet a.name extras (accumulated.getD []))

/-- One turn of the loop. The second component is an error that leaves `evaluate` at once. -/
def evaluateAction (context : ActionContext μ) (world : ω) (a : DQAction μ ω) (p : Progress τ) :
    Progress τ × Option String :=
  match services.conditionResult a context with
  | none =>
    ({ p with
        store := p.store.record services.eventStore world (buildEvent a context false .configError)
        decisions := p.decisions ++ [.configError] }, none)
  | some false =>
    ({ p with
        store := p.store.record services.eventStore world (buildEvent a context false .healthy)
        decisions := p.decisions ++ [.healthy] }, none)
  | some true =>
    match p.store.tryFire a context.runTime true with
    | (false, store) =>
      ({ p with
          store := store.record services.eventStore world (buildEvent a context false .unhealthy)
          decisions := p.decisions ++ [.suppressed] }, none)
    | (true, store) =>
      let actionContext := { context with condition := a.condition, extras := p.extras }
      match services.execute a.action actionContext world with
      | .ok result =>
        ({ store := store.record services.eventStore world
              (buildEvent a context true result.status result.destinationErrors)
           results := p.results ++ [result]
           deferred := p.deferred
           extras := recordExtras a result p.extras
           decisions := p.decisions ++ [.fired] }, none)
      | .error (.terminal message) =>
        ({ p with
            store := store.record services.eventStore world (buildEvent a context true .unhealthy)
            deferred := p.deferred ++ [message]
            decisions := p.decisions ++ [.fired] }, none)
      | .error (.other message) =>
        ({ p with store, decisions := p.decisions ++ [.fired] }, some message)

/-- The loop over the configured actions. -/
def evaluateActions (context : ActionContext μ) (world : ω) :
    List (DQAction μ ω) → Progress τ → Progress τ × Option String
  | [], p => (p, none)
  | a :: rest, p =>
    match services.evaluateAction context world a p with
    | (p, none) => evaluateActions context world rest p
    | (p, some message) => (p, some message)

/-- The loop of one run, from the run's store. -/
def loop (actions : List (DQAction μ ω)) (context : ActionContext μ) (world : ω)
    (store : ActionStateStore τ) : Progress τ × Option String :=
  services.evaluateActions context world actions { store, extras := context.extras }

/-- `ActionEvaluator.evaluate`: the store it leaves, and what it returns or raises. The first
deferred terminal error is raised after the loop. -/
def evaluate (actions : List (DQAction μ ω)) (context : ActionContext μ) (world : ω)
    (store : ActionStateStore τ) : ActionStateStore τ × Except ActionError (List ActionResult) :=
  match services.loop actions context world store with
  | (p, some message) => (p.store, .error (.other message))
  | (p, none) =>
    match p.deferred with
    | [] => (p.store, .ok p.results)
    | message :: _ => (p.store, .error (.terminal message))

variable {services}

theorem buildEvent_actionName (a : DQAction μ ω) (context : ActionContext μ) (fired : Bool)
    (status : ActionStatus) (errors : StrDict) :
    (buildEvent a context fired status errors).actionName = a.name := rfl

/-- What one turn of the loop can do, by the decision it makes: the condition decides first, then
the gates; only an execution that raises something not terminal leaves no record. -/
inductive Turn (services : Services μ ω τ) (context : ActionContext μ) (world : ω)
    (a : DQAction μ ω) (store : ActionStateStore τ) :
    Decision → ActionStateStore τ → Option String → Prop
  | configError (hc : services.conditionResult a context = none) :
      Turn services context world a store .configError
        (store.record services.eventStore world (buildEvent a context false .configError)) none
  | healthy (hc : services.conditionResult a context = some false) :
      Turn services context world a store .healthy
        (store.record services.eventStore world (buildEvent a context false .healthy)) none
  | suppressed (hc : services.conditionResult a context = some true)
      (hf : store.shouldFire a context.runTime true = false) :
      Turn services context world a store .suppressed
        (store.record services.eventStore world (buildEvent a context false .unhealthy)) none
  | fired (hc : services.conditionResult a context = some true)
      (hf : store.shouldFire a context.runTime true = true) (status : ActionStatus)
      (errors : StrDict) (hs : ∀ alert, a.action = .alert alert → status = .unhealthy) :
      Turn services context world a store .fired
        ((store.tryFire a context.runTime true).2.record services.eventStore world
          (buildEvent a context true status errors)) none
  | raised (hc : services.conditionResult a context = some true)
      (hf : store.shouldFire a context.runTime true = true) (message : String) :
      Turn services context world a store .fired (store.tryFire a context.runTime true).2
        (some message)

theorem execute_alert_status {alert : DQAlert} {context : ActionContext μ} {world : ω}
    {result : ActionResult} (h : services.execute (.alert alert) context world = .ok result) :
    result.status = .unhealthy := by
  simp only [execute] at h
  cases hd : services.deliver alert context world with
  | error e => rw [hd] at h; cases h
  | ok errors => rw [hd] at h; cases h; rfl

/-- Every turn is one of `Turn`, and logs exactly its decision. -/
theorem evaluateAction_turn (services : Services μ ω τ) (context : ActionContext μ) (world : ω)
    (a : DQAction μ ω) (p : Progress τ) :
    ∃ d, Turn services context world a p.store d
        (services.evaluateAction context world a p).1.store
        (services.evaluateAction context world a p).2 ∧
      (services.evaluateAction context world a p).1.decisions = p.decisions ++ [d] := by
  unfold evaluateAction
  cases hc : services.conditionResult a context with
  | none => exact ⟨_, .configError hc, rfl⟩
  | some c =>
    cases c with
    | false => exact ⟨_, .healthy hc, rfl⟩
    | true =>
      have hfst := p.store.tryFire_fst a context.runTime true
      cases ht : p.store.tryFire a context.runTime true with
      | mk fires store =>
        rw [ht] at hfst
        cases fires with
        | false =>
          have hstore : store = p.store := by
            rcases p.store.tryFire_snd a context.runTime true with h | ⟨h, -, -⟩
            · rw [ht] at h; exact h
            · rw [← hfst] at h; cases h
          subst hstore
          exact ⟨_, .suppressed hc hfst.symm, rfl⟩
        | true =>
          have hstore : store = (p.store.tryFire a context.runTime true).2 := by rw [ht]
          subst hstore
          simp only
          split
          · rename_i result hr
            refine ⟨_, .fired hc hfst.symm result.status result.destinationErrors ?_, rfl⟩
            intro alert ha
            rw [ha] at hr
            exact execute_alert_status hr
          · exact ⟨_, .fired hc hfst.symm .unhealthy [] fun _ _ => rfl, rfl⟩
          · exact ⟨_, .raised hc hfst.symm _, rfl⟩

/-- The loop over two lists in a row. -/
theorem evaluateActions_append (context : ActionContext μ) (world : ω)
    (as bs : List (DQAction μ ω)) (p : Progress τ) :
    services.evaluateActions context world (as ++ bs) p =
      match services.evaluateActions context world as p with
      | (q, none) => services.evaluateActions context world bs q
      | (q, some message) => (q, some message) := by
  induction as generalizing p with
  | nil => rfl
  | cons a as ih =>
    simp only [List.cons_append, evaluateActions]
    cases services.evaluateAction context world a p with
    | mk q e =>
      cases e with
      | none => exact ih q
      | some message => rfl

end Services

end Dqx.Actions
