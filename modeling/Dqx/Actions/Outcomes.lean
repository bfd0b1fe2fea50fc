import Dqx.Actions.Evaluator
import Mathlib.Data.List.Induction

/-! What a run of the evaluator does with each action of its list: how the turn of the action ends,
which event it records, and which extras of the actions before it an executed action sees. -/

namespace Dqx.Actions

variable {μ ω τ : Type}

/-- The dictionaries that actions have left for those after them, by the name of the action. -/
abbrev Extras := Option (List (String × StrDict))

/-- How the turn of an action ends, if it does not end the run. -/
inductive Outcome where
  | configError
  | healthy
  | suppressed
  | returned (result : ActionResult)
  | terminated (message : String)
deriving DecidableEq

namespace Outcome

/-- The event that the turn records. -/
def event (a : DQAction μ ω) (context : ActionContext μ) : Outcome → AlertEvent μ
  | configError => Services.buildEvent a context false .configError
  | healthy => Services.buildEvent a context false .healthy
  | suppressed => Services.buildEvent a context false .unhealthy
  | returned result => Services.buildEvent a context true result.status result.destinationErrors
  | terminated _ => Services.buildEvent a context true .unhealthy

def result? : Outcome → Option ActionResult
  | returned result => some result
  | _ => none

def terminal? : Outcome → Option String
  | terminated message => some message
  | _ => none

/-- What the action leaves for those after it; an empty dictionary is nothing. -/
def extras? (o : Outcome) : Option StrDict :=
  (o.result?.bind (·.extras)).filter (· ≠ [])

end Outcome

/-- A turn that has ended: the action and the outcome. -/
abbrev Ended (μ ω : Type) := DQAction μ ω × Outcome

/-- The extras of the last of these turns that left any under `name`. -/
def lastExtras (name : String) (turns : List (Ended μ ω)) : Option StrDict :=
  ((turns.filter fun turn => turn.1.name = name).filterMap (·.2.extras?)).getLast?

/-- `seen` holds under each name the extras that the last of `turns` under that name has left, or
else those that the run came with. -/
def Sees (context : ActionContext μ) (turns : List (Ended μ ω)) (seen : Extras) : Prop :=
  ∀ name, (seen.getD []).lookup name =
    (lastExtras name turns).or ((context.extras.getD []).lookup name)

namespace Services

variable (services : Services μ ω τ) (context : ActionContext μ) (world : ω)

/-- The store after one event for each of `turns`, in their order. -/
def recorded (turns : List (Ended μ ω)) (store : ActionStateStore τ) : ActionStateStore τ :=
  turns.foldl (fun s turn => s.record services.eventStore world (turn.2.event turn.1 context)) store

/-- `execute` of an action that sees `seen`, with its own condition. -/
def executed (a : DQAction μ ω) (seen : Extras) : Except ActionError ActionResult :=
  services.execute a.action { context with condition := a.condition, extras := seen } world

/-- The action passes its own condition and its own gates. -/
def Fires (a : DQAction μ ω) (store : ActionStateStore τ) : Prop :=
  services.conditionResult a context = some true ∧ store.shouldFire a context.runTime true = true

/-- How the turn of an action may end. -/
def Ends (a : DQAction μ ω) (store : ActionStateStore τ) (seen : Extras) : Outcome → Prop
  | .configError => services.conditionResult a context = none
  | .healthy => services.conditionResult a context = some false
  | .suppressed => services.conditionResult a context = some true ∧
      store.shouldFire a context.runTime true = false
  | .returned result => services.Fires context a store ∧
      services.executed context world a seen = .ok result
  | .terminated message => services.Fires context a store ∧
      services.executed context world a seen = .error (.terminal message)

/-- What holds after the turns of some actions, none of which has ended the run. -/
structure Account (store : ActionStateStore τ) (turns : List (Ended μ ω)) (p : Progress τ) : Prop where
  ends : ∀ i turn, turns[i]? = some turn → ∃ seen, Sees context (turns.take i) seen ∧
    services.Ends context world turn.1 (services.recorded context world (turns.take i) store) seen turn.2
  store : p.store = services.recorded context world turns store
  extras : Sees context turns p.extras
  results : p.results = turns.filterMap (·.2.result?)
  deferred : p.deferred = turns.filterMap (·.2.terminal?)

end Services

variable {services : Services μ ω τ} {context : ActionContext μ} {world : ω}
  {store : ActionStateStore τ} {turns : List (Ended μ ω)} {p : Progress τ} {a : DQAction μ ω}

theorem lookup_dictSet {α : Type} (key name : String) (value : α) (dict : List (String × α)) :
    (Services.dictSet key value dict).lookup name = if name = key then some value else dict.lookup name := by
  have hcons : ∀ (k : String) (v : α) (rest : List (String × α)),
      ((k, v) :: rest).lookup name = if name = k then some v else rest.lookup name := by
    intro k v rest
    by_cases h : name = k
    · rw [h, List.lookup_cons_self, if_pos rfl]
    · rw [List.lookup_cons, beq_false_of_ne h, if_neg h]
  induction dict with
  | nil => exact hcons key value []
  | cons entry dict ih =>
    obtain ⟨k, v⟩ := entry
    rw [Services.dictSet]
    split
    · next hk =>
      rw [hcons, hcons, hk]
      split <;> rfl
    · next hk =>
      rw [hcons, hcons, ih]
      split
      · next h => rw [if_neg (h ▸ hk)]
      · rfl

theorem lastExtras_append (name : String) (turn : Ended μ ω) :
    lastExtras name (turns ++ [turn]) =
      if turn.1.name = name then turn.2.extras?.or (lastExtras name turns)
      else lastExtras name turns := by
  by_cases h : turn.1.name = name
  · cases he : turn.2.extras? <;> simp [lastExtras, List.filter_append, h, he]
  · simp [lastExtras, List.filter_append, h]

/-- An action that leaves no extras changes nothing that those after it see. -/
theorem Sees.skip {seen : Extras} (h : Sees context turns seen) {turn : Ended μ ω}
    (hnone : turn.2.extras? = none) : Sees context (turns ++ [turn]) seen := by
  intro name
  rw [h name, lastExtras_append, hnone, Option.none_or, ite_self]

theorem Sees.recordExtras {seen : Extras} (h : Sees context turns seen) (result : ActionResult) :
    Sees context (turns ++ [(a, .returned result)]) (Services.recordExtras a result seen) := by
  unfold Services.recordExtras
  split
  · next hnone => exact h.skip (by simp [Outcome.extras?, Outcome.result?, hnone])
  · next hempty => exact h.skip (by simp [Outcome.extras?, Outcome.result?, hempty])
  · next extras hne hextras =>
    have hne' : extras ≠ [] := fun h => hne h
    have hleft : (Outcome.returned result).extras? = some extras := by
      simp [Outcome.extras?, Outcome.result?, hextras, hne']
    intro name
    rw [Option.getD_some, lookup_dictSet, lastExtras_append, hleft, h name]
    by_cases hname : name = a.name
    · simp [hname]
    · simp [hname, Ne.symm hname]

namespace Services

theorem recorded_append (turn : Ended μ ω) :
    services.recorded context world (turns ++ [turn]) store =
      (services.recorded context world turns store).record services.eventStore world
        (turn.2.event turn.1 context) := by
  rw [recorded, List.foldl_append]
  rfl

theorem account_nil (services : Services μ ω τ) (context : ActionContext μ) (world : ω)
    (store : ActionStateStore τ) : Account services context world store []
      { store, extras := context.extras } where
  ends := nofun
  store := rfl
  extras := fun name => by simp [lastExtras]
  results := rfl
  deferred := rfl

theorem Account.append (h : Account services context world store turns p) {o : Outcome}
    {q : Progress τ} (hends : services.Ends context world a p.store p.extras o)
    (hstore : q.store = p.store.record services.eventStore world (o.event a context))
    (hextras : Sees context (turns ++ [(a, o)]) q.extras)
    (hresults : q.results = p.results ++ o.result?.toList)
    (hdeferred : q.deferred = p.deferred ++ o.terminal?.toList) :
    Account services context world store (turns ++ [(a, o)]) q where
  ends i turn hturn := by
    rcases Nat.lt_or_ge i turns.length with hi | hi
    · rw [List.getElem?_append_left hi] at hturn
      rw [List.take_append_of_le_length (Nat.le_of_lt hi)]
      exact h.ends i turn hturn
    · rw [List.getElem?_append_right hi] at hturn
      obtain ⟨hi', rfl⟩ : i - turns.length = 0 ∧ (a, o) = turn := by
        cases hd : i - turns.length with
        | zero => simpa [hd] using hturn
        | succ n => simp [hd] at hturn
      rw [List.take_append_of_le_length (by omega), List.take_of_length_le (by omega), ← h.store]
      exact ⟨p.extras, h.extras, hends⟩
  store := by rw [hstore, recorded_append, h.store]
  extras := hextras
  results := by cases hr : o.result? <;> simp [hresults, h.results, List.filterMap_append, hr]
  deferred := by cases ht : o.terminal? <;> simp [hdeferred, h.deferred, List.filterMap_append, ht]

/-- The turn of the action raises an error that is no terminal one. -/
def Raises (services : Services μ ω τ) (context : ActionContext μ) (world : ω) (a : DQAction μ ω)
    (store : ActionStateStore τ) (seen : Extras) (message : String) : Prop :=
  services.Fires context a store ∧ services.executed context world a seen = .error (.other message)

/-- A turn either ends with an outcome, and the account goes on, or it ends the run. -/
theorem Account.evaluateAction (h : Account services context world store turns p) (a : DQAction μ ω) :
    (∃ o q, services.evaluateAction context world a p = (q, none) ∧
      Account services context world store (turns ++ [(a, o)]) q) ∨
    ∃ message q, services.evaluateAction context world a p = (q, some message) ∧
      services.Raises context world a p.store p.extras message ∧
      q.store = (p.store.tryFire a context.runTime true).2 := by
  unfold Services.evaluateAction
  cases hc : services.conditionResult a context with
  | none =>
    exact .inl ⟨.configError, _, rfl, h.append hc rfl (h.extras.skip rfl) (by simp [Outcome.result?])
      (by simp [Outcome.terminal?])⟩
  | some condition =>
    cases condition with
    | false =>
      exact .inl ⟨.healthy, _, rfl, h.append hc rfl (h.extras.skip rfl) (by simp [Outcome.result?])
        (by simp [Outcome.terminal?])⟩
    | true =>
      have hfst := p.store.tryFire_fst a context.runTime true
      have hrecord : ∀ {event : AlertEvent μ}, event.actionName = a.name → event.fired = true →
          (p.store.tryFire a context.runTime true).2.record services.eventStore world event =
            p.store.record services.eventStore world event := fun hname hfired =>
        ActionStateStore.tryFire_record a context.runTime true services.eventStore world hname hfired
      cases ht : p.store.tryFire a context.runTime true with
      | mk fires store' =>
        rw [ht] at hfst hrecord
        cases fires with
        | false =>
          have hstore : store' = p.store := by
            rcases p.store.tryFire_snd a context.runTime true with h' | ⟨h', -, -⟩
            · rw [ht] at h'
              exact h'
            · rw [← hfst] at h'
              cases h'
          refine .inl ⟨.suppressed, _, rfl, h.append ⟨hc, hfst.symm⟩ ?_ (h.extras.skip rfl)
            (by simp [Outcome.result?]) (by simp [Outcome.terminal?])⟩
          rw [hstore]
          rfl
        | true =>
          have hfires : services.Fires context a p.store := ⟨hc, hfst.symm⟩
          cases hx : services.executed context world a p.extras with
          | ok result =>
            rw [executed] at hx
            simp only [hx]
            exact .inl ⟨.returned result, _, rfl, h.append ⟨hfires, hx⟩ (hrecord rfl rfl)
              (h.extras.recordExtras result) rfl (by simp [Outcome.terminal?])⟩
          | error error =>
            rw [executed] at hx
            cases error with
            | terminal message =>
              simp only [hx]
              exact .inl ⟨.terminated message, _, rfl, h.append ⟨hfires, hx⟩ (hrecord rfl rfl)
                (h.extras.skip rfl) (by simp [Outcome.result?]) rfl⟩
            | other message =>
              simp only [hx]
              exact .inr ⟨message, _, rfl, ⟨hfires, hx⟩, rfl⟩

/-- The loop accounts for each of its actions, or for those before one that ends the run. -/
theorem account_evaluateActions (services : Services μ ω τ) (context : ActionContext μ) (world : ω)
    (store : ActionStateStore τ) (actions : List (DQAction μ ω)) :
    ∃ (turns : List (Ended μ ω)) (p : Progress τ), Account services context world store turns p ∧
      ((turns.map Prod.fst = actions ∧ services.loop actions context world store = (p, none)) ∨
        ∃ a rest message q, actions = turns.map Prod.fst ++ a :: rest ∧
          services.loop actions context world store = (q, some message) ∧
          services.Raises context world a p.store p.extras message ∧
          q.store = (p.store.tryFire a context.runTime true).2) := by
  induction actions using List.reverseRecOn with
  | nil => exact ⟨[], _, account_nil services context world store, .inl ⟨rfl, rfl⟩⟩
  | append_singleton actions a ih =>
    obtain ⟨turns, p, haccount, hend⟩ := ih
    rw [loop] at hend ⊢
    rw [evaluateActions_append]
    rcases hend with ⟨hactions, hloop⟩ | ⟨b, rest, message, q, hactions, hloop, hraises, hstore⟩
    · rw [hloop]
      rcases haccount.evaluateAction a with ⟨o, q, hturn, hnext⟩ | ⟨message, q, hturn, hraises, hstore⟩
      · exact ⟨_, q, hnext, .inl ⟨by simp [hactions], by simp [evaluateActions, hturn]⟩⟩
      · exact ⟨turns, p, haccount, .inr ⟨a, [], message, q, by rw [hactions],
          by simp [evaluateActions, hturn], hraises, hstore⟩⟩
    · rw [hloop]
      exact ⟨turns, p, haccount, .inr ⟨b, rest ++ [a], message, q, by simp [hactions], rfl, hraises,
        hstore⟩⟩

end Services

/-- The turns of a run, each of which ended as the action's own condition, gates and execution have
it, in the store that one event for each turn before it has left, and seeing the extras that these
turns have left. -/
def Turns (services : Services μ ω τ) (context : ActionContext μ) (world : ω)
    (store : ActionStateStore τ) (turns : List (Ended μ ω)) : Prop :=
  ∀ i turn, turns[i]? = some turn → ∃ seen, Sees context (turns.take i) seen ∧
    services.Ends context world turn.1 (services.recorded context world (turns.take i) store) seen
      turn.2

/-- A run takes every action of the list through its turn, records one event for each and raises the
first terminal error only then, if any; unless an action raises an error that is no terminal one,
which leaves the run at once, without an event and without the actions behind it. -/
theorem evaluate_processes (services : Services μ ω τ) (actions : List (DQAction μ ω))
    (context : ActionContext μ) (world : ω) (store : ActionStateStore τ) :
    ∃ turns : List (Ended μ ω), Turns services context world store turns ∧
      ((turns.map Prod.fst = actions ∧
          services.evaluate actions context world store =
            (services.recorded context world turns store,
              match (turns.filterMap (·.2.terminal?)).head? with
              | some message => .error (.terminal message)
              | none => .ok (turns.filterMap (·.2.result?)))) ∨
        ∃ a rest seen message, actions = turns.map Prod.fst ++ a :: rest ∧ Sees context turns seen ∧
          services.Raises context world a (services.recorded context world turns store) seen message ∧
          services.evaluate actions context world store =
            (((services.recorded context world turns store).tryFire a context.runTime true).2,
              .error (.other message))) := by
  obtain ⟨turns, p, haccount, hend⟩ :=
    Services.account_evaluateActions services context world store actions
  refine ⟨turns, haccount.ends, ?_⟩
  rcases hend with ⟨hactions, hloop⟩ | ⟨a, rest, message, q, hactions, hloop, hraises, hstore⟩
  · refine .inl ⟨hactions, ?_⟩
    simp only [Services.evaluate, hloop]
    rw [← haccount.store, ← haccount.results, ← haccount.deferred]
    cases p.deferred <;> rfl
  · rw [haccount.store] at hraises hstore
    refine .inr ⟨a, rest, p.extras, message, hactions, haccount.extras, hraises, ?_⟩
    simp only [Services.evaluate, hloop, hstore]

/-- Services with a table of the names of the actions that it has events of. -/
def loggingServices : Services Unit Unit (List String) where
  evaluateCondition _ _ := some true
  deliver _ _ _ := .ok []
  eventStore := some {
    append event _ table := some (table ++ [event.actionName])
    loadLatestPerAction _ _ := none
    loadLastFiredPerAction _ _ := none }

def unconditional (name : String) (action : CustomAction Unit Unit) : DQAction Unit Unit where
  action := .custom action
  condition := none
  name := deriveName name (.custom action) none
  derived := ⟨name, rfl⟩

/-- An action of a user's own whose lookup fails. -/
def enrich : CustomAction Unit Unit := ⟨"Enrich", "enrich", fun _ _ => .error (.other "lookup failed")⟩

/-- An action that raises an error of its own ends the run: it has no event, and the action behind it
does not fail the pipeline. -/
theorem raising_action_ends_run :
    let (store, result) := loggingServices.evaluate
      [unconditional "enrich" enrich, unconditional "fail" (failPipeline fun _ => "")]
      ⟨[], "run", ⟨0, some 0⟩, none, none, none⟩ () (ActionStateStore.fresh [])
    store.table = [] ∧ result = .error (.other "lookup failed") :=
  ⟨rfl, rfl⟩

end Dqx.Actions
