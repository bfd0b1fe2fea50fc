import Dqx.Actions.Evaluator
import Dqx.Lib.Run

/-! The turn of one action within a run: what the turns of the other actions leave alone, and where
the decision about the action stands among those of the run. -/

namespace Dqx.Actions

open Lib

variable {μ ω τ : Type}

theorem alert_ne : "alert" ≠ "" := by decide

/-- Two stores hold the same suppression state of one name. -/
structure SameAt (name : String) (s t : ActionStateStore τ) : Prop where
  lastFired : s.lastFired name = t.lastFired name
  lastStatus : s.lastStatus name = t.lastStatus name

namespace SameAt

variable {name : String} {s t u : ActionStateStore τ}

theorem refl (name : String) (s : ActionStateStore τ) : SameAt name s s := ⟨rfl, rfl⟩

theorem symm (h : SameAt name s t) : SameAt name t s := ⟨h.lastFired.symm, h.lastStatus.symm⟩

theorem trans (h : SameAt name s t) (h' : SameAt name t u) : SameAt name s u :=
  ⟨h.lastFired.trans h'.lastFired, h.lastStatus.trans h'.lastStatus⟩

/-- The gates of an action read no other state than that of its name. -/
theorem shouldFire {a : DQAction μ ω} (h : SameAt a.name s t) (runTime : DateTime) (c : Bool) :
    s.shouldFire a runTime c = t.shouldFire a runTime c := by
  simp only [ActionStateStore.shouldFire, ActionStateStore.checkFrequency,
    ActionStateStore.checkNotifyOn, h.lastFired, h.lastStatus]

/-- A record under another name leaves the state of `name` alone. -/
theorem record_ne (eventStore : Option (ActionEventStore μ ω τ)) (world : ω)
    {event : AlertEvent μ} (h : event.actionName ≠ name) :
    SameAt name s (s.record eventStore world event) := by
  constructor
  · rw [ActionStateStore.record_lastFired]
    split
    · rw [Function.update_of_ne h.symm]
    · rfl
  · rw [ActionStateStore.record_lastStatus, Function.update_of_ne h.symm]

theorem tryFire_ne {a : DQAction μ ω} (h : a.name ≠ name) (runTime : DateTime) (c : Bool) :
    SameAt name s (s.tryFire a runTime c).2 := by
  rcases s.tryFire_snd a runTime c with h' | ⟨-, -, h'⟩
  · rw [h']
    exact refl name s
  · rw [h']
    constructor <;> simp [ActionStateStore.reserve, Function.update_of_ne h.symm]

end SameAt

namespace Services

variable {services : Services μ ω τ} {context : ActionContext μ} {world : ω}

/-- The turn of an action leaves the state of every other name alone. -/
theorem Turn.sameAt_ne {a : DQAction μ ω} {store store' : ActionStateStore τ} {d : Decision}
    {e : Option String} (h : Turn services context world a store d store' e) {name : String}
    (hne : a.name ≠ name) : SameAt name store store' := by
  cases h with
  | configError => exact SameAt.record_ne _ _ hne
  | healthy => exact SameAt.record_ne _ _ hne
  | suppressed => exact SameAt.record_ne _ _ hne
  | fired => exact (SameAt.tryFire_ne hne _ _).trans (SameAt.record_ne _ _ hne)
  | raised => exact SameAt.tryFire_ne hne _ _

/-- Turns of actions under other names leave the state of `name` alone. -/
theorem evaluateActions_sameAt (services : Services μ ω τ) (context : ActionContext μ) (world : ω)
    {name : String} {as : List (DQAction μ ω)} (hne : ∀ a ∈ as, a.name ≠ name) (p : Progress τ) :
    SameAt name p.store (services.evaluateActions context world as p).1.store := by
  induction as generalizing p with
  | nil => exact SameAt.refl name p.store
  | cons a as ih =>
    obtain ⟨d, hturn, -⟩ := evaluateAction_turn services context world a p
    have ha := hturn.sameAt_ne (hne a List.mem_cons_self)
    rw [evaluateActions]
    cases he : services.evaluateAction context world a p with
    | mk q e =>
      rw [he] at ha
      cases e with
      | none => exact ha.trans (ih (fun b hb => hne b (List.mem_cons_of_mem _ hb)) q)
      | some message => exact ha

/-- The loop adds one decision for each turn, and stops short only on an error. -/
theorem evaluateActions_decisions (services : Services μ ω τ) (context : ActionContext μ)
    (world : ω) (as : List (DQAction μ ω)) (p : Progress τ) :
    ∃ ds, (services.evaluateActions context world as p).1.decisions = p.decisions ++ ds ∧
      ds.length ≤ as.length ∧
      ((services.evaluateActions context world as p).2 = none → ds.length = as.length) := by
  induction as generalizing p with
  | nil => exact ⟨[], by simp [evaluateActions], Nat.le_refl _, fun _ => rfl⟩
  | cons a as ih =>
    obtain ⟨d, -, hd⟩ := evaluateAction_turn services context world a p
    rw [evaluateActions]
    cases he : services.evaluateAction context world a p with
    | mk q e =>
      rw [he] at hd
      cases e with
      | none =>
        obtain ⟨ds, hds, hle, hlen⟩ := ih q
        refine ⟨d :: ds, ?_, by simpa using hle, fun h => by simpa using hlen h⟩
        simp only at hd
        rw [hds, hd, List.append_assoc, List.singleton_append]
      | some message => exact ⟨[d], hd, by simp, fun h => by cases h⟩

/-- The loop around the turn of `a`: either it ends before the turn, or `a` takes its turn in a store
that the actions before it left, and the actions after it start from the outcome. A name that none
of these actions bears keeps its state. -/
theorem loop_turn (services : Services μ ω τ) (context : ActionContext μ) (world : ω) (pre post : List (DQAction μ ω)) (a : DQAction μ ω)
    (store : ActionStateStore τ) :
    let p := (services.loop (pre ++ a :: post) context world store).1
    let Unused (as : List (DQAction μ ω)) (s t : ActionStateStore τ) : Prop :=
      ∀ name, (∀ b ∈ as, b.name ≠ name) → SameAt name s t
    (p.decisions[pre.length]? = none ∧ Unused pre store p.store ∧
        (services.evaluateActions context world pre
          { store, extras := context.extras }).2 ≠ none) ∨
      ∃ d before after e, Unused pre store before ∧
        Turn services context world a before d after e ∧ Unused post after p.store ∧
        p.decisions[pre.length]? = some d := by
  intro p Unused
  have hp : p = (services.evaluateActions context world (pre ++ a :: post)
    { store, extras := context.extras }).1 := rfl
  rw [evaluateActions_append] at hp
  obtain ⟨ds, hds, hle, hlen⟩ := evaluateActions_decisions services context world pre
    { store, extras := context.extras }
  have hpre : Unused pre store _ := fun name hne =>
    evaluateActions_sameAt services context world hne { store, extras := context.extras }
  cases he : services.evaluateActions context world pre { store, extras := context.extras } with
  | mk q e =>
    rw [he] at hp hds hlen hpre
    simp only [List.nil_append] at hds
    cases e with
    | some message =>
      refine .inl ⟨?_, ?_, by simp⟩
      · rw [hp]
        simp only [hds, List.getElem?_eq_none_iff]
        exact hle
      · rw [hp]
        exact hpre
    | none =>
      right
      obtain ⟨d, hturn, hd⟩ := evaluateAction_turn services context world a q
      simp only [evaluateActions] at hp
      have hidx : ∀ ds', (q.decisions ++ [d] ++ ds')[pre.length]? = some d := by
        intro ds'
        rw [hds, ← hlen rfl]
        simp
      cases ha : services.evaluateAction context world a q with
      | mk r e =>
        rw [ha] at hp hturn hd
        refine ⟨d, q.store, r.store, e, hpre, hturn, ?_⟩
        cases e with
        | some message =>
          simp only at hp
          rw [hp]
          have := hidx []
          rw [List.append_nil, ← hd] at this
          exact ⟨fun name _ => SameAt.refl name _, this⟩
        | none =>
          simp only at hp
          rw [hp]
          refine ⟨fun name hne => evaluateActions_sameAt services context world hne r, ?_⟩
          obtain ⟨ds', hds', -⟩ := evaluateActions_decisions services context world post r
          rw [hds', hd]
          exact hidx ds'

/-- An evaluator with its configured actions, as a machine over the runs it is given: each run
answers with the decisions about the actions reached, in the order of the list. -/
def evaluator (services : Services μ ω τ) (actions : List (DQAction μ ω)) :
    Machine (ActionStateStore τ) (ActionContext μ × ω) (List Decision) where
  step store run :=
    let p := (services.loop actions run.1 run.2 store).1
    (p.store, p.decisions)

/-- The machine carries the store that `evaluate` leaves. -/
theorem evaluator_store (actions : List (DQAction μ ω)) (store : ActionStateStore τ)
    (run : ActionContext μ × ω) :
    ((evaluator services actions).step store run).1 =
      (services.evaluate actions run.1 run.2 store).1 := by
  simp only [evaluator, evaluate]
  split
  · rename_i h
    rw [h]
  · rename_i h
    rw [h]
    split <;> rfl

end Services

end Dqx.Actions
