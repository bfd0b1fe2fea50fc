import Dqx.Actions.Isolation
import Dqx.Actions.EventStorage

/-! Restarts of a state store that persists its events. Between runs the in-memory maps say exactly
what the event log says, so a new store seeded from the log decides everything as the old one would
have. -/

namespace Dqx.Actions

open Lib

variable {μ ω : Type} {config : EventStoreConfig μ ω}
  {eventStore : ActionEventStore μ ω EventTable}

/-- The maps of a store say what the rows of its run configuration say. -/
structure Synced (config : EventStoreConfig μ ω) (store : ActionStateStore EventTable) : Prop where
  chronological : Chronological (config.ownRows store.table)
  lastStatus : ∀ name, store.lastStatus name =
    (actionRows (config.ownRows store.table) name).getLast?.map (·.status)
  lastFired : ∀ name, (store.lastFired name).map DateTime.toUtc =
    lastTime (actionRows ((config.ownRows store.table).filter (·.fired)) name)

/-- Every event logged under `name` is before `t`. -/
def LoggedBefore (config : EventStoreConfig μ ω) (table : EventTable) (name : String) (t : Int) :
    Prop :=
  ∀ row ∈ actionRows (config.ownRows table) name, ∀ u, row.runTime = some u → u < t

/-- Two stores over tables with the same rows of the run configuration, both in step with them. -/
structure Twin (config : EventStoreConfig μ ω) (s t : ActionStateStore EventTable) : Prop where
  rows : config.ownRows s.table = config.ownRows t.table
  left : Synced config s
  right : Synced config t

/-- A seeded store is in step with its table. -/
theorem Synced.seed (hloads : LoadsLatest config eventStore)
    {store : ActionStateStore EventTable} (h : Chronological (config.ownRows store.table)) :
    Synced config (store.seed (some eventStore)) where
  chronological := h
  lastStatus name := hloads.latest store.table name h
  lastFired name := hloads.lastFired store.table name h

section Gates

variable {s t : ActionStateStore EventTable}

theorem Twin.lastStatus (h : Twin config s t) : s.lastStatus = t.lastStatus := by
  funext name
  rw [h.left.lastStatus, h.right.lastStatus, h.rows]

theorem Twin.lastFired (h : Twin config s t) (name : String) :
    (s.lastFired name).map DateTime.toUtc = (t.lastFired name).map DateTime.toUtc := by
  rw [h.left.lastFired, h.right.lastFired, h.rows]

/-- The frequency gate reads no more of the last fired time than its instant. -/
theorem checkFrequency_congr {name : String}
    (h : (s.lastFired name).map DateTime.toUtc = (t.lastFired name).map DateTime.toUtc)
    (frequency : DQAlertFrequency) (runTime : DateTime) :
    s.checkFrequency frequency name runTime = t.checkFrequency frequency name runTime := by
  unfold ActionStateStore.checkFrequency
  split
  · rfl
  · cases hs : s.lastFired name with
    | none =>
      rw [hs] at h
      rw [Option.map_eq_none_iff.mp h.symm]
    | some last =>
      rw [hs] at h
      obtain ⟨last', ht, hlast⟩ := Option.map_eq_some_iff.mp h.symm
      simp only [ht, hlast]

/-- Twins pass and fail the same gates. -/
theorem Twin.shouldFire (h : Twin config s t) (a : DQAction μ ω) (runTime : DateTime) (c : Bool) :
    s.shouldFire a runTime c = t.shouldFire a runTime c := by
  simp only [ActionStateStore.shouldFire, checkFrequency_congr (h.lastFired a.name),
    ActionStateStore.checkNotifyOn, h.lastStatus]

end Gates

section Records

variable {store : ActionStateStore EventTable} {world : ω}

theorem record_table (store : ActionStateStore EventTable) (hloads : LoadsLatest config eventStore) (hw : config.writable world)
    (event : AlertEvent μ) :
    (store.record (some eventStore) world event).table =
      some (store.table.getD [] ++ [config.toRow event]) := by
  simp [ActionStateStore.record, ActionStateStore.persist, hloads.append,
    EventStoreConfig.append, hw, ActionStateStore.stamp]

theorem ownRows_record (store : ActionStateStore EventTable) (hloads : LoadsLatest config eventStore) (hw : config.writable world)
    (event : AlertEvent μ) :
    config.ownRows (store.record (some eventStore) world event).table =
      config.ownRows store.table ++ [config.toRow event] := by
  rw [record_table store hloads hw]
  simp [EventStoreConfig.ownRows, EventStoreConfig.toRow]

/-- The rows of an action after one more row. -/
theorem actionRows_toRow (rows : List EventRow) (event : AlertEvent μ) (name : String) :
    actionRows (rows ++ [config.toRow event]) name =
      actionRows rows name ++ if event.actionName = name then [config.toRow event] else [] := by
  rw [actionRows_append]
  congr 1
  simp only [actionRows, List.filter_cons, List.filter_nil, EventStoreConfig.toRow,
    decide_eq_true_eq]

theorem Chronological.toRow {rows : List EventRow} (h : Chronological rows)
    {event : AlertEvent μ}
    (hbefore : ∀ row ∈ actionRows rows event.actionName, ∀ u, row.runTime = some u →
      u < event.runTime.toUtc) :
    Chronological (rows ++ [config.toRow event]) where
  timed row hrow := by
    rcases List.mem_append.mp hrow with hrow | hrow
    · exact h.timed row hrow
    · rw [List.mem_singleton.mp hrow]
      exact ⟨_, rfl⟩
  increasing name := by
    rw [actionRows_toRow]
    split
    · rename_i hname
      refine List.pairwise_append.mpr ⟨h.increasing name, List.pairwise_singleton .., ?_⟩
      intro row hrow row' hrow' t u ht hu
      rw [List.mem_singleton.mp hrow'] at hu
      cases hu
      exact hbefore row (hname ▸ hrow) t ht
    · rw [List.append_nil]
      exact h.increasing name

/-- A record of an event later than all logged for its action keeps maps and log in step. -/
theorem Synced.record (hloads : LoadsLatest config eventStore) (hw : config.writable world)
    (h : Synced config store) {event : AlertEvent μ}
    (hbefore : LoggedBefore config store.table event.actionName event.runTime.toUtc) :
    Synced config (store.record (some eventStore) world event) := by
  have hrows := ownRows_record store hloads hw event
  refine ⟨?_, fun name => ?_, fun name => ?_⟩
  · rw [hrows]
    exact h.chronological.toRow hbefore
  · rw [hrows, actionRows_toRow, ActionStateStore.record_lastStatus]
    by_cases hname : event.actionName = name
    · subst hname
      simp [EventStoreConfig.toRow]
    · rw [Function.update_of_ne (Ne.symm hname), if_neg hname, List.append_nil]
      exact h.lastStatus name
  · rw [hrows, List.filter_append, ActionStateStore.record_lastFired]
    cases hf : event.fired with
    | false =>
      have : ([config.toRow event]).filter (·.fired) = [] := by
        simp [EventStoreConfig.toRow, hf]
      rw [this, List.append_nil]
      exact h.lastFired name
    | true =>
      have : ([config.toRow event]).filter (·.fired) = [config.toRow event] := by
        simp [EventStoreConfig.toRow, hf]
      rw [this, actionRows_toRow]
      by_cases hname : event.actionName = name
      · subst hname
        simp [lastTime, EventStoreConfig.toRow]
      · rw [if_pos rfl, Function.update_of_ne (Ne.symm hname), if_neg hname, List.append_nil]
        exact h.lastFired name

/-- Every event logged is before `t`. -/
def AllBefore (config : EventStoreConfig μ ω) (table : EventTable) (t : Int) : Prop :=
  ∀ row ∈ config.ownRows table, ∀ u, row.runTime = some u → u < t

theorem AllBefore.logged {table : EventTable} {t : Int} (h : AllBefore config table t)
    (name : String) : LoggedBefore config table name t :=
  fun row hrow => h row (mem_actionRows.mp hrow).1

theorem AllBefore.record (hloads : LoadsLatest config eventStore) (hw : config.writable world)
    {event : AlertEvent μ} {t : Int} (h : AllBefore config store.table t)
    (ht : event.runTime.toUtc < t) :
    AllBefore config (store.record (some eventStore) world event).table t := by
  intro row hrow u hu
  rw [ownRows_record store hloads hw] at hrow
  rcases List.mem_append.mp hrow with hrow | hrow
  · exact h row hrow u hu
  · rw [List.mem_singleton.mp hrow] at hu
    cases hu
    exact ht

theorem LoggedBefore.record_ne (hloads : LoadsLatest config eventStore)
    (hw : config.writable world) {event : AlertEvent μ} {name : String} {t : Int}
    (h : LoggedBefore config store.table name t) (hne : event.actionName ≠ name) :
    LoggedBefore config (store.record (some eventStore) world event).table name t := by
  unfold LoggedBefore
  rw [ownRows_record store hloads hw, actionRows_toRow, if_neg hne, List.append_nil]
  exact h

end Records

namespace Services

variable {services : Services μ ω EventTable} {context : ActionContext μ} {world : ω}

/-- The turn of an action in two stores whose gates agree records the same event in both, and is
alike in everything else. -/
theorem evaluateAction_alike (context : ActionContext μ) {a : DQAction μ ω}
    (hreturns : ∀ context message, services.execute a.action context world ≠
      .error (.other message))
    (p : Progress EventTable) {s t : ActionStateStore EventTable}
    (hgates : s.shouldFire a context.runTime true = t.shouldFire a context.runTime true) :
    ∃ (event : AlertEvent μ) (q : Progress EventTable),
      event.actionName = a.name ∧ event.runTime = context.runTime ∧
      services.evaluateAction context world a { p with store := s } =
        ({ q with store := s.record services.eventStore world event }, none) ∧
      services.evaluateAction context world a { p with store := t } =
        ({ q with store := t.record services.eventStore world event }, none) := by
  unfold evaluateAction
  cases hc : services.conditionResult a context with
  | none =>
    exact ⟨buildEvent a context false .configError,
      { p with decisions := p.decisions ++ [.configError] }, rfl, rfl, rfl, rfl⟩
  | some c =>
    cases c with
    | false =>
      exact ⟨buildEvent a context false .healthy,
        { p with decisions := p.decisions ++ [.healthy] }, rfl, rfl, rfl, rfl⟩
    | true =>
      cases hf : s.shouldFire a context.runTime true with
      | false =>
        rw [hf] at hgates
        simp only [ActionStateStore.tryFire, hf, ← hgates, Bool.false_eq_true, if_false]
        exact ⟨buildEvent a context false .unhealthy,
          { p with decisions := p.decisions ++ [.suppressed] }, rfl, rfl, rfl, rfl⟩
      | true =>
        rw [hf] at hgates
        have hfire : ∀ u : ActionStateStore EventTable, u.shouldFire a context.runTime true = true →
            u.tryFire a context.runTime true = (true, (u.tryFire a context.runTime true).2) := by
          intro u hu
          exact Prod.ext ((u.tryFire_fst a context.runTime true).trans hu) rfl
        rw [hfire s hf, hfire t hgates.symm]
        cases he : services.execute a.action
            { context with condition := a.condition, extras := p.extras } world with
        | ok result =>
          refine ⟨buildEvent a context true result.status result.destinationErrors,
            { store := p.store, results := p.results ++ [result], deferred := p.deferred,
              extras := recordExtras a result p.extras,
              decisions := p.decisions ++ [.fired] }, rfl, rfl, ?_, ?_⟩
          all_goals
            simp only [he]
            rw [ActionStateStore.tryFire_record] <;> rfl
        | error e =>
          cases e with
          | other message => exact absurd he (hreturns _ message)
          | terminal message =>
            refine ⟨buildEvent a context true .unhealthy,
              { p with deferred := p.deferred ++ [message],
                       decisions := p.decisions ++ [.fired] }, rfl, rfl, ?_, ?_⟩
            all_goals
              simp only [he]
              rw [ActionStateStore.tryFire_record] <;> rfl

/-- The loop over actions of distinct names, none of them logged at the run's time yet, keeps twins
in step and decides alike in both. -/
theorem evaluateActions_twin (context : ActionContext μ)
    (hstore : services.eventStore = some eventStore)
    (hloads : LoadsLatest config eventStore) (hw : config.writable world)
    {actions : List (DQAction μ ω)} (hnames : (actions.map (·.name)).Nodup)
    (hreturns : ReturnsOrTerminal services actions world) (p : Progress EventTable)
    {s t : ActionStateStore EventTable} (h : Twin config s t)
    (hbefore : ∀ a ∈ actions, LoggedBefore config s.table a.name context.runTime.toUtc) :
    ∃ (q : Progress EventTable) (s' t' : ActionStateStore EventTable),
      services.evaluateActions context world actions { p with store := s } =
        ({ q with store := s' }, none) ∧
      services.evaluateActions context world actions { p with store := t } =
        ({ q with store := t' }, none) ∧
      Twin config s' t' ∧
      ∀ u, context.runTime.toUtc < u → AllBefore config s.table u → AllBefore config s'.table u := by
  induction actions generalizing p s t with
  | nil => exact ⟨p, s, t, rfl, rfl, h, fun _ _ hu => hu⟩
  | cons a rest ih =>
    obtain ⟨event, q, hname, htime, hs, ht⟩ := evaluateAction_alike context
      (hreturns a List.mem_cons_self) p (h.shouldFire a context.runTime true)
    rw [hstore] at hs ht
    have hlogged := hbefore a List.mem_cons_self
    rw [← hname, ← htime] at hlogged
    have htlogged : LoggedBefore config t.table event.actionName event.runTime.toUtc := by
      unfold LoggedBefore at hlogged ⊢
      rw [← h.rows]
      exact hlogged
    have hrows : config.ownRows (s.record (some eventStore) world event).table =
        config.ownRows (t.record (some eventStore) world event).table := by
      rw [ownRows_record s hloads hw, ownRows_record t hloads hw, h.rows]
    have htwin : Twin config (s.record (some eventStore) world event)
        (t.record (some eventStore) world event) :=
      ⟨hrows, h.left.record hloads hw hlogged, h.right.record hloads hw htlogged⟩
    simp only [List.map_cons, List.nodup_cons] at hnames
    obtain ⟨q', s', t', hs', ht', htwin', hlater⟩ :=
      ih hnames.2 (fun b hb => hreturns b (List.mem_cons_of_mem _ hb)) q htwin
        fun b hb => (hbefore b (List.mem_cons_of_mem _ hb)).record_ne hloads hw fun he =>
          hnames.1 (List.mem_map.mpr ⟨b, hb, he.symm.trans hname⟩)
    refine ⟨q', s', t', ?_, ?_, htwin', fun u hu hall => ?_⟩
    · rw [evaluateActions, hs]
      exact hs'
    · rw [evaluateActions, ht]
      exact ht'
    · exact hlater u hu (hall.record hloads hw (htime ▸ hu))

end Services

/-- What happens to an evaluator and its events table: a run, the replacement of the state store by
a new one seeded from the table, or a row that another writer appends. -/
inductive Happening (μ ω : Type) where
  | evaluate (context : ActionContext μ) (world : ω)
  | restart
  | append (row : EventRow)

/-- The runs among what happens. -/
def runsOf : List (Happening μ ω) → List (ActionContext μ × ω)
  | [] => []
  | .evaluate context world :: rest => (context, world) :: runsOf rest
  | .restart :: rest => runsOf rest
  | .append _ :: rest => runsOf rest

namespace Services

/-- The decisions of each run, over a store that restarts where `happenings` says so. -/
def decisionsThrough (services : Services μ ω EventTable) (actions : List (DQAction μ ω))
    (store : ActionStateStore EventTable) : List (Happening μ ω) → List (List Decision)
  | [] => []
  | .evaluate context world :: rest =>
    let p := (services.loop actions context world store).1
    p.decisions :: decisionsThrough services actions p.store rest
  | .restart :: rest =>
    decisionsThrough services actions
      ((ActionStateStore.fresh store.table).seed services.eventStore) rest
  | .append row :: rest =>
    decisionsThrough services actions
      { store with table := some (store.table.getD [] ++ [row]) } rest

variable {services : Services μ ω EventTable}

/-- The conditions under which restarts are transparent, for what is still to happen over a table:
the runs come after all that is logged, in increasing order, with every append and every action
completing, and other writers append to other run configurations. -/
structure Admissible (services : Services μ ω EventTable) (config : EventStoreConfig μ ω)
    (actions : List (DQAction μ ω)) (table : EventTable) (happenings : List (Happening μ ω)) :
    Prop where
  later : ∀ run ∈ runsOf happenings, AllBefore config table run.1.runTime.toUtc
  increasing : (runsOf happenings).Pairwise fun r r' =>
    r.1.runTime.toUtc < r'.1.runTime.toUtc
  writable : ∀ run ∈ runsOf happenings, config.writable run.2
  returns : ∀ run ∈ runsOf happenings, ReturnsOrTerminal services actions run.2
  foreign : ∀ row, .append row ∈ happenings → row.runConfigName ≠ config.runConfigName

/-- Twins decide alike through everything that happens, one with the restarts and the other
without. -/
theorem decisionsThrough_twin (hstore : services.eventStore = some eventStore)
    (hloads : LoadsLatest config eventStore) {actions : List (DQAction μ ω)}
    (hnames : (actions.map (·.name)).Nodup) (happenings : List (Happening μ ω))
    {s t : ActionStateStore EventTable} (h : Twin config s t)
    (hadm : Admissible services config actions s.table happenings) :
    services.decisionsThrough actions s happenings =
      (evaluator services actions).outputs t (runsOf happenings) := by
  induction happenings generalizing s t with
  | nil => rfl
  | cons happening rest ih =>
    cases happening with
    | evaluate context world =>
      obtain ⟨later, increasing, writable, returns, foreign⟩ := hadm
      simp only [runsOf, List.mem_cons, forall_eq_or_imp, List.pairwise_cons]
        at later increasing writable returns
      obtain ⟨q, s', t', hs, ht, htwin, hall⟩ := evaluateActions_twin context hstore
        hloads writable.1 hnames returns.1 { store := s, extras := context.extras } h
        fun a _ => later.1.logged a.name
      have hadm' : Admissible services config actions s'.table rest :=
        ⟨fun run hrun => hall _ (increasing.1 run hrun) (later.2 run hrun), increasing.2,
          writable.2, returns.2, fun row hrow => foreign row (List.mem_cons_of_mem _ hrow)⟩
      have hsloop : (services.loop actions context world s).1 = { q with store := s' } :=
        congrArg Prod.fst hs
      have htloop : (services.loop actions context world t).1 = { q with store := t' } :=
        congrArg Prod.fst ht
      simp only [decisionsThrough, runsOf, Machine.outputs_cons, evaluator, hsloop, htloop]
      exact congrArg _ (ih htwin hadm')
    | restart =>
      refine ih ⟨?_, ?_, h.right⟩ ?_
      · rw [hstore]
        exact h.rows
      · rw [hstore]
        exact Synced.seed hloads h.left.chronological
      · rw [hstore]
        exact ⟨hadm.later, hadm.increasing, hadm.writable, hadm.returns,
          fun row hrow => hadm.foreign row (List.mem_cons_of_mem _ hrow)⟩
    | append row =>
      have hrow := hadm.foreign row List.mem_cons_self
      have hrows : config.ownRows (some (s.table.getD [] ++ [row])) = config.ownRows s.table := by
        simp [EventStoreConfig.ownRows, hrow]
      refine ih ⟨hrows.trans h.rows, ⟨?_, ?_, ?_⟩, h.right⟩ ⟨?_, hadm.increasing, hadm.writable,
        hadm.returns, fun row' hrow' => hadm.foreign row' (List.mem_cons_of_mem _ hrow')⟩
      · rw [hrows]
        exact h.left.chronological
      · rw [hrows]
        exact h.left.lastStatus
      · rw [hrows]
        exact h.left.lastFired
      · intro run hrun
        unfold AllBefore
        rw [hrows]
        exact hadm.later run hrun

/-- A store setup whose driver gives naive timestamps and whose engine sorts stably. -/
def naiveConfig : EventStoreConfig Unit Unit where
  runConfigName := "default"
  writable _ := true
  str _ := ""
  readTimestamp instant := ⟨instant, none⟩
  toUtc_readTimestamp _ := rfl
  arrangement := .ofSort _ latestFirst (fun _ _ _ => DescNullsLast.trans _ _ _)
    fun _ _ => DescNullsLast.total _ _

def storedServices (backend : Backend) : Services Unit Unit EventTable where
  evaluateCondition _ _ := some true
  deliver _ _ _ := .ok []
  eventStore := some (backend.create naiveConfig)

def runAt (minutes : Int) : ActionContext Unit where
  metrics := []
  runId := "run"
  runTime := ⟨minutes * 60000000, some 0⟩
  inputLocation := none

end Services

end Dqx.Actions
