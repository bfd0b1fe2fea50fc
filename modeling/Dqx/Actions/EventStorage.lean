import Dqx.Actions.State
import Dqx.Lib.Rank
import Mathlib.Data.Int.Order.Basic

/-! The two event stores: a Delta table and a Lakebase table, with the queries that load the latest
event and the last fired time of each action of one run configuration. -/

namespace Dqx.Actions

open Lib

variable {μ ω : Type}

/-- A row of the events table. Timestamps are instants; other writers may leave them null. -/
structure EventRow where
  actionName : String
  condition : Option String
  fired : Bool
  status : ActionStatus
  observedMetrics : List (String × String)
  runId : String
  runTime : Option Int
  inputLocation : Option String
  destinations : List String
  deliveryErrors : List String
  runConfigName : String
deriving DecidableEq, Repr

/-- The order of the load queries: latest first, missing timestamps last. -/
def latestFirst (r s : EventRow) : Prop := DescNullsLast r.runTime s.runTime

instance : DecidableRel latestFirst := fun r s =>
  inferInstanceAs (Decidable (DescNullsLast r.runTime s.runTime))

/-- What a store is set up with and relies on: its run configuration, whether the table can be
written, how metrics print, the value a driver gives back for a stored instant, and the order in
which the engine ranks the rows of an action. `to_utc` takes what a driver gives to the instant that
was stored. -/
structure EventStoreConfig (μ ω : Type) where
  runConfigName : String
  writable : ω → Bool
  str : μ → String
  readTimestamp : Int → DateTime
  toUtc_readTimestamp : ∀ instant, (readTimestamp instant).toUtc = instant
  arrangement : Arrangement EventRow.actionName latestFirst

/-- The events table; `none` until it is created. -/
abbrev EventTable := Option (List EventRow)

/-- A UTC value of `to_utc`. -/
def utc (instant : Int) : DateTime := ⟨instant, some 0⟩

@[simp] theorem toUtc_utc (instant : Int) : (utc instant).toUtc = instant := by
  simp [utc, DateTime.toUtc]

namespace EventStoreConfig

variable (config : EventStoreConfig μ ω)

/-- The row an event is appended as, stamped with the store's run configuration. -/
def toRow (event : AlertEvent μ) : EventRow where
  actionName := event.actionName
  condition := event.condition
  fired := event.fired
  status := event.status
  observedMetrics := event.observedMetrics.map fun kv => (kv.1, config.str kv.2)
  runId := event.runId
  runTime := some event.runTime.toUtc
  inputLocation := event.inputLocation
  destinations := event.destinations
  deliveryErrors := event.deliveryErrors
  runConfigName := config.runConfigName

/-- The event a row is read back as. -/
def fromRow (row : EventRow) (runTime : Int) : AlertEvent String where
  actionName := row.actionName
  condition := row.condition
  fired := row.fired
  status := row.status
  observedMetrics := row.observedMetrics
  runId := row.runId
  runTime := utc (config.readTimestamp runTime).toUtc
  inputLocation := row.inputLocation
  destinations := row.destinations
  deliveryErrors := row.deliveryErrors
  runConfigName := row.runConfigName

/-- Both stores insert; the table is created first where it is missing. -/
def append (event : AlertEvent μ) (world : ω) (table : EventTable) : Option EventTable :=
  if config.writable world then some (some (table.getD [] ++ [config.toRow event])) else none

/-- The rows of the store's run configuration. -/
def ownRows (table : EventTable) : List EventRow :=
  (table.getD []).filter fun row => row.runConfigName = config.runConfigName

/-- The dict that a loop over collected rows builds: a row without a timestamp is skipped, and a
later row of an action replaces an earlier one. -/
def collect {β : Type} (rows : List EventRow) (value : EventRow → Int → β) (name : String) :
    Option β :=
  (rows.filterMap fun row =>
    if row.actionName = name then row.runTime.map (value row) else none).getLast?

end EventStoreConfig

/-- `TableActionEventStore`: the latest event is the row of rank one, the last fired time a
maximum. -/
def tableActionEventStore (config : EventStoreConfig μ ω) : ActionEventStore μ ω EventTable where
  append := config.append
  loadLatestPerAction table :=
    let ranked := ((config.arrangement.rowNumber (config.ownRows table)).filter (·.2 = 1)).map (·.1)
    EventStoreConfig.collect ranked config.fromRow
  loadLastFiredPerAction table name :=
    let fired := (config.ownRows table).filter fun row => row.fired && row.actionName = name
    ((fired.filterMap (·.runTime)).max?).map fun instant =>
      utc (config.readTimestamp instant).toUtc

/-- `LakebaseActionEventStore`: both queries are `DISTINCT ON` the action name. -/
def lakebaseActionEventStore (config : EventStoreConfig μ ω) :
    ActionEventStore μ ω EventTable where
  append := config.append
  loadLatestPerAction table :=
    let rows := distinctOn EventRow.actionName (config.arrangement.run (config.ownRows table))
    EventStoreConfig.collect rows config.fromRow
  loadLastFiredPerAction table :=
    let fired := (config.ownRows table).filter (·.fired)
    let rows := distinctOn EventRow.actionName (config.arrangement.run fired)
    EventStoreConfig.collect rows fun _ instant => utc (config.readTimestamp instant).toUtc

/-- The kinds of event store that `ActionEventStoreFactory.create` chooses between. -/
inductive Backend where
  | table
  | lakebase
deriving DecidableEq, Repr

def Backend.create (backend : Backend) (config : EventStoreConfig μ ω) :
    ActionEventStore μ ω EventTable :=
  match backend with
  | .table => tableActionEventStore config
  | .lakebase => lakebaseActionEventStore config

/-- The rows of one action, in the order they were appended. -/
def actionRows (rows : List EventRow) (name : String) : List EventRow :=
  rows.filter fun row => row.actionName = name

/-- The rows of each action have times, and were appended in their order. -/
structure Chronological (rows : List EventRow) : Prop where
  timed : ∀ row ∈ rows, ∃ t, row.runTime = some t
  increasing : ∀ name, (actionRows rows name).Pairwise fun r s =>
    ∀ t u, r.runTime = some t → s.runTime = some u → t < u

/-- The time of the last of some rows. -/
def lastTime (rows : List EventRow) : Option Int := rows.getLast?.bind (·.runTime)

theorem mem_actionRows {rows : List EventRow} {name : String} {row : EventRow} :
    row ∈ actionRows rows name ↔ row ∈ rows ∧ row.actionName = name := by
  simp [actionRows]

theorem actionRows_append (rows more : List EventRow) (name : String) :
    actionRows (rows ++ more) name = actionRows rows name ++ actionRows more name :=
  List.filter_append ..

namespace Chronological

variable {rows : List EventRow}

theorem filter (h : Chronological rows) (p : EventRow → Bool) : Chronological (rows.filter p) where
  timed row hrow := h.timed row (List.mem_of_mem_filter hrow)
  increasing name := by
    rw [actionRows, List.filter_comm]
    exact (h.increasing name).filter p

/-- The row that no other of its action is later than is the last one. -/
theorem getLast?_of_latest (h : Chronological rows) {a : EventRow} (ha : a ∈ rows)
    (hlatest : ∀ b ∈ rows, b.actionName = a.actionName → b = a ∨ latestFirst a b) :
    (actionRows rows a.actionName).getLast? = some a := by
  have hmem : a ∈ actionRows rows a.actionName := mem_actionRows.mpr ⟨ha, rfl⟩
  obtain ⟨xs, ys, hl⟩ := List.append_of_mem hmem
  have hinc := h.increasing a.actionName
  rw [hl] at hinc
  cases hys : ys.getLast? with
  | none =>
    rw [List.getLast?_eq_none_iff] at hys
    rw [hl, hys]
    simp
  | some b =>
    exfalso
    have hb : b ∈ ys := List.mem_of_getLast? hys
    have hlt := (List.pairwise_cons.mp (List.pairwise_append.mp hinc).2.1).1 b hb
    have hb' : b ∈ actionRows rows a.actionName := by
      rw [hl]
      exact List.mem_append_right _ (List.mem_cons_of_mem _ hb)
    obtain ⟨hbrows, hbname⟩ := mem_actionRows.mp hb'
    obtain ⟨t, ht⟩ := h.timed a ha
    obtain ⟨u, hu⟩ := h.timed b hbrows
    have htu := hlt t u ht hu
    rcases hlatest b hbrows hbname with rfl | hle
    · rw [ht] at hu
      cases hu
      omega
    · simp only [latestFirst, ht, hu, DescNullsLast] at hle
      omega

/-- Of increasing times the last is the greatest. -/
theorem max?_eq_lastTime (h : Chronological rows) (name : String) :
    ((actionRows rows name).filterMap (·.runTime)).max? = lastTime (actionRows rows name) := by
  have hinc := h.increasing name
  have htimed : ∀ row ∈ actionRows rows name, ∃ t, row.runTime = some t := fun row hrow =>
    h.timed row (mem_actionRows.mp hrow).1
  rcases List.eq_nil_or_concat (actionRows rows name) with hnil | ⟨init, last, hl⟩
  · rw [hnil]
    rfl
  · rw [List.concat_eq_append] at hl
    rw [hl] at hinc htimed ⊢
    obtain ⟨t, ht⟩ := htimed last (by simp)
    simp only [lastTime, List.getLast?_append, List.getLast?_singleton, Option.some_or,
      Option.bind_some, ht]
    rw [List.max?_eq_some_iff]
    refine ⟨List.mem_filterMap.mpr ⟨last, by simp, ht⟩, fun u hu => ?_⟩
    obtain ⟨row, hrow, hu⟩ := List.mem_filterMap.mp hu
    rcases List.mem_append.mp hrow with hrow | hrow
    · exact Int.le_of_lt ((List.pairwise_append.mp hinc).2.2 row hrow last (by simp) u t hu ht)
    · rw [List.mem_singleton.mp hrow, ht] at hu
      cases hu
      exact Int.le_refl t

end Chronological

namespace EventStoreConfig

variable {config : EventStoreConfig μ ω} {β : Type}

/-- Collecting the rows of rank one gives each action the value of its last row. -/
theorem collect_latest (config : EventStoreConfig μ ω) {rows : List EventRow}
    (h : Chronological rows) (firsts : List EventRow) (hfirsts : ∀ a, a ∈ firsts ↔ (a, 1) ∈ config.arrangement.rowNumber rows)
    (value : EventRow → Int → β) (name : String) :
    collect firsts value name =
      (actionRows rows name).getLast?.bind fun row => row.runTime.map (value row) := by
  have hlast : ∀ a ∈ firsts, (actionRows rows a.actionName).getLast? = some a := by
    intro a ha
    have ha := (hfirsts a).mp ha
    exact h.getLast?_of_latest (config.arrangement.mem_of_mem_rowNumber ha)
      fun b hb hname => config.arrangement.le_of_mem_rowNumber_one ha hb hname
  unfold collect
  cases hr : (actionRows rows name).getLast? with
  | none =>
    have hnone : firsts.filterMap (fun row =>
        if row.actionName = name then row.runTime.map (value row) else none) = [] := by
      rw [List.filterMap_eq_nil_iff]
      intro a ha
      rw [if_neg]
      rintro rfl
      rw [hlast a ha] at hr
      cases hr
    rw [hnone]
    rfl
  | some row =>
    have hrow := List.mem_of_getLast? hr
    obtain ⟨hmem, hname⟩ := mem_actionRows.mp hrow
    obtain ⟨t, ht⟩ := h.timed row hmem
    have hall : ∀ x ∈ firsts.filterMap (fun r =>
        if r.actionName = name then r.runTime.map (value r) else none), x = value row t := by
      intro x hx
      obtain ⟨a, ha, hax⟩ := List.mem_filterMap.mp hx
      split at hax
      · rename_i haname
        have := hlast a ha
        rw [haname, hr] at this
        cases this
        rw [ht] at hax
        cases hax
        rfl
      · cases hax
    obtain ⟨a, haname, ha⟩ := config.arrangement.exists_rowNumber_one hmem
    have hafirst := (hfirsts a).mpr ha
    have : value row t ∈ firsts.filterMap (fun r =>
        if r.actionName = name then r.runTime.map (value r) else none) := by
      have hlast' := hlast a hafirst
      rw [haname, hname, hr] at hlast'
      cases hlast'
      exact List.mem_filterMap.mpr ⟨row, hafirst, by simp [hname, ht]⟩
    obtain ⟨x, hx⟩ := Option.ne_none_iff_exists'.mp
      (mt List.getLast?_eq_none_iff.mp (List.ne_nil_of_mem this))
    rw [hx, hall x (List.mem_of_getLast? hx), Option.bind_some, ht]
    rfl

end EventStoreConfig

/-- What restart relies on in an event store: it appends rows, and on a chronological table its
queries give the status of the last row and the time of the last fired row of each action. -/
structure LoadsLatest (config : EventStoreConfig μ ω) (store : ActionEventStore μ ω EventTable) :
    Prop where
  append : store.append = config.append
  latest : ∀ table name, Chronological (config.ownRows table) →
    (store.loadLatestPerAction table name).map (·.status) =
      (actionRows (config.ownRows table) name).getLast?.map (·.status)
  lastFired : ∀ table name, Chronological (config.ownRows table) →
    (store.loadLastFiredPerAction table name).map DateTime.toUtc =
      lastTime (actionRows ((config.ownRows table).filter (·.fired)) name)

theorem tableActionEventStore_loadsLatest (config : EventStoreConfig μ ω) :
    LoadsLatest config (tableActionEventStore config) where
  append := rfl
  latest table name h := by
    have hcollect := config.collect_latest h
      (((config.arrangement.rowNumber (config.ownRows table)).filter (·.2 = 1)).map (·.1))
      (by intro a; simp [and_comm]) config.fromRow name
    simp only [tableActionEventStore, hcollect]
    cases hl : (actionRows (config.ownRows table) name).getLast? with
    | none => rfl
    | some row =>
      obtain ⟨t, ht⟩ := h.timed row (mem_actionRows.mp (List.mem_of_getLast? hl)).1
      simp [ht, EventStoreConfig.fromRow]
  lastFired table name h := by
    have hfilter : (config.ownRows table).filter (fun row => row.fired && row.actionName = name) =
        actionRows ((config.ownRows table).filter (·.fired)) name := by
      rw [actionRows, List.filter_filter]
      exact List.filter_congr fun row _ => Bool.and_comm ..
    simp only [tableActionEventStore, hfilter, (h.filter _).max?_eq_lastTime, Option.map_map]
    cases lastTime (actionRows ((config.ownRows table).filter (·.fired)) name) with
    | none => rfl
    | some t => simp [config.toUtc_readTimestamp]

theorem lakebaseActionEventStore_loadsLatest (config : EventStoreConfig μ ω) :
    LoadsLatest config (lakebaseActionEventStore config) where
  append := rfl
  latest table name h := by
    have hcollect := config.collect_latest h
      (distinctOn EventRow.actionName (config.arrangement.run (config.ownRows table)))
      (fun a => mem_distinctOn_iff) config.fromRow name
    simp only [lakebaseActionEventStore, hcollect]
    cases hl : (actionRows (config.ownRows table) name).getLast? with
    | none => rfl
    | some row =>
      obtain ⟨t, ht⟩ := h.timed row (mem_actionRows.mp (List.mem_of_getLast? hl)).1
      simp [ht, EventStoreConfig.fromRow]
  lastFired table name h := by
    have hcollect := config.collect_latest (h.filter (·.fired))
      (distinctOn EventRow.actionName
        (config.arrangement.run ((config.ownRows table).filter (·.fired))))
      (fun a => mem_distinctOn_iff) (fun _ instant => utc (config.readTimestamp instant).toUtc) name
    simp only [lakebaseActionEventStore, hcollect, lastTime]
    cases hl : (actionRows ((config.ownRows table).filter (·.fired)) name).getLast? with
    | none => rfl
    | some row =>
      obtain ⟨t, ht⟩ := (h.filter (·.fired)).timed row
        (mem_actionRows.mp (List.mem_of_getLast? hl)).1
      simp [ht, config.toUtc_readTimestamp]

/-- Either kind of event store loads the latest of a chronological table. -/
theorem Backend.create_loadsLatest (backend : Backend) (config : EventStoreConfig μ ω) :
    LoadsLatest config (backend.create config) := by
  cases backend with
  | table => exact tableActionEventStore_loadsLatest config
  | lakebase => exact lakebaseActionEventStore_loadsLatest config

end Dqx.Actions
