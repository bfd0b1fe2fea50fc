import Dqx.Contracts.Agreement

/-! The rules of a library metric, as they are built for an entry. -/

namespace Dqx.Contracts

open Lib.Sql Utils

variable {Row V : Type} [DecidableEq V] (spark : Spark Row V)

/-- The columns that a metric reads. -/
def LibraryMetric.columns (metric : LibraryMetric) (entry : Entry) (target : MetricTarget) :
    List Text :=
  match metric with
  | .rowCount => []
  | _ => keyColumns entry target

/-- An entry for a metric, where it belongs, in a unit that the metric has, and with usable
arguments. -/
structure WellFormed (host : Host) (entry : Entry) (target : MetricTarget) (metric : LibraryMetric)
    (plan : MetricPlan) : Prop where
  resolved : resolveMetric entry = some metric
  allowed : (if target.propertyName.isNone then metric.allowsSchemaLevel
    else metric.allowsPropertyLevel) = true
  planned : metric.plan host entry target = some plan
  unit : entry.unitName ∈ metric.units
  columns : ∀ name ∈ metric.columns entry target, IsColumnName name

theorem readProperties_ne_nil {arguments : Raw} {properties : List Text}
    (h : readProperties arguments = some properties) : properties ≠ [] := by
  unfold readProperties at h
  split at h
  · rename_i items _
    cases items with
    | nil => cases h
    | cons item items =>
      rw [List.isEmpty_cons, if_neg Bool.false_ne_true, List.mapM_cons] at h
      obtain ⟨first, -, h⟩ := Option.bind_eq_some_iff.mp h
      obtain ⟨rest, -, h⟩ := Option.bind_eq_some_iff.mp h
      obtain rfl : first :: rest = properties := Option.some.inj h
      simp
  · cases h

/-- The plan of an entry computes the value of its metric. -/
theorem WellFormed.computes {host : Host} {entry : Entry} {target : MetricTarget}
    {metric : LibraryMetric} {plan : MetricPlan} (h : WellFormed host entry target metric plan) :
    Computes spark plan (metric.value spark host entry target) := by
  have hproperty : metric.allowsSchemaLevel = false → ∃ name, target.propertyName = some name := by
    intro hschema
    cases hname : target.propertyName with
    | none =>
      have hlevel := h.allowed
      rw [hname, Option.isNone_none, if_pos rfl, hschema] at hlevel
      cases hlevel
    | some name => exact ⟨name, rfl⟩
  have hplan := h.planned
  have hcolumns := h.columns
  cases metric with
  | rowCount =>
    cases hplan
    refine ⟨trivial, fun unit rows => ?_, fun hne => absurd rfl hne⟩
    simp [Measure.sqlValue, LibraryMetric.value, count]
  | nullValues =>
    obtain ⟨name, hname⟩ := hproperty rfl
    have hplain : IsColumnName name :=
      hcolumns name (by simp [LibraryMetric.columns, LibraryMetric.keyColumns, hname])
    cases hplan
    rw [hname]
    exact (counts_nullValues spark hname hplain host entry).computes
  | missingValues =>
    obtain ⟨name, hname⟩ := hproperty rfl
    have hplain : IsColumnName name :=
      hcolumns name (by simp [LibraryMetric.columns, LibraryMetric.keyColumns, hname])
    obtain ⟨sentinels, hsentinels, rfl⟩ := Option.map_eq_some_iff.mp hplan
    rw [hname]
    exact (counts_missingValues spark hname hplain host hsentinels).computes
  | invalidValues =>
    obtain ⟨name, hname⟩ := hproperty rfl
    have hplain : IsColumnName name :=
      hcolumns name (by simp [LibraryMetric.columns, LibraryMetric.keyColumns, hname])
    rw [LibraryMetric.plan, hname] at hplan
    exact (counts_invalidValues spark hname hplain hplan).computes
  | duplicateValues =>
    have hkeys : plan = LibraryMetric.duplicateValuesPlan (LibraryMetric.keyColumns entry target) ∧
        LibraryMetric.keyColumns entry target ≠ [] := by
      unfold LibraryMetric.plan at hplan
      unfold LibraryMetric.keyColumns
      cases hname : target.propertyName with
      | some name =>
        rw [hname] at hplan
        cases hplan
        exact ⟨rfl, by simp⟩
      | none =>
        rw [hname] at hplan
        obtain ⟨properties, hproperties, rfl⟩ := Option.map_eq_some_iff.mp hplan
        dsimp only
        rw [hproperties]
        exact ⟨rfl, readProperties_ne_nil hproperties⟩
    obtain ⟨rfl, hne⟩ := hkeys
    exact computes_duplicateValues spark hne

/-- The rules of an entry are those of its thresholds. -/
theorem WellFormed.build_eq {host : Host} {entry : Entry} {target : MetricTarget}
    {metric : LibraryMetric} {plan : MetricPlan} (h : WellFormed host entry target metric plan) :
    build host entry target = (resolveThresholds host entry).flatMap fun threshold =>
      buildForThreshold host entry metric target threshold plan entry.unitName := by
  have hallowed : (if target.propertyName.isNone = true then metric.allowsSchemaLevel
      else metric.allowsPropertyLevel) = true := h.allowed
  have hunit : metric.units.contains entry.unitName = true := List.contains_iff_mem.mpr h.unit
  rw [build, h.resolved]
  dsimp only
  rw [hallowed, h.planned, hunit]
  simp only [Bool.not_true, Bool.false_or, if_true]
  split
  · rename_i hempty
    rw [List.isEmpty_iff.mp hempty]
    rfl
  · rfl

theorem violated_of_usesZeroChecks {threshold : Threshold} {plan : MetricPlan}
    (h : usesZeroChecks threshold plan = true) (value : ℚ) :
    plan.zeroChecks ≠ [] ∧ (threshold.Violated value ↔ value ≠ 0) := by
  obtain ⟨field, limit, bounds⟩ := threshold
  unfold usesZeroChecks at h
  rw [Bool.and_eq_true] at h
  refine ⟨by simpa using h.2, ?_⟩
  have hzero := h.1
  rw [Threshold.isZeroMustBe, Bool.and_eq_true, decide_eq_true_eq] at hzero
  obtain ⟨rfl, hlimit⟩ := hzero
  cases limit with
  | none => cases hlimit
  | some limit =>
    have hlimit : limit.value = 0 := by simpa using hlimit
    simp [Threshold.Violated, hlimit]

open Classical in
theorem value_missingValues (host : Host) (entry : Entry) (target : MetricTarget) (unit : Text)
    (rows : List Row) : LibraryMetric.missingValues.value spark host entry target unit rows =
      LibraryMetric.share unit (rows.countP fun row =>
        LibraryMetric.missingValues.Bad spark host entry (spark.cell target.path row)) rows.length :=
  rfl

/-! ### A column with a sentinel -/

def asciiHost : Host where
  unicode := ⟨fun _ => false, fun c => [c]⟩
  parseNumber _ := none
  patternProblem _ := false

def one : Number := ⟨1, true, "1.0".toList, rfl⟩

def lessThanOne : Threshold := ⟨.mustBeLessThan, some one, none⟩

def sentinelEntry (sentinel : Text) : Entry where
  metric := some "missingValues".toList
  rule := none
  threshold field := if field = .mustBeLessThan then .number one else .null
  unit := none
  arguments := .mapping [("missingValues".toList, .list [.text sentinel])]
  rowFilter := none

def statusTarget : MetricTarget := ⟨"orders".toList, some "status".toList⟩

def sentinelPlan (sentinel : Text) : MetricPlan :=
  LibraryMetric.missingValuesPlan "status".toList [some (.text sentinel)]

/-- Rows with one column, of strings. -/
def strings : Spark (Option Text) Text where
  cell path row := if path = ["status".toList] then row else none
  equals v s :=
    match s with
    | .text value => some (v = value)
    | _ => none
  equalsIgnoringCase _ _ := none
  rlike _ _ := none
  filter _ _ := none
  query _ _ _ := none

/-- The query of a sentinel is run as it is written, and no other one. -/
def sparkOf (sentinel : Text) : Spark (Option Text) Text :=
  { strings with
    query := fun view text rows =>
      if text = (sentinelPlan sentinel).measure.conditionQuery "rows".toList lessThanOne view then
        lessThanOne.sqlCondition
          ((sentinelPlan sentinel).measure.sqlValue strings "rows".toList rows)
      else none }

def singleRun : Run := ⟨"0a".toList, [], by decide⟩

theorem wellFormed_sentinelEntry (sentinel : Text) :
    WellFormed asciiHost (sentinelEntry sentinel) statusTarget .missingValues
      (sentinelPlan sentinel) where
  resolved := rfl
  allowed := rfl
  planned := rfl
  unit := List.mem_cons_self
  columns := by
    intro name hname
    obtain rfl : name = "status".toList := List.mem_singleton.mp hname
    have hidentifier : ∀ segment ∈ "status".toList.splitOn '.', isIdentifier segment = true := by
      decide
    exact hidentifier

theorem resolveThresholds_sentinelEntry (sentinel : Text) :
    resolveThresholds asciiHost (sentinelEntry sentinel) = [lessThanOne] := rfl

theorem query_sparkOf (sentinel view text : Text) (rows : List (Option Text)) :
    (sparkOf sentinel).query view text rows =
      if text = (sentinelPlan sentinel).measure.conditionQuery "rows".toList lessThanOne view then
        lessThanOne.sqlCondition
          ((sentinelPlan sentinel).measure.sqlValue strings "rows".toList rows)
      else none := rfl

/-- Spark reads the query of a sentinel. -/
theorem reads_sparkOf (sentinel : Text) :
    (sparkOf sentinel).Reads singleRun (sentinelPlan sentinel).measure "rows".toList
      lessThanOne := by
  intro rows
  rw [query_sparkOf, if_pos rfl]
  rfl

theorem cell_sparkOf_none (sentinel : Text) (path : List Text) :
    (sparkOf sentinel).cell path none = none := by
  show (if path = ["status".toList] then none else none) = none
  exact ite_self none

def percentEntry : Entry where
  metric := some "rowCount".toList
  rule := none
  threshold field := if field = .mustBe then .number one else .null
  unit := some percent
  arguments := .null
  rowFilter := none

theorem view_of_conditionQuery {predicate : Predicate} {unit : Text} {threshold : Threshold}
    {view view' : Text} (h : (Measure.badRows predicate).conditionQuery unit threshold view =
      (Measure.badRows predicate).conditionQuery unit threshold view') : view = view' :=
  List.append_cancel_left h

end Dqx.Contracts
