import Dqx.Contracts.Placeholders

/-! The rules of a library metric report a violation where the value of the metric violates its
threshold. -/

namespace Dqx.Contracts

open Lib.Sql Utils

variable {Row V : Type} (spark : Spark Row V)

/-! ### The value of a metric -/

/-- The column of a property. -/
def MetricTarget.path (target : MetricTarget) : List Text :=
  (target.propertyName.getD []).splitOn '.'

/-- The values of the key columns. -/
def keyOf (keyColumns : List Text) (row : Row) : List (Option V) :=
  keyColumns.map fun column => spark.cell (column.splitOn '.') row

/-- The keys of the rows without a NULL in them. -/
def keysOf [DecidableEq V] (keyColumns : List Text) (rows : List Row) : List (List (Option V)) :=
  (rows.map (keyOf spark keyColumns)).filter fun key => none ∉ key

namespace LibraryMetric

/-- The columns whose values must not recur. -/
def keyColumns (entry : Entry) (target : MetricTarget) : List Text :=
  match target.propertyName with
  | some name => [name]
  | none => (readProperties entry.arguments).getD []

/-- A value of the metric's column is bad. -/
def Bad (host : Host) (metric : LibraryMetric) (entry : Entry) (value : Option V) : Prop :=
  match metric with
  | .nullValues => value = none
  | .missingValues =>
    value = none ∨ ∃ v ∈ value,
      ∃ sentinels ∈ readScalarList entry.arguments "missingValues".toList true,
        ∃ s, some s ∈ sentinels ∧ spark.equals v s = some true
  | .invalidValues =>
    ∃ v ∈ value,
      (∃ values ∈ validValues entry.arguments, ∀ s ∈ values, spark.equals v s = some false) ∨
        ∃ pattern ∈ readPattern host entry.arguments, spark.rlike v pattern = some false
  | .rowCount | .duplicateValues => False

/-- A number of rows, or its share of all rows. -/
def share (unit : Text) (number total : ℕ) : ℚ :=
  if unit = percent then if total = 0 then 0 else 100 * number / total else number

open Classical in
/-- The value of a metric of the rows in scope. -/
noncomputable def value [DecidableEq V] (host : Host) (metric : LibraryMetric) (entry : Entry)
    (target : MetricTarget) (unit : Text) (rows : List Row) : ℚ :=
  match metric with
  | .rowCount => rows.length
  | .duplicateValues =>
    let keys := keysOf spark (keyColumns entry target) rows
    share unit (keys.toFinset.filter fun key => 1 < keys.count key).card rows.length
  | metric =>
    share unit (rows.countP fun row => metric.Bad spark host entry (spark.cell target.path row))
      rows.length

end LibraryMetric

/-- A value violates a threshold. -/
def Threshold.Violated (threshold : Threshold) (value : ℚ) : Prop :=
  match threshold.field, threshold.value, threshold.bounds with
  | .mustBe, some limit, _ => value ≠ limit.value
  | .mustNotBe, some limit, _ => value = limit.value
  | .mustBeGreaterOrEqualTo, some limit, _ => ¬ limit.value ≤ value
  | .mustBeLessOrEqualTo, some limit, _ => ¬ value ≤ limit.value
  | .mustBeGreaterThan, some limit, _ => ¬ limit.value < value
  | .mustBeLessThan, some limit, _ => ¬ value < limit.value
  | .mustBeBetween, _, some (low, high) => ¬ (low.value ≤ value ∧ value ≤ high.value)
  | .mustNotBeBetween, _, some (low, high) => low.value ≤ value ∧ value ≤ high.value
  | _, _, _ => False

/-! ### The thresholds -/

theorem resolveThreshold_cases {host : Host} {entry : Entry} {field : Field}
    {threshold : Threshold} (h : resolveThreshold host entry field = some threshold) :
    (field.isRange = true ∧ ∃ bounds, threshold = ⟨field, none, some bounds⟩) ∨
      (field.isRange = false ∧ ∃ value, threshold = ⟨field, some value, none⟩) := by
  unfold resolveThreshold at h
  split at h
  · rename_i hrange
    obtain ⟨bounds, -, rfl⟩ := Option.map_eq_some_iff.mp h
    exact .inl ⟨hrange, bounds, rfl⟩
  · rename_i hrange
    obtain ⟨value, -, rfl⟩ := Option.map_eq_some_iff.mp h
    exact .inr ⟨Bool.eq_false_iff.mpr hrange, value, rfl⟩

/-- A threshold with a value for its field. -/
def Threshold.Valid (threshold : Threshold) : Prop :=
  (threshold.field.isRange = true ∧ ∃ bounds, threshold = ⟨threshold.field, none, some bounds⟩) ∨
    (threshold.field.isRange = false ∧ ∃ value, threshold = ⟨threshold.field, some value, none⟩)

theorem valid_of_mem {host : Host} {entry : Entry} {threshold : Threshold}
    (h : threshold ∈ resolveThresholds host entry) : threshold.Valid := by
  obtain ⟨field, -, hfield⟩ := List.mem_filterMap.mp h
  rcases resolveThreshold_cases hfield with ⟨hrange, bounds, rfl⟩ | ⟨hrange, value, rfl⟩
  · exact .inl ⟨hrange, bounds, rfl⟩
  · exact .inr ⟨hrange, value, rfl⟩

theorem sqlCondition_eq_true {threshold : Threshold} (valid : threshold.Valid) (measure : ℚ) :
    threshold.sqlCondition measure = some true ↔ threshold.Violated measure := by
  obtain ⟨field, value, bounds⟩ := threshold
  rcases valid with ⟨hrange, bounds, heq⟩ | ⟨hrange, value, heq⟩
  · cases heq
    cases field <;> simp [Field.isRange] at hrange <;>
      simp [Threshold.sqlCondition, Threshold.Violated, Comparison.holds, imp_iff_not_or]
  · cases heq
    cases field <;> simp [Field.isRange] at hrange <;>
      simp [Threshold.sqlCondition, Threshold.Violated, Comparison.holds, violationOperators]

theorem violates_eq_true {threshold : Threshold} {function : AggregateFunction}
    (valid : threshold.Valid) (hfunction : threshold.aggregateFunction = some function)
    (measure : ℚ) :
    ∃ limit ∈ threshold.value,
      (function.violates measure limit.value = true ↔ threshold.Violated measure) := by
  obtain ⟨field, value, bounds⟩ := threshold
  rcases valid with ⟨hrange, bounds, heq⟩ | ⟨hrange, value, heq⟩
  · cases heq
    cases field <;> simp [Field.isRange] at hrange <;> cases hfunction
  · cases heq
    refine ⟨value, rfl, ?_⟩
    cases field <;> simp [Field.isRange] at hrange <;> cases hfunction <;>
      simp [AggregateFunction.violates, Threshold.Violated]

/-! ### The columns and the literals -/

theorem column_sqlIdentifier (name : Text) (row : Row) :
    spark.column (sqlIdentifier name) row = spark.cell (name.splitOn '.') row := by
  have hpath : columnPath (sqlIdentifier name) = some (name.splitOn '.') :=
    columnPath_intercalate quoteColumnName (fun segment _ => reads_quoteColumnName segment)
      (List.splitOn_ne_nil '.' name)
  rw [Spark.column, hpath]
  rfl

theorem column_normalizeColumnExpr {name : Text} (plain : IsColumnName name) (row : Row) :
    spark.column (normalizeColumnExpr name) row = spark.cell (name.splitOn '.') row := by
  rw [Spark.column, plain.columnPath]
  rfl

theorem scan_escape (value read : Text) :
    scan (.quoted '\'' read) (escapeSqlStringLiteral value) =
      (.quoted '\'' (read ++ escapeSqlStringLiteral value), []) := by
  induction value generalizing read with
  | nil => simp [escapeSqlStringLiteral]
  | cons c value ih =>
    rw [escapeSqlStringLiteral_cons]
    split
    · have hbackslash : step (.quoted '\'' read) '\\' = (.escaped '\'' read, []) := by simp [step]
      have hescaped : step (.escaped '\'' read) c = (.quoted '\'' (read ++ ['\\', c]), []) := rfl
      rw [List.cons_append, List.cons_append, scan_cons_of_step hbackslash,
        scan_cons_of_step hescaped, List.nil_append, ih]
      simp
    · rename_i hc
      obtain ⟨hbackslash, hquote⟩ : c ≠ '\\' ∧ c ≠ '\'' := by simpa using hc
      have hstep : step (.quoted '\'' read) c = (.quoted '\'' (read ++ [c]), []) := by
        simp [step, hbackslash, hquote]
      rw [List.cons_append, scan_cons_of_step hstep, List.nil_append, ih]
      simp

theorem denotes_escape (value : Text) : denotes (escapeSqlStringLiteral value) = value := by
  induction value with
  | nil => rfl
  | cons c value ih =>
    rw [escapeSqlStringLiteral_cons]
    rw [denotes] at ih ⊢
    split
    · rename_i hc
      have hescape : ∀ text, escape (c :: text) = ([c], 1) := by
        rcases hc with rfl | rfl <;> intro text <;> simp [escape, simpleEscape]
      rw [List.cons_append, List.cons_append, unescapeFrom, if_pos rfl, hescape]
      simp [unescapeFrom, ih]
    · rename_i hc
      obtain ⟨hbackslash, hquote⟩ : c ≠ '\\' ∧ c ≠ '\'' := by simpa using hc
      rw [List.cons_append, unescapeFrom, if_neg hbackslash, if_neg (by simp [hquote]),
        List.nil_append, ih]

/-- A literal of the generator is read as its string. -/
theorem getLimitExpr_inListLiteral (scalar : Scalar) :
    getLimitExpr (inListLiteral scalar) = some scalar := by
  cases scalar with
  | bool value => rfl
  | number n => rfl
  | text value =>
    have hopen : step .start '\'' = (.quoted '\'' [], []) := by decide
    have hclose : step (.quoted '\'' (escapeSqlStringLiteral value)) '\'' =
        (.closed '\'' (escapeSqlStringLiteral value), []) := by simp [step]
    have hlex : lex (sqlLiteral (.text value)) = [.string '\'' (escapeSqlStringLiteral value)] := by
      refine lex_of_scan (?_ : _ = (.closed '\'' (escapeSqlStringLiteral value), []))
      rw [sqlLiteral, scan_cons_of_step hopen, scan_append, scan_escape, List.nil_append]
      simp [scan_cons, hclose]
    rw [inListLiteral, getLimitExpr, readLiteral, hlex]
    simp [denotes_escape]

theorem map_getLimitExpr (values : List Scalar) :
    (values.map inListLiteral).map getLimitExpr = values.map some := by
  rw [List.map_map]
  exact List.map_congr_left fun scalar _ => getLimitExpr_inListLiteral scalar

theorem isIn_eq_true (value : Option V) (values : List Scalar) :
    spark.isIn value (values.map some) true = some true ↔
      ∃ v ∈ value, ∃ s ∈ values, spark.equals v s = some true := by
  cases value <;> simp [Spark.isIn]

theorem isIn_eq_false {value : Option V} {values : List Scalar} (nonempty : values ≠ []) :
    spark.isIn value (values.map some) true = some false ↔
      ∃ v ∈ value, ∀ s ∈ values, spark.equals v s = some false := by
  cases value with
  | none =>
    obtain ⟨s, hs⟩ := List.exists_mem_of_ne_nil values nonempty
    simpa [Spark.isIn] using ⟨s, hs⟩
  | some v => simp [Spark.isIn]

theorem matches_eq_false (value : Option V) (pattern : Text) :
    spark.matches value pattern = some false ↔ ∃ v ∈ value, spark.rlike v pattern = some false := by
  cases value <;> simp [Spark.matches]

/-! ### The aggregates and the queries -/

theorem scope_none (rows : List Row) : spark.scope none rows = rows := by
  simp [Spark.scope, Spark.inScope]

/-- A row filter leaves its rows to an aggregate. -/
theorem eval_buildFilteredAggregateInput (filter : Option Text) (column : AggregateColumn)
    (aggrType : AggrType) (rows : List Row) :
    aggrType.eval (rows.map (buildFilteredAggregateInput spark filter column)) =
      aggrType.eval ((spark.scope filter rows).map (column.eval spark)) := by
  cases filter with
  | none => rw [scope_none]; rfl
  | some condition =>
    cases aggrType with
    | count => exact congrArg some (congrArg _ (count_caseWhen ..))
    | avg => exact avg_caseWhen ..

theorem count_indicator (predicate : Predicate) (rows : List Row) :
    count (rows.map ((AggregateColumn.indicator predicate).eval spark)) =
      rows.countP fun row => predicate.eval spark row = some true := by
  have hcount := count_caseWhen (predicate.eval spark) (fun _ => some (1 : ℚ)) rows
  rw [count_some, ← List.countP_eq_length_filter] at hcount
  exact hcount

variable [DecidableEq V]

theorem eval_aggregateArguments {measure : Measure} {unit : Text} {column : AggregateColumn}
    {aggrType : AggrType} (h : measure.aggregateArguments unit = some (column, aggrType))
    {rows : List Row} (nonempty : rows ≠ []) :
    aggrType.eval (rows.map (column.eval spark)) = some (measure.sqlValue spark unit rows) := by
  cases measure with
  | rowCount =>
    cases h
    simp [AggrType.eval, AggregateColumn.eval, Measure.sqlValue, count]
  | badRows predicate =>
    unfold Measure.aggregateArguments at h
    dsimp only at h
    split at h
    · rename_i hunit
      cases h
      rw [Measure.sqlValue]
      rw [if_pos hunit]
      have havg : avg (rows.map ((AggregateColumn.percentage predicate).eval spark)) =
          some ((100 * (rows.countP fun row => predicate.eval spark row = some true) /
            rows.length : ℚ)) := by
        have h := avg_indicator (fun row => decide (predicate.eval spark row = some true)) 100 rows
        rw [if_neg nonempty] at h
        rw [← h]
        simp only [decide_eq_true_eq]
        rfl
      rw [AggrType.eval, havg]
      rfl
    · rename_i hunit
      cases h
      rw [Measure.sqlValue]
      rw [if_neg hunit]
      rfl
  | duplicateValues keyColumns => cases h

variable {unicode : Unicode} {run : Run}

/-- A condition on the whole of the rows is reported by all rows in scope, or by none. -/
theorem reports_of_condition {rule : Rule} {rows : List Row} {p : Prop}
    (h : spark.scope rule.filter rows ≠ [] → ∀ row,
      (rule.check.condition spark unicode run rule.filter rows row = some true ↔ p)) :
    rule.reports spark unicode run rows ↔ spark.scope rule.filter rows ≠ [] ∧ p := by
  constructor
  · rintro ⟨row, hrow, hcondition⟩
    have hne := List.ne_nil_of_mem hrow
    exact ⟨hne, (h hne row).mp hcondition⟩
  · rintro ⟨hne, hp⟩
    obtain ⟨row, hrow⟩ := List.exists_mem_of_ne_nil _ hne
    exact ⟨row, hrow, (h hne row).mpr hp⟩

theorem reports_isAggr {measure : Measure} {unit : Text} {threshold : Threshold}
    {function : AggregateFunction} {column : AggregateColumn} {aggrType : AggrType}
    (valid : threshold.Valid) (hfunction : threshold.aggregateFunction = some function)
    (harguments : measure.aggregateArguments unit = some (column, aggrType)) (name : Text)
    (filter : Option Text) (rows : List Row) :
    (Rule.mk (.isAggr function column aggrType threshold.value) name filter).reports spark unicode
        run rows ↔
      spark.scope filter rows ≠ [] ∧
        threshold.Violated (measure.sqlValue spark unit (spark.scope filter rows)) := by
  refine reports_of_condition spark fun hne row => ?_
  obtain ⟨limit, hlimit, hviolates⟩ := violates_eq_true valid hfunction
    (measure.sqlValue spark unit (spark.scope filter rows))
  have hvalue : threshold.value = some limit := hlimit
  rw [Check.condition]
  dsimp only
  rw [isAggrCompare, eval_buildFilteredAggregateInput, eval_aggregateArguments spark harguments hne,
    hvalue, ← hviolates]
  simp

theorem reports_sqlQuery {measure : Measure} {unit : Text} {threshold : Threshold}
    (listed : measure.Listed) (valid : threshold.Valid) (kept : Kept run measure unit threshold)
    (reads : spark.Reads run measure unit threshold) (name : Text) (filter : Option Text)
    (rows : List Row) :
    (Rule.mk (.sqlQuery (measure.conditionQuery unit threshold inputView)) name filter).reports
        spark unicode run rows ↔
      spark.scope filter rows ≠ [] ∧
        threshold.Violated (measure.sqlValue spark unit (spark.scope filter rows)) := by
  refine reports_of_condition spark fun _ row => ?_
  obtain ⟨hbuilt, hruns⟩ :=
    @isSqlQuerySafe_conditionQuery unicode _ listed unit threshold run
  have hkept : replaceTemplate (measure.conditionQuery unit threshold inputView) run.values =
      measure.conditionQuery unit threshold run.view := kept
  rw [Check.condition]
  dsimp only
  rw [sqlQueryCondition]
  rw [hkept, hbuilt, hruns, Bool.and_self, if_pos rfl, reads, sqlCondition_eq_true valid]

/-- A threshold that no aggregate check fits. -/
def UsesQuery (measure : Measure) (unit : Text) (threshold : Threshold) : Prop :=
  threshold.aggregateFunction = none ∨ measure.aggregateArguments unit = none

/-- The check of a threshold is built, and reports a violation of it. -/
theorem reports_thresholdCheck {host : Host} {measure : Measure} {unit : Text}
    {threshold : Threshold} (listed : measure.Listed) (valid : threshold.Valid)
    (hquery : UsesQuery measure unit threshold →
      Kept run measure unit threshold ∧ spark.Reads run measure unit threshold) :
    ∃ check, thresholdCheck host measure unit threshold = some check ∧
      ∀ name filter rows, (Rule.mk check name filter).reports spark unicode run rows ↔
        spark.scope filter rows ≠ [] ∧
          threshold.Violated (measure.sqlValue spark unit (spark.scope filter rows)) := by
  have hsafe := (@isSqlQuerySafe_conditionQuery host.unicode _ listed unit threshold run).1
  unfold thresholdCheck
  cases hfunction : threshold.aggregateFunction with
  | none =>
    obtain ⟨kept, reads⟩ := hquery (.inl hfunction)
    exact ⟨_, if_pos hsafe, reports_sqlQuery spark listed valid kept reads⟩
  | some function =>
    cases harguments : measure.aggregateArguments unit with
    | none =>
      obtain ⟨kept, reads⟩ := hquery (.inr harguments)
      exact ⟨_, if_pos hsafe, reports_sqlQuery spark listed valid kept reads⟩
    | some arguments =>
      obtain ⟨column, aggrType⟩ := arguments
      exact ⟨_, rfl, reports_isAggr spark valid hfunction harguments⟩

/-! ### The row-level checks -/

/-- A plan for a metric whose bad rows are counted: its predicate and its row-level checks agree on
which rows are bad. -/
structure Counts (plan : MetricPlan) (bad : Row → Prop) : Prop where
  measure : ∃ predicate, plan.measure = .badRows predicate ∧ predicate.Listed ∧
    ∀ row, predicate.eval spark row = some true ↔ bad row
  zeroChecks : plan.zeroChecks ≠ [] ∧ ∀ unicode run filter rows row,
    (∃ check ∈ plan.zeroChecks,
      check.2.condition spark unicode run filter rows row = some true) ↔ bad row

theorem counts_nullValues {target : MetricTarget} {name : Text}
    (hname : target.propertyName = some name) (plain : IsColumnName name) (host : Host)
    (entry : Entry) : Counts spark (LibraryMetric.nullValuesPlan name) fun row =>
      LibraryMetric.nullValues.Bad spark host entry (spark.cell target.path row) := by
  have hpath : target.path = name.splitOn '.' := by rw [MetricTarget.path, hname]; rfl
  refine ⟨⟨.isNull name, rfl, trivial, fun row => ?_⟩, by simp [LibraryMetric.nullValuesPlan],
    fun unicode run filter rows row => ?_⟩
  · rw [Predicate.eval, column_sqlIdentifier, hpath]
    simp [LibraryMetric.Bad]
  · simp [LibraryMetric.nullValuesPlan, Check.condition, column_normalizeColumnExpr spark plain,
      hpath, LibraryMetric.Bad]

theorem counts_missingValues {target : MetricTarget} {name : Text}
    (hname : target.propertyName = some name) (plain : IsColumnName name) (host : Host)
    {entry : Entry} {sentinels : List (Option Scalar)}
    (hsentinels : readScalarList entry.arguments "missingValues".toList true = some sentinels) :
    Counts spark (LibraryMetric.missingValuesPlan name sentinels) fun row =>
      LibraryMetric.missingValues.Bad spark host entry (spark.cell target.path row) := by
  have hpath : target.path = name.splitOn '.' := by rw [MetricTarget.path, hname]; rfl
  have hbad : ∀ value : Option V, LibraryMetric.missingValues.Bad spark host entry value ↔
      value = none ∨ ∃ v ∈ value, ∃ s ∈ sentinels.filterMap id, spark.equals v s = some true := by
    intro value
    unfold LibraryMetric.Bad
    rw [hsentinels]
    simp
  unfold LibraryMetric.missingValuesPlan
  dsimp only
  split
  · rename_i hempty
    have hnone : sentinels.filterMap id = [] := List.isEmpty_iff.mp hempty
    refine ⟨⟨.isNull name, rfl, trivial, fun row => ?_⟩, by simp,
      fun unicode run filter rows row => ?_⟩
    · rw [Predicate.eval, column_sqlIdentifier, hpath, hbad, hnone]
      simp
    · rw [hbad, hnone]
      simp [Check.condition, column_normalizeColumnExpr spark plain, hpath]
  · rename_i hempty
    have hne : sentinels.filterMap id ≠ [] := fun h => hempty (List.isEmpty_iff.mpr h)
    refine ⟨⟨.or (.isNull name) (.isIn name _), rfl, ⟨trivial, hne⟩, fun row => ?_⟩, by simp,
      fun unicode run filter rows row => ?_⟩
    · rw [Predicate.eval, Predicate.eval, Predicate.eval, column_sqlIdentifier, Truth.or_eq_true,
        isIn_eq_true, hpath, hbad]
      simp
    · rw [hbad]
      simp only [List.mem_cons, List.not_mem_nil, or_false, exists_eq_or_imp, exists_eq_left,
        Check.condition, column_normalizeColumnExpr spark plain, map_getLimitExpr, isIn_eq_true,
        hpath]
      simp

theorem filterMap_ne_nil_of_readScalarList {arguments : Raw} {key : Text}
    {values : List (Option Scalar)} (h : readScalarList arguments key false = some values) :
    values.filterMap id ≠ [] := by
  unfold readScalarList at h
  split at h
  · rename_i items _
    cases items with
    | nil => cases h
    | cons item items =>
      rw [List.isEmpty_cons, if_neg Bool.false_ne_true, List.mapM_cons] at h
      obtain ⟨first, hfirst, h⟩ := Option.bind_eq_some_iff.mp h
      obtain ⟨rest, -, h⟩ := Option.bind_eq_some_iff.mp h
      obtain rfl : first :: rest = values := Option.some.inj h
      obtain ⟨s, rfl⟩ : ∃ s, first = some s := by
        unfold readScalar at hfirst
        split at hfirst
        · cases hfirst
        · obtain ⟨s, -, rfl⟩ := Option.map_eq_some_iff.mp hfirst
          exact ⟨s, rfl⟩
      simp
  · cases h

/-- The plan of valid values and a pattern. -/
theorem counts_invalidValues {target : MetricTarget} {name : Text}
    (hname : target.propertyName = some name) (plain : IsColumnName name) {host : Host}
    {entry : Entry} {plan : MetricPlan}
    (hplan : LibraryMetric.invalidValuesPlan name (LibraryMetric.validValues entry.arguments)
      (readPattern host entry.arguments) = some plan) :
    Counts spark plan fun row =>
      LibraryMetric.invalidValues.Bad spark host entry (spark.cell target.path row) := by
  have hpath : target.path = name.splitOn '.' := by rw [MetricTarget.path, hname]; rfl
  have hlisted : ∀ values ∈ LibraryMetric.validValues entry.arguments, values ≠ [] := by
    intro values hvalues
    obtain ⟨read, hread, rfl⟩ := Option.map_eq_some_iff.mp hvalues
    exact filterMap_ne_nil_of_readScalarList hread
  have hnotIn : ∀ {value : Option V} {values : List Scalar}, values ≠ [] →
      ((spark.isIn value (values.map some) true).not = some true ↔
        ∃ v ∈ value, ∀ s ∈ values, spark.equals v s = some false) := by
    intro value values hne
    rw [Truth.not_eq_true, isIn_eq_false spark hne]
  have hmatches : ∀ {value : Option V} {pattern : Text},
      ((spark.matches value pattern).not = some true ↔
        ∃ v ∈ value, spark.rlike v pattern = some false) := by
    intro value pattern
    rw [Truth.not_eq_true, matches_eq_false]
  unfold LibraryMetric.invalidValuesPlan at hplan
  cases hvalid : LibraryMetric.validValues entry.arguments with
  | none =>
    cases hpattern : readPattern host entry.arguments with
    | none => rw [hvalid, hpattern] at hplan; cases hplan
    | some pattern =>
      rw [hvalid, hpattern] at hplan
      cases hplan
      have hbad : ∀ value : Option V, LibraryMetric.invalidValues.Bad spark host entry value ↔
          ∃ v ∈ value, spark.rlike v pattern = some false := by
        intro value
        simp [LibraryMetric.Bad, hvalid, hpattern]
      refine ⟨⟨.notRlike name pattern, rfl, trivial, fun row => ?_⟩, by simp,
        fun unicode run filter rows row => ?_⟩
      · rw [Predicate.eval, column_sqlIdentifier, hmatches, hpath, hbad]
      · rw [hbad]
        simp only [List.mem_cons, List.not_mem_nil, or_false, exists_eq_left, Check.condition,
          column_normalizeColumnExpr spark plain, hmatches, hpath]
  | some values =>
    have hne : values ≠ [] := hlisted values hvalid
    cases hpattern : readPattern host entry.arguments with
    | none =>
      rw [hvalid, hpattern] at hplan
      cases hplan
      have hbad : ∀ value : Option V, LibraryMetric.invalidValues.Bad spark host entry value ↔
          ∃ v ∈ value, ∀ s ∈ values, spark.equals v s = some false := by
        intro value
        simp [LibraryMetric.Bad, hvalid, hpattern]
      refine ⟨⟨.notIn name values, rfl, hne, fun row => ?_⟩, by simp,
        fun unicode run filter rows row => ?_⟩
      · rw [Predicate.eval, column_sqlIdentifier, hnotIn hne, hpath, hbad]
      · rw [hbad]
        simp only [List.mem_cons, List.not_mem_nil, or_false, exists_eq_left, Check.condition,
          column_normalizeColumnExpr spark plain, map_getLimitExpr, hnotIn hne, hpath]
    | some pattern =>
      rw [hvalid, hpattern] at hplan
      cases hplan
      have hbad : ∀ value : Option V, LibraryMetric.invalidValues.Bad spark host entry value ↔
          (∃ v ∈ value, ∀ s ∈ values, spark.equals v s = some false) ∨
            ∃ v ∈ value, spark.rlike v pattern = some false := by
        intro value
        simp only [LibraryMetric.Bad, hvalid, hpattern, Option.mem_def, Option.some.injEq,
          exists_eq_left', and_or_left, exists_or]
      refine ⟨⟨.or (.notIn name values) (.notRlike name pattern), rfl, ⟨hne, trivial⟩,
        fun row => ?_⟩, by simp, fun unicode run filter rows row => ?_⟩
      · rw [Predicate.eval, Predicate.eval, Predicate.eval, column_sqlIdentifier, Truth.or_eq_true,
          hnotIn hne, hmatches, hpath, hbad]
      · rw [hbad]
        simp only [List.mem_cons, List.not_mem_nil, or_false, exists_eq_or_imp, exists_eq_left,
          Check.condition, column_normalizeColumnExpr spark plain, map_getLimitExpr, hnotIn hne,
          hmatches, hpath]

/-! ### The plans of the metrics -/

/-- A plan computes a value from the rows in scope, and its row-level checks report where the value
is not 0. -/
structure Computes (plan : MetricPlan) (value : Text → List Row → ℚ) : Prop where
  listed : plan.measure.Listed
  sqlValue : ∀ unit rows, plan.measure.sqlValue spark unit rows = value unit rows
  zeroChecks : plan.zeroChecks ≠ [] → ∀ unicode run filter rows unit,
    (∃ check ∈ plan.zeroChecks, ∃ row ∈ spark.scope filter rows,
      check.2.condition spark unicode run filter rows row = some true) ↔
        spark.scope filter rows ≠ [] ∧ value unit (spark.scope filter rows) ≠ 0

theorem share_ne_zero {unit : Text} {number total : ℕ} (h : total ≠ 0) :
    LibraryMetric.share unit number total ≠ 0 ↔ number ≠ 0 := by
  unfold LibraryMetric.share
  split
  · simp [h]
  · simp

open Classical in
/-- The share of bad rows is not 0 where there is one. -/
theorem Counts.computes {plan : MetricPlan} {bad : Row → Prop} (h : Counts spark plan bad) :
    Computes spark plan fun unit rows =>
      LibraryMetric.share unit (rows.countP fun row => bad row) rows.length := by
  obtain ⟨predicate, hmeasure, hlisted, heval⟩ := h.measure
  refine ⟨by rw [hmeasure]; exact hlisted, fun unit rows => ?_,
    fun _ unicode run filter rows unit => ?_⟩
  · have hcount : (rows.countP fun row => predicate.eval spark row = some true) =
        rows.countP fun row => bad row :=
      List.countP_congr fun row _ => by simpa using heval row
    rw [hmeasure, Measure.sqlValue, LibraryMetric.share, ← hcount]
    split
    · have havg := avg_indicator (fun row => decide (predicate.eval spark row = some true)) 100 rows
      have heval : rows.map ((AggregateColumn.percentage predicate).eval spark) = rows.map fun row =>
          some (if decide (predicate.eval spark row = some true) = true then 100 else 0) := by
        simp only [decide_eq_true_eq]
        rfl
      rw [heval, havg]
      cases rows <;> simp
    · rw [count_indicator]
  · have hexists : (∃ check ∈ plan.zeroChecks, ∃ row ∈ spark.scope filter rows,
        check.2.condition spark unicode run filter rows row = some true) ↔
          ∃ row ∈ spark.scope filter rows, bad row := by
      constructor
      · rintro ⟨check, hcheck, row, hrow, hcondition⟩
        have hbad := (h.zeroChecks.2 unicode run filter rows row).mp ⟨check, hcheck, hcondition⟩
        exact ⟨row, hrow, hbad⟩
      · rintro ⟨row, hrow, hbad⟩
        obtain ⟨check, hcheck, hcondition⟩ := (h.zeroChecks.2 unicode run filter rows row).mpr hbad
        exact ⟨check, hcheck, row, hrow, hcondition⟩
    rw [hexists]
    constructor
    · rintro ⟨row, hrow, hbad⟩
      have hne := List.ne_nil_of_mem hrow
      refine ⟨hne, (share_ne_zero (by simpa using hne)).mpr ?_⟩
      exact (List.countP_pos_iff.mpr ⟨row, hrow, by simpa using hbad⟩).ne'
    · rintro ⟨hne, hshare⟩
      have hcount := (share_ne_zero (by simpa using hne)).mp hshare
      obtain ⟨row, hrow, hbad⟩ := List.countP_pos_iff.mp (Nat.pos_of_ne_zero hcount)
      exact ⟨row, hrow, by simpa using hbad⟩

theorem all_isSome_eq (key : List (Option V)) : key.all Option.isSome = decide (none ∉ key) := by
  rw [Bool.eq_iff_iff, List.all_eq_true, decide_eq_true_eq]
  constructor
  · exact fun h hnone => Bool.false_ne_true (h none hnone)
  · intro h value hvalue
    rw [Option.isSome_iff_ne_none]
    rintro rfl
    exact h hvalue

theorem filterCondition_eq_true (keyColumns : List Text) (filter : Option Text) (row : Row) :
    Truth.and (filter.elim (some true) (spark.filter · row))
        (some ((keyOf spark keyColumns row).all Option.isSome)) = some true ↔
      spark.inScope filter row = true ∧ none ∉ keyOf spark keyColumns row := by
  rw [Truth.and_eq_true, all_isSome_eq]
  cases filter <;> simp [Spark.inScope]

/-- The window of a row holds the rows in scope that have its key. -/
theorem isUniqueCondition_eq_true {keyColumns : List Text} {filter : Option Text}
    {rows : List Row} {row : Row} :
    isUniqueCondition spark keyColumns filter rows row = some true ↔
      spark.inScope filter row = true ∧ none ∉ keyOf spark keyColumns row ∧
        1 < (keysOf spark keyColumns (spark.scope filter rows)).count
          (keyOf spark keyColumns row) := by
  have hwindow : none ∉ keyOf spark keyColumns row →
      (rows.filter fun r => keyOf spark keyColumns r = keyOf spark keyColumns row ∧
        Truth.and (filter.elim (some true) (spark.filter · r))
          (some ((keyOf spark keyColumns r).all Option.isSome)) = some true).length =
        (keysOf spark keyColumns (spark.scope filter rows)).count (keyOf spark keyColumns row) := by
    intro hnone
    rw [keysOf, List.count_filter (by simpa using hnone), List.count, List.countP_map, Spark.scope,
      List.countP_filter, ← List.countP_eq_length_filter]
    refine List.countP_congr fun r _ => ?_
    simp only [decide_eq_true_eq, filterCondition_eq_true, Function.comp, beq_iff_eq,
      Bool.and_eq_true]
    constructor
    · rintro ⟨hkey, hscope, -⟩
      exact ⟨hkey, hscope⟩
    · rintro ⟨hkey, hscope⟩
      exact ⟨hkey, hscope, by rwa [hkey]⟩
  have hcondition : isUniqueCondition spark keyColumns filter rows row =
      Truth.and (Truth.and (filter.elim (some true) (spark.filter · row))
          (some ((keyOf spark keyColumns row).all Option.isSome)))
        (some (decide (1 < (rows.filter fun r =>
          keyOf spark keyColumns r = keyOf spark keyColumns row ∧
            Truth.and (filter.elim (some true) (spark.filter · r))
              (some ((keyOf spark keyColumns r).all Option.isSome)) = some true).length))) := rfl
  rw [hcondition, Truth.and_eq_true, filterCondition_eq_true, and_assoc]
  refine and_congr_right fun _ => and_congr_right fun hnone => ?_
  rw [hwindow hnone]
  simp

/-- The plan of a key whose values must not recur. -/
theorem computes_duplicateValues {keyColumns : List Text} (nonempty : keyColumns ≠ []) :
    Computes spark (LibraryMetric.duplicateValuesPlan keyColumns) fun unit rows =>
      let keys := keysOf spark keyColumns rows
      LibraryMetric.share unit (keys.toFinset.filter fun key => 1 < keys.count key).card
        rows.length := by
  refine ⟨nonempty, fun unit rows => ?_, fun _ unicode run filter rows unit => ?_⟩
  · have hkey : ∀ row, (keyColumns.map fun column => spark.column (sqlIdentifier column) row) =
        keyOf spark keyColumns row :=
      fun row => List.map_congr_left fun column _ => column_sqlIdentifier spark column row
    have hkeys : (rows.filter fun row => (keyOf spark keyColumns row).all Option.isSome).map
        (keyOf spark keyColumns) = keysOf spark keyColumns rows := by
      rw [keysOf, List.filter_map]
      simp only [all_isSome_eq]
      rfl
    have hgroups := length_filter_groupCounts (keyOf spark keyColumns)
      (rows.filter fun row => (keyOf spark keyColumns row).all Option.isSome)
    rw [hkeys] at hgroups
    simp only [LibraryMetric.duplicateValuesPlan, Measure.sqlValue, hkey, hgroups,
      LibraryMetric.share]
    congr!
  · simp only [LibraryMetric.duplicateValuesPlan, List.mem_singleton, exists_eq_left,
      Check.condition, isUniqueCondition_eq_true]
    constructor
    · rintro ⟨row, hrow, -, hnone, hcount⟩
      have hne := List.ne_nil_of_mem hrow
      refine ⟨hne, (share_ne_zero (by simpa using hne)).mpr ?_⟩
      refine Finset.card_ne_zero_of_mem (a := keyOf spark keyColumns row) ?_
      rw [Finset.mem_filter, List.mem_toFinset]
      exact ⟨List.count_pos_iff.mp (by omega), hcount⟩
    · rintro ⟨hne, hshare⟩
      have hcard := (share_ne_zero (by simpa using hne)).mp hshare
      obtain ⟨key, hkey⟩ := Finset.card_ne_zero.mp hcard
      rw [Finset.mem_filter, List.mem_toFinset] at hkey
      obtain ⟨hmem, hcount⟩ := hkey
      obtain ⟨hrows, hnone⟩ := List.mem_filter.mp hmem
      obtain ⟨row, hrow, rfl⟩ := List.mem_map.mp hrows
      exact ⟨row, hrow, (List.mem_filter.mp hrow).2, by simpa using hnone, hcount⟩

end Dqx.Contracts
