import Dqx.Engine.Apply

/-! What a check says of the rows of the input, on its own: the message that its condition gives a row
once its columns are there, and the entry that it leaves in the result column. Every way in which the
engine executes a check says the same. -/

namespace Dqx.Engine

open Lib Lib.Sql Lib.Tabular Utils

variable {V : Type}

/-- A row of the input, by its cells. -/
abbrev Row (V : Type) := Text → Cell V

/-- What a check function is for, on one input: the columns it adds, the message of a row, and the
information that it leaves beside a row. -/
structure Report (V : Type) where
  added : List Text
  outcome : Row V → Option Text
  info : Option (Text × (Row V → Cell V))

/-- `G` is `F` with more columns, and in it the condition says of every row what is to be said. -/
structure Attached {α : Type} (F G : DataFrame V) (added : List Text) (condition : Expr V α)
    (meaning : Row V → α) (info : Option (Text × (Row V → Cell V))) : Prop where
  columns : G.columns.Perm (F.columns ++ added)
  resolves : condition.resolves G.columns = true
  rows : Paired (fun r r' => Agree F.columns r r' ∧ condition.eval r' = meaning r ∧
    ∀ i ∈ info, r' i.1 = i.2 r) F.rows G.rows

/-- What is promised of the check function of a dataset-level check that keeps the rows: it adds its
columns to any table over the input, whatever the columns that are there. -/
structure Attaches (D : DataFrame V) (condition : Expr V (Option Text))
    (run : DataFrame V → DataFrame V → Except EngineError (DataFrame V)) (info : Option Text)
    (report : Report V) : Prop where
  outcome_congr : ∀ {r r'}, Agree D.columns r r' → report.outcome r = report.outcome r'
  info_congr : ∀ i ∈ report.info, ∀ {r r'}, Agree D.columns r r' → i.2 r = i.2 r'
  info_name : info = report.info.map Prod.fst
  info_added : ∀ i ∈ report.info, i.1 ∈ report.added ∧ i.1 ≠ []
  runs : ∀ F, D.Extends F → (∀ n ∈ report.added, n ∉ F.columns) →
    ∃ G, run F D = .ok G ∧ Attached F G report.added condition report.outcome report.info

namespace DatasetAggregate

variable (aggregate : DatasetAggregate V)

/-- A row with the metric and the condition of the aggregate. -/
def complete (metric : Cell V) (r : Row V) : Row V :=
  let joined := Function.update r aggregate.metricCol metric
  Function.update joined aggregate.conditionCol (aggregate.conditionResult.eval joined)

def report (condition : Expr V (Option Text)) (metric : Cell V) : Report V where
  added := [aggregate.metricCol, aggregate.conditionCol]
  outcome r := condition.eval (aggregate.complete metric r)
  info := none

/-- A built-in aggregate whose metric over the input is `metric`. -/
structure Fits (D : DataFrame V) (condition : Expr V (Option Text)) (metric : Cell V) : Prop where
  metric_eq : aggregate.metric D = .ok (aggregate.metricCol, metric)
  returnType : aggregate.returnType = .ok ()
  conditionResult_reads : aggregate.conditionResult.reads ⊆ D.columns ++ [aggregate.metricCol]
  condition_reads : condition.reads ⊆ D.columns ++ [aggregate.metricCol, aggregate.conditionCol]

end DatasetAggregate

/-- The check function says what the report says: of a row-level check by its condition, of a built-in
aggregate by its metric, of any other dataset-level check by promise. -/
inductive Reports (D : DataFrame V) : Body V → Report V → Prop
  | row {condition : Expr V (Option Text)} (h : condition.resolves D.columns = true) :
    Reports D (.row condition) ⟨[], condition.eval, none⟩
  | aggregate {aggregate : DatasetAggregate V} {condition : Expr V (Option Text)} {metric : Cell V}
    (h : aggregate.Fits D condition metric) :
    Reports D (.dataset condition (.aggregate aggregate) none) (aggregate.report condition metric)
  | custom {condition : Expr V (Option Text)} {run info} {report : Report V}
    (h : Attaches D condition run info report) :
    Reports D (.dataset condition (.custom run) info) report

namespace Attached

variable {α : Type} {F G : DataFrame V} {added : List Text} {condition : Expr V α}
  {meaning : Row V → α} {info : Option (Text × (Row V → Cell V))}

theorem nodup (h : Attached F G added condition meaning info) (hF : F.columns.Nodup)
    (hadded : added.Nodup) (hfresh : ∀ n ∈ added, n ∉ F.columns) : G.columns.Nodup :=
  h.columns.nodup_iff.mpr (List.Nodup.append hF hadded fun n hn hadd => hfresh n hadd hn)

theorem extension (h : Attached F G added condition meaning info) (hF : F.columns.Nodup)
    (hadded : added.Nodup) (hfresh : ∀ n ∈ added, n ∉ F.columns) : F.Extends G where
  columns := fun n hn => h.columns.mem_iff.mpr (List.mem_append_left _ hn)
  nodup := h.nodup hF hadded hfresh
  rows := h.rows.mono fun _ _ hrow => hrow.1

end Attached

/-- A column of a row-level condition. -/
theorem attached_self {α : Type} {F : DataFrame V} {condition : Expr V α}
    (h : condition.resolves F.columns = true) :
    Attached F F [] condition condition.eval none where
  columns := by rw [List.append_nil]
  resolves := h
  rows := .of_forall₂ (List.forall₂_same.mpr fun r _ =>
    ⟨.refl _ r, rfl, fun i hi => absurd hi (Option.not_mem_none i)⟩)

namespace DatasetAggregate

variable {aggregate : DatasetAggregate V} {D F : DataFrame V} {condition : Expr V (Option Text)}
  {metric : Cell V}

/-- The condition of an aggregate is added to a table that has its metric. -/
theorem addCondition_attached (h : aggregate.Fits D condition metric) (hD : D.columns ⊆ F.columns)
    (hnodup : F.columns.Nodup) (hmetric : aggregate.metricCol ∈ F.columns)
    (hcells : ∀ r ∈ F.rows, r aggregate.metricCol = metric)
    (hfresh : aggregate.conditionCol ∉ F.columns) :
    ∃ G, aggregate.addCondition F = .ok G ∧ Attached F G [aggregate.conditionCol] condition
      (fun r => condition.eval (aggregate.complete metric r)) none := by
  have hresolves : aggregate.conditionResult.resolves F.columns = true := by
    refine (Column.resolves_iff hnodup).mpr (List.Subset.trans h.conditionResult_reads ?_)
    exact List.append_subset.mpr ⟨hD, List.cons_subset.mpr ⟨hmetric, List.nil_subset _⟩⟩
  refine ⟨_, by rw [addCondition, Frame.withColumn_new hfresh hresolves]; rfl, .rfl, ?_, ?_⟩
  · have hnodup' : (F.columns ++ [aggregate.conditionCol]).Nodup :=
      List.Nodup.append hnodup (List.nodup_singleton _) (List.disjoint_singleton.mpr hfresh)
    refine (Column.resolves_iff hnodup').mpr (List.Subset.trans h.condition_reads ?_)
    intro n hn
    simp only [List.mem_append, List.mem_cons, List.not_mem_nil, or_false] at hn ⊢
    rcases hn with hn | rfl | rfl
    · exact .inl (hD hn)
    · exact .inl hmetric
    · exact .inr rfl
  · refine .map_self fun r hr => ⟨.update hfresh r _, congrArg condition.eval ?_,
      fun i hi => absurd hi (Option.not_mem_none i)⟩
    have hjoined : Function.update r aggregate.metricCol metric = r := by
      rw [← hcells r hr, Function.update_eq_self]
    dsimp only [complete]
    rw [hjoined]

/-- What an aggregate says of a row is decided by the columns of the input. -/
theorem report_congr (h : aggregate.Fits D condition metric) {r r' : Row V}
    (hagree : Agree D.columns r r') :
    condition.eval (aggregate.complete metric r) = condition.eval (aggregate.complete metric r') := by
  have hjoined : Agree (D.columns ++ [aggregate.metricCol])
      (Function.update r aggregate.metricCol metric)
      (Function.update r' aggregate.metricCol metric) := by
    intro n hn
    by_cases hcol : n = aggregate.metricCol
    · rw [hcol, Function.update_self, Function.update_self]
    · rw [Function.update_of_ne hcol, Function.update_of_ne hcol]
      refine hagree n ((List.mem_append.mp hn).resolve_right fun hmem => ?_)
      exact hcol (List.mem_singleton.mp hmem)
  refine condition.eval_congr fun n hn => ?_
  by_cases hcol : n = aggregate.conditionCol
  · rw [hcol, complete, complete, Function.update_self, Function.update_self]
    exact aggregate.conditionResult.eval_congr (hjoined.mono h.conditionResult_reads)
  · rw [complete, complete, Function.update_of_ne hcol, Function.update_of_ne hcol]
    refine hjoined n ?_
    have hmem := h.condition_reads hn
    simp only [List.mem_append, List.mem_cons, List.not_mem_nil, or_false, hcol] at hmem ⊢
    exact hmem

/-- The metrics of several aggregates, in one join. -/
theorem addDatasetAggregates_eq {aggregates : List (DatasetAggregate V)}
    {metrics : DatasetAggregate V → Cell V}
    (h : ∀ a ∈ aggregates, a.metric D = .ok (a.metricCol, metrics a) ∧ a.returnType = .ok ()) :
    addDatasetAggregates F D aggregates =
      .ok (F.crossJoin (aggregates.map fun a => (a.metricCol, metrics a))) := by
  rw [addDatasetAggregates]
  split
  · next hempty =>
    rw [List.isEmpty_iff.mp hempty, List.map_nil, Frame.crossJoin, Frame.selectAlso_nil]
    rfl
  · rw [mapM_eq_map fun a ha => (h a ha).1]
    have hforM : aggregates.forM (·.returnType) = .ok () := forM_eq_ok fun a ha => (h a ha).2
    show (do aggregates.forM (·.returnType); pure _) = _
    rw [hforM]
    rfl

/-- The closure of an aggregate joins its metric, and adds its condition. -/
theorem apply_attached (h : aggregate.Fits D condition metric) (hover : D.Extends F)
    (hadded : (aggregate.report condition metric).added.Nodup)
    (hfresh : ∀ n ∈ (aggregate.report condition metric).added, n ∉ F.columns) :
    ∃ G, (Closure.aggregate aggregate).apply F D = .ok G ∧
      Attached F G (aggregate.report condition metric).added condition
        (aggregate.report condition metric).outcome none := by
  have hmetric : aggregate.metricCol ∉ F.columns := hfresh _ List.mem_cons_self
  have hcondition : aggregate.conditionCol ∉ F.columns :=
    hfresh _ (List.mem_cons_of_mem _ List.mem_cons_self)
  have hne : aggregate.conditionCol ≠ aggregate.metricCol := fun heq =>
    (List.nodup_cons.mp hadded).1 (heq ▸ List.mem_cons_self)
  have hnodup : (F.columns ++ [(aggregate.metricCol, metric)].map Prod.fst).Nodup :=
    List.Nodup.append hover.nodup (List.nodup_singleton _) (List.disjoint_singleton.mpr hmetric)
  have hB := Frame.selectAlso_extends hnodup
  have hcells : ∀ r ∈ (F.crossJoin [(aggregate.metricCol, metric)]).rows,
      r aggregate.metricCol = metric := by
    intro r hr
    obtain ⟨_, -, -, hentries⟩ := hB.2.2.exists_left hr
    exact hentries _ List.mem_cons_self
  have hnew : aggregate.conditionCol ∉ (F.crossJoin [(aggregate.metricCol, metric)]).columns := by
    simp only [Frame.crossJoin, Frame.selectAlso, List.map_cons, List.map_nil, List.mem_append,
      List.mem_singleton, not_or]
    exact ⟨hcondition, hne⟩
  obtain ⟨G, hG, hattached⟩ := addCondition_attached h (List.Subset.trans hover.columns hB.1) hB.2.1
    (List.mem_append_right _ List.mem_cons_self) hcells hnew
  refine ⟨G, ?_, ?_, hattached.resolves, ?_⟩
  · have hmetrics : ∀ a ∈ [aggregate], a.metric D = .ok (a.metricCol, (fun _ => metric) a) ∧
        a.returnType = .ok () := by
      intro a ha
      rw [List.mem_singleton.mp ha]
      exact ⟨h.metric_eq, h.returnType⟩
    rw [Closure.apply, addDatasetAggregates_eq hmetrics]
    exact hG
  · exact hattached.columns.trans (.of_eq (List.append_assoc _ _ _))
  · refine (hB.2.2.trans hattached.rows).mono ?_
    rintro r r' ⟨b, ⟨hagree, -⟩, hagree', heval, -⟩
    exact ⟨hagree.trans (hagree'.mono hB.1),
      heval.trans (report_congr h (hagree.mono hover.columns).symm),
      fun i hi => absurd hi (Option.not_mem_none i)⟩

end DatasetAggregate

end Dqx.Engine
