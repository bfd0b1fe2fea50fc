import Dqx.Engine.Entry

/-! One pass over checks: what it carries from check to check, and the result column at its end. The
conditions are evaluated on the last table, where every one of them still says what it said on the
table that its own check left. -/

namespace Dqx.Engine

open Lib Lib.Sql Lib.Tabular

variable {V : Type}

/-- What a check says of the rows that a pass starts from. -/
structure Said (V : Type) where
  entry : Row V → Option ResultItem
  info : Option (Text × (Row V → Cell V))

/-- The entries of a row, as the result column has them. -/
def resultsOf (said : List (Said V)) (r : Row V) : Cell V :=
  let entries := said.filterMap fun s => s.entry r
  .results (if entries.isEmpty then none else some entries)

/-- The information beside a row. -/
def infosOf (said : List (Said V)) (r : Row V) : List (Cell V) :=
  said.filterMap fun s => s.info.map fun i => i.2 r

def infoNames (said : List (Said V)) : List Text := said.filterMap fun s => s.info.map Prod.fst

/-- A pass over `base` whose checks so far have said this, and added columns among `temps`. -/
structure Pass (base : DataFrame V) (temps : List Text) (said : List (Said V))
    (progress : Progress V) : Prop where
  columns : base.columns ⊆ progress.currentDf.columns
  nodup : progress.currentDf.columns.Nodup
  temporary : ∀ n ∈ progress.currentDf.columns, n ∈ base.columns ∨ n ∈ temps
  rowsDf : progress.rowsDf = base
  resolves : ∀ c ∈ progress.checkConditions, c.resolves progress.currentDf.columns = true
  infoColNames : progress.infoColNames = infoNames said
  infos : ∀ n ∈ infoNames said, n ∈ progress.currentDf.columns ∧ n ∈ temps
  rows : Paired (fun r r' => Agree base.columns r r' ∧
      progress.checkConditions.map (fun c => c.eval r') = said.map (fun s => s.entry r) ∧
      ∀ s ∈ said, ∀ i ∈ s.info, r' i.1 = i.2 r)
    base.rows progress.currentDf.rows

namespace Pass

variable {base : DataFrame V} {temps : List Text} {said : List (Said V)} {progress : Progress V}

theorem start (h : base.columns.Nodup) : Pass base [] [] ⟨base, base, [], [], []⟩ where
  columns := List.Subset.refl _
  nodup := h
  temporary := fun _ hn => .inl hn
  rowsDf := rfl
  resolves := fun _ hc => absurd hc List.not_mem_nil
  infoColNames := rfl
  infos := fun _ hn => absurd hn List.not_mem_nil
  rows := .of_forall₂ (List.forall₂_same.mpr fun r _ =>
    ⟨.refl _ r, rfl, fun _ hs => absurd hs List.not_mem_nil⟩)

theorem extension (h : Pass base temps said progress) : base.Extends progress.currentDf where
  columns := h.columns
  nodup := h.nodup
  rows := h.rows.mono fun _ _ hrow => hrow.1

/-- A check that attaches its condition to the table so far takes the pass one check further. -/
theorem next (h : Pass base temps said progress) {added : List Text}
    {result : DQCheckResult V (Option ResultItem)} {s : Said V}
    (hattached : Attached progress.currentDf result.checkDf added result.condition s.entry s.info)
    (hadded : added.Nodup) (hfresh : ∀ n ∈ added, n ∉ progress.currentDf.columns)
    (hentry : ∀ {r r'}, Agree base.columns r r' → s.entry r = s.entry r')
    (hinfo : ∀ i ∈ s.info, (∀ {r r'}, Agree base.columns r r' → i.2 r = i.2 r') ∧
      i.1 ∈ added ∧ i.1 ≠ [])
    (hname : result.infoColumnName = s.info.map Prod.fst) (skipped : List Text) :
    Pass base (temps ++ added) (said ++ [s])
      { currentDf := result.checkDf
        rowsDf := progress.rowsDf
        checkConditions := progress.checkConditions ++ [result.condition]
        skippedChecks := skipped
        infoColNames := progress.infoColNames ++ (DQRule.truthy result.infoColumnName).toList } where
  columns := List.Subset.trans h.columns
    fun n hn => hattached.columns.mem_iff.mpr (List.mem_append_left _ hn)
  nodup := hattached.nodup h.nodup hadded hfresh
  temporary := by
    intro n hn
    rcases List.mem_append.mp (hattached.columns.mem_iff.mp hn) with hn | hn
    · exact (h.temporary n hn).imp_right fun ht => List.mem_append_left _ ht
    · exact .inr (List.mem_append_right _ hn)
  rowsDf := h.rowsDf
  resolves := by
    intro c hc
    rcases List.mem_append.mp hc with hc | hc
    · refine Column.resolves_mono (h.resolves c hc) (fun n hn => ?_)
        (hattached.nodup h.nodup hadded hfresh)
      exact hattached.columns.mem_iff.mpr (List.mem_append_left _ hn)
    · exact (List.mem_singleton.mp hc) ▸ hattached.resolves
  infoColNames := by
    have htruthy : (DQRule.truthy result.infoColumnName).toList = infoNames [s] := by
      rw [hname]
      cases hi : s.info with
      | none => simp [infoNames, hi, DQRule.truthy]
      | some i =>
        have hne : i.1.isEmpty = false := by
          simpa using (hinfo i hi).2.2
        simp [infoNames, hi, DQRule.truthy, hne]
    rw [h.infoColNames, htruthy, infoNames, infoNames, infoNames, List.filterMap_append]
  infos := by
    intro n hn
    rw [infoNames, List.filterMap_append, List.mem_append] at hn
    rcases hn with hn | hn
    · obtain ⟨hcurrent, htemp⟩ := h.infos n hn
      exact ⟨hattached.columns.mem_iff.mpr (List.mem_append_left _ hcurrent),
        List.mem_append_left _ htemp⟩
    · obtain ⟨s', hs', hfound⟩ := List.mem_filterMap.mp hn
      obtain rfl := List.mem_singleton.mp hs'
      obtain ⟨i, hi, rfl⟩ := Option.map_eq_some_iff.mp hfound
      have hmem := (hinfo i hi).2.1
      exact ⟨hattached.columns.mem_iff.mpr (List.mem_append_right _ hmem),
        List.mem_append_right _ hmem⟩
  rows := by
    refine (h.rows.trans hattached.rows).mono ?_
    rintro r r'' ⟨r', ⟨hagree, hconditions, hinfos⟩, hagree', heval, hinfo'⟩
    refine ⟨hagree.trans (hagree'.mono h.columns), ?_, ?_⟩
    · rw [List.map_append, List.map_append, ← hconditions]
      congr 1
      · refine List.map_congr_left fun c hc => ?_
        exact (Column.eval_eq_of_resolves (h.resolves c hc) hagree').symm
      · rw [List.map_singleton, List.map_singleton, heval, hentry hagree]
    · intro s' hs' i hi
      rcases List.mem_append.mp hs' with hs' | hs'
      · have hmem : i.1 ∈ infoNames said :=
          List.mem_filterMap.mpr ⟨s', hs', by rw [Option.mem_def.mp hi]; rfl⟩
        rw [← hagree' i.1 (h.infos i.1 hmem).1, hinfos s' hs' i hi]
      · obtain rfl := List.mem_singleton.mp hs'
        rw [hinfo' i hi, (hinfo i hi).1 hagree]

end Pass

theorem map_infoNames {said : List (Said V)} {r r' : Row V}
    (h : ∀ s ∈ said, ∀ i ∈ s.info, r' i.1 = i.2 r) : (infoNames said).map r' = infosOf said r := by
  rw [infoNames, List.map_filterMap, infosOf]
  refine List.filterMap_congr fun s hs => ?_
  cases hi : s.info with
  | none => rfl
  | some i => exact congrArg some (h s hs i hi)

theorem infoNames_append (said said' : List (Said V)) :
    infoNames (said ++ said') = infoNames said ++ infoNames said' := List.filterMap_append

theorem infosOf_append (said said' : List (Said V)) (r : Row V) :
    infosOf (said ++ said') r = infosOf said r ++ infosOf said' r := List.filterMap_append

theorem infosOf_eq_nil {said : List (Said V)} (h : infoNames said = []) (r : Row V) :
    infosOf said r = [] := by
  refine List.filterMap_eq_nil_iff.mpr fun s hs => ?_
  have hnone := List.filterMap_eq_nil_iff.mp h s hs
  rw [Option.map_eq_none_iff] at hnone ⊢
  exact hnone

theorem eval_combinedResults {conditions : List (Expr V (Option ResultItem))} {said : List (Said V)}
    {r r' : Row V} (h : conditions.map (fun c => c.eval r') = said.map fun s => s.entry r) :
    (combinedResults conditions).eval r' = resultsOf said r := by
  rw [combinedResults, Column.eval_map, Column.eval_all, h, resultsOf, List.filterMap_map]
  rfl

/-- The result of a pass: the rows of its start with one more column, and no temporary ones. -/
structure Passed (engine : DQEngineCore) (base out : DataFrame V) (dest : Text)
    (said : List (Said V)) : Prop where
  mem_columns : ∀ n, n ∈ out.columns ↔
    n ∈ base.columns ∨ n = dest ∨ n = engine.info ∧ infoNames said ≠ []
  nodup : out.columns.Nodup
  rows : Paired (fun r r' => (∀ n ∈ base.columns, n ≠ engine.info → r' n = r n) ∧
      r' dest = resultsOf said r ∧
      (engine.info ∈ out.columns → (r' engine.info).elements =
        (if engine.info ∈ base.columns then (r engine.info).elements else []) ++ infosOf said r))
    base.rows out.rows

/-- Names that a pass may add as temporary columns. -/
structure Temporary (engine : DQEngineCore) (base : DataFrame V) (temps : List Text) : Prop where
  base : ∀ n ∈ temps, n ∉ base.columns
  reserved : ∀ n ∈ temps, n ∉ engine.resultColumnNames

section Finish

variable {engine : DQEngineCore} {base : DataFrame V} {temps : List Text} {said : List (Said V)}
  {progress : Progress V} {dest : Text}

/-- The rows of a table with its results, and with the information beside them. -/
theorem mergeInfoColumns_spec {combined : DataFrame V} {names : List Text}
    (hnodup : combined.columns.Nodup) (hnames : ∀ n ∈ names, n ∈ combined.columns) :
    ∃ merged, mergeInfoColumns engine.info combined names = .ok merged ∧ merged.columns.Nodup ∧
      (∀ n, n ∈ merged.columns ↔
        (n ∈ combined.columns ∨ n = engine.info ∧ names ≠ []) ∧ n ∉ names) ∧
      Paired (fun r r' => (∀ n, n ≠ engine.info → r' n = r n) ∧
          (engine.info ∈ merged.columns → (r' engine.info).elements =
            (if engine.info ∈ combined.columns then (r engine.info).elements else []) ++
              names.map r))
        combined.rows merged.rows := by
  have hpresent : names.filter (· ∈ combined.columns) = names :=
    List.filter_eq_self.mpr fun n hn => decide_eq_true (hnames n hn)
  have hstructs : (Column.all (names.map Column.col) : Expr V (List (Cell V))).resolves
      combined.columns = true := by
    rw [Column.resolves_all]
    intro c hc
    obtain ⟨n, hn, rfl⟩ := List.mem_map.mp hc
    exact Column.resolves_col (hnames n hn) hnodup
  have hcells (r : Row V) : (names.map Column.col).map (fun c => Column.eval c r) = names.map r := by
    rw [List.map_map]
    rfl
  rw [mergeInfoColumns, hpresent]
  dsimp only
  by_cases hin : engine.info ∈ combined.columns
  · rw [if_neg (by simp [hin]), if_pos hin, Frame.withColumn_old hin (by
      rw [Column.resolves_map, Column.resolves_zip, hstructs, Column.resolves_col hin hnodup]; rfl)]
    refine ⟨_, rfl, Frame.nodup_drop hnodup _, fun n => ?_, .map_self fun r _ => ⟨?_, fun _ => ?_⟩⟩
    · rw [Frame.mem_columns_drop]
      refine and_congr_left fun _ => ⟨.inl, ?_⟩
      rintro (hn | ⟨rfl, -⟩)
      · exact hn
      · exact hin
    · exact fun n hn => Function.update_of_ne hn _ _
    · rw [Function.update_self, if_pos hin, Column.eval_map, Column.eval_zip, Column.eval_all, hcells]
      rfl
  · rw [if_neg hin]
    by_cases hempty : names = []
    · subst hempty
      rw [if_pos (by simp [hin])]
      refine ⟨_, rfl, hnodup, fun n => by simp, .of_forall₂ (List.forall₂_same.mpr fun r _ => ?_)⟩
      exact ⟨fun _ _ => rfl, fun h => absurd h hin⟩
    · rw [if_neg (by simp [hempty]), Frame.withColumn_new hin (by
        rw [Column.resolves_map, hstructs])]
      refine ⟨_, rfl, Frame.nodup_drop ?_ _, fun n => ?_, .map_self fun r _ => ⟨?_, fun _ => ?_⟩⟩
      · exact List.Nodup.append hnodup (List.nodup_singleton _) (List.disjoint_singleton.mpr hin)
      · rw [Frame.mem_columns_drop, List.mem_append, List.mem_singleton]
        simp [hempty]
      · exact fun n hn => Function.update_of_ne hn _ _
      · rw [Function.update_self, if_neg hin, Column.eval_map, Column.eval_all, hcells]
        rfl

/-- At the end of a pass its result column has the entries of every row. -/
theorem Pass.finish (h : Pass base temps said progress) (htemps : Temporary engine base temps)
    (hdest : dest ∉ base.columns) (hdestTemps : dest ∉ temps) (hne : dest ≠ engine.info) :
    ∃ combined merged,
      progress.currentDf.withColumn dest (combinedResults progress.checkConditions) = some combined ∧
      mergeInfoColumns engine.info combined progress.infoColNames = .ok merged ∧
      Passed engine base
        (merged.drop (engine.columnsToDrop base.columns dest engine.info merged)) dest said := by
  have hnew : dest ∉ progress.currentDf.columns := fun hin =>
    (h.temporary dest hin).elim hdest hdestTemps
  have hresolves : (combinedResults progress.checkConditions).resolves
      progress.currentDf.columns = true := by
    rw [combinedResults, Column.resolves_map]
    exact Column.resolves_all.mpr h.resolves
  have hnodup : (progress.currentDf.columns ++ [dest]).Nodup :=
    List.Nodup.append h.nodup (List.nodup_singleton _) (List.disjoint_singleton.mpr hnew)
  have hinfos : ∀ n ∈ progress.infoColNames, n ∈ progress.currentDf.columns ∧ n ∈ temps := by
    rw [h.infoColNames]
    exact h.infos
  have hinfoTemps : engine.info ∉ temps := fun hin => htemps.reserved _ hin
    (List.mem_cons_of_mem _ (List.mem_cons_of_mem _ List.mem_cons_self))
  obtain ⟨merged, hmerged, hmergedNodup, hmem, hrows⟩ := @mergeInfoColumns_spec _ engine
    ⟨progress.currentDf.columns ++ [dest], progress.currentDf.rows.map fun r =>
      Function.update r dest ((combinedResults progress.checkConditions).eval r)⟩ _ hnodup
    fun n hn => List.mem_append_left _ (hinfos n hn).1
  refine ⟨_, merged, Frame.withColumn_new hnew hresolves, hmerged, ?_, hmergedNodup.filter _, ?_⟩
  · intro n
    simp only [Frame.mem_columns_drop, DQEngineCore.columnsToDrop, List.mem_filter, hmem,
      List.mem_append, List.mem_cons, List.not_mem_nil, or_false, Bool.and_eq_true,
      decide_eq_true_eq, h.infoColNames]
    constructor
    · rintro ⟨hn, hkept⟩
      rcases hn.1 with (hn' | rfl) | ⟨rfl, hnames⟩
      · refine (h.temporary n hn').imp_right fun htemp => absurd ⟨hn, ?_, ?_⟩ hkept
        · exact htemps.base n htemp
        · have hreserved := htemps.reserved n htemp
          simp only [DQEngineCore.resultColumnNames, List.mem_cons, List.not_mem_nil, or_false,
            not_or] at hreserved
          rintro (rfl | rfl | rfl | rfl)
          · exact hdestTemps htemp
          · exact hreserved.2.2 rfl
          · exact hreserved.1 rfl
          · exact hreserved.2.1 rfl
      · exact .inr (.inl rfl)
      · exact .inr (.inr ⟨rfl, hnames⟩)
    · rintro (hn | rfl | ⟨rfl, hnames⟩)
      · refine ⟨⟨.inl (.inl (h.columns hn)), fun hin => ?_⟩, fun hdropped => hdropped.2.1 hn⟩
        exact htemps.base n (h.infos n hin).2 hn
      · exact ⟨⟨.inl (.inr rfl), fun hin => hdestTemps (h.infos n hin).2⟩,
          fun hdropped => hdropped.2.2 (.inl rfl)⟩
      · exact ⟨⟨.inr ⟨rfl, hnames⟩, fun hin => hinfoTemps (h.infos _ hin).2⟩,
          fun hdropped => hdropped.2.2 (.inr (.inl rfl))⟩
  · have hcombined : Paired (fun r r' => Agree base.columns r r' ∧ r' dest = resultsOf said r ∧
        progress.infoColNames.map r' = infosOf said r) base.rows
        (progress.currentDf.rows.map fun r =>
          Function.update r dest ((combinedResults progress.checkConditions).eval r)) := by
      refine h.rows.map_right ?_
      rintro r r' ⟨hagree, hconditions, hinfo⟩
      refine ⟨hagree.trans (.update hdest r' _), ?_, ?_⟩
      · rw [Function.update_self]
        exact eval_combinedResults hconditions
      · rw [h.infoColNames, ← map_infoNames hinfo]
        refine List.map_congr_left fun n hn => Function.update_of_ne ?_ _ _
        rintro rfl
        exact hdestTemps (h.infos _ hn).2
    refine (hcombined.trans hrows).mono ?_
    rintro r r'' ⟨r', ⟨hagree, hresults, hnames⟩, hothers, hinfo⟩
    refine ⟨fun n hn hninfo => (hothers n hninfo).trans (hagree n hn).symm,
      (hothers dest hne).trans hresults, fun hin => ?_⟩
    rw [hinfo (Frame.mem_columns_drop.mp hin).1, hnames]
    congr 1
    by_cases hbase : engine.info ∈ base.columns
    · rw [if_pos hbase, if_pos (List.mem_append_left _ (h.columns hbase)), hagree _ hbase]
    · refine (if_neg ?_).trans (if_neg hbase).symm
      intro hcurrent
      rcases List.mem_append.mp hcurrent with hcurrent | hcurrent
      · exact (h.temporary _ hcurrent).elim hbase hinfoTemps
      · exact hne (List.mem_singleton.mp hcurrent).symm

end Finish

end Dqx.Engine
