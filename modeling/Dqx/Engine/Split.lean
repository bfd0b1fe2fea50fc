import Dqx.Engine.Checked
import Mathlib.Algebra.Order.Group.Nat

/-! Good and bad rows, and the order in which checks are given. -/

namespace Dqx.Engine

open Lib Lib.Sql Lib.Tabular

variable {V : Type}

/-- Some of the checks leave an entry at the row. -/
def failing (said : List (Said V)) (r : Row V) : Bool := said.any fun s => (s.entry r).isSome

theorem isSome_resultsOf (said : List (Said V)) (r : Row V) (column : Text) {r' : Row V}
    (h : r' column = resultsOf said r) :
    (DQEngineCore.hasResults column).eval r' = failing said r := by
  rw [DQEngineCore.hasResults, Column.eval_map, Column.eval_col, h, resultsOf, failing]
  cases hentries : said.filterMap fun s => s.entry r with
  | nil =>
    have hnone := List.filterMap_eq_nil_iff.mp hentries
    refine (List.any_eq_false.mpr fun s hs => ?_).symm
    rw [hnone s hs]
    exact Bool.false_ne_true
  | cons item rest =>
    refine (List.any_eq_true.mpr ?_).symm
    obtain ⟨s, hs, hitem⟩ := List.mem_filterMap.mp (hentries ▸ List.mem_cons_self : item ∈ _)
    exact ⟨s, hs, by rw [hitem]; rfl⟩

/-- A list and what is left of it by two conditions that together miss none. -/
theorem length_add_countP {α : Type} (l : List α) (p q : α → Bool) :
    l.length + l.countP (fun a => q a && !p a) =
      l.countP (fun a => !p a) + l.countP (fun a => p a || q a) := by
  induction l with
  | nil => rfl
  | cons a l ih =>
    simp only [List.length_cons, List.countP_cons]
    cases p a <;> cases q a <;> simp <;> omega

/-- The tables of a split: rows without errors, and rows with errors or warnings. -/
structure SplitRows (engine : DQEngineCore) (D good bad : DataFrame V)
    (errors warnings : List (Said V)) : Prop where
  good_columns : ∀ n, n ∈ good.columns ↔
    n ∈ D.columns ∨ n = engine.info ∧ infoNames (errors ++ warnings) ≠ []
  good : Paired (Agree D.columns) (D.rows.filter fun r => !failing errors r) good.rows
  bad : Paired (fun r r' => Agree D.columns r r' ∧ r' engine.errors = resultsOf errors r ∧
      r' engine.warnings = resultsOf warnings r)
    (D.rows.filter fun r => failing errors r || failing warnings r) bad.rows

/-- Every row is in one of the tables, and only a row with warnings but no errors is in both. -/
theorem SplitRows.length_eq {engine : DQEngineCore} {D good bad : DataFrame V}
    {errors warnings : List (Said V)} (h : SplitRows engine D good bad errors warnings) :
    good.rows.length + bad.rows.length =
      D.rows.length + D.rows.countP fun r => failing warnings r && !failing errors r := by
  rw [← h.good.length_eq, ← h.bad.length_eq, length_add_countP, List.countP_eq_length_filter,
    List.countP_eq_length_filter]

theorem Checked.split {engine : DQEngineCore} {D out : DataFrame V} {errors warnings : List (Said V)}
    (h : Checked engine D out errors warnings)
    (hnames : engine.errors ≠ engine.info ∧ engine.warnings ≠ engine.info ∧
      ∀ n ∈ engine.resultColumnNames, n ∉ D.columns) :
    ∃ good bad, engine.getValid out = .ok good ∧ engine.getInvalid out = .ok bad ∧
      SplitRows engine D good bad errors warnings := by
  obtain ⟨herrorsInfo, hwarningsInfo, hnew⟩ := hnames
  have hresolves {column : Text} (hcolumn : column ∈ out.columns) :
      (DQEngineCore.hasResults column : Expr V Bool).resolves out.columns = true := by
    rw [DQEngineCore.hasResults, Column.resolves_map]
    exact Column.resolves_col hcolumn h.nodup
  have herrors := hresolves ((h.mem_columns engine.errors).mpr (.inr (.inl rfl)))
  have hwarnings := hresolves ((h.mem_columns engine.warnings).mpr (.inr (.inr (.inl rfl))))
  have hvalid : engine.getValid out = .ok (Frame.drop ⟨out.columns, out.rows.filter
      ((DQEngineCore.hasResults engine.errors).map (!·)).eval⟩ [engine.errors, engine.warnings]) := by
    rw [DQEngineCore.getValid, Frame.filterRows, if_pos (by rw [Column.resolves_map, herrors])]
    rfl
  have hinvalid : engine.getInvalid out = .ok ⟨out.columns, out.rows.filter
      (((DQEngineCore.hasResults engine.errors).zip (DQEngineCore.hasResults engine.warnings)).map
        fun values => values.1 || values.2).eval⟩ := by
    rw [DQEngineCore.getInvalid, Frame.filterRows, if_pos (by
      rw [Column.resolves_map, Column.resolves_zip, herrors, hwarnings]; rfl)]
    rfl
  refine ⟨_, _, hvalid, hinvalid, fun n => ?_, ?_, ?_⟩
  · rw [Frame.mem_columns_drop]
    simp only [h.mem_columns, List.mem_cons, List.not_mem_nil, or_false, not_or]
    constructor
    · rintro ⟨hn | hn | hn | hn, hkept⟩
      · exact .inl hn
      · exact absurd hn hkept.1
      · exact absurd hn hkept.2
      · exact .inr hn
    · rintro (hn | ⟨rfl, hinfos⟩)
      · refine ⟨.inl hn, ?_, ?_⟩
        · rintro rfl
          exact hnew _ List.mem_cons_self hn
        · rintro rfl
          exact hnew _ (List.mem_cons_of_mem _ List.mem_cons_self) hn
      · exact ⟨.inr (.inr (.inr ⟨rfl, hinfos⟩)), herrorsInfo.symm, hwarningsInfo.symm⟩
  · refine (h.rows.filter ?_).mono fun _ _ hrow => hrow.1
    rintro r r' ⟨-, hcell, -⟩
    rw [Column.eval_map, isSome_resultsOf errors r engine.errors hcell]
  · refine (h.rows.filter ?_).mono fun _ _ hrow => ⟨hrow.1, hrow.2.1, hrow.2.2.1⟩
    rintro r r' ⟨-, hcell, hcell', -⟩
    rw [Column.eval_map, Column.eval_zip, isSome_resultsOf errors r engine.errors hcell,
      isSome_resultsOf warnings r engine.warnings hcell']

namespace DQEngineCore

variable {session : Session V} {engine : DQEngineCore} {ruleSetFingerprint : Text} {D : DataFrame V}
  {report : DQRule V → Report V} {checks : List (DQRule V)}

end DQEngineCore

namespace DQEngineCore

variable {session : Session V} {engine : DQEngineCore} {ruleSetFingerprint : Text} {D : DataFrame V}
  {report : DQRule V → Report V} {checks checks' : List (DQRule V)}

/-- What is asked of checks does not depend on their order. -/
theorem Sound.perm (sound : engine.Sound session ruleSetFingerprint D checks report)
    (hperm : checks.Perm checks') : engine.Sound session ruleSetFingerprint D checks' report where
  nodup := sound.nodup
  keeps c hc := sound.keeps c (hperm.mem_iff.mpr hc)
  ids c hc c' hc' := sound.ids c (hperm.mem_iff.mpr hc) c' (hperm.mem_iff.mpr hc')
  reports c hc := sound.reports c (hperm.mem_iff.mpr hc)
  added_nodup c hc := sound.added_nodup c (hperm.mem_iff.mpr hc)
  added_fresh c hc := sound.added_fresh c (hperm.mem_iff.mpr hc)
  added_disjoint := hperm.pairwise sound.added_disjoint fun h => h.symm
  isolated c hc e he n hn := (sound.isolated c (hperm.mem_iff.mpr hc) e he n hn).imp_right
    fun h c' hc' => h c' (hperm.mem_iff.mpr hc')

/-- The tables of two runs, with the same entries of every row in some order. -/
structure SameUpToOrder (engine : DQEngineCore) (D out out' : DataFrame V) : Prop where
  columns : ∀ n, n ∈ out.columns ↔ n ∈ out'.columns
  rows : Paired (fun r r' => Agree D.columns r r' ∧
      (∀ n ∈ [engine.errors, engine.warnings], ∃ items items',
        r n = .results items ∧ r' n = .results items' ∧ Option.Rel List.Perm items items') ∧
      (engine.info ∈ out.columns → (r engine.info).elements.Perm (r' engine.info).elements))
    out.rows out'.rows

theorem resultsOf_perm {said said' : List (Said V)} (h : said.Perm said') {r r' : Row V}
    (hentries : ∀ s ∈ said', s.entry r = s.entry r') :
    ∃ items items', resultsOf said r = .results items ∧ resultsOf said' r' = .results items' ∧
      Option.Rel List.Perm items items' := by
  have hperm : (said.filterMap fun s => s.entry r).Perm (said'.filterMap fun s => s.entry r') := by
    refine (h.filterMap _).trans (.of_eq ?_)
    exact List.filterMap_congr fun s hs => hentries s hs
  refine ⟨_, _, rfl, rfl, ?_⟩
  cases hitems : said.filterMap fun s => s.entry r with
  | nil =>
    rw [hitems] at hperm
    rw [List.nil_perm.mp hperm]
    exact .none
  | cons item rest =>
    rw [hitems] at hperm
    cases hitems' : said'.filterMap fun s => s.entry r' with
    | nil =>
      rw [hitems'] at hperm
      exact absurd hperm.symm (List.nil_perm.not.mpr (List.cons_ne_nil _ _))
    | cons item' rest' =>
      rw [hitems'] at hperm
      exact .some hperm

/-- The order in which checks are given changes the order of the entries, and nothing else. -/
theorem applyChecks_perm (sound : engine.Sound session ruleSetFingerprint D checks report)
    (hperm : checks.Perm checks') :
    ∃ out out' skipped skipped',
      engine.applyChecks session ruleSetFingerprint D checks = .ok (out, skipped) ∧
      engine.applyChecks session ruleSetFingerprint D checks' = .ok (out', skipped') ∧
      skipped.Perm skipped' ∧ SameUpToOrder engine D out out' := by
  obtain ⟨out, hout, hchecked⟩ := sound.applyChecks_spec
  obtain ⟨out', hout', hchecked'⟩ := (sound.perm hperm).applyChecks_spec
  have herrors := (hperm.filter fun check => check.criticality = error).map
    (engine.said session ruleSetFingerprint D report)
  have hwarnings := (hperm.filter fun check => check.criticality = warn).map
    (engine.said session ruleSetFingerprint D report)
  have hcolumns : ∀ n, n ∈ out.columns ↔ n ∈ out'.columns := by
    intro n
    have hnames : ∀ {l l' : List Text}, l.Perm l' → (l ≠ [] ↔ l' ≠ []) := fun h =>
      not_congr ⟨fun hl => (hl ▸ h).symm.eq_nil, fun hl => (hl ▸ h).eq_nil⟩
    rw [hchecked.mem_columns, hchecked'.mem_columns]
    exact or_congr_right (or_congr_right (or_congr_right (and_congr_right fun _ =>
      hnames ((herrors.append hwarnings).filterMap _))))
  refine ⟨out, out', _, _, hout, hout', ?_, hcolumns, ?_⟩
  · exact ((hperm.filter _).append (hperm.filter _)).flatMap_right _
  · refine (hchecked.rows.symm.trans hchecked'.rows).mono ?_
    rintro r r' ⟨b, ⟨hagree, herrorsCell, hwarningsCell, hinfo⟩, hagree', herrorsCell',
      hwarningsCell', hinfo'⟩
    refine ⟨hagree.symm.trans hagree', fun n hn => ?_, fun hin => ?_⟩
    · simp only [List.mem_cons, List.not_mem_nil, or_false] at hn
      rcases hn with rfl | rfl
      · rw [herrorsCell, herrorsCell']
        exact resultsOf_perm herrors fun _ _ => rfl
      · rw [hwarningsCell, hwarningsCell']
        exact resultsOf_perm hwarnings fun _ _ => rfl
    · rw [hinfo hin, hinfo' ((hcolumns _).mp hin)]
      exact (herrors.append hwarnings).filterMap _

end DQEngineCore

theorem Sample.applyChecks_reversed :
    ∃ out out' skipped skipped',
      engine.applyChecks session ['s'] df checks = .ok (out, skipped) ∧
      engine.applyChecks session ['s'] df checks.reverse = .ok (out', skipped') ∧
      skipped.Perm skipped' ∧ DQEngineCore.SameUpToOrder engine df out out' :=
  DQEngineCore.applyChecks_perm sound (List.reverse_perm checks).symm

end Dqx.Engine
