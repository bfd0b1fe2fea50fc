import Dqx.Engine.Observer

/-! What the summary metrics are of: the rows of the input, and what the checks say of them. -/

namespace Dqx.Engine

open Lib Lib.Sql Lib.Tabular Utils

variable {V : Type}

/-- The row is in the filter by which the rows of the check are counted. -/
def DQRuleManager.inEffectiveFilter (session : Session V) (manager : DQRuleManager V) (r : Row V) :
    Bool :=
  (DQRuleManager.filterExpr session manager.check.effectiveFilter).any fun column =>
    column.eval r = some true

namespace DQEngineCore

variable (session : Session V) (engine : DQEngineCore) (ruleSetFingerprint : Text) (D : DataFrame V)
  (report : DQRule V → Report V)

/-- Some check of the fingerprint leaves an entry at the row. -/
def failsOf (checks : List (DQRule V)) (fingerprint : Text) (r : Row V) : Bool :=
  checks.any fun check => check.ruleFingerprint = fingerprint &&
    ((engine.said session ruleSetFingerprint D report check).entry r).isSome

/-- Some check of the fingerprint is skipped. -/
def skippedOf (checks : List (DQRule V)) (fingerprint : Text) : Bool :=
  checks.any fun check => check.ruleFingerprint = fingerprint &&
    (engine.inputManager ruleSetFingerprint D check).isSkipped session

/-- The metrics of a run, as counts over the rows of the input. -/
def summary (checks : List (DQRule V)) : Metrics where
  inputRowCount := D.rows.length
  errorRowCount := D.rows.countP (failing ((getCheckColumns checks error).map
    (engine.said session ruleSetFingerprint D report)))
  warningRowCount := D.rows.countP (failing ((getCheckColumns checks warn).map
    (engine.said session ruleSetFingerprint D report)))
  validRowCount := D.rows.countP fun r =>
    !failing ((getCheckColumns checks error).map (engine.said session ruleSetFingerprint D report)) r &&
      !failing ((getCheckColumns checks warn).map (engine.said session ruleSetFingerprint D report)) r
  checkMetrics := if checks.isEmpty then none else some (checks.map fun check =>
    { checkName := check.name
      ruleFingerprint := check.ruleFingerprint
      errorCount := D.rows.countP (failsOf session engine ruleSetFingerprint D report
        (getCheckColumns checks error) check.ruleFingerprint)
      warningCount := D.rows.countP (failsOf session engine ruleSetFingerprint D report
        (getCheckColumns checks warn) check.ruleFingerprint)
      checkedCount :=
        if skippedOf session engine ruleSetFingerprint D checks check.ruleFingerprint then 0
        else D.rows.countP
          ((engine.inputManager ruleSetFingerprint D check).inEffectiveFilter session)
      userMetadata := check.userMetadata.filter fun metadata => !metadata.isEmpty })

variable {session engine ruleSetFingerprint D report} {checks : List (DQRule V)}

theorem ruleFingerprint_of_entry {check : DQRule V} {r : Row V} {item : ResultItem}
    (h : (engine.said session ruleSetFingerprint D report check).entry r = some item) :
    item.ruleFingerprint = check.ruleFingerprint := by
  unfold said DQRuleManager.entry at h
  dsimp only at h
  split at h
  · split at h
    · cases h
    · rw [← Option.some.inj h]
      rfl
  · split at h
    · rw [← Option.some.inj h]
      rfl
    · cases h

/-- The entries of a row tell which checks it fails. -/
theorem eval_hasFingerprint {pass : List (DQRule V)} {column fingerprint : Text} {r r' : Row V}
    (h : r' column = resultsOf (pass.map (engine.said session ruleSetFingerprint D report)) r) :
    (hasFingerprint column fingerprint).eval r' =
      failsOf session engine ruleSetFingerprint D report pass fingerprint r := by
  have hentries : (pass.map (engine.said session ruleSetFingerprint D report)).filterMap
      (fun s => s.entry r) = pass.filterMap fun check =>
        (engine.said session ruleSetFingerprint D report check).entry r := List.filterMap_map
  have hany : ((pass.filterMap fun check =>
        (engine.said session ruleSetFingerprint D report check).entry r).any fun entry =>
          decide (entry.ruleFingerprint = fingerprint)) =
      failsOf session engine ruleSetFingerprint D report pass fingerprint r := by
    rw [List.any_filterMap, failsOf]
    refine congrArg pass.any (funext fun check => ?_)
    cases hentry : (engine.said session ruleSetFingerprint D report check).entry r with
    | none => simp
    | some item => simp [ruleFingerprint_of_entry hentry]
  rw [hasFingerprint, Column.eval_map, Column.eval_col, h, resultsOf, hentries, ← hany]
  cases pass.filterMap fun check => (engine.said session ruleSetFingerprint D report check).entry r with
  | nil => rfl
  | cons item rest => rfl

theorem mem_skippedFingerprints {pass : List (DQRule V)} {fingerprint : Text} :
    fingerprint ∈ pass.flatMap (engine.skippedFingerprint session ruleSetFingerprint D) ↔
      skippedOf session engine ruleSetFingerprint D pass fingerprint = true := by
  rw [List.mem_flatMap, skippedOf, List.any_eq_true]
  refine exists_congr fun check => and_congr_right fun _ => ?_
  unfold skippedFingerprint
  split
  · next hskip => simp [hskip, eq_comm]
  · next hskip => simp [hskip]

theorem countWhen_eq {base df : DataFrame V} {R : Row V → Row V → Prop}
    (hrows : Paired R base.rows df.rows) {condition : Expr V Bool} {p : Row V → Bool}
    (hresolves : condition.resolves df.columns = true)
    (h : ∀ r r', R r r' → p r = condition.eval r') :
    countWhen df condition = .ok (base.rows.countP p) := by
  rw [countWhen, if_pos hresolves, hrows.countP_eq h]

theorem mem_skipped (hcriticality : ∀ c ∈ checks, c.criticality = error ∨ c.criticality = warn)
    (fingerprint : Text) :
    fingerprint ∈ (getCheckColumns checks error ++ getCheckColumns checks warn).flatMap
        (engine.skippedFingerprint session ruleSetFingerprint D) ↔
      skippedOf session engine ruleSetFingerprint D checks fingerprint = true := by
  rw [mem_skippedFingerprints, skippedOf, skippedOf, List.any_eq_true, List.any_eq_true]
  refine exists_congr fun check => and_congr_left fun _ => ?_
  simp only [getCheckColumns, List.mem_append, List.mem_filter, decide_eq_true_eq, ← and_or_left]
  exact ⟨fun h => h.1, fun h => ⟨h, hcriticality check h⟩⟩

namespace Sound

variable (sound : engine.Sound session ruleSetFingerprint D checks report)

include sound

theorem checkedCount_eq {out : DataFrame V} {errors warnings : List (Said V)}
    (hchecked : Checked engine D out errors warnings) {skipped : List Text} {check : DQRule V}
    (hskipped : check.ruleFingerprint ∈ skipped ↔
      skippedOf session engine ruleSetFingerprint D checks check.ruleFingerprint = true)
    (hcheck : check ∈ checks) :
    checkedCount session out skipped check = .ok
      (if skippedOf session engine ruleSetFingerprint D checks check.ruleFingerprint then 0
        else D.rows.countP
          ((engine.inputManager ruleSetFingerprint D check).inEffectiveFilter session)) := by
  have heffective : (engine.inputManager ruleSetFingerprint D check).check.effectiveFilter =
      check.effectiveFilter := rfl
  have hlength : D.rows.length = out.rows.length := hchecked.rows.length_eq
  unfold checkedCount
  split
  · next htruthy =>
    have hall : (engine.inputManager ruleSetFingerprint D check).inEffectiveFilter session =
        fun _ => true := by
      funext r
      rw [DQRuleManager.inEffectiveFilter, heffective, DQRuleManager.filterExpr, htruthy]
      rfl
    rw [hall, List.countP_true, hlength]
    by_cases hin : check.ruleFingerprint ∈ skipped
    · rw [if_pos hin, if_pos (hskipped.mp hin)]
    · rw [if_neg hin, if_neg (hskipped.not.mp hin)]
  · next filter htruthy =>
    by_cases hin : check.ruleFingerprint ∈ skipped
    · rw [if_pos (by simp [hin]), if_pos (hskipped.mp hin)]
    · have hskip : (engine.inputManager ruleSetFingerprint D check).isSkipped session = false := by
        cases hskip : (engine.inputManager ruleSetFingerprint D check).isSkipped session with
        | false => rfl
        | true =>
          refine absurd (hskipped.mpr (List.any_eq_true.mpr ⟨check, hcheck, ?_⟩)) hin
          rw [hskip, decide_eq_true rfl]
          rfl
      have hvalid : (engine.inputManager ruleSetFingerprint D check).hasInvalidFilter session =
          false := by
        simp only [DQRuleManager.isSkipped, Bool.or_eq_false_iff] at hskip
        exact hskip.1.1.2
      rw [DQRuleManager.hasInvalidFilter, Bool.or_eq_false_iff, Bool.not_eq_false',
        Option.any_eq_true, heffective, DQRuleManager.filterExpr, htruthy] at hvalid
      obtain ⟨hsafe, column, hcolumn, hresolves⟩ := hvalid
      obtain ⟨condition, hcondition, rfl⟩ := Option.map_eq_some_iff.mp hcolumn
      rw [DQRuleManager.hasUnsafeFilter, heffective, htruthy, Option.any_some,
        Bool.not_eq_false'] at hsafe
      rw [if_neg (by simp [hin, hsafe]), if_neg (hskipped.not.mp hin), hcondition]
      refine countWhen_eq hchecked.rows ?_ fun r r' hrow => ?_
      · rw [Column.resolves_map] at hresolves ⊢
        exact Column.resolves_mono hresolves
          (fun n hn => (hchecked.mem_columns n).mpr (.inl hn)) hchecked.nodup
      · have hfilter : DQRuleManager.filterExpr session check.effectiveFilter =
            some (condition.map session.truth) := by
          rw [DQRuleManager.filterExpr, htruthy]
          exact congrArg (Option.map _) hcondition
        rw [DQRuleManager.inEffectiveFilter, heffective, hfilter, Option.any_some, Column.eval_map,
          Column.eval_map]
        exact congrArg (fun truth => decide (truth = some true))
          (Column.eval_eq_of_resolves hresolves hrow.1)

/-- Over the checked table, with the checks that were skipped, the metrics are those of the input. -/
theorem getMetrics_eq {out : DataFrame V}
    (hchecked : Checked engine D out
      ((getCheckColumns checks error).map (engine.said session ruleSetFingerprint D report))
      ((getCheckColumns checks warn).map (engine.said session ruleSetFingerprint D report)))
    {skipped : List Text} (hskipped : ∀ fingerprint, fingerprint ∈ skipped ↔
      skippedOf session engine ruleSetFingerprint D checks fingerprint = true) :
    engine.getMetrics session checks out skipped =
      .ok (summary session engine ruleSetFingerprint D report checks) := by
  have hresolves {column : Text} (hcolumn : column ∈ out.columns) :
      (Column.col column : Expr V (Cell V)).resolves out.columns = true :=
    Column.resolves_col hcolumn hchecked.nodup
  have herrors := hresolves ((hchecked.mem_columns engine.errors).mpr (.inr (.inl rfl)))
  have hwarnings := hresolves ((hchecked.mem_columns engine.warnings).mpr (.inr (.inr (.inl rfl))))
  have hcheckMetrics : ∀ check ∈ checks, engine.checkMetrics session out skipped check = .ok
      { checkName := check.name
        ruleFingerprint := check.ruleFingerprint
        errorCount := D.rows.countP (failsOf session engine ruleSetFingerprint D report
          (getCheckColumns checks error) check.ruleFingerprint)
        warningCount := D.rows.countP (failsOf session engine ruleSetFingerprint D report
          (getCheckColumns checks warn) check.ruleFingerprint)
        checkedCount :=
          if skippedOf session engine ruleSetFingerprint D checks check.ruleFingerprint then 0
          else D.rows.countP
            ((engine.inputManager ruleSetFingerprint D check).inEffectiveFilter session)
        userMetadata := check.userMetadata.filter fun metadata => !metadata.isEmpty } := by
    intro check hcheck
    rw [checkMetrics, countWhen_eq hchecked.rows herrors fun r r' hrow =>
        (eval_hasFingerprint hrow.2.1).symm,
      countWhen_eq hchecked.rows hwarnings fun r r' hrow =>
        (eval_hasFingerprint hrow.2.2.1).symm,
      sound.checkedCount_eq hchecked (hskipped _) hcheck]
    rfl
  rw [getMetrics, mapM_eq_map hcheckMetrics, countWhen_eq hchecked.rows herrors fun r r' hrow =>
      (isSome_resultsOf _ r engine.errors hrow.2.1).symm,
    countWhen_eq hchecked.rows hwarnings fun r r' hrow =>
      (isSome_resultsOf _ r engine.warnings hrow.2.2.1).symm,
    countWhen_eq hchecked.rows (p := fun r =>
        !failing ((getCheckColumns checks error).map
            (engine.said session ruleSetFingerprint D report)) r &&
          !failing ((getCheckColumns checks warn).map
            (engine.said session ruleSetFingerprint D report)) r)
      (by rw [Column.resolves_map, Column.resolves_zip]; exact Bool.and_eq_true_iff.mpr
            ⟨herrors, hwarnings⟩)
      fun r r' hrow => ?_]
  · rw [summary, hchecked.rows.length_eq]
    rfl
  · rw [Column.eval_map, Column.eval_zip, isSome_resultsOf _ r engine.errors hrow.2.1,
      isSome_resultsOf _ r engine.warnings hrow.2.2.1]

/-- On the checked table a check is found to be skipped as it was on the input, where a check that takes
all columns can name them. -/
theorem isSkipped_summaryManager {out : DataFrame V} {errors warnings : List (Said V)}
    (hchecked : Checked engine D out errors warnings)
    (hnamed : ∀ n ∈ D.columns, DQRuleManager.resolves D (session.checkColumn (.text n)) = true)
    {check : DQRule V} (hcheck : check ∈ checks) :
    (summaryManager out check).isSkipped session =
      (engine.inputManager ruleSetFingerprint D check).isSkipped session := by
  have hnodup : D.columns.Nodup := (List.nodup_append.mp sound.nodup).1
  have hresolves : ∀ e ∈ (engine.preselectOriginalColumns D check).expressions session,
      e.resolves out.columns = e.resolves D.columns := by
    intro e he
    refine Column.resolves_eq (fun n hn => (hchecked.mem_columns n).mpr (.inl hn)) hchecked.nodup
      hnodup fun n hn hin => ?_
    have hreserved := (sound.isolated check hcheck e he n hn).1
    simp only [resultColumnNames, List.mem_cons, List.not_mem_nil, or_false, not_or] at hreserved
    rcases (hchecked.mem_columns n).mp hin with h | h | h | ⟨h, -⟩
    · exact h
    · exact absurd h hreserved.1
    · exact absurd h hreserved.2.1
    · exact absurd h hreserved.2.2
  have halike : DQRuleManager.Alike session
      (engine.buildManager ruleSetFingerprint D check out out)
      (engine.inputManager ruleSetFingerprint D check) :=
    ⟨rfl, rfl, rfl, rfl, hresolves, hresolves⟩
  have hcolumns : ((summaryManager out check).invalidColumns session).isEmpty =
      ((engine.buildManager ruleSetFingerprint D check out out).invalidColumns session).isEmpty := by
    cases hgiven : check.columns with
    | some columns =>
      rw [DQRuleManager.invalidColumns, DQRuleManager.invalidColumns, summaryManager, buildManager,
        preselectOriginalColumns]
      dsimp only
      rw [hgiven]
      rfl
    | none =>
      have hempty : (summaryManager out check).invalidColumns session = [] := by
        rw [DQRuleManager.invalidColumns, summaryManager]
        dsimp only
        rw [hgiven]
        rfl
      rw [hempty, halike.invalidColumns, DQRuleManager.invalidColumns]
      refine (List.isEmpty_iff.mpr ?_).symm
      rw [List.map_eq_nil_iff, List.filter_eq_nil_iff]
      intro column hcolumn
      have hpreselected : (engine.inputManager ruleSetFingerprint D check).check.columns =
          (engine.preselected D check).map (·.map CheckColumn.text) := by
        show check.columns.or _ = _
        rw [hgiven]
        rfl
      rw [hpreselected, preselected] at hcolumn
      split at hcolumn
      · obtain ⟨n, hn, rfl⟩ := List.mem_map.mp hcolumn
        have hvalid := hnamed n (List.mem_of_mem_filter hn)
        rw [DQRuleManager.isInvalidCheckColumn]
        show ¬(!DQRuleManager.resolves D _) = true
        rw [hvalid]
        exact Bool.false_ne_true
      · cases hcolumn
  rw [← halike.isSkipped, DQRuleManager.isSkipped, DQRuleManager.isSkipped, hcolumns]
  rfl

end Sound

end DQEngineCore

end Dqx.Engine
