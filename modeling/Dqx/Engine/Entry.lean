import Dqx.Engine.Meaning

/-! The entry that a check leaves: a check that is skipped says so of every row, any other check says
of a row in its filter what its report says. The columns of other checks change neither. -/

namespace Dqx.Engine

open Lib Lib.Sql Lib.Tabular Utils

variable {V : Type} {session : Session V} {settings : Settings}

/-- The expressions that decide whether a check is skipped. -/
def DQRule.expressions (session : Session V) (check : DQRule V) : List (Expr V (Cell V)) :=
  ((check.columns.getD []).map session.checkColumn ++
    [(truthy check.effectiveFilter).bind session.expr, check.messageExpr.bind session.column,
      check.expression.bind session.expr]).reduceOption

namespace DQRuleManager

/-! ### Which checks are skipped -/

theorem isSome_filterPart (manager : DQRuleManager V) :
    (manager.filterPart session).isSome = manager.hasInvalidFilter session := by
  unfold filterPart hasInvalidFilter
  cases manager.hasUnsafeFilter session with
  | true => rfl
  | false =>
    rw [Bool.false_or, if_neg Bool.false_ne_true]
    split
    · next h => rw [h, Option.isSome_some]
    · next h => rw [Bool.not_eq_true _ |>.mp h, Option.isSome_none]

theorem isSkipped_eq (manager : DQRuleManager V) :
    manager.isSkipped session = !(manager.skipParts session).isEmpty := by
  have hcolumns : (manager.columnsPart session).isSome =
      !(manager.invalidColumns session).isEmpty := by
    unfold columnsPart
    split
    · next h => rw [h]; rfl
    · next h => rw [Bool.not_eq_true _ |>.mp h]; rfl
  have hmessage : (manager.messagePart session).isSome =
      manager.hasInvalidCustomMessage session := by
    unfold messagePart
    split
    · next h => rw [h]; rfl
    · next h => rw [Bool.not_eq_true _ |>.mp h]; rfl
  have hexpression : (manager.expressionPart session).isSome =
      (manager.invalidSqlExpression session).isSome := Option.isSome_map
  rw [isSkipped, ← hcolumns, ← isSome_filterPart, ← hmessage, ← hexpression, skipParts]
  cases manager.columnsPart session <;> cases manager.filterPart session <;>
    cases manager.messagePart session <;> cases manager.expressionPart session <;> rfl

theorem skippedDueTo_ne (reason : Text) : skippedDueTo reason ≠ [] := by
  refine List.append_ne_nil_of_left_ne_nil (fun h => ?_) reason
  exact absurd (String.toList_eq_nil_iff.mp h) (by decide)

theorem ne_nil_of_mem_skipParts {manager : DQRuleManager V} {part : Text}
    (h : part ∈ manager.skipParts session) : part ≠ [] := by
  obtain ⟨reason, rfl⟩ : ∃ reason, part = skippedDueTo reason := by
    rw [skipParts, List.reduceOption_mem_iff] at h
    simp only [List.mem_cons, List.not_mem_nil, or_false] at h
    rcases h with h | h | h | h
    · unfold columnsPart at h
      split at h
      · cases h
      · exact ⟨_, Option.some.inj h⟩
    · unfold filterPart at h
      dsimp only at h
      split at h
      · exact ⟨_, Option.some.inj h⟩
      · split at h
        · exact ⟨_, Option.some.inj h⟩
        · cases h
    · unfold messagePart at h
      split at h
      · exact ⟨_, Option.some.inj h⟩
      · cases h
    · obtain ⟨text, -, hpart⟩ := Option.map_eq_some_iff.mp h.symm
      exact ⟨_, hpart.symm⟩
  exact skippedDueTo_ne reason

/-- The checks that are reported as skipped are those with a message that says why. -/
theorem isEmpty_skipMessage (manager : DQRuleManager V) :
    (manager.skipMessage session).isEmpty = !manager.isSkipped session := by
  rw [isSkipped_eq, Bool.not_not, skipMessage]
  have hne : ∀ part ∈ manager.skipParts session, part ≠ [] := fun _ h => ne_nil_of_mem_skipParts h
  cases hparts : manager.skipParts session with
  | nil => rfl
  | cons part rest =>
    have hpart := hne part (hparts ▸ List.mem_cons_self)
    rw [List.isEmpty_cons, List.isEmpty_eq_false_iff]
    cases rest with
    | nil => simpa [List.intercalate] using hpart
    | cons next rest =>
      simp only [List.intercalate, List.intersperse, List.flatten_cons]
      exact List.append_ne_nil_of_left_ne_nil hpart _

/-! ### Whether a check is skipped does not depend on other checks -/

section Congruence

variable {manager manager' : DQRuleManager V}

/-- Two managers of one check, whose tables resolve the same of its expressions. -/
structure Alike (session : Session V) (manager manager' : DQRuleManager V) : Prop where
  check : manager.check = manager'.check
  body : manager.body = manager'.body
  ruleFingerprint : manager.ruleFingerprint = manager'.ruleFingerprint
  ruleSetFingerprint : manager.ruleSetFingerprint = manager'.ruleSetFingerprint
  df : ∀ e ∈ manager.check.expressions session,
    e.resolves manager.df.columns = e.resolves manager'.df.columns
  inputDf : ∀ e ∈ manager.check.expressions session,
    e.resolves manager.inputDf.columns = e.resolves manager'.inputDf.columns

theorem resolves_congr {df df' : DataFrame V} {expr : Option (Expr V (Cell V))}
    (h : ∀ e ∈ expr, e.resolves df.columns = e.resolves df'.columns) :
    resolves df expr = resolves df' expr := by
  cases expr with
  | none => rfl
  | some e => exact h e rfl

theorem mem_expressions {check : DQRule V} {expr : Option (Expr V (Cell V))} {e : Expr V (Cell V)}
    (h : expr ∈ (check.columns.getD []).map session.checkColumn ++
      [(DQRule.truthy check.effectiveFilter).bind session.expr,
        check.messageExpr.bind session.column, check.expression.bind session.expr])
    (he : e ∈ expr) : e ∈ check.expressions session := by
  rw [DQRule.expressions, List.reduceOption_mem_iff]
  exact Option.mem_def.mp he ▸ h

theorem Alike.invalidColumns (h : Alike session manager manager') :
    manager.invalidColumns session = manager'.invalidColumns session := by
  rw [DQRuleManager.invalidColumns, DQRuleManager.invalidColumns, ← h.check]
  congr 1
  refine List.filter_congr fun column hcolumn => congrArg (!·) (resolves_congr fun e he => ?_)
  refine h.inputDf e (mem_expressions ?_ he)
  exact List.mem_append_left _ (List.mem_map_of_mem hcolumn)

theorem Alike.hasInvalidFilter (h : Alike session manager manager') :
    manager.hasInvalidFilter session = manager'.hasInvalidFilter session := by
  have hcongr : ((filterExpr session manager.check.effectiveFilter).any fun column =>
        column.resolves manager.df.columns) =
      ((filterExpr session manager.check.effectiveFilter).any fun column =>
        column.resolves manager'.df.columns) := by
    unfold filterExpr
    split
    · rfl
    · next text htext =>
      cases hexpr : session.expr text with
      | none => rfl
      | some e =>
        refine h.df e (mem_expressions (List.mem_append_right _ List.mem_cons_self) ?_)
        rw [htext]
        exact hexpr
  rw [DQRuleManager.hasInvalidFilter, DQRuleManager.hasInvalidFilter, hasUnsafeFilter,
    hasUnsafeFilter, hcongr, ← h.check]

theorem Alike.hasInvalidCustomMessage (h : Alike session manager manager') :
    manager.hasInvalidCustomMessage session = manager'.hasInvalidCustomMessage session := by
  rw [DQRuleManager.hasInvalidCustomMessage, DQRuleManager.hasInvalidCustomMessage, ← h.check]
  cases hmessage : manager.check.messageExpr with
  | none => rfl
  | some message =>
    refine congrArg (!·) (resolves_congr fun e he => h.df e (mem_expressions ?_ he))
    refine List.mem_append_right _ (List.mem_cons_of_mem _ ?_)
    rw [hmessage]
    exact List.mem_cons_self

theorem Alike.invalidSqlExpression (h : Alike session manager manager') :
    manager.invalidSqlExpression session = manager'.invalidSqlExpression session := by
  rw [DQRuleManager.invalidSqlExpression, DQRuleManager.invalidSqlExpression, ← h.check]
  cases hexpression : manager.check.expression with
  | none => rfl
  | some text =>
    have hcongr : manager.isInvalidColumn session (.inl text) =
        manager'.isInvalidColumn session (.inl text) := by
      refine congrArg (!·) (resolves_congr fun e he => h.df e (mem_expressions ?_ he))
      refine List.mem_append_right _ (List.mem_cons_of_mem _ (List.mem_cons_of_mem _ ?_))
      rw [hexpression]
      exact List.mem_cons_self
    rw [Option.filter_some, Option.filter_some, hcongr]

theorem Alike.skipMessage (h : Alike session manager manager') :
    manager.skipMessage session = manager'.skipMessage session := by
  rw [DQRuleManager.skipMessage, DQRuleManager.skipMessage, skipParts, skipParts, columnsPart,
    columnsPart, filterPart, filterPart, messagePart, messagePart, expressionPart, expressionPart,
    h.invalidColumns, h.hasInvalidFilter, h.hasInvalidCustomMessage, h.invalidSqlExpression,
    hasUnsafeFilter, hasUnsafeFilter, customMessageDetail, customMessageDetail, h.check]

theorem Alike.isSkipped (h : Alike session manager manager') :
    manager.isSkipped session = manager'.isSkipped session := by
  rw [DQRuleManager.isSkipped, DQRuleManager.isSkipped, h.invalidColumns, h.hasInvalidFilter,
    h.hasInvalidCustomMessage, h.invalidSqlExpression]

end Congruence

/-! ### The entry of a row -/

section Entries

variable (session settings) (manager : DQRuleManager V)

/-- The row is in the filter of the check. -/
def inFilter (r : Row V) : Bool :=
  (filterExpr session manager.check.filter).any fun column => column.eval r = some true

/-- The message of a row where the check fails: its own, or that of the check function. -/
def messageOf (outcome : Row V → Option Text) (r : Row V) : Option Text :=
  match manager.check.messageExpr with
  | none => outcome r
  | some message => (outcome r).bind fun _ => (session.column message).bind fun column =>
      (session.string (column.eval r)).map (·.take maxMessageLength)

/-- The entry that the check leaves at a row. -/
def entry (outcome : Row V → Option Text) (r : Row V) : Option ResultItem :=
  if manager.isSkipped session then
    if settings.suppressSkipped then none
    else some (manager.resultItem session settings (some (manager.skipMessage session)) true)
  else if manager.inFilter session r && (outcome r).isSome then
    some (manager.resultItem session settings (manager.messageOf session outcome r) false)
  else none

end Entries

variable {manager manager' : DQRuleManager V} {D F : DataFrame V} {report : Report V}

theorem Alike.resultItem (h : Alike session manager manager') (message : Option Text)
    (skipped : Bool) :
    manager.resultItem session settings message skipped =
      manager'.resultItem session settings message skipped := by
  rw [DQRuleManager.resultItem, DQRuleManager.resultItem, columnNames, columnNames, userMetadata,
    userMetadata, h.check, h.ruleFingerprint, h.ruleSetFingerprint]

theorem Alike.entry (h : Alike session manager manager') :
    manager.entry session settings = manager'.entry session settings := by
  funext outcome r
  rw [DQRuleManager.entry, DQRuleManager.entry, h.isSkipped, h.skipMessage, h.resultItem,
    h.resultItem, inFilter, inFilter, messageOf, messageOf, h.check]

/-- The filter of a check that is not skipped can be resolved. -/
theorem filterExpr_of_not_isSkipped (h : manager.isSkipped session = false) :
    ∃ column, filterExpr session manager.check.filter = some column ∧
      column.resolves manager.df.columns = true := by
  have hfilter : manager.hasInvalidFilter session = false := by
    simp only [isSkipped, Bool.or_eq_false_iff] at h
    exact h.1.1.2
  rw [hasInvalidFilter, Bool.or_eq_false_iff, Bool.not_eq_false', Option.any_eq_true] at hfilter
  obtain ⟨column, hcolumn, hresolves⟩ := hfilter.2
  cases htruthy : DQRule.truthy manager.check.filter with
  | none => exact ⟨.lit (some true), by rw [filterExpr, htruthy], rfl⟩
  | some text =>
    have heffective : DQRule.truthy manager.check.effectiveFilter = some text := by
      rw [DQRule.effectiveFilter, htruthy]
      obtain ⟨-, hne⟩ := Option.filter_eq_some_iff.mp htruthy
      rw [DQRule.truthy, Option.filter_some, if_pos hne]
    rw [filterExpr, heffective] at hcolumn
    exact ⟨column, by rw [filterExpr, htruthy]; exact hcolumn, hresolves⟩

/-- The message expression of a check that is not skipped can be resolved. -/
theorem messageExpr_of_not_isSkipped (h : manager.isSkipped session = false)
    {message : Text ⊕ Expr V (Cell V)} (hmessage : manager.check.messageExpr = some message) :
    ∃ column, session.column message = some column ∧
      column.resolves manager.df.columns = true := by
  have hcustom : manager.hasInvalidCustomMessage session = false := by
    simp only [isSkipped, Bool.or_eq_false_iff] at h
    exact h.1.2
  rw [hasInvalidCustomMessage, hmessage, Option.any_some, isInvalidColumn, Bool.not_eq_false',
    resolves, Option.any_eq_true] at hcustom
  exact hcustom

/-- A condition with the metadata of its check says the entry of every row. -/
theorem wrapResult_attached {G : DataFrame V} {added : List Text}
    {condition : Expr V (Option Text)} {outcome : Row V → Option Text}
    {info : Option (Text × (Row V → Cell V))} (hskip : manager.isSkipped session = false)
    (hF : manager.df.columns ⊆ F.columns) (hG : G.columns.Nodup)
    (h : Attached F G added condition outcome info) (name : Option Text) :
    ∃ wrapped, manager.wrapResult session settings ⟨condition, G, name⟩ = .ok ⟨wrapped, G, name⟩ ∧
      Attached F G added wrapped (manager.entry session settings outcome) info := by
  obtain ⟨filter, hfilter, hfilterResolves⟩ := filterExpr_of_not_isSkipped hskip
  have hsub : manager.df.columns ⊆ G.columns :=
    fun n hn => h.columns.mem_iff.mpr (List.mem_append_left _ (hF hn))
  have hfilterG := Column.resolves_mono hfilterResolves hsub hG
  cases hmessage : manager.check.messageExpr with
  | none =>
    refine ⟨_, by rw [wrapResult, buildMessageCol, hmessage, hfilter]; rfl, h.columns, ?_, ?_⟩
    · simp only [Column.resolves_map, Column.resolves_zip, hfilterG, h.resolves, Bool.and_self]
    · refine h.rows.mono fun r r' hrow => ⟨hrow.1, ?_, hrow.2.2⟩
      have hfilterEval := Column.eval_eq_of_resolves hfilterResolves (hrow.1.mono hF)
      simp only [Column.eval_map, Column.eval_zip, hrow.2.1, entry, hskip, inFilter, hfilter,
        messageOf, hmessage, ← hfilterEval]
      simp
  | some message =>
    obtain ⟨custom, hcustom, hcustomResolves⟩ := messageExpr_of_not_isSkipped hskip hmessage
    refine ⟨_, by rw [wrapResult, buildMessageCol, hmessage]; dsimp only; rw [hcustom, hfilter]; rfl,
      h.columns, ?_, ?_⟩
    · simp only [Column.resolves_map, Column.resolves_zip, hfilterG, h.resolves, Bool.and_self,
        Column.resolves_mono hcustomResolves hsub hG]
    · refine h.rows.mono fun r r' hrow => ⟨hrow.1, ?_, hrow.2.2⟩
      have hfilterEval := Column.eval_eq_of_resolves hfilterResolves (hrow.1.mono hF)
      have hcustomEval := Column.eval_eq_of_resolves hcustomResolves (hrow.1.mono hF)
      simp only [Column.eval_map, Column.eval_zip, hrow.2.1, entry, hskip, inFilter, hfilter,
        messageOf, hmessage, hcustom, ← hfilterEval, ← hcustomEval]
      simp

theorem datasetAggregate_eq_some {aggregate : DatasetAggregate V} :
    manager.datasetAggregate session = some aggregate ↔
      manager.check.isDataset = true ∧ manager.isSkipped session = false ∧
        ∃ condition info, manager.body = .dataset condition (.aggregate aggregate) info := by
  rw [datasetAggregate, isEmpty_skipMessage, Bool.not_not]
  cases manager.check.isDataset with
  | false => simp
  | true =>
    cases manager.isSkipped session with
    | true => simp
    | false =>
      rw [if_neg (by decide)]
      cases manager.body with
      | row condition => simp
      | dataset condition closure info =>
        cases closure with
        | custom run => simp
        | aggregate shared => simp

/-! ### Every way to execute a check -/

/-- The executors attach what the report says. -/
theorem execute_attached (hreports : Reports D manager.body report)
    (hinput : manager.body.isDataset = true → manager.inputDf = D) (hover : D.Extends F)
    (hadded : report.added.Nodup) (hfresh : ∀ n ∈ report.added, n ∉ F.columns) :
    ∃ G, manager.execute F = .ok ⟨manager.body.condition, G, report.info.map Prod.fst⟩ ∧
      Attached F G report.added manager.body.condition report.outcome report.info := by
  cases hreports' : manager.body with
  | row condition =>
    rw [hreports'] at hreports
    cases hreports with
    | row h =>
      refine ⟨F, by rw [execute, hreports']; rfl, attached_self ?_⟩
      exact Column.resolves_mono h hover.columns hover.nodup
  | dataset condition closure info =>
    have hD := hinput (by rw [hreports']; rfl)
    rw [hreports'] at hreports
    cases hreports with
    | aggregate h =>
      obtain ⟨G, hG, hattached⟩ := DatasetAggregate.apply_attached h hover hadded hfresh
      exact ⟨G, by rw [execute, hreports', hD]; dsimp only; rw [hG]; rfl, hattached⟩
    | custom h =>
      obtain ⟨G, hG, hattached⟩ := h.runs F hover hfresh
      refine ⟨G, ?_, hattached⟩
      rw [execute, hreports', hD]
      dsimp only
      rw [Closure.apply, hG, ← h.info_name]
      rfl

theorem process_skipped (hskip : manager.isSkipped session = true) (added : Bool) :
    ∃ result, manager.process session settings F added = .ok result ∧ result.checkDf = F ∧
      result.infoColumnName = none ∧
      Attached F F [] result.condition (manager.entry session settings report.outcome) none := by
  have hmessage : (!(manager.skipMessage session).isEmpty) = true := by
    rw [isEmpty_skipMessage, hskip]
    rfl
  refine ⟨_, by rw [process, if_pos hmessage], rfl, rfl, ?_⟩
  refine ⟨by rw [List.append_nil], rfl, .of_forall₂ (List.forall₂_same.mpr fun r _ => ?_)⟩
  refine ⟨.refl _ r, ?_, fun i hi => absurd hi (Option.not_mem_none i)⟩
  rw [Column.eval_lit, entry, if_pos hskip]

theorem process_of_not_isSkipped (hskip : manager.isSkipped session = false) (added : Bool) :
    manager.process session settings F added = (do
      let raw ← if added then
          match manager.datasetAggregate session with
          | some aggregate => do
            let checkDf ← aggregate.addCondition F
            pure ⟨manager.body.condition, checkDf, none⟩
          | none => manager.execute F
        else manager.execute F
      manager.wrapResult session settings raw) := by
  have hmessage : ¬(!(manager.skipMessage session).isEmpty) = true := by
    rw [isEmpty_skipMessage, hskip]
    decide
  rw [process, if_neg hmessage]
  cases added <;> cases manager.datasetAggregate session <;> rfl

theorem process_executed (hskip : manager.isSkipped session = false) {added : Bool}
    (hexecuted : added = true → manager.datasetAggregate session = none)
    (hreports : Reports D manager.body report)
    (hinput : manager.body.isDataset = true → manager.inputDf = D) (hover : D.Extends F)
    (hdf : manager.df.columns ⊆ F.columns) (hadded : report.added.Nodup)
    (hfresh : ∀ n ∈ report.added, n ∉ F.columns) :
    ∃ result, manager.process session settings F added = .ok result ∧
      result.infoColumnName = report.info.map Prod.fst ∧
      Attached F result.checkDf report.added result.condition
        (manager.entry session settings report.outcome) report.info := by
  obtain ⟨G, hexecute, hattached⟩ := execute_attached hreports hinput hover hadded hfresh
  obtain ⟨wrapped, hwrapped, hentry⟩ := @wrapResult_attached _ session settings _ _ _ _ _ _ _ hskip hdf
    (hattached.nodup hover.nodup hadded hfresh) hattached (report.info.map Prod.fst)
  refine ⟨⟨wrapped, G, report.info.map Prod.fst⟩, ?_, rfl, hentry⟩
  rw [process_of_not_isSkipped hskip]
  cases added with
  | false =>
    rw [if_neg Bool.false_ne_true, hexecute]
    exact hwrapped
  | true =>
    rw [if_pos rfl, hexecuted rfl]
    dsimp only
    rw [hexecute]
    exact hwrapped

/-- A shared aggregate says of every row what it says on its own. -/
theorem process_shared (hskip : manager.isSkipped session = false)
    {aggregate : DatasetAggregate V} {condition : Expr V (Option Text)} {metric : Cell V}
    (hbody : manager.body = .dataset condition (.aggregate aggregate) none)
    (hshared : manager.datasetAggregate session = some aggregate)
    (hfits : aggregate.Fits D condition metric) (hover : D.Extends F)
    (hdf : manager.df.columns ⊆ F.columns) (hmetric : aggregate.metricCol ∈ F.columns)
    (hcells : ∀ r ∈ F.rows, r aggregate.metricCol = metric)
    (hfresh : aggregate.conditionCol ∉ F.columns) :
    ∃ result, manager.process session settings F true = .ok result ∧
      result.infoColumnName = none ∧
      Attached F result.checkDf [aggregate.conditionCol] result.condition
        (manager.entry session settings (aggregate.report condition metric).outcome) none := by
  obtain ⟨G, hG, hattached⟩ := DatasetAggregate.addCondition_attached hfits hover.columns hover.nodup
    hmetric hcells hfresh
  have hnew : ∀ n ∈ [aggregate.conditionCol], n ∉ F.columns := fun n hn =>
    (List.mem_singleton.mp hn) ▸ hfresh
  obtain ⟨wrapped, hwrapped, hentry⟩ := @wrapResult_attached _ session settings _ _ _ _ _ _ _ hskip hdf
    (hattached.nodup hover.nodup (List.nodup_singleton _) hnew) hattached none
  refine ⟨⟨wrapped, G, none⟩, ?_, rfl, hentry⟩
  rw [process_of_not_isSkipped hskip, if_pos rfl, hshared, hbody]
  dsimp only
  rw [hG]
  exact hwrapped

end DQRuleManager

end Dqx.Engine
