import Dqx.Engine.Outcome

/-! A pass over the checks of one criticality: every round adds what its check says on its own, whichever
of the three ways the engine takes to execute it. -/

namespace Dqx.Engine

open Lib Lib.Sql Lib.Tabular

variable {V : Type}

namespace DQEngineCore

variable (session : Session V) (engine : DQEngineCore) (ruleSetFingerprint : Text) (D : DataFrame V)
  (report : DQRule V → Report V)

/-- The columns that a check adds in its round. The metric of an aggregate is there before. -/
def temporaries (check : DQRule V) : List Text :=
  match (engine.inputManager ruleSetFingerprint D check).datasetAggregate session with
  | some aggregate => [aggregate.conditionCol]
  | none => if (engine.inputManager ruleSetFingerprint D check).isSkipped session then []
    else (report check).added

/-- The check has a shared aggregate whose metric column has this name. -/
def SharedMetric (cs : List (DQRule V)) (name : Text) : Prop :=
  ∃ c ∈ cs, ∃ aggregate, (engine.inputManager ruleSetFingerprint D c).datasetAggregate session =
    some aggregate ∧ aggregate.metricCol = name

/-- A table from which a pass can start: the input, result columns and shared metrics. -/
structure Base (cs : List (DQRule V)) (base : DataFrame V) : Prop where
  extension : D.Extends base
  columns : ∀ n ∈ base.columns, n ∈ D.columns ∨ n ∈ engine.resultColumnNames ∨
    SharedMetric session engine ruleSetFingerprint D cs n
  metrics : ∀ c ∈ cs, ∀ aggregate,
    (engine.inputManager ruleSetFingerprint D c).datasetAggregate session = some aggregate →
      aggregate.metricCol ∈ base.columns ∧
        ∀ metric, aggregate.metric D = .ok (aggregate.metricCol, metric) →
          ∀ r ∈ base.rows, r aggregate.metricCol = metric

/-- The fingerprint of a check that is skipped. -/
def skippedFingerprint (check : DQRule V) : List Text :=
  if (engine.inputManager ruleSetFingerprint D check).isSkipped session then [check.ruleFingerprint]
  else []

variable {session engine ruleSetFingerprint D report} {checks cs : List (DQRule V)}
  {base : DataFrame V}

namespace Sound

variable (sound : engine.Sound session ruleSetFingerprint D checks report)

include sound

theorem temporaries_subset {c : DQRule V} (hc : c ∈ checks) :
    engine.temporaries session ruleSetFingerprint D report c ⊆ (report c).added := by
  unfold temporaries
  split
  · next aggregate h =>
    obtain ⟨condition, metric, -, hreport, -⟩ := sound.fits hc h
    rw [hreport]
    exact List.subset_cons_self _ _
  · split
    · exact List.nil_subset _
    · exact List.Subset.refl _

theorem nodup_temporaries {c : DQRule V} (hc : c ∈ checks) :
    (engine.temporaries session ruleSetFingerprint D report c).Nodup := by
  unfold temporaries
  split
  · exact List.nodup_singleton _
  · split
    · exact List.nodup_nil
    · exact sound.added_nodup c hc

/-- A check adds no column that is a shared metric. -/
theorem not_sharedMetric (hcs : ∀ c ∈ cs, c ∈ checks) {c : DQRule V} (hc : c ∈ checks) {n : Text}
    (hn : n ∈ engine.temporaries session ruleSetFingerprint D report c) :
    ¬SharedMetric session engine ruleSetFingerprint D cs n := by
  rintro ⟨c', hc', aggregate, haggregate, rfl⟩
  obtain ⟨_, _, -, hreport, -⟩ := sound.fits (hcs c' hc') haggregate
  have hmetric : aggregate.metricCol ∈ (report c').added := by
    rw [hreport]
    exact List.mem_cons_self
  by_cases heq : c' = c
  · subst heq
    have hnodup := sound.added_nodup c' hc
    unfold temporaries at hn
    rw [haggregate] at hn
    rw [hreport] at hnodup
    exact (List.nodup_cons.mp hnodup).1 hn
  · exact sound.disjoint (hcs c' hc') hc heq hmetric (sound.temporaries_subset hc hn)

theorem temporaries_fresh (hcs : ∀ c ∈ cs, c ∈ checks)
    (hbase : Base session engine ruleSetFingerprint D cs base) {c : DQRule V} (hc : c ∈ checks)
    {n : Text} (hn : n ∈ engine.temporaries session ruleSetFingerprint D report c) :
    n ∉ base.columns := by
  intro hin
  have hfresh := sound.added_fresh c hc n (sound.temporaries_subset hc hn)
  rw [List.mem_append, not_or] at hfresh
  rcases hbase.columns n hin with h | h | h
  · exact hfresh.1 h
  · exact hfresh.2 h
  · exact sound.not_sharedMetric hcs hc hn h

theorem said_info {c : DQRule V} (hc : c ∈ checks) :
    ∀ i ∈ (engine.said session ruleSetFingerprint D report c).info,
      (∀ {r r'}, Agree D.columns r r' → i.2 r = i.2 r') ∧
        i.1 ∈ engine.temporaries session ruleSetFingerprint D report c ∧ i.1 ≠ [] := by
  intro i hi
  unfold said at hi
  dsimp only at hi
  split at hi
  · cases hi
  · next hskip =>
    have hreports := sound.reports c hc (Bool.not_eq_true _ |>.mp hskip)
    refine ⟨(hreports.info_spec i hi).1, ?_, (hreports.info_spec i hi).2.2⟩
    unfold temporaries
    split
    · next aggregate haggregate =>
      obtain ⟨_, _, -, hreport, -⟩ := sound.fits hc haggregate
      rw [hreport] at hi
      cases hi
    · rw [if_neg hskip]
      exact (hreports.info_spec i hi).2.1

theorem said_congr {c : DQRule V} (hc : c ∈ checks) {r r' : Row V} (hagree : Agree D.columns r r') :
    (engine.said session ruleSetFingerprint D report c).entry r =
      (engine.said session ruleSetFingerprint D report c).entry r' :=
  DQRuleManager.entry_congr (fun hskip => fun h => (sound.reports c hc hskip).outcome_congr h) hagree

/-- The manager that a round makes decides as the one on the input itself. -/
theorem alike {temps : List Text} {said : List (Said V)} {progress : Progress V}
    (hcs : ∀ c ∈ cs, c ∈ checks) (hbase : Base session engine ruleSetFingerprint D cs base)
    (hpass : Pass base temps said progress)
    (htemps : ∀ n ∈ temps, ∃ c ∈ checks, n ∈ (report c).added) {c : DQRule V} (hc : c ∈ checks) :
    DQRuleManager.Alike session
      (engine.buildManager ruleSetFingerprint D c progress.currentDf progress.rowsDf)
      (engine.inputManager ruleSetFingerprint D c) := by
  have hnodup : D.columns.Nodup := (List.nodup_append.mp sound.nodup).1
  have hisolated : ∀ e ∈ (engine.preselectOriginalColumns D c).expressions session,
      ∀ n ∈ e.reads, n ∈ progress.currentDf.columns → n ∈ D.columns := by
    intro e he n hn hin
    obtain ⟨hreserved, hadded⟩ := sound.isolated c hc e he n hn
    rcases hpass.temporary n hin with hin | hin
    · rcases hbase.columns n hin with h | h | ⟨c', hc', aggregate, haggregate, rfl⟩
      · exact h
      · exact absurd h hreserved
      · obtain ⟨_, _, -, hreport, -⟩ := sound.fits (hcs c' hc') haggregate
        refine absurd ?_ (hadded c' (hcs c' hc'))
        rw [hreport]
        exact List.mem_cons_self
    · obtain ⟨c', hc', hn'⟩ := htemps n hin
      exact absurd hn' (hadded c' hc')
  refine ⟨rfl, rfl, rfl, rfl, fun e he => ?_, fun e he => ?_⟩
  · exact Column.resolves_eq (List.Subset.trans hbase.extension.columns hpass.columns) hpass.nodup hnodup
      (hisolated e he)
  · refine Column.resolves_eq ?_ ?_ hnodup fun n hn hin => hisolated e he n hn ?_
    · exact hpass.rowsDf.symm ▸ hbase.extension.columns
    · exact hpass.rowsDf.symm ▸ hbase.extension.nodup
    · exact hpass.columns (hpass.rowsDf ▸ hin)

/-- One round adds what the check says of the rows of the input. -/
theorem applyCheck_spec {temps : List Text} {said : List (Said V)} {progress : Progress V}
    (hcs : ∀ c ∈ cs, c ∈ checks) (hbase : Base session engine ruleSetFingerprint D cs base)
    (hpass : Pass base temps said progress)
    (htemps : ∀ n ∈ temps, ∃ c ∈ checks, n ∈ (report c).added) {c : DQRule V} (hc : c ∈ cs)
    (hfresh : ∀ n ∈ engine.temporaries session ruleSetFingerprint D report c, n ∉ temps) :
    ∃ progress', engine.applyCheck session ruleSetFingerprint D
        (engine.inputManagers session ruleSetFingerprint D cs) progress c = .ok progress' ∧
      Pass base (temps ++ engine.temporaries session ruleSetFingerprint D report c)
        (said ++ [engine.said session ruleSetFingerprint D report c]) progress' ∧
      progress'.skippedChecks = progress.skippedChecks ++
        engine.skippedFingerprint session ruleSetFingerprint D c := by
  have hmem := hcs c hc
  have hnew : ∀ n ∈ engine.temporaries session ruleSetFingerprint D report c,
      n ∉ progress.currentDf.columns := fun n hn hin =>
    (hpass.temporary n hin).elim (sound.temporaries_fresh hcs hbase hmem hn) (hfresh n hn)
  have hover : D.Extends progress.currentDf := hbase.extension.trans hpass.extension
  -- whatever manager is taken, it is enough that it attaches what the check says
  have hnext {found : Option (DQRuleManager V)} {manager : DQRuleManager V}
      {result : DQCheckResult V (Option ResultItem)}
      (hlookup : (engine.inputManagers session ruleSetFingerprint D cs).lookup c.id = found)
      (hmanager : found.getD (engine.buildManager ruleSetFingerprint D c progress.currentDf
        progress.rowsDf) = manager)
      (hskip : manager.isSkipped session =
        (engine.inputManager ruleSetFingerprint D c).isSkipped session)
      (hprocess : manager.process session engine.settings progress.currentDf found.isSome =
        .ok result)
      (hname : result.infoColumnName =
        (engine.said session ruleSetFingerprint D report c).info.map Prod.fst)
      (hattached : Attached progress.currentDf result.checkDf
        (engine.temporaries session ruleSetFingerprint D report c) result.condition
        (engine.said session ruleSetFingerprint D report c).entry
        (engine.said session ruleSetFingerprint D report c).info) :
      ∃ progress', engine.applyCheck session ruleSetFingerprint D
          (engine.inputManagers session ruleSetFingerprint D cs) progress c = .ok progress' ∧
        Pass base (temps ++ engine.temporaries session ruleSetFingerprint D report c)
          (said ++ [engine.said session ruleSetFingerprint D report c]) progress' ∧
        progress'.skippedChecks = progress.skippedChecks ++
          engine.skippedFingerprint session ruleSetFingerprint D c := by
    refine ⟨_, ?_, hpass.next hattached (sound.nodup_temporaries hmem) hnew
      (fun hagree => sound.said_congr hmem (hagree.mono hbase.extension.columns))
      (fun i hi => ?_) hname _, rfl⟩
    · rw [applyCheck, hlookup, hmanager, hprocess, skippedFingerprint, ← hskip]
      simp only [bind, Except.bind, pure, Except.pure, if_pos (sound.keeps c hmem)]
    · obtain ⟨hcongr, hin, hne⟩ := sound.said_info hmem i hi
      exact ⟨fun hagree => hcongr (hagree.mono hbase.extension.columns), hin, hne⟩
  have hlookup := sound.lookup_inputManagers hcs hc
  have halike := sound.alike hcs hbase hpass htemps hmem
  cases hskip : (engine.inputManager ruleSetFingerprint D c).isSkipped session with
  | true =>
    have hskip' : (engine.buildManager ruleSetFingerprint D c progress.currentDf
        progress.rowsDf).isSkipped session = true := halike.isSkipped.trans hskip
    obtain ⟨result, hprocess, hcheckDf, hname, hattached⟩ :=
      @DQRuleManager.process_skipped _ session engine.settings _ progress.currentDf (report c) hskip'
        false
    have haggregate : (engine.inputManager ruleSetFingerprint D c).datasetAggregate session =
        none := by
      rw [Option.eq_none_iff_forall_ne_some]
      intro aggregate h
      rw [(DQRuleManager.datasetAggregate_eq_some.mp h).2.1] at hskip
      cases hskip
    have htemporaries : engine.temporaries session ruleSetFingerprint D report c = [] := by
      rw [temporaries, haggregate]
      exact if_pos hskip
    have hinfo : (engine.said session ruleSetFingerprint D report c).info = none := if_pos hskip
    rw [hskip, Bool.not_true, Bool.and_false, if_neg Bool.false_ne_true] at hlookup
    refine hnext hlookup rfl halike.isSkipped hprocess (by rw [hname, hinfo]; rfl) ?_
    rw [hcheckDf, htemporaries, hinfo]
    rw [halike.entry] at hattached
    exact hattached
  | false =>
    have hreports := sound.reports c hmem hskip
    have hinfo : (engine.said session ruleSetFingerprint D report c).info = (report c).info :=
      if_neg (by rw [hskip]; exact Bool.false_ne_true)
    rw [hskip, Bool.not_false, Bool.and_true] at hlookup
    cases haggregate : (engine.inputManager ruleSetFingerprint D c).datasetAggregate session with
    | some aggregate =>
      obtain ⟨condition, metric, hfits, hreport, hbody⟩ := sound.fits hmem haggregate
      have hdataset : c.isDataset = true :=
        (DQRuleManager.datasetAggregate_eq_some.mp haggregate).1
      have htemporaries : engine.temporaries session ruleSetFingerprint D report c =
          [aggregate.conditionCol] := by
        rw [temporaries, haggregate]
      obtain ⟨hmetric, hcells⟩ := hbase.metrics c hc aggregate haggregate
      have hcurrent : ∀ r ∈ progress.currentDf.rows, r aggregate.metricCol = metric := by
        intro r hr
        obtain ⟨b, hb, hagree, -⟩ := hpass.rows.exists_left hr
        rw [← hagree _ hmetric]
        exact hcells metric hfits.metric_eq b hb
      obtain ⟨result, hprocess, hname, hattached⟩ :=
        @DQRuleManager.process_shared _ session engine.settings _ D progress.currentDf hskip _ _ _
          hbody haggregate hfits hover hover.columns (hpass.columns hmetric) hcurrent
          (hnew _ (htemporaries ▸ List.mem_cons_self))
      have hnone : (report c).info = none := by
        rw [hreport]
        rfl
      rw [if_pos hdataset] at hlookup
      refine hnext hlookup rfl rfl hprocess (by rw [hname, hinfo, hnone]; rfl) ?_
      rw [htemporaries, hinfo, hnone, DQEngineCore.said, hreport]
      exact hattached
    | none =>
      have htemporaries : engine.temporaries session ruleSetFingerprint D report c =
          (report c).added := by
        rw [temporaries, haggregate]
        exact if_neg (by rw [hskip]; exact Bool.false_ne_true)
      cases hdataset : c.isDataset with
      | true =>
        obtain ⟨result, hprocess, hname, hattached⟩ :=
          @DQRuleManager.process_executed _ session engine.settings _ D progress.currentDf (report c)
            hskip true (fun _ => haggregate) hreports (fun _ => rfl) hover hover.columns
            (sound.added_nodup c hmem) (htemporaries ▸ hnew)
        rw [if_pos hdataset] at hlookup
        refine hnext hlookup rfl rfl hprocess (by rw [hname, hinfo]) ?_
        rw [htemporaries, hinfo]
        exact hattached
      | false =>
        have hbody : (engine.buildManager ruleSetFingerprint D c progress.currentDf
            progress.rowsDf).body.isDataset = false := (c.isDataset_body _).trans hdataset
        obtain ⟨result, hprocess, hname, hattached⟩ :=
          @DQRuleManager.process_executed _ session engine.settings
            (engine.buildManager ruleSetFingerprint D c progress.currentDf progress.rowsDf) D
            progress.currentDf (report c) (halike.isSkipped.trans hskip) false
            (fun h => by cases h) hreports (fun h => by rw [hbody] at h; cases h) hover
            (List.Subset.refl _) (sound.added_nodup c hmem) (htemporaries ▸ hnew)
        rw [hdataset, if_neg Bool.false_ne_true] at hlookup
        refine hnext hlookup rfl halike.isSkipped hprocess (by rw [hname, hinfo]) ?_
        rw [htemporaries, hinfo]
        rw [halike.entry] at hattached
        exact hattached

end Sound

end DQEngineCore

end Dqx.Engine
