import Dqx.Engine.Round

/-! A whole run of `apply_checks` over checks that keep the rows. -/

namespace Dqx.Engine

open Lib Lib.Sql Lib.Tabular

variable {V : Type}

/-- What has been applied: the rows of the input, each with the entries that the checks of either
criticality have for it, and with the information that they leave beside it. -/
structure Checked (engine : DQEngineCore) (D out : DataFrame V) (errors warnings : List (Said V)) :
    Prop where
  mem_columns : ∀ n, n ∈ out.columns ↔ n ∈ D.columns ∨ n = engine.errors ∨ n = engine.warnings ∨
    n = engine.info ∧ infoNames (errors ++ warnings) ≠ []
  nodup : out.columns.Nodup
  rows : Paired (fun r r' => Agree D.columns r r' ∧ r' engine.errors = resultsOf errors r ∧
      r' engine.warnings = resultsOf warnings r ∧
      (engine.info ∈ out.columns → (r' engine.info).elements = infosOf (errors ++ warnings) r))
    D.rows out.rows

/-- A row with its result columns, as the checks on their own have them. -/
def annotate (engine : DQEngineCore) (errors warnings : List (Said V)) (r : Row V) : Row V :=
  Function.update (Function.update r engine.errors (resultsOf errors r)) engine.warnings
    (resultsOf warnings r)

namespace DQEngineCore

variable {session : Session V} {engine : DQEngineCore} {ruleSetFingerprint : Text} {D : DataFrame V}
  {report : DQRule V → Report V} {checks cs : List (DQRule V)} {base : DataFrame V}

/-- The names of the result columns differ, and are new. -/
theorem Sound.names (sound : engine.Sound session ruleSetFingerprint D checks report) :
    engine.errors ≠ engine.warnings ∧ engine.errors ≠ engine.info ∧ engine.warnings ≠ engine.info ∧
      ∀ n ∈ engine.resultColumnNames, n ∉ D.columns := by
  obtain ⟨-, hnodup, hne⟩ := List.nodup_append.mp sound.nodup
  simp only [resultColumnNames, List.nodup_cons, List.mem_cons, List.not_mem_nil, or_false,
    not_or] at hnodup
  exact ⟨hnodup.1.1, hnodup.1.2, hnodup.2.1, fun n hn hin => hne n hin n hn rfl⟩

namespace Sound

variable (sound : engine.Sound session ruleSetFingerprint D checks report)

include sound

/-- A pass adds what each of its checks says, in their order. -/
theorem foldlM_applyCheck {temps : List Text} {said : List (Said V)} {progress : Progress V}
    (hcs : ∀ c ∈ cs, c ∈ checks) (hbase : Base session engine ruleSetFingerprint D cs base)
    (hpass : Pass base temps said progress)
    (htemps : ∀ n ∈ temps, ∃ c ∈ checks, n ∈ (report c).added) {pass : List (DQRule V)}
    (hsub : ∀ c ∈ pass, c ∈ cs)
    (hdisjoint : pass.Pairwise fun c c' => (report c).added.Disjoint (report c').added)
    (hfresh : ∀ c ∈ pass, ∀ n ∈ (report c).added, n ∉ temps) :
    ∃ progress', pass.foldlM (engine.applyCheck session ruleSetFingerprint D
        (engine.inputManagers session ruleSetFingerprint D cs)) progress = .ok progress' ∧
      Pass base (temps ++ pass.flatMap (engine.temporaries session ruleSetFingerprint D report))
        (said ++ pass.map (engine.said session ruleSetFingerprint D report)) progress' ∧
      progress'.skippedChecks = progress.skippedChecks ++
        pass.flatMap (engine.skippedFingerprint session ruleSetFingerprint D) := by
  induction pass generalizing temps said progress with
  | nil =>
    refine ⟨progress, rfl, ?_, (List.append_nil _).symm⟩
    rw [List.flatMap_nil, List.map_nil, List.append_nil, List.append_nil]
    exact hpass
  | cons c pass ih =>
    rw [List.pairwise_cons] at hdisjoint
    have hc := hsub c List.mem_cons_self
    have hmem := hcs c hc
    obtain ⟨next, hnext, hpassed, hskipped⟩ := sound.applyCheck_spec hcs hbase hpass htemps hc
      fun n hn => hfresh c List.mem_cons_self n (sound.temporaries_subset hmem hn)
    obtain ⟨last, hlast, hdone, hall⟩ := ih hpassed
      (fun n hn => (List.mem_append.mp hn).elim (htemps n) fun hn =>
        ⟨c, hmem, sound.temporaries_subset hmem hn⟩)
      (fun c' hc' => hsub c' (List.mem_cons_of_mem _ hc')) hdisjoint.2
      (fun c' hc' n hn hin => by
        rcases List.mem_append.mp hin with hin | hin
        · exact hfresh c' (List.mem_cons_of_mem _ hc') n hn hin
        · exact hdisjoint.1 c' hc' (sound.temporaries_subset hmem hin) hn)
    refine ⟨last, ?_, ?_, ?_⟩
    · rw [List.foldlM_cons, hnext]
      exact hlast
    · rw [List.append_assoc, List.append_assoc] at hdone
      exact hdone
    · rw [hall, hskipped, List.append_assoc, List.flatMap_cons]

/-- A pass over the checks of one criticality, from a table that it can start from. -/
theorem createResultsArray_spec (hcs : ∀ c ∈ cs, c ∈ checks)
    (hbase : Base session engine ruleSetFingerprint D cs base) {pass : List (DQRule V)}
    (hsub : ∀ c ∈ pass, c ∈ cs)
    (hdisjoint : pass.Pairwise fun c c' => (report c).added.Disjoint (report c').added) {dest : Text}
    (hdest : dest ∈ [engine.errors, engine.warnings]) (hnew : dest ∉ base.columns) :
    ∃ out, engine.createResultsArray session ruleSetFingerprint base pass dest D
        (engine.inputManagers session ruleSetFingerprint D cs) =
          .ok (out, pass.flatMap (engine.skippedFingerprint session ruleSetFingerprint D)) ∧
      Passed engine base out dest (pass.map (engine.said session ruleSetFingerprint D report)) := by
  obtain ⟨-, herrors, hwarnings, -⟩ := sound.names
  have hreserved : dest ∈ engine.resultColumnNames := by
    simp only [List.mem_cons, List.not_mem_nil, or_false] at hdest
    rcases hdest with rfl | rfl
    · exact List.mem_cons_self
    · exact List.mem_cons_of_mem _ List.mem_cons_self
  have hne : dest ≠ engine.info := by
    simp only [List.mem_cons, List.not_mem_nil, or_false] at hdest
    rcases hdest with rfl | rfl
    · exact herrors
    · exact hwarnings
  cases hpass : pass with
  | nil =>
    refine ⟨_, rfl, fun n => ?_, ?_, ?_⟩
    · simp [Frame.selectAlso, infoNames]
    · exact List.Nodup.append hbase.extension.nodup (List.nodup_singleton _)
        (List.disjoint_singleton.mpr hnew)
    · refine .map_self fun r _ => ⟨fun n hn _ => ?_, ?_, fun hin => ?_⟩
      · exact Function.update_of_ne (fun h : n = dest => hnew (h ▸ hn)) _ r
      · exact Function.update_self dest _ r
      · have hbaseInfo : engine.info ∈ base.columns :=
          (List.mem_append.mp hin).resolve_right fun h => hne (List.mem_singleton.mp h).symm
        have hcell : Frame.also [(dest, .results none)] r engine.info = r engine.info :=
          Function.update_of_ne hne.symm _ r
        rw [if_pos hbaseInfo, hcell]
        exact (List.append_nil _).symm
  | cons c rest =>
    rw [← hpass]
    obtain ⟨progress, hprogress, hdone, hskipped⟩ := sound.foldlM_applyCheck hcs hbase
      (.start hbase.extension.nodup) (fun n hn => absurd hn List.not_mem_nil) hsub hdisjoint
      (fun _ _ n _ hn => absurd hn List.not_mem_nil)
    rw [List.nil_append, List.nil_append] at hdone
    have hadded : ∀ n ∈ pass.flatMap (engine.temporaries session ruleSetFingerprint D report),
        ∃ c ∈ checks, n ∈ engine.temporaries session ruleSetFingerprint D report c := by
      intro n hn
      obtain ⟨c, hc, hn⟩ := List.mem_flatMap.mp hn
      exact ⟨c, hcs c (hsub c hc), hn⟩
    have htemporary : Temporary engine base
        (pass.flatMap (engine.temporaries session ruleSetFingerprint D report)) := by
      refine ⟨fun n hn => ?_, fun n hn hin => ?_⟩
      · obtain ⟨c, hc, hn⟩ := hadded n hn
        exact sound.temporaries_fresh hcs hbase hc hn
      · obtain ⟨c, hc, hn⟩ := hadded n hn
        exact sound.added_fresh c hc n (sound.temporaries_subset hc hn)
          (List.mem_append_right _ hin)
    obtain ⟨combined, merged, hcombined, hmerged, hpassed⟩ := hdone.finish htemporary hnew
      (fun hin => htemporary.reserved _ hin hreserved) hne
    refine ⟨_, ?_, hpassed⟩
    have hnonempty : pass.isEmpty = false := by rw [hpass]; rfl
    rw [createResultsArray, hnonempty, if_neg Bool.false_ne_true, hprogress]
    show (do
      let combined ← analyzed (progress.currentDf.withColumn dest
        (combinedResults progress.checkConditions))
      let resultDf ← mergeInfoColumns engine.info combined progress.infoColNames
      pure (resultDf.drop (engine.columnsToDrop base.columns dest engine.info resultDf),
        progress.skippedChecks)) = _
    rw [hcombined]
    show (do
      let resultDf ← mergeInfoColumns engine.info combined progress.infoColNames
      pure (resultDf.drop (engine.columnsToDrop base.columns dest engine.info resultDf),
        progress.skippedChecks)) = _
    rw [hmerged, hskipped]
    rfl

end Sound

/-- The metric that a shared aggregate joins. -/
def sharedMetric (D : DataFrame V) (aggregate : DatasetAggregate V) : Cell V :=
  match aggregate.metric D with
  | .ok (_, metric) => metric
  | .error _ => .array []

namespace Sound

variable (sound : engine.Sound session ruleSetFingerprint D checks report)

include sound

/-- The metrics of all shared aggregates are joined at once, and give a table to start from. -/
theorem base_shared (hcs : ∀ c ∈ cs, c ∈ checks) :
    ∃ sharedDf, addDatasetAggregates D D
        (sharedAggregates session (engine.inputManagers session ruleSetFingerprint D cs)) =
          .ok sharedDf ∧
      Base session engine ruleSetFingerprint D cs sharedDf ∧
      (∀ n ∈ (sharedAggregates session (engine.inputManagers session ruleSetFingerprint D cs)).map
        (·.metricCol), n ∉ D.columns ++ engine.resultColumnNames) ∧
      (∀ n, n ∈ sharedDf.columns ↔ n ∈ D.columns ∨ n ∈ (sharedAggregates session
        (engine.inputManagers session ruleSetFingerprint D cs)).map (·.metricCol)) := by
  generalize hshared : sharedAggregates session
    (engine.inputManagers session ruleSetFingerprint D cs) = shared
  have hmem (a : DatasetAggregate V) : a ∈ shared ↔ ∃ c ∈ cs,
      (engine.inputManager ruleSetFingerprint D c).datasetAggregate session = some a :=
    hshared ▸ sound.mem_sharedAggregates hcs
  have hmetrics : ∀ a ∈ shared, a.metric D = .ok (a.metricCol, sharedMetric D a) ∧
      a.returnType = .ok () := by
    intro a ha
    obtain ⟨c, hc, haggregate⟩ := (hmem a).mp ha
    obtain ⟨_, _, hfits, -, -⟩ := sound.fits (hcs c hc) haggregate
    refine ⟨?_, hfits.returnType⟩
    rw [sharedMetric, hfits.metric_eq]
  have hfresh : ∀ a ∈ shared, a.metricCol ∉ D.columns ++ engine.resultColumnNames := by
    intro a ha
    obtain ⟨c, hc, haggregate⟩ := (hmem a).mp ha
    obtain ⟨_, _, -, hreport, -⟩ := sound.fits (hcs c hc) haggregate
    refine sound.added_fresh c (hcs c hc) _ ?_
    rw [hreport]
    exact List.mem_cons_self
  have hnames : (shared.map fun a => (a.metricCol, sharedMetric D a)).map Prod.fst =
      shared.map (·.metricCol) := by
    rw [List.map_map]
    rfl
  have hnodup : (D.columns ++ (shared.map fun a => (a.metricCol, sharedMetric D a)).map
      Prod.fst).Nodup := by
    rw [hnames]
    refine List.Nodup.append (List.nodup_append.mp sound.nodup).1
      (hshared ▸ sound.nodup_metrics hcs) fun n hn hin => ?_
    obtain ⟨a, ha, rfl⟩ := List.mem_map.mp hin
    exact hfresh a ha (List.mem_append_left _ hn)
  have hextends := Frame.selectAlso_extends hnodup
  have hcolumns (n : Text) : n ∈ (D.crossJoin (shared.map fun a =>
      (a.metricCol, sharedMetric D a))).columns ↔
        n ∈ D.columns ∨ n ∈ shared.map (·.metricCol) := by
    rw [← hnames]
    exact List.mem_append
  refine ⟨_, DatasetAggregate.addDatasetAggregates_eq hmetrics, ⟨⟨hextends.1, hextends.2.1, ?_⟩,
    fun n hn => ?_, fun c hc a ha => ?_⟩, fun n hn => ?_, hcolumns⟩
  · exact hextends.2.2.mono fun _ _ h => h.1
  · refine ((hcolumns n).mp hn).imp_right fun hin => .inr ?_
    obtain ⟨a, ha, rfl⟩ := List.mem_map.mp hin
    obtain ⟨c, hc, haggregate⟩ := (hmem a).mp ha
    exact ⟨c, hc, a, haggregate, rfl⟩
  · have hin := (hmem a).mpr ⟨c, hc, ha⟩
    refine ⟨(hcolumns _).mpr (.inr (List.mem_map_of_mem hin)), fun metric hmetric r hr => ?_⟩
    obtain ⟨_, -, -, hcells⟩ := hextends.2.2.exists_left hr
    rw [hcells _ (List.mem_map_of_mem hin), sharedMetric, hmetric]
  · obtain ⟨a, ha, rfl⟩ := List.mem_map.mp hn
    exact hfresh a ha

/-- The result of a pass is a table to start the next pass from. -/
theorem base_passed {out : DataFrame V} {dest : Text} {said : List (Said V)}
    (hcs : ∀ c ∈ cs, c ∈ checks) (hbase : Base session engine ruleSetFingerprint D cs base)
    (hdest : dest ∈ [engine.errors, engine.warnings]) (hpassed : Passed engine base out dest said) :
    Base session engine ruleSetFingerprint D cs out := by
  have hinfo : engine.info ∉ D.columns := sound.names.2.2.2 _
    (List.mem_cons_of_mem _ (List.mem_cons_of_mem _ List.mem_cons_self))
  refine ⟨⟨fun n hn => (hpassed.mem_columns n).mpr (.inl (hbase.extension.columns hn)), hpassed.nodup, ?_⟩,
    fun n hn => ?_, fun c hc a ha => ?_⟩
  · refine (hbase.extension.rows.trans hpassed.rows).mono ?_
    rintro r r'' ⟨r', hagree, hothers, -, -⟩
    refine hagree.trans fun n hn => (hothers n (hbase.extension.columns hn) ?_).symm
    rintro rfl
    exact hinfo hn
  · rcases (hpassed.mem_columns n).mp hn with hn | rfl | ⟨rfl, -⟩
    · exact hbase.columns n hn
    · simp only [List.mem_cons, List.not_mem_nil, or_false] at hdest
      refine .inr (.inl ?_)
      rcases hdest with rfl | rfl
      · exact List.mem_cons_self
      · exact List.mem_cons_of_mem _ List.mem_cons_self
    · exact .inr (.inl (List.mem_cons_of_mem _ (List.mem_cons_of_mem _ List.mem_cons_self)))
  · obtain ⟨hin, hcells⟩ := hbase.metrics c hc a ha
    refine ⟨(hpassed.mem_columns _).mpr (.inl hin), fun metric hmetric r' hr' => ?_⟩
    obtain ⟨r, hr, hothers, -, -⟩ := hpassed.rows.exists_left hr'
    rw [hothers _ hin fun heq => ?_]
    · exact hcells metric hmetric r hr
    · obtain ⟨_, _, -, hreport, -⟩ := sound.fits (hcs c hc) ha
      refine sound.added_fresh c (hcs c hc) a.metricCol ?_ (heq ▸ List.mem_append_right _ ?_)
      · rw [hreport]
        exact List.mem_cons_self
      · exact List.mem_cons_of_mem _ (List.mem_cons_of_mem _ List.mem_cons_self)

/-- What the checks say of a row is decided by the columns of the input. -/
theorem said_map_congr {pass : List (DQRule V)} (hpass : ∀ c ∈ pass, c ∈ checks) {r r' : Row V}
    (hagree : Agree D.columns r r') :
    resultsOf (pass.map (engine.said session ruleSetFingerprint D report)) r =
        resultsOf (pass.map (engine.said session ruleSetFingerprint D report)) r' ∧
      infosOf (pass.map (engine.said session ruleSetFingerprint D report)) r =
        infosOf (pass.map (engine.said session ruleSetFingerprint D report)) r' := by
  rw [resultsOf, resultsOf, infosOf, infosOf]
  simp only [List.filterMap_map]
  have hentries : pass.filterMap ((fun s : Said V => s.entry r) ∘
        engine.said session ruleSetFingerprint D report) =
      pass.filterMap ((fun s : Said V => s.entry r') ∘
        engine.said session ruleSetFingerprint D report) :=
    List.filterMap_congr fun c hc => sound.said_congr (hpass c hc) hagree
  rw [hentries]
  refine ⟨rfl, List.filterMap_congr fun c hc => ?_⟩
  dsimp only [Function.comp]
  cases hinfo : (engine.said session ruleSetFingerprint D report c).info with
  | none => rfl
  | some i => exact congrArg some ((sound.said_info (hpass c hc) i hinfo).1 hagree)

theorem validateResultColumnCollisions_eq : engine.validateResultColumnCollisions D = .ok () := by
  have hcollisions : engine.resultColumnNames.filter (· ∈ D.columns) = [] :=
    List.filter_eq_nil_iff.mpr fun n hn => by simpa using sound.names.2.2.2 n hn
  rw [validateResultColumnCollisions, hcollisions]
  rfl

/-- Without checks, the result columns are there and empty. -/
theorem checked_nil :
    Checked engine D (D.selectAlso [(engine.errors, .results none), (engine.warnings, .results none)])
      [] [] := by
  obtain ⟨hne, herrorsInfo, hwarningsInfo, hnew⟩ := sound.names
  have hnodup : (D.columns ++ [(engine.errors, (.results none : Cell V)),
      (engine.warnings, .results none)].map Prod.fst).Nodup := by
    refine List.Nodup.append (List.nodup_append.mp sound.nodup).1 (by simpa using hne)
      fun n hn hin => ?_
    simp only [List.map_cons, List.map_nil, List.mem_cons, List.not_mem_nil, or_false] at hin
    rcases hin with rfl | rfl
    · exact hnew _ List.mem_cons_self hn
    · exact hnew _ (List.mem_cons_of_mem _ List.mem_cons_self) hn
  have hextends := Frame.selectAlso_extends hnodup
  refine ⟨fun n => by simp [Frame.selectAlso, infoNames], hextends.2.1, ?_⟩
  refine hextends.2.2.mono fun r r' h => ⟨h.1, h.2 _ List.mem_cons_self,
    h.2 _ (List.mem_cons_of_mem _ List.mem_cons_self), fun hin => ?_⟩
  simp only [Frame.selectAlso, List.map_cons, List.map_nil, List.mem_append, List.mem_cons,
    List.not_mem_nil, or_false] at hin
  rcases hin with h | h | h
  · exact absurd h (hnew _ (List.mem_cons_of_mem _ (List.mem_cons_of_mem _ List.mem_cons_self)))
  · exact absurd h.symm herrorsInfo
  · exact absurd h.symm hwarningsInfo

/-- The two passes, one after the other, without the shared metrics. -/
theorem checked_of_passed {sharedDf errorsDf warningsDf : DataFrame V} {metrics : List Text}
    {errorChecks warningChecks : List (DQRule V)} (herrorChecks : ∀ c ∈ errorChecks, c ∈ checks)
    (hwarningChecks : ∀ c ∈ warningChecks, c ∈ checks) (hover : D.Extends sharedDf)
    (hcolumns : ∀ n, n ∈ sharedDf.columns ↔ n ∈ D.columns ∨ n ∈ metrics)
    (hmetrics : ∀ n ∈ metrics, n ∉ D.columns ++ engine.resultColumnNames)
    (herrors : Passed engine sharedDf errorsDf engine.errors
      (errorChecks.map (engine.said session ruleSetFingerprint D report)))
    (hwarnings : Passed engine errorsDf warningsDf engine.warnings
      (warningChecks.map (engine.said session ruleSetFingerprint D report))) :
    Checked engine D (warningsDf.drop metrics)
      (errorChecks.map (engine.said session ruleSetFingerprint D report))
      (warningChecks.map (engine.said session ruleSetFingerprint D report)) := by
  obtain ⟨-, herrorsInfo, hwarningsInfo, hnew⟩ := sound.names
  have hinfo : engine.info ∈ engine.resultColumnNames :=
    List.mem_cons_of_mem _ (List.mem_cons_of_mem _ List.mem_cons_self)
  have hreserved : ∀ n ∈ engine.resultColumnNames, n ∉ metrics := fun n hn hin =>
    hmetrics n hin (List.mem_append_right _ hn)
  have hinfoShared : engine.info ∉ sharedDf.columns := fun hin =>
    ((hcolumns _).mp hin).elim (hnew _ hinfo) (hreserved _ hinfo)
  refine ⟨fun n => ?_, Frame.nodup_drop hwarnings.nodup _, ?_⟩
  · have hnone (l l' : List Text) : l ++ l' ≠ [] ↔ l ≠ [] ∨ l' ≠ [] := by
      rw [ne_eq, List.append_eq_nil_iff, not_and_or]
    rw [Frame.mem_columns_drop, hwarnings.mem_columns, herrors.mem_columns, hcolumns,
      infoNames_append, hnone]
    constructor
    · rintro ⟨((hn | hn) | hn | ⟨hn, hnames⟩) | hn | ⟨hn, hnames⟩, hkept⟩
      · exact .inl hn
      · exact absurd hn hkept
      · exact .inr (.inl hn)
      · exact .inr (.inr (.inr ⟨hn, .inl hnames⟩))
      · exact .inr (.inr (.inl hn))
      · exact .inr (.inr (.inr ⟨hn, .inr hnames⟩))
    · rintro (hn | rfl | rfl | ⟨rfl, hnames⟩)
      · exact ⟨.inl (.inl (.inl hn)), fun hin => hmetrics n hin (List.mem_append_left _ hn)⟩
      · exact ⟨.inl (.inr (.inl rfl)), hreserved _ List.mem_cons_self⟩
      · exact ⟨.inr (.inl rfl), hreserved _ (List.mem_cons_of_mem _ List.mem_cons_self)⟩
      · refine ⟨?_, hreserved _ hinfo⟩
        exact hnames.elim (fun h => .inl (.inr (.inr ⟨rfl, h⟩))) fun h => .inr (.inr ⟨rfl, h⟩)
  · rw [Frame.rows_drop]
    refine ((hover.rows.trans herrors.rows).trans hwarnings.rows).mono ?_
    rintro r r₃ ⟨r₂, ⟨r₁, hagree, hothers, herrorsCell, herrorsElements⟩, hothers', hwarningsCell,
      hwarningsElements⟩
    have hagree₂ : Agree D.columns r r₂ := fun n hn => (hagree n hn).trans
      (hothers n (hover.columns hn) fun h => hnew _ hinfo (h ▸ hn)).symm
    have hresults := sound.said_map_congr herrorChecks hagree
    have hresults' := sound.said_map_congr hwarningChecks hagree₂
    refine ⟨fun n hn => ?_, ?_, hwarningsCell.trans hresults'.1.symm, fun hin => ?_⟩
    · have hn' : n ∈ errorsDf.columns := (herrors.mem_columns n).mpr (.inl (hover.columns hn))
      rw [hagree₂ n hn, hothers' n hn' fun h => hnew _ hinfo (h ▸ hn)]
    · rw [hothers' engine.errors ((herrors.mem_columns _).mpr (.inr (.inl rfl))) herrorsInfo,
        herrorsCell, hresults.1]
    · rw [hwarningsElements (Frame.mem_columns_drop.mp hin).1, infosOf_append, hresults.2,
        hresults'.2]
      congr 1
      split
      · next hinfoErrors =>
        rw [herrorsElements hinfoErrors, if_neg hinfoShared]
        rfl
      · next hinfoErrors =>
        refine (infosOf_eq_nil ?_ _).symm
        by_contra hnames
        exact hinfoErrors ((herrors.mem_columns _).mpr (.inr (.inr ⟨rfl, hnames⟩)))

/-- A run leaves a checked table, and tells the checks that are skipped. -/
theorem applyChecks_spec :
    ∃ out, engine.applyChecks session ruleSetFingerprint D checks = .ok (out,
        (getCheckColumns checks error ++ getCheckColumns checks warn).flatMap
          (engine.skippedFingerprint session ruleSetFingerprint D)) ∧
      Checked engine D out
        ((getCheckColumns checks error).map (engine.said session ruleSetFingerprint D report))
        ((getCheckColumns checks warn).map (engine.said session ruleSetFingerprint D report)) := by
  obtain ⟨hne, -, hwarningsInfo, -⟩ := sound.names
  have hvalid := sound.validateResultColumnCollisions_eq
  cases hempty : checks.isEmpty with
  | true =>
    have hnil := List.isEmpty_iff.mp hempty
    subst hnil
    exact ⟨_, by rw [applyChecks, hvalid]; rfl, sound.checked_nil⟩
  | false =>
    generalize hcs : getCheckColumns checks error ++ getCheckColumns checks warn = cs
    have herrorChecks : ∀ c ∈ getCheckColumns checks error, c ∈ cs := fun c hc =>
      hcs ▸ List.mem_append_left _ hc
    have hwarningChecks : ∀ c ∈ getCheckColumns checks warn, c ∈ cs := fun c hc =>
      hcs ▸ List.mem_append_right _ hc
    have hsub : ∀ c ∈ cs, c ∈ checks := by
      intro c hc
      rw [← hcs] at hc
      exact (List.mem_append.mp hc).elim List.mem_of_mem_filter List.mem_of_mem_filter
    obtain ⟨sharedDf, hshared, hbase, hmetrics, hcolumns⟩ := sound.base_shared hsub
    have hreserved : ∀ n ∈ engine.resultColumnNames, n ∉ sharedDf.columns := fun n hn hin =>
      ((hcolumns n).mp hin).elim (sound.names.2.2.2 n hn) fun hin =>
        hmetrics n hin (List.mem_append_right _ hn)
    obtain ⟨errorsDf, herrors, herrorsPassed⟩ := sound.createResultsArray_spec hsub hbase
      herrorChecks (sound.added_disjoint.filter _) List.mem_cons_self
      (hreserved _ List.mem_cons_self)
    have hwarningsNew : engine.warnings ∉ errorsDf.columns := by
      rw [herrorsPassed.mem_columns]
      rintro (hin | heq | ⟨heq, -⟩)
      · exact hreserved _ (List.mem_cons_of_mem _ List.mem_cons_self) hin
      · exact hne heq.symm
      · exact hwarningsInfo heq
    obtain ⟨warningsDf, hwarnings, hwarningsPassed⟩ := sound.createResultsArray_spec hsub
      (sound.base_passed hsub hbase List.mem_cons_self herrorsPassed) hwarningChecks
      (sound.added_disjoint.filter _) (List.mem_cons_of_mem _ List.mem_cons_self) hwarningsNew
    refine ⟨_, ?_, sound.checked_of_passed (fun c hc => hsub c (herrorChecks c hc))
      (fun c hc => hsub c (hwarningChecks c hc)) hbase.extension hcolumns hmetrics herrorsPassed
      hwarningsPassed⟩
    rw [applyChecks, hvalid]
    simp only [bind, Except.bind, pure, Except.pure, hempty, hcs, hshared, herrors, hwarnings,
      Bool.false_eq_true, if_false]
    rw [← hcs, List.flatMap_append]

end Sound

end DQEngineCore

end Dqx.Engine
