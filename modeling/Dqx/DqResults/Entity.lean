import Dqx.DqResults.Rows

/-! `compute_entity_results`: the batches of runs and their instants, the cap of an as-of view, the
breakdowns and the series over time. -/

namespace Dqx.DqResults

open Lib Lib.Sql

variable {τ : Type} [LinearOrder τ]

def runModeDraft : Text := "draft".toList

/-! ### Series over time -/

structure TrendPointOut (τ : Type) where
  runDate : WithBot τ
  series : Option Text := none
  passRate : Option ℚ
  ruleCount : Option Nat := none
  totalTests : Option Int := none
  isDraft : Bool
  breachCriticality : Option Breach
  deriving DecidableEq

structure TrendCountPointOut (τ : Type) where
  runDate : WithBot τ
  ruleCount : Nat
  checkCount : Nat
  testCount : Option Int
  deriving DecidableEq

structure TrendFailurePointOut (τ : Type) where
  runDate : WithBot τ
  failedRuleCount : Nat
  failedCheckCount : Nat
  failedTestCount : Int
  failedRecords : Option Int
  deriving DecidableEq

def mean (rates : List ℚ) : Option ℚ :=
  if rates.isEmpty then none else some (rates.sum / (rates.length : ℚ))

/-- The rows of each run instant. -/
def rowsByInstant (rows : List (CheckResultRow τ)) : List (WithBot τ × List (CheckResultRow τ)) :=
  tally (fun found row => found.getD [] ++ [row]) (rows.map fun row => (row.runDate, row))

/-- At each instant the mean over the tables of their pass rates. -/
def trendAsof (resolve : Option (ThresholdResolver τ)) (rows : List (CheckResultRow τ)) :
    List (TrendPointOut τ) :=
  ((rowsByInstant rows).map fun (runDate, here) =>
    { runDate := runDate
      passRate := mean ((groupBy resolve (·.tableFqn) here).filterMap fun entry => entry.2.passRate)
      isDraft := here.any (·.runMode = some runModeDraft)
      breachCriticality := here.foldl (fun worst row => match resolve with
        | none => worst
        | some threshold => worseCriticality worst (breachCriticality row (threshold row))) none }
    : List (TrendPointOut τ)).insertionSort fun a b => a.runDate ≤ b.runDate

/-- `sorted` by the instant and then by the series, an absent series before the others. -/
def beforeOrAt (a b : TrendPointOut τ) : Bool :=
  a.runDate < b.runDate ||
    a.runDate = b.runDate && (a.series.getD []).map Char.toNat ≤ (b.series.getD []).map Char.toNat

def trendGrouped (resolve : Option (ThresholdResolver τ)) (rows : List (CheckResultRow τ))
    (seriesOf : CheckResultRow τ → Option Text) (instant : CheckResultRow τ → WithBot τ) :
    List (TrendPointOut τ) :=
  let groups := groupBy resolve (fun row => (instant row, seriesOf row)) rows
  (groups.map fun ((runDate, series), acc) =>
    { runDate := runDate
      series := series
      passRate := acc.passRate
      ruleCount := some acc.ruleKeys.length
      totalTests := acc.total
      isDraft := rows.any fun row =>
        instant row = runDate && seriesOf row = series && row.runMode = some runModeDraft
      breachCriticality := acc.breachCriticality }
    : List (TrendPointOut τ)).insertionSort fun a b => beforeOrAt a b

def trendCounts (rows : List (CheckResultRow τ)) : List (TrendCountPointOut τ) :=
  ((groupBy none (·.runDate) rows).map fun (runDate, acc) =>
    { runDate := runDate
      ruleCount := acc.ruleKeys.length
      checkCount := acc.checkRows
      testCount := acc.total } : List (TrendCountPointOut τ)).insertionSort
    fun a b => a.runDate ≤ b.runDate

/-- The failing rows that a run has, by table and run. -/
abbrev FailedRecords := List ((Text × Text) × Option Int)

def trendFailures (records : FailedRecords) (rows : List (CheckResultRow τ)) :
    List (TrendFailurePointOut τ) :=
  ((rowsByInstant rows).map fun (runDate, here) =>
    let failing := here.filter (0 < ·.failed)
    let runs := (here.filterMap fun row => row.runId.map (row.tableFqn, ·)).filter (! ·.2.isEmpty)
    let counts := runs.dedup.filterMap fun run => (records.lookup run).join
    { runDate := runDate
      failedRuleCount := (failing.map ruleKey).dedup.length
      failedCheckCount := failing.length
      failedTestCount := (here.map (·.failed)).sum
      failedRecords := if counts.isEmpty then none else some counts.sum }
    : List (TrendFailurePointOut τ)).insertionSort fun a b => a.runDate ≤ b.runDate

/-! ### Batches and the cap -/

variable (runSets : List (Text × Text))

/-- The run set of a run, else the run itself. -/
def batchOf (runId : Text) : Text :=
  match runSets.lookup runId with
  | some runSet => if runSet.isEmpty then runId else runSet
  | none => runId

def batchKeyOf (row : CheckResultRow τ) : Option Text := row.runId.map (batchOf runSets)

/-- The last run date of each batch. -/
def batchInstants (rows : List (CheckResultRow τ)) : List (Text × WithBot τ) :=
  greatest (rows.filterMap fun row => (batchKeyOf runSets row).map (·, row.runDate))

def instantOf (rows : List (CheckResultRow τ)) (row : CheckResultRow τ) : WithBot τ :=
  match (batchKeyOf runSets row).bind fun key => (batchInstants runSets rows).lookup key with
  | some instant => if instant = ⊥ then row.runDate else instant
  | none => row.runDate

/-- The instant of the chosen batch; nothing where the batch is not known. -/
def capInstant (rows : List (CheckResultRow τ)) (asOfBatch : Option Text) : WithBot τ :=
  match asOfBatch with
  | none => ⊥
  | some runId => ((batchInstants runSets rows).lookup (batchOf runSets runId)).getD ⊥

def withinCap (rows : List (CheckResultRow τ)) (asOfBatch : Option Text) (row : CheckResultRow τ) :
    Bool :=
  let cap := capInstant runSets rows asOfBatch
  cap = ⊥ || instantOf runSets rows row ≠ ⊥ && instantOf runSets rows row ≤ cap

def cappedRows (rows : List (CheckResultRow τ)) (asOfBatch : Option Text) :
    List (CheckResultRow τ) :=
  rows.filter (withinCap runSets rows asOfBatch)

/-- The greatest instant of the runs of each table. -/
def latestInstantByTable (rows : List (CheckResultRow τ)) (instant : CheckResultRow τ → WithBot τ) :
    List (Text × WithBot τ) :=
  greatest (rows.map fun row => (row.tableFqn, instant row))

/-! ### The results -/

inductive Axes where
  | all
  | trend
  | breakdown
  deriving DecidableEq, Repr

/-- What a request asks of the rows of its scope. -/
structure Options (τ : Type) where
  facets : ResultFacets := {}
  axes : Axes := .all
  /-- Whether the groups by table go to `by_table`, and hold the latest run of each table. -/
  byTable : Bool := false
  failedRecordsByRun : FailedRecords := []
  failuresIgnoreFacets : Bool := false
  bindingIdsByTable : List (Text × Text) := []
  runSetByRunId : List (Text × Text) := []
  asOfBatch : Option Text := none
  resolveThreshold : Option (ThresholdResolver τ) := none

structure EntityResultsOut (τ : Type) where
  byDimension : List GroupRowOut := []
  bySeverity : List GroupRowOut := []
  byRule : List GroupRowOut := []
  byColumn : List GroupRowOut := []
  byTable : List GroupRowOut := []
  tables : List GroupRowOut := []
  trend : List (TrendPointOut τ) := []
  trendByDimension : List (TrendPointOut τ) := []
  trendBySeverity : List (TrendPointOut τ) := []
  trendByTable : List (TrendPointOut τ) := []
  trendCounts : List (TrendCountPointOut τ) := []
  trendFailures : List (TrendFailurePointOut τ) := []
  deriving DecidableEq

/-- The rows of the latest instant of their table. -/
def atLatest (capped : List (CheckResultRow τ)) (instant : CheckResultRow τ → WithBot τ)
    (rows : List (CheckResultRow τ)) : List (CheckResultRow τ) :=
  let latest := latestInstantByTable capped instant
  rows.filter fun row => latest.lookup row.tableFqn = some (instant row)

def matchedRows (capped : List (CheckResultRow τ)) (facets : ResultFacets) :
    List (CheckResultRow τ) :=
  capped.filter (rowMatchesFacets · facets)

def breakdownRows (options : Options τ) (capped : List (CheckResultRow τ))
    (instant : CheckResultRow τ → WithBot τ) : List (CheckResultRow τ) :=
  let matched := matchedRows capped options.facets
  if options.byTable then atLatest capped instant matched else matched

/-- The table facet does not narrow the groups by table. -/
def tableBoxRows (options : Options τ) (capped : List (CheckResultRow τ))
    (instant : CheckResultRow τ → WithBot τ) : List (CheckResultRow τ) :=
  if options.byTable then
    atLatest capped instant (matchedRows capped { options.facets with tables := [] })
  else matchedRows capped options.facets

def withBinding (bindings : List (Text × Text)) (group : GroupRowOut) : GroupRowOut :=
  { group with bindingId := group.label.bind fun label => bindings.lookup label }

def breakdown (options : Options τ) (capped : List (CheckResultRow τ))
    (instant : CheckResultRow τ → WithBot τ) (result : EntityResultsOut τ) : EntityResultsOut τ :=
  let resolve := options.resolveThreshold
  let rows := breakdownRows options capped instant
  let tableGroups :=
    groupRows (tableBoxRows options capped instant) (fun row => some row.tableFqn) true resolve
  { result with
    byDimension := groupRows rows (·.dimension) true resolve
    bySeverity := groupRows rows (·.severity) true resolve
    byRule := byRuleRows rows resolve
    byColumn := byColumnRows rows resolve
    byTable :=
      if options.byTable then tableGroups.map (withBinding options.bindingIdsByTable) else []
    tables := if options.byTable then [] else tableGroups }

/-- The carried rows at the instants where the scope itself ran. -/
def expansionRows (options : Options τ) (capped : List (CheckResultRow τ))
    (asofRows : Option (List (CheckResultRow τ))) : List (CheckResultRow τ) :=
  match asofRows with
  | none => matchedRows capped options.facets
  | some asofRows =>
    let scopeInstants := capped.map (·.runDate)
    asofRows.filter fun row =>
      scopeInstants.contains row.runDate && rowMatchesFacets row options.facets

def trends (options : Options τ) (capped : List (CheckResultRow τ))
    (instant : CheckResultRow τ → WithBot τ) (expansion : List (CheckResultRow τ))
    (result : EntityResultsOut τ) : EntityResultsOut τ :=
  let resolve := options.resolveThreshold
  let matched := matchedRows capped options.facets
  { result with
    trend := trendAsof resolve expansion
    trendByDimension := trendGrouped resolve expansion (·.dimension) (·.runDate)
    trendBySeverity := trendGrouped resolve expansion (·.severity) (·.runDate)
    trendByTable :=
      if options.byTable then trendGrouped resolve matched (fun row => some row.tableFqn) instant
      else []
    trendCounts := trendCounts matched
    trendFailures := trendFailures options.failedRecordsByRun
      (if options.failuresIgnoreFacets then capped else matched) }

def computeEntityResults (rows : List (CheckResultRow τ))
    (asofRows : Option (List (CheckResultRow τ))) (options : Options τ) : EntityResultsOut τ :=
  let runSets := options.runSetByRunId
  let instant := instantOf runSets rows
  let capped := cappedRows runSets rows options.asOfBatch
  let shown := if options.axes = .trend then {} else breakdown options capped instant {}
  if options.axes = .breakdown then shown
  else trends options capped instant (expansionRows options capped asofRows) shown

end Dqx.DqResults
