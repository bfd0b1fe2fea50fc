import Dqx.DqResults.Entity
import Mathlib.Algebra.Order.Monoid.Unbundled.WithTop

/-! The breakdowns of several tables: which run of each table they show, and that they count the same
tests. -/

namespace Dqx.DqResults

open Lib Lib.Sql

variable {τ : Type} [LinearOrder τ]

/-! ### What the groups count -/

def failedTests (groups : List GroupRowOut) : Int := (groups.map (·.failedTests)).sum

def totalTests (groups : List GroupRowOut) : Int :=
  (groups.map fun group => group.totalTests.getD 0).sum

section Sums

variable {κ : Type} [DecidableEq κ] (resolve : Option (ThresholdResolver τ))

theorem sum_failed_groupBy (key : CheckResultRow τ → κ) (rows : List (CheckResultRow τ)) :
    ((groupBy resolve key rows).map fun entry => entry.2.failed).sum =
      (rows.map (·.failed)).sum := by
  have hadd (found : Option (GroupAcc τ)) (row : CheckResultRow τ) :
      ((found.getD {}).add resolve row).failed = (found.map (·.failed)).getD 0 + row.failed := by
    cases found <;> rfl
  rw [groupBy, sum_tally hadd, List.map_map]
  rfl

theorem total_add (acc : GroupAcc τ) (row : CheckResultRow τ) :
    (acc.add resolve row).total.getD 0 = acc.total.getD 0 + row.total.getD 0 := by
  unfold GroupAcc.add
  cases row.total with
  | none => exact (add_zero _).symm
  | some total => rfl

theorem sum_total_groupBy (key : CheckResultRow τ → κ) (rows : List (CheckResultRow τ)) :
    ((groupBy resolve key rows).map fun entry => entry.2.total.getD 0).sum =
      (rows.map fun row => row.total.getD 0).sum := by
  have hadd (found : Option (GroupAcc τ)) (row : CheckResultRow τ) :
      ((found.getD {}).add resolve row).total.getD 0 =
        (found.map fun acc => acc.total.getD 0).getD 0 + row.total.getD 0 := by
    rw [total_add]
    cases found <;> rfl
  have hsum := @sum_tally κ (CheckResultRow τ) (GroupAcc τ) _ Int _ (fun row => row.total.getD 0)
    (fun acc => acc.total.getD 0) _ hadd (rows.map fun row => (key row, row))
  rw [List.map_map] at hsum
  exact hsum

variable (rows : List (CheckResultRow τ)) (keyOf : CheckResultRow τ → Option Text)
  (withCheckCount : Bool)

theorem failedTests_groupRows : failedTests (groupRows rows keyOf withCheckCount resolve) =
    (rows.map (·.failed)).sum := by
  rw [failedTests, groupRows, ((List.perm_insertionSort _ _).map _).sum_eq, List.map_map,
    ← sum_failed_groupBy resolve keyOf]
  rfl

theorem totalTests_groupRows : totalTests (groupRows rows keyOf withCheckCount resolve) =
    (rows.map fun row => row.total.getD 0).sum := by
  rw [totalTests, groupRows, ((List.perm_insertionSort _ _).map _).sum_eq, List.map_map,
    ← sum_total_groupBy resolve keyOf]
  rfl

/-- Labels and links change no counts. -/
theorem tests_map {f : GroupRowOut → GroupRowOut}
    (hf : ∀ group, (f group).failedTests = group.failedTests ∧
      (f group).totalTests = group.totalTests) (groups : List GroupRowOut) :
    failedTests (groups.map f) = failedTests groups ∧
      totalTests (groups.map f) = totalTests groups := by
  simp [failedTests, totalTests, Function.comp_def, hf]

theorem labelled_tests (group : GroupRowOut) :
    (labelled rows group).failedTests = group.failedTests ∧
      (labelled rows group).totalTests = group.totalTests := by
  unfold labelled
  cases group.label <;> exact ⟨rfl, rfl⟩

end Sums

/-! ### Instants of batches -/

variable (runSets : List (Text × Text)) {rows : List (CheckResultRow τ)}

/-- Rows of one batch. -/
def SameBatch (row other : CheckResultRow τ) : Prop :=
  batchKeyOf runSets row = batchKeyOf runSets other

/-- The batch of a row ends after that of another row. -/
def Outlasts (rows : List (CheckResultRow τ)) (other row : CheckResultRow τ) : Prop :=
  ∃ last ∈ rows, SameBatch runSets last other ∧
    ∀ member ∈ rows, SameBatch runSets member row → member.runDate < last.runDate

/-- The instant of a row is the last run date of its batch. -/
theorem instantOf_spec {row : CheckResultRow τ} (hrow : row ∈ rows) (hid : row.runId.isSome) :
    (∃ last ∈ rows, SameBatch runSets last row ∧ last.runDate = instantOf runSets rows row) ∧
      ∀ member ∈ rows, SameBatch runSets member row →
        member.runDate ≤ instantOf runSets rows row := by
  obtain ⟨id, hid⟩ := Option.isSome_iff_exists.mp hid
  have hkey : batchKeyOf runSets row = some (batchOf runSets id) := by rw [batchKeyOf, hid]; rfl
  have hmem (date : WithBot τ) : (batchOf runSets id, date) ∈
      (rows.filterMap fun row => (batchKeyOf runSets row).map (·, row.runDate)) ↔
        ∃ member ∈ rows, SameBatch runSets member row ∧ member.runDate = date := by
    simp only [List.mem_filterMap, Option.map_eq_some_iff, Prod.mk.injEq, SameBatch, hkey]
    constructor
    · rintro ⟨member, hmember, _, hbatch, rfl, rfl⟩
      exact ⟨member, hmember, hbatch, rfl⟩
    · rintro ⟨member, hmember, hbatch, rfl⟩
      exact ⟨member, hmember, _, hbatch, rfl, rfl⟩
  obtain ⟨instant, hlookup, hinstant, hall⟩ :=
    lookup_greatest ((hmem row.runDate).mpr ⟨row, hrow, rfl, rfl⟩)
  have heq : instantOf runSets rows row = instant := by
    rw [instantOf, hkey, Option.bind_some, batchInstants, hlookup]
    dsimp only
    split
    · next hbot =>
      have hle := hall _ ((hmem row.runDate).mpr ⟨row, hrow, rfl, rfl⟩)
      rw [hbot] at hle ⊢
      exact le_bot_iff.mp hle
    · rfl
  rw [heq]
  exact ⟨(hmem instant).mp hinstant, fun member hmember hbatch =>
    hall _ ((hmem _).mpr ⟨member, hmember, hbatch, rfl⟩)⟩

theorem instantOf_lt_iff {row other : CheckResultRow τ} (hids : ∀ row ∈ rows, row.runId.isSome)
    (hrow : row ∈ rows) (hother : other ∈ rows) :
    instantOf runSets rows row < instantOf runSets rows other ↔ Outlasts runSets rows other row := by
  obtain ⟨⟨last, hlast, hbatch, hdate⟩, hall⟩ := instantOf_spec runSets hother (hids other hother)
  obtain ⟨⟨last', hlast', hbatch', hdate'⟩, hall'⟩ := instantOf_spec runSets hrow (hids row hrow)
  constructor
  · intro hlt
    exact ⟨last, hlast, hbatch, fun member hmember hsame =>
      (hall' member hmember hsame).trans_lt (hdate ▸ hlt)⟩
  · rintro ⟨latest, hlatest, hsame, hends⟩
    rw [← hdate']
    exact (hends last' hlast' hbatch').trans_le (hall latest hlatest hsame)

variable {runSets}

theorem mem_atLatest_iff {capped shown : List (CheckResultRow τ)}
    {instant : CheckResultRow τ → WithBot τ} {row : CheckResultRow τ} (hrow : row ∈ capped) :
    row ∈ atLatest capped instant shown ↔
      row ∈ shown ∧ ∀ other ∈ capped, other.tableFqn = row.tableFqn →
        instant other ≤ instant row := by
  have hmem (table : Text) (date : WithBot τ) :
      (table, date) ∈ (capped.map fun row => (row.tableFqn, instant row)) ↔
        ∃ other ∈ capped, other.tableFqn = table ∧ instant other = date := by
    simp
  obtain ⟨greatest, hlookup, hgreatest, hall⟩ :=
    lookup_greatest ((hmem row.tableFqn (instant row)).mpr ⟨row, hrow, rfl, rfl⟩)
  rw [atLatest, List.mem_filter, latestInstantByTable, hlookup, decide_eq_true_iff, Option.some_inj]
  refine and_congr_right fun _ => ⟨?_, fun h => ?_⟩
  · rintro rfl other hother htable
    exact hall _ ((hmem _ _).mpr ⟨other, hother, htable, rfl⟩)
  · obtain ⟨other, hother, htable, rfl⟩ := (hmem _ _).mp hgreatest
    exact le_antisymm (h other hother htable) (hall _ ((hmem _ _).mpr ⟨row, hrow, rfl, rfl⟩))

/-! ### The latest runs -/

/-- The run of a row is the latest of its table. -/
def isLatestRun (capped : List (CheckResultRow τ)) (row : CheckResultRow τ) : Bool :=
  capped.any fun last => last.tableFqn = row.tableFqn && last.runId = row.runId &&
    capped.all fun other => other.tableFqn ≠ row.tableFqn || other.runDate ≤ last.runDate

/-- The runs of a table have dates of their own. -/
structure Dated (rows : List (CheckResultRow τ)) : Prop where
  identified : ∀ row ∈ rows, row.runId.isSome
  dated : ∀ row ∈ rows, ∀ other ∈ rows, row.tableFqn = other.tableFqn →
    (row.runId = other.runId ↔ row.runDate = other.runDate)

def withoutTables (facets : ResultFacets) : ResultFacets := { facets with tables := [] }

variable (rows) (options : Options τ)

def capped : List (CheckResultRow τ) := cappedRows options.runSetByRunId rows options.asOfBatch

/-- The rows behind the boxes of a breakdown. -/
def boxRows : List (CheckResultRow τ) :=
  breakdownRows options (capped rows options) (instantOf options.runSetByRunId rows)

/-- The rows behind the box of the tables. -/
def byTableRows : List (CheckResultRow τ) :=
  tableBoxRows options (capped rows options) (instantOf options.runSetByRunId rows)

/-- Each box shows the rows of one run of each table, the latest within the cap, and they count the
same tests. -/
structure Snapshot : Prop where
  boxes : boxRows rows options = (capped rows options).filter fun row =>
    rowMatchesFacets row options.facets && isLatestRun (capped rows options) row
  tables : byTableRows rows options = (capped rows options).filter fun row =>
    rowMatchesFacets row (withoutTables options.facets) && isLatestRun (capped rows options) row
  one : ∀ row ∈ byTableRows rows options, ∀ other ∈ byTableRows rows options,
    row.tableFqn = other.tableFqn → row.runId = other.runId
  failed : ∀ asofRows, let result := computeEntityResults rows asofRows options
    failedTests result.byDimension = failedTests result.bySeverity ∧
      failedTests result.byDimension = failedTests result.byRule ∧
        (options.facets.tables = [] → failedTests result.byDimension = failedTests result.byTable)
  total : ∀ asofRows, let result := computeEntityResults rows asofRows options
    totalTests result.byDimension = totalTests result.bySeverity ∧
      totalTests result.byDimension = totalTests result.byRule ∧
        (options.facets.tables = [] → totalTests result.byDimension = totalTests result.byTable)

/-- The batches of a table end in the order of its runs, as far as that shows: no batch of the table
outlasts that of its latest run, and some batch of it outlasts that of every older run. -/
def Orderly : Prop :=
  ∀ row ∈ capped rows options, rowMatchesFacets row (withoutTables options.facets) = true →
    if isLatestRun (capped rows options) row then
      ∀ other ∈ capped rows options, other.tableFqn = row.tableFqn →
        ¬Outlasts options.runSetByRunId rows other row
    else ∃ other ∈ capped rows options, other.tableFqn = row.tableFqn ∧
      Outlasts options.runSetByRunId rows other row

variable {rows options}

theorem isLatestRun_iff {capped : List (CheckResultRow τ)} {row : CheckResultRow τ} :
    isLatestRun capped row = true ↔ ∃ last ∈ capped, last.tableFqn = row.tableFqn ∧
      last.runId = row.runId ∧
        ∀ other ∈ capped, other.tableFqn = row.tableFqn → other.runDate ≤ last.runDate := by
  simp only [isLatestRun, List.any_eq_true, Bool.and_eq_true, decide_eq_true_eq, List.all_eq_true,
    Bool.or_eq_true, ne_eq, imp_iff_not_or, and_assoc]

theorem capped_subset : capped rows options ⊆ rows := List.filter_subset_self _

/-- Two rows of the latest runs of a table are of one run. -/
theorem Dated.one (h : Dated rows) {row other : CheckResultRow τ}
    (hrow : isLatestRun (capped rows options) row = true)
    (hother : isLatestRun (capped rows options) other = true)
    (htable : row.tableFqn = other.tableFqn) : row.runId = other.runId := by
  obtain ⟨last, hlast, hsame, hid, hall⟩ := isLatestRun_iff.mp hrow
  obtain ⟨last', hlast', hsame', hid', hall'⟩ := isLatestRun_iff.mp hother
  have htables : last.tableFqn = last'.tableFqn := by rw [hsame, hsame', htable]
  have hdates : last.runDate = last'.runDate :=
    le_antisymm (hall' last hlast (htables.trans hsame')) (hall last' hlast' (htables ▸ hsame))
  rw [← hid, ← hid']
  exact (h.dated last (capped_subset hlast) last' (capped_subset hlast') htables).mpr hdates

omit [LinearOrder τ] in
theorem rowMatchesFacets_eq {row : CheckResultRow τ} {facets : ResultFacets} :
    rowMatchesFacets row facets =
      (facetAllows facets.tables (row.tableFqn = ·) &&
        rowMatchesFacets row (withoutTables facets)) := by
  simp [rowMatchesFacets, withoutTables, facetAllows, Bool.and_assoc]

/-- The last of the instants of a table, read off the batches. -/
theorem isLast_iff (h : Dated rows) {row : CheckResultRow τ} (hrow : row ∈ capped rows options) :
    (∀ other ∈ capped rows options, other.tableFqn = row.tableFqn →
      instantOf options.runSetByRunId rows other ≤ instantOf options.runSetByRunId rows row) ↔
    ∀ other ∈ capped rows options, other.tableFqn = row.tableFqn →
      ¬Outlasts options.runSetByRunId rows other row := by
  refine forall₂_congr fun other hother => imp_congr_right fun _ => ?_
  rw [← instantOf_lt_iff _ h.identified (capped_subset hrow) (capped_subset hother), not_lt]

theorem mem_byTableRows_iff (hbyTable : options.byTable = true) (h : Dated rows)
    {row : CheckResultRow τ} (hrow : row ∈ capped rows options) :
    row ∈ byTableRows rows options ↔ rowMatchesFacets row (withoutTables options.facets) = true ∧
      ∀ other ∈ capped rows options, other.tableFqn = row.tableFqn →
        ¬Outlasts options.runSetByRunId rows other row := by
  rw [byTableRows, tableBoxRows, if_pos hbyTable, mem_atLatest_iff hrow, isLast_iff h hrow,
    matchedRows, List.mem_filter]
  exact and_congr_left fun _ => and_iff_right hrow

/-- The order of the batches is what the rows shown depend on. -/
theorem orderly_iff (hbyTable : options.byTable = true) (h : Dated rows) : Orderly rows options ↔
    ∀ row ∈ capped rows options, row ∈ byTableRows rows options ↔
      rowMatchesFacets row (withoutTables options.facets) = true ∧
        isLatestRun (capped rows options) row = true := by
  refine forall₂_congr fun row hrow => ?_
  rw [mem_byTableRows_iff hbyTable h hrow, and_congr_right_iff]
  refine imp_congr_right fun _ => ?_
  cases isLatestRun (capped rows options) row with
  | true => simp
  | false => simp

theorem byTableRows_eq (hbyTable : options.byTable = true) : ∃ last : CheckResultRow τ → Bool,
    (byTableRows rows options = (capped rows options).filter fun row =>
      rowMatchesFacets row (withoutTables options.facets) && last row) ∧
    boxRows rows options = (capped rows options).filter fun row =>
      rowMatchesFacets row options.facets && last row := by
  refine ⟨fun row => (latestInstantByTable (capped rows options)
    (instantOf options.runSetByRunId rows)).lookup row.tableFqn =
      some (instantOf options.runSetByRunId rows row), ?_, ?_⟩
  · rw [byTableRows, tableBoxRows, if_pos hbyTable, atLatest, matchedRows, List.filter_filter]
    exact List.filter_congr fun row _ => Bool.and_comm _ _
  · rw [boxRows, breakdownRows, if_pos hbyTable, atLatest, matchedRows, List.filter_filter]
    exact List.filter_congr fun row _ => Bool.and_comm _ _

/-- Without a table facet the box of the tables shows what the others show. -/
theorem tableBoxRows_eq (hbyTable : options.byTable = true) (htables : options.facets.tables = [])
    (capped : List (CheckResultRow τ)) (instant : CheckResultRow τ → WithBot τ) :
    tableBoxRows options capped instant = breakdownRows options capped instant := by
  have hfacets : { options.facets with tables := [] } = options.facets := by rw [← htables]
  rw [tableBoxRows, breakdownRows, if_pos hbyTable, if_pos hbyTable, hfacets]

/-- The boxes count the tests of the same rows, whatever is counted. -/
theorem tests_breakdown (hbyTable : options.byTable = true) {count : List GroupRowOut → Int}
    {weight : CheckResultRow τ → Int}
    (hgroups : ∀ rows keyOf, count (groupRows rows keyOf true options.resolveThreshold) =
      (rows.map weight).sum)
    (hmap : ∀ groups (f : GroupRowOut → GroupRowOut),
      (∀ group, (f group).failedTests = group.failedTests ∧
        (f group).totalTests = group.totalTests) → count (groups.map f) = count groups)
    (capped : List (CheckResultRow τ)) (instant : CheckResultRow τ → WithBot τ) :
    let result := breakdown options capped instant {}
    count result.byDimension = count result.bySeverity ∧
      count result.byDimension = count result.byRule ∧
        (options.facets.tables = [] → count result.byDimension = count result.byTable) := by
  dsimp only [breakdown]
  refine ⟨?_, ?_, fun htables => ?_⟩
  · rw [hgroups, hgroups]
  · rw [hgroups, byRuleRows, hmap _ _ (labelled_tests _), hgroups]
  · rw [if_pos hbyTable, hmap _ (withBinding options.bindingIdsByTable) fun _ => ⟨rfl, rfl⟩, hgroups,
      hgroups, tableBoxRows_eq hbyTable htables]

theorem tests_eq (hbyTable : options.byTable = true) {count : List GroupRowOut → Int}
    {weight : CheckResultRow τ → Int}
    (hgroups : ∀ rows keyOf, count (groupRows rows keyOf true options.resolveThreshold) =
      (rows.map weight).sum)
    (hmap : ∀ groups (f : GroupRowOut → GroupRowOut),
      (∀ group, (f group).failedTests = group.failedTests ∧
        (f group).totalTests = group.totalTests) → count (groups.map f) = count groups)
    (asofRows : Option (List (CheckResultRow τ))) :
    let result := computeEntityResults rows asofRows options
    count result.byDimension = count result.bySeverity ∧
      count result.byDimension = count result.byRule ∧
        (options.facets.tables = [] → count result.byDimension = count result.byTable) := by
  have hshown := tests_breakdown hbyTable hgroups hmap (capped rows options)
    (instantOf options.runSetByRunId rows)
  dsimp only [computeEntityResults]
  cases haxes : options.axes with
  | all => exact hshown
  | trend => exact ⟨rfl, rfl, fun _ => rfl⟩
  | breakdown => exact hshown

/-- The boxes show the latest run of each table exactly if its batches end in order. -/
theorem snapshot_iff (hbyTable : options.byTable = true) (h : Dated rows) :
    Snapshot rows options ↔ Orderly rows options := by
  rw [orderly_iff hbyTable h]
  constructor
  · intro hsnapshot row hrow
    rw [hsnapshot.tables, List.mem_filter, and_iff_right hrow, Bool.and_eq_true]
  intro hrows
  obtain ⟨last, htables, hboxes⟩ := @byTableRows_eq τ _ rows options hbyTable
  have hlast : ∀ row ∈ capped rows options,
      rowMatchesFacets row (withoutTables options.facets) = true →
        last row = isLatestRun (capped rows options) row := by
    intro row hrow hmatches
    have hshown := hrows row hrow
    rw [htables, List.mem_filter, and_iff_right hrow, Bool.and_eq_true, and_iff_right hmatches,
      and_iff_right hmatches] at hshown
    exact Bool.eq_iff_iff.mpr hshown
  have htables' : byTableRows rows options = (capped rows options).filter fun row =>
      rowMatchesFacets row (withoutTables options.facets) &&
        isLatestRun (capped rows options) row := by
    rw [htables]
    refine List.filter_congr fun row hrow => ?_
    cases hmatches : rowMatchesFacets row (withoutTables options.facets) with
    | false => rfl
    | true => exact hlast row hrow hmatches
  refine ⟨?_, htables', ?_, ?_, ?_⟩
  · rw [hboxes]
    refine List.filter_congr fun row hrow => ?_
    rw [rowMatchesFacets_eq]
    cases hmatches : rowMatchesFacets row (withoutTables options.facets) with
    | false => simp
    | true => rw [hlast row hrow hmatches]
  · intro row hrow other hother htable
    rw [htables', List.mem_filter, Bool.and_eq_true] at hrow hother
    exact h.one hrow.2.2 hother.2.2 htable
  · exact tests_eq hbyTable (fun rows keyOf => failedTests_groupRows _ rows keyOf true)
      fun groups f hf => (tests_map hf groups).1
  · exact tests_eq hbyTable (fun rows keyOf => totalTests_groupRows _ rows keyOf true)
      fun groups f hf => (tests_map hf groups).2

/-- A check of a run: its table, its run, its date, and how many of ten rows failed. -/
def checked (table run : String) (date : Nat) (failed : Int) : CheckResultRow Nat where
  tableFqn := table.toList
  runId := some run.toList
  runDate := date
  checkName := "c".toList
  failed := failed
  total := some 10

/-- Two runs of a table, the first of them in a batch that another table ends after the second. -/
def overtaken : List (CheckResultRow Nat) :=
  [checked "a" "r1" 1 3, checked "a" "r2" 5 0, checked "b" "r3" 10 1]

def byTableView (runSets : List (Text × Text)) : Options Nat where
  byTable := true
  runSetByRunId := runSets

theorem dated_overtaken : Dated overtaken := ⟨by decide, by decide⟩

theorem snapshot_iff_overtaken :
    Snapshot overtaken (byTableView []) ↔ Orderly overtaken (byTableView []) :=
  snapshot_iff rfl dated_overtaken

/-- The older run of the table is shown, since its batch ended last. -/
theorem not_snapshot_overtaken : Dated overtaken ∧ ¬Snapshot overtaken
    (byTableView [("r1".toList, "s".toList), ("r3".toList, "s".toList)]) := by
  refine ⟨dated_overtaken, fun hsnapshot => ?_⟩
  have hruns := congrArg (List.map (·.runId)) hsnapshot.tables
  exact absurd hruns (by decide)

end Dqx.DqResults
