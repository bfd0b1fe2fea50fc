import Dqx.DqResults.Latest
import Mathlib.Data.List.Dedup

/-! The as-of view of a chosen batch. What is counted from the rows themselves depends on the batches
within the cap alone; the carried rows depend on every run that was there at the instants shown. -/

namespace Dqx.DqResults

open Lib Lib.Sql

variable {τ : Type} [LinearOrder τ]

/-! ### The as-of expansion -/

/-- A latest row of a table at or before an instant. -/
def isLatestAt (rows : List (CheckResultRow τ)) (table : Text) (instant : WithBot τ)
    (row : CheckResultRow τ) : Bool :=
  row.tableFqn = table && row.runDate ≤ instant && rows.all fun other =>
    other.tableFqn ≠ table || instant < other.runDate || other.runDate ≤ row.runDate

/-- The run that a table has at an instant: of several of one date, the first that is read. -/
def runAt (rows : List (CheckResultRow τ)) (table : Text) (instant : WithBot τ) :
    Option (CheckResultRow τ) :=
  rows.find? (isLatestAt rows table instant)

/-- Whether a table contributes a row at an instant. -/
def carries (rows : List (CheckResultRow τ)) (instant : WithBot τ) (row : CheckResultRow τ) : Bool :=
  (runAt rows row.tableFqn instant).any (·.runId = row.runId)

def stamped (instant : WithBot τ) (row : CheckResultRow τ) : CheckResultRow τ :=
  { row with runDate := instant }

def runInstants (rows : List (CheckResultRow τ)) : List (WithBot τ) :=
  (rows.map (·.runDate)).dedup.insertionSort (· ≤ ·)

/-- At every run instant the rows of the latest run of each table. -/
def asofExpansion (rows : List (CheckResultRow τ)) : List (CheckResultRow τ) :=
  (runInstants rows).flatMap fun instant =>
    (rows.filter (carries rows instant)).map (stamped instant)

/-! ### The rows within the cap -/

variable {runSets : List (Text × Text)} {rows : List (CheckResultRow τ)} {asOfBatch : Option Text}

/-- The rows of a batch have one instant. -/
theorem instantOf_sameBatch {row other : CheckResultRow τ} (hids : ∀ row ∈ rows, row.runId.isSome)
    (hrow : row ∈ rows) (hother : other ∈ rows) (hbatch : SameBatch runSets row other) :
    instantOf runSets rows row = instantOf runSets rows other := by
  obtain ⟨⟨last, hlast, hsame, hdate⟩, hall⟩ := instantOf_spec runSets hrow (hids row hrow)
  obtain ⟨⟨last', hlast', hsame', hdate'⟩, hall'⟩ :=
    instantOf_spec runSets hother (hids other hother)
  refine le_antisymm ?_ ?_
  · exact hdate ▸ hall' last hlast (hsame.trans hbatch)
  · exact hdate' ▸ hall last' hlast' (hsame'.trans hbatch.symm)

theorem withinCap_sameBatch {row other : CheckResultRow τ} (hids : ∀ row ∈ rows, row.runId.isSome)
    (hrow : row ∈ rows) (hother : other ∈ rows) (hbatch : SameBatch runSets row other) :
    withinCap runSets rows asOfBatch row = withinCap runSets rows asOfBatch other := by
  rw [withinCap, withinCap, instantOf_sameBatch hids hrow hother hbatch]

/-- The batches within the cap are within it whole. -/
theorem instantOf_cappedRows {row : CheckResultRow τ} (hids : ∀ row ∈ rows, row.runId.isSome)
    (hrow : row ∈ cappedRows runSets rows asOfBatch) :
    instantOf runSets (cappedRows runSets rows asOfBatch) row = instantOf runSets rows row := by
  obtain ⟨hmem, hwithin⟩ := List.mem_filter.mp hrow
  obtain ⟨⟨last, hlast, hsame, hdate⟩, hall⟩ := instantOf_spec runSets hmem (hids row hmem)
  obtain ⟨⟨last', hlast', hsame', hdate'⟩, hall'⟩ := instantOf_spec runSets hrow (hids row hmem)
  have hcapped : last ∈ cappedRows runSets rows asOfBatch :=
    List.mem_filter.mpr ⟨hlast, (withinCap_sameBatch hids hlast hmem hsame).trans hwithin⟩
  refine le_antisymm ?_ ?_
  · exact hdate' ▸ hall last' (List.mem_filter.mp hlast').1 hsame'
  · exact hdate ▸ hall' last hcapped hsame

theorem cappedRows_none (rows : List (CheckResultRow τ)) : cappedRows runSets rows none = rows :=
  List.filter_eq_self.mpr fun _ _ => by simp [withinCap, capInstant]

/-! ### What depends on the instants of the rows -/

section Congr

variable {capped : List (CheckResultRow τ)} {instant instant' : CheckResultRow τ → WithBot τ}
  (options : Options τ)

theorem atLatest_congr {shown : List (CheckResultRow τ)} (hshown : shown ⊆ capped)
    (h : ∀ row ∈ capped, instant row = instant' row) :
    atLatest capped instant shown = atLatest capped instant' shown := by
  have hlatest : latestInstantByTable capped instant = latestInstantByTable capped instant' := by
    rw [latestInstantByTable, latestInstantByTable]
    exact congrArg greatest (List.map_congr_left fun row hrow => by rw [h row hrow])
  rw [atLatest, atLatest, hlatest]
  exact List.filter_congr fun row hrow => by rw [h row (hshown hrow)]

theorem breakdown_congr (h : ∀ row ∈ capped, instant row = instant' row)
    (result : EntityResultsOut τ) :
    breakdown options capped instant result = breakdown options capped instant' result := by
  have hmatched (facets : ResultFacets) : matchedRows capped facets ⊆ capped :=
    List.filter_subset_self _
  have hboxes : breakdownRows options capped instant = breakdownRows options capped instant' := by
    rw [breakdownRows, breakdownRows, atLatest_congr (hmatched _) h]
  have htables : tableBoxRows options capped instant = tableBoxRows options capped instant' := by
    rw [tableBoxRows, tableBoxRows, atLatest_congr (hmatched _) h]
  rw [breakdown, breakdown, hboxes, htables]

theorem trendGrouped_congr {resolve : Option (ThresholdResolver τ)} {shown : List (CheckResultRow τ)}
    {seriesOf : CheckResultRow τ → Option Text} (h : ∀ row ∈ shown, instant row = instant' row) :
    trendGrouped resolve shown seriesOf instant = trendGrouped resolve shown seriesOf instant' := by
  have hgroups : groupBy resolve (fun row => (instant row, seriesOf row)) shown =
      groupBy resolve (fun row => (instant' row, seriesOf row)) shown := by
    rw [groupBy, groupBy]
    exact congrArg (tally _) (List.map_congr_left fun row hrow => by rw [h row hrow])
  have hdraft (key : WithBot τ × Option Text) : (shown.any fun row =>
      instant row = key.1 && seriesOf row = key.2 && row.runMode = some runModeDraft) =
        shown.any fun row =>
          instant' row = key.1 && seriesOf row = key.2 && row.runMode = some runModeDraft := by
    rw [Bool.eq_iff_iff, List.any_eq_true, List.any_eq_true]
    exact exists_congr fun row => and_congr_right fun hrow => by rw [h row hrow]
  rw [trendGrouped, trendGrouped, hgroups]
  simp only [hdraft]

theorem trends_congr (h : ∀ row ∈ capped, instant row = instant' row)
    (expansion : List (CheckResultRow τ)) (result : EntityResultsOut τ) :
    trends options capped instant expansion result =
      trends options capped instant' expansion result := by
  have hmatched : ∀ row ∈ matchedRows capped options.facets, instant row = instant' row :=
    fun row hrow => h row (List.filter_subset_self _ hrow)
  rw [trends, trends, trendGrouped_congr hmatched]

end Congr

/-! ### The carried rows -/

theorem isLatestAt_iff {table : Text} {instant : WithBot τ} {row : CheckResultRow τ} :
    isLatestAt rows table instant row = true ↔ row.tableFqn = table ∧ row.runDate ≤ instant ∧
      ∀ other ∈ rows, other.tableFqn = table → other.runDate ≤ instant →
        other.runDate ≤ row.runDate := by
  simp only [isLatestAt, Bool.and_eq_true, decide_eq_true_eq, List.all_eq_true, Bool.or_eq_true,
    ne_eq, and_assoc, ← not_le]
  refine and_congr_right fun _ => and_congr_right fun _ => forall₂_congr fun _ _ => ?_
  tauto

/-- A table that has run by an instant has a latest run at it. -/
theorem exists_runAt {row : CheckResultRow τ} {instant : WithBot τ} (hrow : row ∈ rows)
    (hdate : row.runDate ≤ instant) : ∃ last, runAt rows row.tableFqn instant = some last := by
  have hmem (date : WithBot τ) : ((), date) ∈
      ((rows.filter fun other => other.tableFqn = row.tableFqn && other.runDate ≤ instant).map
        fun other => ((), other.runDate)) ↔
        ∃ other ∈ rows, (other.tableFqn = row.tableFqn ∧ other.runDate ≤ instant) ∧
          other.runDate = date := by
    simp [and_assoc]
  obtain ⟨date, -, hlast, hall⟩ :=
    lookup_greatest ((hmem row.runDate).mpr ⟨row, hrow, ⟨rfl, hdate⟩, rfl⟩)
  obtain ⟨last, hmember, ⟨htable, hbefore⟩, rfl⟩ := (hmem date).mp hlast
  have hlatest : isLatestAt rows row.tableFqn instant last = true :=
    isLatestAt_iff.mpr ⟨htable, hbefore, fun other hother htable' hbefore' =>
      hall _ ((hmem _).mpr ⟨other, hother, ⟨htable', hbefore'⟩, rfl⟩)⟩
  cases hfound : runAt rows row.tableFqn instant with
  | none => exact absurd hlatest (List.find?_eq_none.mp hfound last hmember)
  | some found => exact ⟨found, rfl⟩

variable (runSets rows asOfBatch)

/-- At the instants of the as-of view every table carries a run of a batch within the cap. -/
def CarriesWithin : Prop :=
  ∀ shown ∈ cappedRows runSets rows asOfBatch, ∀ row ∈ rows,
    carries rows shown.runDate row = true → withinCap runSets rows asOfBatch row = true

variable {runSets rows asOfBatch}

theorem runAt_cappedRows (h : CarriesWithin runSets rows asOfBatch) {shown : CheckResultRow τ}
    (hshown : shown ∈ cappedRows runSets rows asOfBatch) (table : Text) :
    runAt (cappedRows runSets rows asOfBatch) table shown.runDate =
      runAt rows table shown.runDate := by
  have hsubset : cappedRows runSets rows asOfBatch ⊆ rows := List.filter_subset_self _
  cases hrun : runAt rows table shown.runDate with
  | none =>
    refine List.find?_eq_none.mpr fun row hrow hlatest => ?_
    obtain ⟨rfl, hdate, -⟩ := isLatestAt_iff.mp hlatest
    obtain ⟨last, hlast⟩ := exists_runAt (hsubset hrow) hdate
    rw [hrun] at hlast
    cases hlast
  | some last =>
    obtain ⟨hlatest, before, after, hrows, hbefore⟩ := List.find?_eq_some_iff_append.mp hrun
    obtain ⟨rfl, hdate, hall⟩ := isLatestAt_iff.mp hlatest
    have hlast : last ∈ rows := by rw [hrows]; simp
    have hwithin : withinCap runSets rows asOfBatch last = true :=
      h shown hshown last hlast (by rw [carries, hrun]; simp)
    have hmember : last ∈ cappedRows runSets rows asOfBatch := List.mem_filter.mpr ⟨hlast, hwithin⟩
    refine List.find?_eq_some_iff_append.mpr ⟨isLatestAt_iff.mpr ⟨rfl, hdate, fun other hother =>
      hall other (hsubset hother)⟩, before.filter (withinCap runSets rows asOfBatch),
        after.filter (withinCap runSets rows asOfBatch), ?_, fun other hother => ?_⟩
    · have hfilter := congrArg (List.filter (withinCap runSets rows asOfBatch)) hrows
      rw [List.filter_append, List.filter_cons_of_pos hwithin] at hfilter
      exact hfilter
    · have hnot := hbefore other (List.mem_filter.mp hother).1
      rw [Bool.not_eq_true', ← Bool.not_eq_true] at hnot ⊢
      intro hother'
      obtain ⟨htable, hdate', hall'⟩ := isLatestAt_iff.mp hother'
      refine hnot (isLatestAt_iff.mpr ⟨htable, hdate', fun third hthird htable' hbefore' => ?_⟩)
      exact (hall third hthird htable' hbefore').trans (hall' last hmember rfl hdate)

theorem sortedLT_runInstants (rows : List (CheckResultRow τ)) : (runInstants rows).SortedLT := by
  refine List.SortedLE.sortedLT_of_nodup ?_ ?_
  · exact (List.pairwise_insertionSort (· ≤ ·) _).sortedLE
  · exact (List.perm_insertionSort _ _).nodup_iff.mpr (List.nodup_dedup _)

theorem mem_runInstants_iff {instant : WithBot τ} :
    instant ∈ runInstants rows ↔ ∃ row ∈ rows, row.runDate = instant := by
  rw [runInstants, List.mem_insertionSort, List.mem_dedup, List.mem_map]

theorem flatMap_filter {α β : Type} (p : α → Bool) (f : α → List β) (xs : List α) :
    (xs.flatMap fun x => if p x then f x else []) = (xs.filter p).flatMap f := by
  induction xs with
  | nil => rfl
  | cons x xs ih =>
    rw [List.flatMap_cons, ih]
    cases hx : p x with
    | true => rw [List.filter_cons_of_pos hx, List.flatMap_cons, if_pos rfl]
    | false => rw [List.filter_cons_of_neg (by simp [hx]), if_neg (by decide), List.nil_append]

variable (options : Options τ)

/-- The carried rows that a view reads, instant by instant. -/
theorem expansionRows_eq {capped : List (CheckResultRow τ)} (hsubset : capped ⊆ rows) :
    expansionRows options capped (some (asofExpansion rows)) =
      (runInstants capped).flatMap fun instant =>
        ((rows.filter (carries rows instant)).map (stamped instant)).filter
          (rowMatchesFacets · options.facets) := by
  have hinstants : (runInstants rows).filter ((capped.map (·.runDate)).contains ·) =
      runInstants capped := by
    refine List.SortedLT.eq_of_mem_iff ((sortedLT_runInstants rows).pairwise.filter _).sortedLT
      (sortedLT_runInstants capped) fun instant => ?_
    rw [List.mem_filter, mem_runInstants_iff, mem_runInstants_iff, List.contains_iff_mem,
      List.mem_map]
    exact and_iff_right_of_imp fun ⟨row, hrow, hdate⟩ => ⟨row, hsubset hrow, hdate⟩
  rw [expansionRows, asofExpansion, List.filter_flatMap, ← hinstants, ← flatMap_filter]
  refine List.flatMap_congr fun instant _ => ?_
  cases hshown : (capped.map (·.runDate)).contains instant with
  | true =>
    rw [if_pos rfl]
    refine List.filter_congr fun row hrow => ?_
    obtain ⟨original, -, rfl⟩ := List.mem_map.mp hrow
    rw [stamped, hshown, Bool.true_and]
  | false =>
    rw [if_neg (by decide)]
    refine List.filter_eq_nil_iff.mpr fun row hrow => ?_
    obtain ⟨original, -, rfl⟩ := List.mem_map.mp hrow
    rw [stamped, hshown, Bool.false_and]
    decide

theorem carried_cappedRows (h : CarriesWithin runSets rows asOfBatch) {shown : CheckResultRow τ}
    (hshown : shown ∈ cappedRows runSets rows asOfBatch) :
    (cappedRows runSets rows asOfBatch).filter
      (carries (cappedRows runSets rows asOfBatch) shown.runDate) =
        rows.filter (carries rows shown.runDate) := by
  have hcarries (row : CheckResultRow τ) :
      carries (cappedRows runSets rows asOfBatch) shown.runDate row =
        carries rows shown.runDate row := by
    rw [carries, carries, runAt_cappedRows h hshown]
  conv_lhs => arg 2; rw [cappedRows]
  rw [List.filter_filter]
  refine List.filter_congr fun row hrow => ?_
  rw [hcarries]
  cases hcarried : carries rows shown.runDate row with
  | false => rfl
  | true => rw [h shown hshown row hrow hcarried]; rfl

theorem expansionRows_cappedRows (h : CarriesWithin runSets rows asOfBatch) :
    expansionRows options (cappedRows runSets rows asOfBatch) (some (asofExpansion rows)) =
      expansionRows options (cappedRows runSets rows asOfBatch)
        (some (asofExpansion (cappedRows runSets rows asOfBatch))) := by
  have hsubset : cappedRows runSets rows asOfBatch ⊆ rows := List.filter_subset_self _
  rw [expansionRows_eq options hsubset, expansionRows_eq options (List.Subset.refl _)]
  refine List.flatMap_congr fun instant hinstant => ?_
  obtain ⟨shown, hshown, rfl⟩ := mem_runInstants_iff.mp hinstant
  rw [carried_cappedRows h hshown]

/-- A run of a later batch that is carried at an instant shown is read where no facet hides it. -/
theorem exists_carried_of_not_within (h : ¬CarriesWithin runSets rows asOfBatch) :
    ∃ original ∈ rows, withinCap runSets rows asOfBatch original = false ∧ ∃ instant,
      stamped instant original ∈ expansionRows { options with facets := {} }
        (cappedRows runSets rows asOfBatch) (some (asofExpansion rows)) := by
  have hsubset : cappedRows runSets rows asOfBatch ⊆ rows := List.filter_subset_self _
  rw [CarriesWithin] at h
  push Not at h
  obtain ⟨shown, hshown, row, hrow, hcarried, hwithin⟩ := h
  refine ⟨row, hrow, by simpa using hwithin, shown.runDate, ?_⟩
  rw [expansionRows_eq _ hsubset, List.mem_flatMap]
  refine ⟨shown.runDate, mem_runInstants_iff.mpr ⟨shown, hshown, rfl⟩, List.mem_filter.mpr ⟨?_, rfl⟩⟩
  exact List.mem_map_of_mem (List.mem_filter.mpr ⟨hrow, hcarried⟩)

/-- The as-of view of a batch is the view of the batches within the cap, if every table carries a run
of these at every instant shown; otherwise rows of a later batch are in its series. -/
theorem computeEntityResults_cappedRows
    (hids : ∀ row ∈ rows, row.runId.isSome) :
    let runSets := options.runSetByRunId
    let capped := cappedRows runSets rows options.asOfBatch
    (CarriesWithin runSets rows options.asOfBatch →
      computeEntityResults rows (some (asofExpansion rows)) options =
        computeEntityResults capped (some (asofExpansion capped))
          { options with asOfBatch := none }) ∧
    (¬CarriesWithin runSets rows options.asOfBatch →
      ∃ original ∈ rows, withinCap runSets rows options.asOfBatch original = false ∧ ∃ instant,
        stamped instant original ∈ expansionRows { options with facets := {} } capped
          (some (asofExpansion rows))) := by
  intro runSets capped
  refine ⟨fun h => ?_, exists_carried_of_not_within options⟩
  have hinstants : ∀ row ∈ capped, instantOf runSets rows row = instantOf runSets capped row :=
    fun row hrow => (instantOf_cappedRows hids hrow).symm
  have hcapped : cappedRows runSets capped none = capped := cappedRows_none capped
  have hexpansion := expansionRows_cappedRows options h
  dsimp only [computeEntityResults]
  rw [hcapped, hexpansion, breakdown_congr options hinstants, trends_congr options hinstants]
  rfl

def asOfView (runSets : List (Text × Text)) : Options Nat where
  byTable := true
  runSetByRunId := runSets
  asOfBatch := some "r1".toList

def twoRuns : List (CheckResultRow Nat) := [checked "a" "r1" 5 3, checked "a" "r2" 10 0]

theorem computeEntityResults_twoRuns :
    computeEntityResults twoRuns (some (asofExpansion twoRuns)) (asOfView []) =
      computeEntityResults (cappedRows [] twoRuns (some "r1".toList))
        (some (asofExpansion (cappedRows [] twoRuns (some "r1".toList))))
        { asOfView [] with asOfBatch := none } :=
  (computeEntityResults_cappedRows (asOfView []) (by decide)).1 (by unfold CarriesWithin; decide)

/-- A batch that ends after the chosen one, with a run before it. -/
def ranEarly : List (CheckResultRow Nat) :=
  [checked "u" "r2" 3 10, checked "a" "r1" 5 0, checked "a" "r3" 10 0]

def laterBatch : List (Text × Text) := [("r2".toList, "s".toList), ("r3".toList, "s".toList)]

/-- The run of the later batch is counted in the view of the earlier one. -/
theorem computeEntityResults_ranEarly :
    computeEntityResults ranEarly (some (asofExpansion ranEarly)) (asOfView laterBatch) ≠
      computeEntityResults (cappedRows laterBatch ranEarly (some "r1".toList))
        (some (asofExpansion (cappedRows laterBatch ranEarly (some "r1".toList))))
        { asOfView laterBatch with asOfBatch := none } := by
  intro h
  have htotals := congrArg (fun result => result.trendByDimension.map (·.totalTests)) h
  exact absurd htotals (by decide)

end Dqx.DqResults
