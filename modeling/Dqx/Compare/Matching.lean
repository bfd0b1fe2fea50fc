import Dqx.Compare.Pairing
import Mathlib.Data.List.FinRange

/-! The comparison itself: the outer join of the paired datasets, the flags of missing and extra
rows, the compared columns and the reported status. The join is a partial matching of the two
datasets. -/

namespace Dqx.Compare

open Lib

variable {k c : Nat} {V P Q : Type} [DecidableEq V]

/-- A row of an input dataset: its matching key, its compared values and its other columns. -/
structure InputRow (k c : Nat) (V P : Type) where
  key : Fin k → Option V
  values : Fin c → Option V
  rest : P

/-- The options of the check that the matching depends on. `rowFilter` is the outcome of the filter
on each source row, where one is set; `differs` tells whether a compared column counts as changed,
which follows from tolerances and null-safety. -/
structure CompareOptions (k c : Nat) (V P : Type) where
  rowFilter : Option (InputRow k c V P → Option Bool)
  checkMissingRecords : Bool
  nullSafeRowMatching : Bool
  differs : Fin c → Option V → Option V → Option Bool

/-- A source row carries the outcome of the filter. -/
abbrev SourceRow (k c : Nat) (V P : Type) := Row k c V (Option Bool × P)

abbrev ReferenceRow (k c : Nat) (V Q : Type) := Row k c V Q

/-- A source row with the filter column and its scope: null is out of scope. -/
def CompareOptions.withScope (options : CompareOptions k c V P) (row : InputRow k c V P) :
    SourceRow k c V P :=
  let filter := match options.rowFilter with
    | none => some true
    | some rowFilter => rowFilter row
  { key := row.key, values := row.values, scope := filter.getD false, rest := (filter, row.rest) }

/-- A reference row, which is always in scope. -/
def asReference (row : InputRow k c V Q) : ReferenceRow k c V Q where
  key := row.key
  values := row.values
  scope := true
  rest := row.rest

/-- The join condition of `_match_paired_rows`, with phases or without. -/
def pairs {ρ σ : Type} (phased nullSafe : Bool) (a : Placed k c V ρ) (b : Placed k c V σ) : Bool :=
  if phased then
    buildJoinCondition nullSafe a.row.key b.row.key && a.phase = b.phase &&
      a.rowNumber = b.rowNumber && (a.row.scope || a.inScopeKey = 0) &&
      (a.phase = 0 || buildJoinCondition true a.row.values b.row.values)
  else buildJoinCondition nullSafe a.row.key b.row.key && a.rowNumber = b.rowNumber

/-- A joined row: either side may be absent. -/
abbrev Joined (k c : Nat) (V P Q : Type) :=
  Option (Placed k c V (Option Bool × P)) × Option (Placed k c V Q)

/-- `_match_paired_rows`. -/
def matchPairedRows (phased nullSafe checkMissingRecords : Bool)
    (df : List (Placed k c V (Option Bool × P))) (refDf : List (Placed k c V Q)) :
    List (Joined k c V P Q) :=
  if checkMissingRecords then fullOuter (pairs phased nullSafe) df refDf
  else (leftOuter (pairs phased nullSafe) df refDf).map fun p => (some p.1, p.2)

/-- A side of a joined row is absent when its key columns and its row number are all null. -/
def absent {ρ : Type} (side : Option (Placed k c V ρ)) : Bool :=
  decide (∀ i, (side.bind fun r => r.row.key i) = none) && (side.map (·.rowNumber)).isNone

/-- What is reported about a joined row. -/
structure Status (c : Nat) where
  rowMissing : Bool
  rowExtra : Bool
  changed : List (Fin c)
deriving DecidableEq

/-- A row of the result: the joined rows it comes from, its flags and its condition. -/
structure Compared (k c : Nat) (V P Q : Type) where
  source : Option (SourceRow k c V P)
  reference : Option (ReferenceRow k c V Q)
  status : Status c
  condition : Option (Status c)

namespace CompareOptions

variable (options : CompareOptions k c V P)

/-- `_add_row_diffs` and `_add_column_diffs`. -/
def status (joined : Joined k c V P Q) : Status c where
  rowMissing := absent joined.1
  rowExtra := absent joined.2
  changed := (List.finRange c).filter fun i =>
    options.differs i (joined.1.bind fun r => r.row.values i)
      (joined.2.bind fun r => r.row.values i) = some true

/-- `_add_compare_condition`: missing rows and rows in scope are reported unless all is well. A
filter that is null reports nothing. -/
def compareCondition (joined : Joined k c V P Q) : Option (Status c) :=
  let status := options.status joined
  let filter := joined.1.bind fun r => r.row.rest.1
  let allIsOk := !status.rowMissing && !status.rowExtra && status.changed.isEmpty
  if (status.rowMissing || filter = some true) && !allIsOk then some status else none

def compared (joined : Joined k c V P Q) : Compared k c V P Q where
  source := joined.1.map (·.row)
  reference := joined.2.map (·.row)
  status := options.status joined
  condition := options.compareCondition joined

variable {valueOrder : (Fin c → Option V) → (Fin c → Option V) → Prop}

/-- `compare_datasets` with duplicate keys allowed. -/
def compareDatasets (windows : Windows k c V (Option Bool × P) Q valueOrder)
    (df : List (InputRow k c V P)) (refDf : List (InputRow k c V Q)) :
    List (Compared k c V P Q) :=
  let phased := options.rowFilter.isSome
  let paired := addLazyPairingColumns windows options.nullSafeRowMatching phased
    (df.map options.withScope) (refDf.map asReference)
  (matchPairedRows phased options.nullSafeRowMatching options.checkMissingRecords
    paired.1 paired.2).map options.compared

end CompareOptions

/-- The columns of a result row that come from the input: key columns from whichever side has them,
the others from the source. -/
def Compared.columns (row : Compared k c V P Q) :
    (Fin k → Option V) × (Fin c → Option V) × Option P :=
  (fun i => (row.source.bind fun r => r.key i).or (row.reference.bind fun r => r.key i),
    fun i => row.source.bind fun r => r.values i, row.source.map fun r => r.rest.2)

/-- A result is a partial matching of a source and a reference dataset: every source row occurs
once, with its own columns; pairs have keys that match; every reference row occurs at most once, and
exactly once when missing records are checked; and the rows flagged missing are those without a
source row, each from one reference row. -/
structure PartialMatching (nullSafe checkMissingRecords : Bool) (df : List (SourceRow k c V P))
    (refDf : List (ReferenceRow k c V Q)) (result : List (Compared k c V P Q)) : Prop where
  sources : (result.filterMap (·.source)).Perm df
  columns : ∀ row ∈ result, ∀ a, row.source = some a →
    row.columns = (a.key, a.values, some a.rest.2)
  keys : ∀ row ∈ result, ∀ a b, row.source = some a → row.reference = some b →
    buildJoinCondition nullSafe a.key b.key = true
  references : (result.filterMap (·.reference)).Subperm refDf
  allReferences : checkMissingRecords = true → (result.filterMap (·.reference)).Perm refDf
  missing : ∀ row ∈ result, row.status.rowMissing = true ↔ row.source = none
  missingReference : ∀ row ∈ result, row.status.rowMissing = true →
    checkMissingRecords = true ∧ ∃ b, row.reference = some b

section Join

variable {ρ σ : Type} {phased nullSafe : Bool}

theorem key_of_pairs {a : Placed k c V ρ} {b : Placed k c V σ}
    (h : pairs phased nullSafe a b = true) :
    buildJoinCondition nullSafe a.row.key b.row.key = true := by
  unfold pairs at h
  split at h <;> simp_all

/-- What rows that pair agree on. -/
theorem eq_of_pairs {a : Placed k c V ρ} {b : Placed k c V σ}
    (h : pairs phased nullSafe a b = true) :
    a.row.key = b.row.key ∧ a.rowNumber = b.rowNumber ∧
      (phased = true → a.phase = b.phase ∧ (a.phase ≠ 0 → a.row.values = b.row.values)) := by
  have hkey := eq_of_buildJoinCondition (key_of_pairs h)
  unfold pairs at h
  split at h
  · simp only [Bool.and_eq_true, decide_eq_true_eq, Bool.or_eq_true] at h
    refine ⟨hkey, h.1.1.2, fun _ => ⟨h.1.1.1.2, fun hphase => ?_⟩⟩
    exact eq_of_buildJoinCondition (h.2.resolve_left hphase)
  · rename_i hphased
    simp only [Bool.and_eq_true, decide_eq_true_eq] at h
    exact ⟨hkey, h.2, fun hp => absurd hp hphased⟩

/-- Two rows that pair with the same row have the same place. -/
theorem samePlace_of_pairs_right {a a' : Placed k c V ρ} {b : Placed k c V σ}
    (h : pairs phased nullSafe a b = true) (h' : pairs phased nullSafe a' b = true) :
    SamePlace phased a a' := by
  obtain ⟨hkey, hnumber, hphased⟩ := eq_of_pairs h
  obtain ⟨hkey', hnumber', hphased'⟩ := eq_of_pairs h'
  refine ⟨hkey.trans hkey'.symm, hnumber.trans hnumber'.symm, fun hp => ?_, fun hp hphase => ?_⟩
  · exact (hphased hp).1.trans (hphased' hp).1.symm
  · have hphase' : a'.phase ≠ 0 := by
      rw [(hphased' hp).1, ← (hphased hp).1]
      exact hphase
    exact ((hphased hp).2 hphase).trans ((hphased' hp).2 hphase').symm

theorem samePlace_of_pairs_left {a : Placed k c V ρ} {b b' : Placed k c V σ}
    (h : pairs phased nullSafe a b = true) (h' : pairs phased nullSafe a b' = true) :
    SamePlace phased b b' := by
  obtain ⟨hkey, hnumber, hphased⟩ := eq_of_pairs h
  obtain ⟨hkey', hnumber', hphased'⟩ := eq_of_pairs h'
  refine ⟨hkey.symm.trans hkey', hnumber.symm.trans hnumber', fun hp => ?_, fun hp hphase => ?_⟩
  · exact (hphased hp).1.symm.trans (hphased' hp).1
  · have hphase' : a.phase ≠ 0 := by
      rw [(hphased hp).1]
      exact hphase
    exact ((hphased hp).2 hphase').symm.trans ((hphased' hp).2 hphase')

/-- Rows with places of their own match at most one row of the other dataset each. -/
theorem OwnPlaces.length_le_one {refDf : List (Placed k c V σ)} (h : OwnPlaces phased refDf)
    (a : Placed k c V ρ) : (refDf.filter (pairs phased nullSafe a)).length ≤ 1 :=
  length_filter_le_one (h.imp fun hne hb => hne (samePlace_of_pairs_left hb.1 hb.2))

theorem OwnPlaces.disjoint {df : List (Placed k c V ρ)} (h : OwnPlaces phased df)
    (nullSafe : Bool) (refDf : List (Placed k c V σ)) :
    df.Pairwise fun a a' => ∀ b ∈ refDf,
      ¬(pairs phased nullSafe a b = true ∧ pairs phased nullSafe a' b = true) :=
  h.imp fun hne _ _ hb => hne (samePlace_of_pairs_right hb.1 hb.2)

end Join

omit [DecidableEq V] in
theorem absent_some {ρ : Type} (r : Placed k c V ρ) : absent (some r) = false := by
  simp [absent]

omit [DecidableEq V] in
theorem absent_none {ρ : Type} : absent (none : Option (Placed k c V ρ)) = true := by
  simp [absent]

section Matching

variable {phased nullSafe checkMissingRecords : Bool} {df : List (Placed k c V (Option Bool × P))}
  {refDf : List (Placed k c V Q)}

/-- A joined row is a source row with at most a match, or a reference row on its own. -/
theorem mem_matchPairedRows {j : Joined k c V P Q}
    (h : j ∈ matchPairedRows phased nullSafe checkMissingRecords df refDf) :
    (∃ a, j.1 = some a ∧ ∀ b, j.2 = some b → pairs phased nullSafe a b = true) ∨
      (checkMissingRecords = true ∧ j.1 = none ∧ ∃ b, j.2 = some b) := by
  have hleft : ∀ p ∈ leftOuter (pairs phased nullSafe) df refDf,
      ∀ b, p.2 = some b → pairs phased nullSafe p.1 b = true :=
    fun p hp b hb => ((mem_leftOuter (a := p.1) (o := p.2) hp).2 b hb).2
  unfold matchPairedRows at h
  split at h
  · rename_i hcheck
    rw [fullOuter, List.mem_append] at h
    rcases h with h | h
    · obtain ⟨p, hp, rfl⟩ := List.mem_map.mp h
      exact .inl ⟨p.1, rfl, hleft p hp⟩
    · obtain ⟨b, -, rfl⟩ := List.mem_map.mp h
      exact .inr ⟨hcheck, rfl, b, rfl⟩
  · obtain ⟨p, hp, rfl⟩ := List.mem_map.mp h
    exact .inl ⟨p.1, rfl, hleft p hp⟩

/-- Every source row is joined once. -/
theorem matchPairedRows_sources (h : OwnPlaces phased refDf) :
    (matchPairedRows phased nullSafe checkMissingRecords df refDf).filterMap Prod.fst = df := by
  have hfst : (leftOuter (pairs phased nullSafe) df refDf).map Prod.fst = df :=
    leftOuter_map_fst fun a _ => h.length_le_one a
  have hleft : ((leftOuter (pairs phased nullSafe) df refDf).map
      fun p => ((some p.1, p.2) : Joined k c V P Q)).filterMap Prod.fst = df := by
    rw [List.filterMap_map]
    conv_rhs => rw [← hfst, ← List.filterMap_eq_map]
    rfl
  unfold matchPairedRows
  split
  · rw [fullOuter, List.filterMap_append, hleft, List.filterMap_map]
    have hnone : (refDf.filter fun b => !df.any fun a => pairs phased nullSafe a b).filterMap
        ((Prod.fst : Joined k c V P Q → _) ∘ fun b => (none, some b)) = [] := by
      simp
    rw [hnone, List.append_nil]
  · exact hleft

/-- Every reference row is joined at most once, and once when missing records are checked. -/
theorem matchPairedRows_references (nullSafe checkMissingRecords : Bool)
    (refDf : List (Placed k c V Q)) (h : OwnPlaces phased df) :
    ((matchPairedRows phased nullSafe checkMissingRecords df refDf).filterMap Prod.snd).Subperm
        refDf ∧
      (checkMissingRecords = true →
        ((matchPairedRows phased nullSafe checkMissingRecords df refDf).filterMap Prod.snd).Perm
          refDf) := by
  have hperm := leftOuter_filterMap_snd_append_perm (h.disjoint nullSafe refDf)
  have hleft : ((leftOuter (pairs phased nullSafe) df refDf).map
      fun p => ((some p.1, p.2) : Joined k c V P Q)).filterMap Prod.snd =
        (leftOuter (pairs phased nullSafe) df refDf).filterMap Prod.snd := by
    rw [List.filterMap_map]
    rfl
  cases checkMissingRecords with
  | false =>
    simp only [matchPairedRows, Bool.false_eq_true, if_false, false_implies, and_true]
    rw [hleft]
    exact (List.sublist_append_left _ _).subperm.trans hperm.subperm
  | true =>
    have hall : ((matchPairedRows phased nullSafe true df refDf).filterMap Prod.snd).Perm refDf := by
      simp only [matchPairedRows, if_true, fullOuter]
      rw [List.filterMap_append, hleft, List.filterMap_map]
      have hsome : (refDf.filter fun b => !df.any fun a => pairs phased nullSafe a b).filterMap
          ((Prod.snd : Joined k c V P Q → _) ∘ fun b => (none, some b)) =
            refDf.filter fun b => !df.any fun a => pairs phased nullSafe a b :=
        List.filterMap_some
      rw [hsome]
      exact hperm
    exact ⟨hall.subperm, fun _ => hall⟩

end Matching

/-- The columns of a result row with a source row are those of the source row. -/
theorem columns_compared (options : CompareOptions k c V P) {phased nullSafe : Bool}
    {j : Joined k c V P Q} {a : Placed k c V (Option Bool × P)} (ha : j.1 = some a)
    (hpair : ∀ b, j.2 = some b → pairs phased nullSafe a b = true) :
    (options.compared j).columns = (a.row.key, a.row.values, some a.row.rest.2) := by
  simp only [Compared.columns, CompareOptions.compared, ha, Option.map_some, Option.bind_some]
  congr 1
  funext i
  cases hb : j.2 with
  | none => simp
  | some b =>
    have hkey := (eq_of_pairs (hpair b hb)).1
    rw [hkey]
    cases hi : b.row.key i <;> simp [hi]

/-- Datasets whose rows have places of their own join into a partial matching. -/
theorem partialMatching_of_ownPlaces (options : CompareOptions k c V P)
    {phased nullSafe checkMissingRecords : Bool} {df : List (Placed k c V (Option Bool × P))}
    {refDf : List (Placed k c V Q)} (hdf : OwnPlaces phased df) (hrefDf : OwnPlaces phased refDf)
    {sources : List (SourceRow k c V P)} {references : List (ReferenceRow k c V Q)}
    (hsources : (df.map (·.row)).Perm sources)
    (hreferences : (refDf.map (·.row)).Perm references) :
    PartialMatching nullSafe checkMissingRecords sources references
      ((matchPairedRows phased nullSafe checkMissingRecords df refDf).map options.compared) := by
  have hsource : ∀ joined : List (Joined k c V P Q),
      (joined.map options.compared).filterMap (·.source) =
        (joined.filterMap Prod.fst).map (·.row) := by
    intro joined
    rw [List.filterMap_map, List.map_filterMap]
    rfl
  have hreference : ∀ joined : List (Joined k c V P Q),
      (joined.map options.compared).filterMap (·.reference) =
        (joined.filterMap Prod.snd).map (·.row) := by
    intro joined
    rw [List.filterMap_map, List.map_filterMap]
    rfl
  obtain ⟨hsub, hall⟩ := matchPairedRows_references nullSafe checkMissingRecords refDf hdf
  have hmissing : ∀ j ∈ matchPairedRows phased nullSafe checkMissingRecords df refDf,
      absent j.1 = true ↔ (options.compared j).source = none := by
    intro j _
    cases hj : j.1 with
    | none => simp [absent_none, CompareOptions.compared, hj]
    | some a => simp [absent_some, CompareOptions.compared, hj]
  refine ⟨?_, ?_, ?_, ?_, ?_, ?_, ?_⟩
  · rw [hsource, matchPairedRows_sources hrefDf]
    exact hsources
  · intro row hrow a ha
    obtain ⟨j, hj, rfl⟩ := List.mem_map.mp hrow
    obtain ⟨p, hp, rfl⟩ := Option.map_eq_some_iff.mp ha
    rcases mem_matchPairedRows hj with ⟨p', hp', hpair⟩ | ⟨-, hnone, -⟩
    · rw [hp] at hp'
      cases hp'
      exact columns_compared options hp hpair
    · rw [hp] at hnone
      cases hnone
  · intro row hrow a b ha hb
    obtain ⟨j, hj, rfl⟩ := List.mem_map.mp hrow
    obtain ⟨p, hp, rfl⟩ := Option.map_eq_some_iff.mp ha
    obtain ⟨q, hq, rfl⟩ := Option.map_eq_some_iff.mp hb
    rcases mem_matchPairedRows hj with ⟨p', hp', hpair⟩ | ⟨-, hnone, -⟩
    · rw [hp] at hp'
      cases hp'
      exact key_of_pairs (hpair q hq)
    · rw [hp] at hnone
      cases hnone
  · rw [hreference]
    obtain ⟨l, hperm, hsublist⟩ := hsub
    have hmap : ((matchPairedRows phased nullSafe checkMissingRecords df refDf).filterMap
        Prod.snd |>.map (·.row)).Subperm (refDf.map (·.row)) :=
      ⟨l.map (·.row), hperm.map _, hsublist.map _⟩
    exact hmap.trans hreferences.subperm
  · intro hcheck
    rw [hreference]
    exact ((hall hcheck).map _).trans hreferences
  · intro row hrow
    obtain ⟨j, hj, rfl⟩ := List.mem_map.mp hrow
    exact hmissing j hj
  · intro row hrow hflag
    obtain ⟨j, hj, rfl⟩ := List.mem_map.mp hrow
    have hnone : (options.compared j).source = none := (hmissing j hj).mp hflag
    rcases mem_matchPairedRows hj with ⟨p, hp, -⟩ | ⟨hcheck, -, b, hb⟩
    · simp [CompareOptions.compared, hp] at hnone
    · exact ⟨hcheck, b.row, by simp [CompareOptions.compared, hb]⟩

/-- A source of two rows under a null key, one out of scope, against two reference rows. The row out
of scope takes no reference row, and the reference row left over is missing. -/
example :
    let options : CompareOptions 1 1 Nat Bool :=
      { rowFilter := some fun row => some row.rest, checkMissingRecords := true,
        nullSafeRowMatching := true, differs := fun _ x y => some (x ≠ y) }
    let windows : Windows 1 1 Nat (Option Bool × Bool) Unit fun _ _ => True :=
      .ofSort (fun _ _ _ _ _ => trivial) fun _ _ => .inl trivial
    let df : List (InputRow 1 1 Nat Bool) :=
      [⟨fun _ => none, fun _ => some 1, false⟩, ⟨fun _ => none, fun _ => some 2, true⟩]
    let refDf : List (InputRow 1 1 Nat Unit) :=
      [⟨fun _ => none, fun _ => some 1, ()⟩, ⟨fun _ => none, fun _ => some 2, ()⟩]
    (options.compareDatasets windows df refDf).map (·.condition) =
      [none, none, some ⟨true, false, [0]⟩] := by
  decide

end Dqx.Compare
