import Dqx.Compare.Matching

/-! The rows in scope of a filtered comparison: which counts and ranks they get, and the reference
rows they are paired with. None of these depends on the rows out of scope. -/

namespace Dqx.Compare

open Lib

variable {k c : Nat} {V ρ σ : Type} [DecidableEq V]

theorem buildJoinCondition_iff {n : Nat} {nullSafe : Bool} {xs ys : Fin n → Option V} :
    buildJoinCondition nullSafe xs ys = true ↔ xs = ys ∧ (nullSafe = true ∨ ∀ i, xs i ≠ none) := by
  constructor
  · intro h
    refine ⟨eq_of_buildJoinCondition h, ?_⟩
    cases nullSafe with
    | true => exact .inl rfl
    | false =>
      refine .inr fun i hnone => ?_
      have hi : equals false (xs i) (ys i) = true := of_decide_eq_true h i
      rw [hnone] at hi
      exact Bool.false_ne_true hi
  · rintro ⟨rfl, hsafe⟩
    refine decide_eq_true fun i => ?_
    unfold equals
    split
    · exact decide_eq_true rfl
    · rename_i hunsafe
      obtain ⟨x, hx⟩ := Option.ne_none_iff_exists'.mp (hsafe.resolve_left hunsafe i)
      rw [hx]
      exact decide_eq_true rfl

/-- The number of opposite rows whose keys match a key, with the same values. -/
def oppositeCount (nullSafe : Bool) (opposite : List (Row k c V σ))
    (key : (Fin k → Option V) × (Fin c → Option V)) : Nat :=
  opposite.countP fun r => buildJoinCondition nullSafe key.1 r.key && key.2 = r.values

theorem withOppositeCounts_eq (nullSafe : Bool) (rows : List (Row k c V ρ))
    (opposite : List (Row k c V σ)) : withOppositeCounts nullSafe rows opposite =
      rows.map fun row => (row, oppositeCount nullSafe opposite row.exactKey) := by
  rw [withOppositeCounts, leftOuter_eq_map fun row _ => oppositeGroups_le_one .., List.map_map]
  apply List.map_congr_left
  intro row _
  refine Prod.ext rfl ?_
  show ((List.find? _ _).map Prod.snd).getD 0 = _
  by_cases hsafe : nullSafe = true ∨ ∀ i, row.key i ≠ none
  · have hon : ∀ group : ((Fin k → Option V) × (Fin c → Option V)) × Nat,
        (buildJoinCondition nullSafe row.key group.1.1 &&
          buildJoinCondition true row.values group.1.2) = decide (group.1 = row.exactKey) := by
      intro group
      rw [Bool.eq_iff_iff, Bool.and_eq_true, buildJoinCondition_iff, buildJoinCondition_iff,
        decide_eq_true_eq]
      constructor
      · rintro ⟨⟨hkey, -⟩, hvalues, -⟩
        exact Prod.ext hkey.symm hvalues.symm
      · intro hgroup
        rw [hgroup]
        exact ⟨⟨rfl, hsafe⟩, rfl, .inl rfl⟩
    simp only [hon]
    rw [find?_groupCounts, List.countP_filter, oppositeCount]
    apply List.countP_congr
    intro r _
    show _ ↔ (buildJoinCondition nullSafe row.key r.key && row.values = r.values) = true
    rw [Bool.and_eq_true, Bool.and_eq_true, buildJoinCondition_iff, decide_eq_true_eq,
      decide_eq_true_eq, Bool.or_eq_true, decide_eq_true_eq]
    constructor
    · rintro ⟨hexact, -⟩
      obtain ⟨hkey, hvalues⟩ := Prod.mk.inj hexact
      exact ⟨⟨hkey.symm, hsafe⟩, hvalues.symm⟩
    · rintro ⟨⟨hkey, -⟩, hvalues⟩
      exact ⟨Prod.ext hkey.symm hvalues.symm, hkey ▸ hsafe⟩
  · have hnone : ∀ xs, buildJoinCondition nullSafe row.key xs = false := by
      intro xs
      rw [← Bool.not_eq_true, buildJoinCondition_iff]
      exact fun h => hsafe h.2
    have hfind : ∀ groups : List (((Fin k → Option V) × (Fin c → Option V)) × Nat),
        (groups.find? fun _ => false) = none := fun groups => by simp
    simp [hnone, oppositeCount, hfind, Row.exactKey]

section Filter

variable (inScopeKey : Row k c V ρ → Nat) (mayPair : Row k c V ρ → Bool)

/-- The rows in scope, where they come first, are ranked as if alone. -/
theorem withExactPairs_filter {le : Row k c V ρ × Nat → Row k c V ρ × Nat → Prop}
    {window : Arrangement (fun r : Row k c V ρ × Nat => r.1.exactKey) le}
    {rows : List (Row k c V ρ × Nat)}
    (hle : ∀ a ∈ rows, ∀ b ∈ rows, le a b → b.1.scope ≤ a.1.scope) :
    (withExactPairs window mayPair inScopeKey rows).filter (·.row.scope) =
      (number (fun r : Row k c V ρ × Nat => r.1.exactKey)
        ((window.run rows).filter (·.1.scope))).map fun ((row, oppositeCount), rank) =>
          { row, inScopeKey := inScopeKey row, exactRank := rank,
            exactPair := mayPair row && rank ≤ oppositeCount } := by
  rw [withExactPairs, List.filter_map, Arrangement.rowNumber]
  congr 1
  refine number_filter (p := fun r : Row k c V ρ × Nat => r.1.scope) ?_
  refine (window.sorted rows).imp_of_mem fun {a b} ha hb hab hpart hscope => ?_
  have hba := hle a (window.mem_run.mp ha) b (window.mem_run.mp hb) (hab hpart)
  rw [hscope] at hba
  exact top_le_iff.mp hba

theorem withResidualRanks_filter {le : Ranked k c V ρ → Ranked k c V ρ → Prop}
    {window : Arrangement (fun r : Ranked k c V ρ => (r.row.key, r.exactPair)) le}
    {rows : List (Ranked k c V ρ)} (hle : ∀ a b, le a b → b.row.scope ≤ a.row.scope) :
    (withResidualRanks window rows).filter (·.row.scope) =
      (number (fun r : Ranked k c V ρ => (r.row.key, r.exactPair))
        ((window.run rows).filter (·.row.scope))).map fun (r, rank) =>
          { r with residualRank := rank } := by
  rw [withResidualRanks, List.filter_map, Arrangement.rowNumber]
  congr 1
  refine number_filter (p := fun r : Ranked k c V ρ => r.row.scope) ?_
  refine (window.sorted rows).imp fun {a b} hab hpart hscope => ?_
  have hba := hle a b (hab hpart)
  rw [hscope] at hba
  exact top_le_iff.mp hba

end Filter

section Matching

variable {P Q : Type} {phased nullSafe checkMissingRecords : Bool}
  {df : List (Placed k c V (Option Bool × P))} {refDf : List (Placed k c V Q)}

/-- Every source row with the reference row that it is paired with, then the reference rows left. -/
theorem matchPairedRows_eq (h : OwnPlaces phased refDf) :
    matchPairedRows phased nullSafe checkMissingRecords df refDf =
      (df.map fun a => (some a, refDf.find? (pairs phased nullSafe a))) ++
        if checkMissingRecords then
          (refDf.filter fun b => !df.any fun a => pairs phased nullSafe a b).map
            fun b => (none, some b)
        else [] := by
  have hleft : (leftOuter (pairs phased nullSafe) df refDf).map
      (fun p => ((some p.1, p.2) : Joined k c V P Q)) =
        df.map fun a => (some a, refDf.find? (pairs phased nullSafe a)) := by
    rw [leftOuter_eq_map fun a _ => h.length_le_one a, List.map_map]
    rfl
  rw [matchPairedRows]
  cases checkMissingRecords with
  | true => rw [if_pos rfl, if_pos rfl, fullOuter, hleft]
  | false => rw [if_neg Bool.false_ne_true, if_neg Bool.false_ne_true, hleft, List.append_nil]

/-- The rows of a result that come from source rows in scope. -/
def inScopeRows (result : List (Compared k c V P Q)) : List (Compared k c V P Q) :=
  result.filter fun row => row.source.any (·.scope)

/-- The rows of a result that report reference rows of a key as missing. -/
def missingRows (key : Fin k → Option V) (result : List (Compared k c V P Q)) :
    List (Compared k c V P Q) :=
  result.filter fun row => row.status.rowMissing && row.reference.any fun r => r.key = key

theorem inScopeRows_compared (options : CompareOptions k c V P) (h : OwnPlaces phased refDf) :
    inScopeRows ((matchPairedRows phased nullSafe checkMissingRecords df refDf).map
        options.compared) =
      (df.filter (·.row.scope)).map fun a =>
        options.compared (some a, refDf.find? (pairs phased nullSafe a)) := by
  have hmissing : ∀ rest : List (Placed k c V Q), ((rest.map fun b =>
      ((none, some b) : Joined k c V P Q)).map options.compared).filter
        (fun row => row.source.any (·.scope)) = [] := by
    intro rest
    rw [List.map_map, List.filter_eq_nil_iff]
    rintro row hrow
    obtain ⟨b, -, rfl⟩ := List.mem_map.mp hrow
    exact Bool.false_ne_true
  rw [inScopeRows, matchPairedRows_eq h, List.map_append, List.filter_append, List.map_map,
    List.filter_map]
  have hrest : ((if checkMissingRecords = true then
      (refDf.filter fun b => !df.any fun a => pairs phased nullSafe a b).map fun b =>
        ((none, some b) : Joined k c V P Q)
      else []).map options.compared).filter (fun row => row.source.any (·.scope)) = [] := by
    split
    · exact hmissing _
    · rfl
  rw [hrest, List.append_nil]
  rfl

theorem missingRows_compared (options : CompareOptions k c V P) (key : Fin k → Option V)
    (h : OwnPlaces phased refDf) :
    missingRows key ((matchPairedRows phased nullSafe checkMissingRecords df refDf).map
        options.compared) =
      if checkMissingRecords then
        (refDf.filter fun b => b.row.key = key && !df.any fun a => pairs phased nullSafe a b).map
          fun b => options.compared (none, some b)
      else [] := by
  have hsources : ((df.map fun a => ((some a, refDf.find? (pairs phased nullSafe a)) :
      Joined k c V P Q)).map options.compared).filter
        (fun row => row.status.rowMissing && row.reference.any fun r => r.key = key) = [] := by
    rw [List.map_map, List.filter_eq_nil_iff]
    rintro row hrow
    obtain ⟨a, -, rfl⟩ := List.mem_map.mp hrow
    simp [CompareOptions.compared, CompareOptions.status, absent_some]
  rw [missingRows, matchPairedRows_eq h, List.map_append, List.filter_append, hsources,
    List.nil_append]
  split
  · rw [List.map_map, List.filter_map, List.filter_filter]
    congr 1
    apply List.filter_congr
    intro b _
    simp [CompareOptions.compared, CompareOptions.status, absent_none]
  · rfl

end Matching

section MaxScope

variable {df : List (Row k c V ρ)} {row : Row k c V ρ}

theorem maxScope_eq_one (h : ∃ r ∈ df, r.key = row.key ∧ r.scope = true) : maxScope df row = 1 := by
  obtain ⟨r, hr, hkey, hscope⟩ := h
  have hmem : 1 ∈ (df.filter fun r => r.key = row.key).map fun r => r.scope.toNat :=
    List.mem_map.mpr ⟨r, List.mem_filter.mpr ⟨hr, by simpa using hkey⟩, by simp [hscope]⟩
  have hle : ∀ n ∈ (df.filter fun r => r.key = row.key).map fun r => r.scope.toNat, n ≤ 1 := by
    intro n hn
    obtain ⟨r, -, rfl⟩ := List.mem_map.mp hn
    exact Bool.toNat_le r.scope
  have hfold : ∀ (ns : List Nat) (m : Nat), m ≤ 1 → (∀ n ∈ ns, n ≤ 1) →
      (m = 1 ∨ 1 ∈ ns) → ns.foldl max m = 1 := by
    intro ns
    induction ns with
    | nil =>
      intro m hm _ hone
      simpa using hone
    | cons n ns ih =>
      intro m hm hns hone
      rw [List.forall_mem_cons] at hns
      refine ih (max m n) (by omega) hns.2 ?_
      rcases hone with rfl | hone
      · exact .inl (by omega)
      · rcases List.mem_cons.mp hone with rfl | hone
        · exact .inl (by omega)
        · exact .inr hone
  exact hfold _ 0 (Nat.zero_le 1) hle (.inr hmem)

end MaxScope

section Pipeline

variable {valueOrder : (Fin c → Option V) → (Fin c → Option V) → Prop}
  (windows : Windows k c V ρ σ valueOrder) (nullSafe : Bool) (df : List (Row k c V ρ))
  (refDf : List (Row k c V σ))

/-- The source rows with their exact pairs. -/
def sourceRanked : List (Ranked k c V ρ) :=
  withExactPairs windows.sourceExact (·.scope) (maxScope df) (withOppositeCounts nullSafe df refDf)

/-- The reference rows with their exact pairs. -/
def referenceRanked : List (Ranked k c V σ) :=
  withExactPairs windows.referenceExact (fun _ => true) (fun _ => 0)
    (withOppositeCounts nullSafe refDf (df.filter (·.scope)))

theorem addExactValuePairingColumns_eq :
    addExactValuePairingColumns windows nullSafe df refDf =
      ((withResidualRanks windows.sourceResidual (sourceRanked windows nullSafe df refDf)).map
          Ranked.place,
        (withResidualRanks windows.referenceResidual (referenceRanked windows nullSafe df refDf)).map
          Ranked.place) := rfl

theorem mem_sourceRanked {r : Ranked k c V ρ} (h : r ∈ sourceRanked windows nullSafe df refDf) :
    r.row ∈ df ∧ r.inScopeKey = maxScope df r.row := by
  obtain ⟨⟨⟨row, count⟩, rank⟩, hmem, rfl⟩ := List.mem_map.mp h
  have hrow := windows.sourceExact.mem_of_mem_rowNumber hmem
  rw [withOppositeCounts_eq] at hrow
  obtain ⟨row', hrow', heq⟩ := List.mem_map.mp hrow
  cases heq
  exact ⟨hrow', rfl⟩

theorem mem_placedSource {a : Placed k c V ρ}
    (h : a ∈ (addExactValuePairingColumns windows nullSafe df refDf).1) :
    a.row ∈ df ∧ a.inScopeKey = maxScope df a.row := by
  rw [addExactValuePairingColumns_eq] at h
  obtain ⟨r, hr, rfl⟩ := List.mem_map.mp h
  obtain ⟨⟨r', rank⟩, hr', rfl⟩ := List.mem_map.mp hr
  exact mem_sourceRanked windows nullSafe df refDf
    (windows.sourceResidual.mem_of_mem_rowNumber hr')

/-- A reference row under a key with source rows in scope is paired with none but these. -/
theorem any_pairs_inScope {b : Placed k c V σ}
    (hkey : ∃ r ∈ df, r.key = b.row.key ∧ r.scope = true) :
    ((addExactValuePairingColumns windows nullSafe df refDf).1.any fun a => pairs true nullSafe a b) =
      ((addExactValuePairingColumns windows nullSafe df refDf).1.filter (·.row.scope)).any
        fun a => pairs true nullSafe a b := by
  rw [List.any_filter, Bool.eq_iff_iff, List.any_eq_true, List.any_eq_true]
  constructor
  · rintro ⟨a, ha, hpairs⟩
    refine ⟨a, ha, ?_⟩
    have hone : a.inScopeKey = 1 := by
      rw [(mem_placedSource windows nullSafe df refDf ha).2]
      apply maxScope_eq_one
      rwa [(eq_of_pairs hpairs).1]
    have hscope : a.row.scope = true := by
      have hparts := hpairs
      rw [pairs, if_pos rfl] at hparts
      simp only [Bool.and_eq_true, Bool.or_eq_true, decide_eq_true_eq, hone] at hparts
      simpa using hparts.1.2
    rw [hscope, hpairs]
    rfl
  · rintro ⟨a, ha, hboth⟩
    rw [Bool.and_eq_true] at hboth
    exact ⟨a, ha, hboth.2⟩

end Pipeline

end Dqx.Compare
