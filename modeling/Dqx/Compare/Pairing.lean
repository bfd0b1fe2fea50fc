import Dqx.Lib.Rank
import Dqx.Lib.Join
import Mathlib.Data.Fintype.Basic
import Mathlib.Data.Fintype.Pi

/-! The pairing columns of `compare_datasets`: sequence numbers that pair the rows of two datasets
with equal matching keys, either by position, or exact values first and then by position. -/

namespace Dqx.Compare

open Lib

/-- A row of either dataset as the pairing sees it: matching key, compared values, whether it is in
the scope of the row filter, and what else it carries. Null is `none`. -/
structure Row (k c : Nat) (V ρ : Type) where
  key : Fin k → Option V
  values : Fin c → Option V
  scope : Bool
  rest : ρ

variable {k c : Nat} {V ρ σ : Type} [DecidableEq V]

/-- One equality of a join condition, which holds only when it is true: null-safe, or plain. -/
def equals (nullSafe : Bool) (x y : Option V) : Bool :=
  if nullSafe then x = y
  else match x, y with
    | some x, some y => x = y
    | _, _ => false

/-- `_build_join_condition`. -/
def buildJoinCondition {n : Nat} (nullSafe : Bool) (xs ys : Fin n → Option V) : Bool :=
  decide (∀ i, equals nullSafe (xs i) (ys i) = true)

theorem eq_of_equals {nullSafe : Bool} {x y : Option V} (h : equals nullSafe x y = true) : x = y := by
  unfold equals at h
  split at h
  · exact of_decide_eq_true h
  · split at h
    · exact congrArg some (of_decide_eq_true h)
    · cases h

/-- Keys that join are equal, null-safe or not. -/
theorem eq_of_buildJoinCondition {n : Nat} {nullSafe : Bool} {xs ys : Fin n → Option V}
    (h : buildJoinCondition nullSafe xs ys = true) : xs = ys :=
  funext fun i => eq_of_equals (of_decide_eq_true h i)

/-- The key and the compared values of a row, which exact pairing groups by. -/
def Row.exactKey (row : Row k c V ρ) : (Fin k → Option V) × (Fin c → Option V) :=
  (row.key, row.values)

/-- A row with the columns that exact pairing adds. -/
structure Ranked (k c : Nat) (V ρ : Type) where
  row : Row k c V ρ
  inScopeKey : Nat
  exactRank : Nat
  exactPair : Bool
  residualRank : Nat := 0

/-- A row with its place: its number, and where pairing has phases also its phase and whether its key
has source rows in scope. -/
structure Placed (k c : Nat) (V ρ : Type) where
  row : Row k c V ρ
  rowNumber : Nat
  phase : Nat := 0
  inScopeKey : Nat := 0

/-- Rows in scope first, then by compared values. -/
def residualOrder (valueOrder : (Fin c → Option V) → (Fin c → Option V) → Prop)
    (r s : Ranked k c V ρ) : Prop :=
  s.row.scope < r.row.scope ∨
    s.row.scope = r.row.scope ∧ valueOrder r.row.values s.row.values

/-- The windows of the pairing, as an engine arranges them. `valueOrder` is the order of the compared
values, `_pairing_value_order`. -/
structure Windows (k c : Nat) (V ρ σ : Type)
    (valueOrder : (Fin c → Option V) → (Fin c → Option V) → Prop) where
  source : Arrangement (Row.key (k := k) (c := c) (V := V) (ρ := ρ)) fun r s =>
    valueOrder r.values s.values
  reference : Arrangement (Row.key (k := k) (c := c) (V := V) (ρ := σ)) fun r s =>
    valueOrder r.values s.values
  sourceExact : Arrangement (fun r : Row k c V ρ × Nat => r.1.exactKey) fun r s =>
    s.1.scope ≤ r.1.scope
  referenceExact : Arrangement (fun r : Row k c V σ × Nat => r.1.exactKey) fun _ _ => True
  sourceResidual : Arrangement (fun r : Ranked k c V ρ => (r.row.key, r.exactPair))
    (residualOrder valueOrder)
  referenceResidual : Arrangement (fun r : Ranked k c V σ => (r.row.key, r.exactPair))
    (residualOrder valueOrder)

section Sorted

variable {valueOrder : (Fin c → Option V) → (Fin c → Option V) → Prop}

instance [DecidableRel valueOrder] :
    DecidableRel (residualOrder (k := k) (ρ := ρ) valueOrder) :=
  fun _ _ => inferInstanceAs (Decidable (_ ∨ _))

omit [DecidableEq V] in
theorem residualOrder_trans (htrans : ∀ x y z, valueOrder x y → valueOrder y z → valueOrder x z)
    (r s t : Ranked k c V ρ) (hrs : residualOrder valueOrder r s)
    (hst : residualOrder valueOrder s t) : residualOrder valueOrder r t := by
  rcases hrs with hrs | ⟨hrs, hrs'⟩
  · rcases hst with hst | ⟨hst, -⟩
    · exact .inl (hst.trans hrs)
    · exact .inl (hst ▸ hrs)
  · rcases hst with hst | ⟨hst, hst'⟩
    · exact .inl (hrs ▸ hst)
    · exact .inr ⟨hst.trans hrs, htrans _ _ _ hrs' hst'⟩

omit [DecidableEq V] in
theorem residualOrder_total (htotal : ∀ x y, valueOrder x y ∨ valueOrder y x)
    (r s : Ranked k c V ρ) : residualOrder valueOrder r s ∨ residualOrder valueOrder s r := by
  rcases lt_trichotomy r.row.scope s.row.scope with h | h | h
  · exact .inr (.inl h)
  · rcases htotal r.row.values s.row.values with hv | hv
    · exact .inl (.inr ⟨h.symm, hv⟩)
    · exact .inr (.inr ⟨h, hv⟩)
  · exact .inl (.inl h)

/-- The windows of an engine that sorts by a total order of values. -/
def Windows.ofSort [DecidableRel valueOrder]
    (htrans : ∀ x y z, valueOrder x y → valueOrder y z → valueOrder x z)
    (htotal : ∀ x y, valueOrder x y ∨ valueOrder y x) : Windows k c V ρ σ valueOrder where
  source := .ofSort _ _ (fun _ _ _ => htrans _ _ _) fun _ _ => htotal _ _
  reference := .ofSort _ _ (fun _ _ _ => htrans _ _ _) fun _ _ => htotal _ _
  sourceExact := .ofSort _ _ (fun _ _ _ h h' => h'.trans h) fun _ _ => le_total _ _
  referenceExact := .ofSort _ _ (fun _ _ _ _ _ => trivial) fun _ _ => .inl trivial
  sourceResidual := .ofSort _ _ (residualOrder_trans htrans) (residualOrder_total htotal)
  referenceResidual := .ofSort _ _ (residualOrder_trans htrans) (residualOrder_total htotal)

end Sorted

/-- The rows with the number of opposite rows of the same key and values, joined from the grouped
counts. Keys with nulls are dropped before counting unless nulls match. -/
def withOppositeCounts (nullSafe : Bool) (rows : List (Row k c V ρ)) (opposite : List (Row k c V σ)) :
    List (Row k c V ρ × Nat) :=
  let counted := opposite.filter fun r => nullSafe || decide (∀ i, r.key i ≠ none)
  let on (r : Row k c V ρ) (group : ((Fin k → Option V) × (Fin c → Option V)) × Nat) :=
    buildJoinCondition nullSafe r.key group.1.1 && buildJoinCondition true r.values group.1.2
  (leftOuter on rows (groupCounts Row.exactKey counted)).map fun p =>
    (p.1, (p.2.map Prod.snd).getD 0)

/-- The rows with their exact rank, and whether they pair exactly: those that may, up to the opposite
count. -/
def withExactPairs {le : Row k c V ρ × Nat → Row k c V ρ × Nat → Prop}
    (window : Arrangement (fun r : Row k c V ρ × Nat => r.1.exactKey) le)
    (mayPair : Row k c V ρ → Bool) (inScopeKey : Row k c V ρ → Nat)
    (rows : List (Row k c V ρ × Nat)) : List (Ranked k c V ρ) :=
  (window.rowNumber rows).map fun ((row, oppositeCount), rank) =>
    { row, inScopeKey := inScopeKey row, exactRank := rank,
      exactPair := mayPair row && rank ≤ oppositeCount }

/-- The rows with their rank among the rows of the same key that pair exactly, or that do not. -/
def withResidualRanks {le : Ranked k c V ρ → Ranked k c V ρ → Prop}
    (window : Arrangement (fun r : Ranked k c V ρ => (r.row.key, r.exactPair)) le)
    (rows : List (Ranked k c V ρ)) : List (Ranked k c V ρ) :=
  (window.rowNumber rows).map fun (r, rank) => { r with residualRank := rank }

/-- The phase and the number that a row pairs under. -/
def Ranked.place (r : Ranked k c V ρ) : Placed k c V ρ where
  row := r.row
  rowNumber := if r.exactPair then r.exactRank else r.residualRank
  phase := r.exactPair.toNat
  inScopeKey := r.inScopeKey

/-- The maximum of the scope over the source rows of a key, as an integer. -/
def maxScope (rows : List (Row k c V ρ)) (row : Row k c V ρ) : Nat :=
  ((rows.filter fun r => r.key = row.key).map fun r => r.scope.toNat).foldl max 0

variable {valueOrder : (Fin c → Option V) → (Fin c → Option V) → Prop}

/-- `_add_exact_value_pairing_columns`. -/
def addExactValuePairingColumns (windows : Windows k c V ρ σ valueOrder) (nullSafe : Bool)
    (df : List (Row k c V ρ)) (refDf : List (Row k c V σ)) :
    List (Placed k c V ρ) × List (Placed k c V σ) :=
  let source := withOppositeCounts nullSafe df refDf
  let reference := withOppositeCounts nullSafe refDf (df.filter (·.scope))
  let source := withExactPairs windows.sourceExact (·.scope) (maxScope df) source
  let reference := withExactPairs windows.referenceExact (fun _ => true) (fun _ => 0) reference
  ((withResidualRanks windows.sourceResidual source).map Ranked.place,
    (withResidualRanks windows.referenceResidual reference).map Ranked.place)

/-- The rows numbered by position within their key. -/
def positional {le : Row k c V ρ → Row k c V ρ → Prop}
    (window : Arrangement (Row.key (k := k) (c := c) (V := V) (ρ := ρ)) le)
    (rows : List (Row k c V ρ)) : List (Placed k c V ρ) :=
  (window.rowNumber rows).map fun (row, rank) => { row, rowNumber := rank }

/-- `_add_lazy_pairing_columns`. -/
def addLazyPairingColumns (windows : Windows k c V ρ σ valueOrder) (nullSafe rowFilterActive : Bool)
    (df : List (Row k c V ρ)) (refDf : List (Row k c V σ)) :
    List (Placed k c V ρ) × List (Placed k c V σ) :=
  if rowFilterActive then addExactValuePairingColumns windows nullSafe df refDf
  else (positional windows.source df, positional windows.reference refDf)

/-- Two rows have the same place: no row of the other dataset tells them apart. -/
structure SamePlace (phased : Bool) (r s : Placed k c V ρ) : Prop where
  key : r.row.key = s.row.key
  number : r.rowNumber = s.rowNumber
  phase : phased = true → r.phase = s.phase
  values : phased = true → r.phase ≠ 0 → r.row.values = s.row.values

/-- The rows of a dataset have places of their own. -/
def OwnPlaces (phased : Bool) (rows : List (Placed k c V ρ)) : Prop :=
  rows.Pairwise fun r s => ¬SamePlace phased r s

/-- A row matches at most one group of opposite rows. -/
theorem oppositeGroups_le_one (nullSafe : Bool) (row : Row k c V ρ) (counted : List (Row k c V σ)) :
    ((groupCounts Row.exactKey counted).filter fun group =>
      buildJoinCondition nullSafe row.key group.1.1 &&
        buildJoinCondition true row.values group.1.2).length ≤ 1 := by
  apply length_filter_le_one
  refine (groupCounts_pairwise_ne _ _).imp fun {x y} hne => ?_
  rintro ⟨hx, hy⟩
  simp only [Bool.and_eq_true] at hx hy
  refine hne (Prod.ext ?_ ?_)
  · exact (eq_of_buildJoinCondition hx.1).symm.trans (eq_of_buildJoinCondition hy.1)
  · exact (eq_of_buildJoinCondition hx.2).symm.trans (eq_of_buildJoinCondition hy.2)

theorem withOppositeCounts_map_fst (nullSafe : Bool) (rows : List (Row k c V ρ))
    (opposite : List (Row k c V σ)) :
    (withOppositeCounts nullSafe rows opposite).map Prod.fst = rows := by
  rw [withOppositeCounts, List.map_map]
  exact leftOuter_map_fst fun row _ => oppositeGroups_le_one ..

section Exact

variable {le : Row k c V ρ × Nat → Row k c V ρ × Nat → Prop}
  (window : Arrangement (fun r : Row k c V ρ × Nat => r.1.exactKey) le)
  (mayPair : Row k c V ρ → Bool) (inScopeKey : Row k c V ρ → Nat)

theorem withExactPairs_map_row (rows : List (Row k c V ρ × Nat)) :
    ((withExactPairs window mayPair inScopeKey rows).map (·.row)).Perm (rows.map Prod.fst) := by
  rw [withExactPairs, List.map_map]
  have h := (window.rowNumber_map_fst_perm rows).map Prod.fst
  rw [List.map_map] at h
  exact h

/-- Rows of the same key and values have different exact ranks. -/
theorem withExactPairs_pairwise (rows : List (Row k c V ρ × Nat)) :
    (withExactPairs window mayPair inScopeKey rows).Pairwise fun r s =>
      r.row.exactKey = s.row.exactKey → r.exactRank ≠ s.exactRank := by
  rw [withExactPairs, List.pairwise_map]
  exact window.rowNumber_pairwise_ne rows

end Exact

section Residual

variable {le : Ranked k c V ρ → Ranked k c V ρ → Prop}
  (window : Arrangement (fun r : Ranked k c V ρ => (r.row.key, r.exactPair)) le)

theorem withResidualRanks_map_row (rows : List (Ranked k c V ρ)) :
    ((withResidualRanks window rows).map (·.row)).Perm (rows.map (·.row)) := by
  rw [withResidualRanks, List.map_map]
  have h := (window.rowNumber_map_fst_perm rows).map (·.row)
  rw [List.map_map] at h
  exact h

/-- Rows of the same key and kind of pair have different residual ranks. -/
theorem withResidualRanks_pairwise (rows : List (Ranked k c V ρ)) :
    (withResidualRanks window rows).Pairwise fun r s =>
      (r.row.key, r.exactPair) = (s.row.key, s.exactPair) → r.residualRank ≠ s.residualRank := by
  rw [withResidualRanks, List.pairwise_map]
  exact window.rowNumber_pairwise_ne rows

/-- The residual window reorders rows and keeps what tells their exact ranks apart. -/
theorem withResidualRanks_pairwise_exact {rows : List (Ranked k c V ρ)}
    (h : rows.Pairwise fun r s => r.row.exactKey = s.row.exactKey → r.exactRank ≠ s.exactRank) :
    (withResidualRanks window rows).Pairwise fun r s =>
      r.row.exactKey = s.row.exactKey → r.exactRank ≠ s.exactRank := by
  rw [withResidualRanks, List.pairwise_map]
  have hperm := window.rowNumber_map_fst_perm rows
  have hrun : ((window.rowNumber rows).map Prod.fst).Pairwise fun r s =>
      r.row.exactKey = s.row.exactKey → r.exactRank ≠ s.exactRank :=
    (hperm.pairwise_iff fun hrs he => (hrs he.symm).symm).mpr h
  exact List.pairwise_map.mp hrun

end Residual

omit [DecidableEq V] in
/-- Rows with exact ranks and residual ranks of their own have places of their own. -/
theorem ownPlaces_place {rows : List (Ranked k c V ρ)}
    (hexact : rows.Pairwise fun r s =>
      r.row.exactKey = s.row.exactKey → r.exactRank ≠ s.exactRank)
    (hresidual : rows.Pairwise fun r s =>
      (r.row.key, r.exactPair) = (s.row.key, s.exactPair) → r.residualRank ≠ s.residualRank) :
    OwnPlaces true (rows.map Ranked.place) := by
  rw [OwnPlaces, List.pairwise_map]
  refine (hexact.and hresidual).imp ?_
  rintro r s ⟨he, hr⟩ ⟨hkey, hnumber, hphase, hvalues⟩
  have hpair : r.exactPair = s.exactPair := by
    have h : r.exactPair.toNat = s.exactPair.toNat := hphase rfl
    cases hre : r.exactPair <;> cases hse : s.exactPair <;> simp_all
  simp only [Ranked.place, hpair] at hkey hnumber hvalues
  cases hp : s.exactPair with
  | true =>
    rw [hp] at hvalues
    rw [hp, if_pos rfl, if_pos rfl] at hnumber
    exact he (Prod.ext hkey (hvalues trivial (by decide))) hnumber
  | false =>
    rw [hp, if_neg Bool.false_ne_true, if_neg Bool.false_ne_true] at hnumber
    exact hr (Prod.ext hkey hpair) hnumber

section Positional

variable {le : Row k c V ρ → Row k c V ρ → Prop}
  (window : Arrangement (Row.key (k := k) (c := c) (V := V) (ρ := ρ)) le)

theorem positional_map_row (rows : List (Row k c V ρ)) :
    ((positional window rows).map (·.row)).Perm rows := by
  rw [positional, List.map_map]
  exact window.rowNumber_map_fst_perm rows

theorem positional_ownPlaces (rows : List (Row k c V ρ)) : OwnPlaces false (positional window rows) := by
  rw [OwnPlaces, positional, List.pairwise_map]
  refine (window.rowNumber_pairwise_ne rows).imp ?_
  rintro r s hne ⟨hkey, hnumber, _, _⟩
  exact hne hkey hnumber

end Positional

section Lazy

variable (windows : Windows k c V ρ σ valueOrder) (nullSafe rowFilterActive : Bool)
  (df : List (Row k c V ρ)) (refDf : List (Row k c V σ))

/-- Either strategy gives every row of both datasets one place, of its own. -/
theorem addLazyPairingColumns_source :
    ((addLazyPairingColumns windows nullSafe rowFilterActive df refDf).1.map (·.row)).Perm df ∧
      OwnPlaces rowFilterActive
        (addLazyPairingColumns windows nullSafe rowFilterActive df refDf).1 := by
  cases rowFilterActive with
  | true =>
    simp only [addLazyPairingColumns, if_true, addExactValuePairingColumns]
    constructor
    · rw [List.map_map]
      have h := (withResidualRanks_map_row windows.sourceResidual _).trans
        (withExactPairs_map_row windows.sourceExact (·.scope) (maxScope df)
          (withOppositeCounts nullSafe df refDf))
      rw [withOppositeCounts_map_fst] at h
      exact h
    · exact ownPlaces_place
        (withResidualRanks_pairwise_exact _ (withExactPairs_pairwise ..))
        (withResidualRanks_pairwise ..)
  | false => exact ⟨positional_map_row .., positional_ownPlaces ..⟩

theorem addLazyPairingColumns_reference :
    ((addLazyPairingColumns windows nullSafe rowFilterActive df refDf).2.map (·.row)).Perm refDf ∧
      OwnPlaces rowFilterActive
        (addLazyPairingColumns windows nullSafe rowFilterActive df refDf).2 := by
  cases rowFilterActive with
  | true =>
    simp only [addLazyPairingColumns, if_true, addExactValuePairingColumns]
    constructor
    · rw [List.map_map]
      have h := (withResidualRanks_map_row windows.referenceResidual _).trans
        (withExactPairs_map_row windows.referenceExact (fun _ => true) (fun _ => 0)
          (withOppositeCounts nullSafe refDf (df.filter (·.scope))))
      rw [withOppositeCounts_map_fst] at h
      exact h
    · exact ownPlaces_place
        (withResidualRanks_pairwise_exact _ (withExactPairs_pairwise ..))
        (withResidualRanks_pairwise ..)
  | false => exact ⟨positional_map_row .., positional_ownPlaces ..⟩

end Lazy

end Dqx.Compare
