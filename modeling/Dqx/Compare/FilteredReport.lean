import Dqx.Compare.Noninterference
import Mathlib.Data.List.Lex
import Mathlib.Order.WithBot

/-! What a filtered comparison reports: of the rows in scope with given key and values, as many as
there are reference rows like them are paired with these, and the rest is reported independently of
the rows out of scope. -/

namespace Dqx.Compare

open Lib

variable {k c : Nat} {V ρ σ : Type} [DecidableEq V]
  {valueOrder : (Fin c → Option V) → (Fin c → Option V) → Prop}

/-- A key that can match is counted by equality. -/
theorem oppositeCount_eq {nullSafe : Bool} {opposite : List (Row k c V σ)}
    {key : (Fin k → Option V) × (Fin c → Option V)}
    (hsafe : nullSafe = true ∨ ∀ i, key.1 i ≠ none) :
    oppositeCount nullSafe opposite key = opposite.countP fun r => r.exactKey = key := by
  apply List.countP_congr
  intro r _
  rw [Bool.and_eq_true, buildJoinCondition_iff, decide_eq_true_eq, decide_eq_true_eq]
  constructor
  · rintro ⟨⟨hkey, -⟩, hvalues⟩
    exact Prod.ext hkey.symm hvalues.symm
  · intro hkey
    rw [← hkey]
    exact ⟨⟨rfl, hkey ▸ hsafe⟩, rfl⟩

section Residual

variable {le : Ranked k c V ρ → Ranked k c V ρ → Prop}
  {window : Arrangement (fun r : Ranked k c V ρ => (r.row.key, r.exactPair)) le}
  {rows : List (Ranked k c V ρ)}

/-- A placed row is a ranked row; exact pairs are placed by their exact rank. -/
theorem of_mem_placed {a : Placed k c V ρ} (h : a ∈ (withResidualRanks window rows).map Ranked.place) :
    ∃ r ∈ rows, a.row = r.row ∧ a.phase = r.exactPair.toNat ∧
      (r.exactPair = true → a.rowNumber = r.exactRank) := by
  obtain ⟨r, hr, rfl⟩ := List.mem_map.mp h
  obtain ⟨⟨r', rank⟩, hr', rfl⟩ := List.mem_map.mp hr
  exact ⟨r', window.mem_of_mem_rowNumber hr', rfl, rfl, fun hpair => if_pos hpair⟩

theorem exists_placed_of_mem {r : Ranked k c V ρ} (h : r ∈ rows) :
    ∃ a ∈ (withResidualRanks window rows).map Ranked.place, a.row = r.row ∧
      a.phase = r.exactPair.toNat ∧ (r.exactPair = true → a.rowNumber = r.exactRank) := by
  have hmem := (window.rowNumber_map_fst_perm rows).symm.subset h
  obtain ⟨⟨r', rank⟩, hr', rfl⟩ := List.mem_map.mp hmem
  exact ⟨_, List.mem_map_of_mem (List.mem_map_of_mem hr'), rfl, rfl, fun hpair => if_pos hpair⟩

theorem placed_phase_perm :
    ((((withResidualRanks window rows).map Ranked.place).filter (·.row.scope)).map fun a =>
      (a.row.exactKey, a.phase)).Perm
        ((rows.filter (·.row.scope)).map fun r => (r.row.exactKey, r.exactPair.toNat)) := by
  have h := ((window.rowNumber_map_fst_perm rows).filter (·.row.scope)).map fun r =>
    (r.row.exactKey, r.exactPair.toNat)
  rw [List.filter_map, List.map_map] at h
  rw [withResidualRanks, List.map_map, List.filter_map, List.map_map]
  exact h

end Residual

section Exact

variable (windows : Windows k c V ρ σ valueOrder) (nullSafe : Bool) (df : List (Row k c V ρ))
  (refDf : List (Row k c V σ))

/-- The exact rank of a row in scope counts rows in scope. -/
theorem exactRank_source {r : Ranked k c V ρ} (h : r ∈ sourceRanked windows nullSafe df refDf)
    (hscope : r.row.scope = true) :
    0 < r.exactRank ∧ (r.exactRank ≤ (df.filter (·.scope)).countP fun s => s.exactKey = r.row.exactKey) ∧
      r.exactPair = decide (r.exactRank ≤ oppositeCount nullSafe refDf r.row.exactKey) := by
  have hmem : r ∈ (sourceRanked windows nullSafe df refDf).filter (·.row.scope) :=
    List.mem_filter.mpr ⟨h, hscope⟩
  rw [sourceRanked, withExactPairs_filter _ _ fun _ _ _ _ hle => hle] at hmem
  obtain ⟨⟨⟨row, count⟩, rank⟩, hrank, rfl⟩ := List.mem_map.mp hmem
  obtain ⟨hpos, hle⟩ := le_countP_of_mem_number hrank
  have hrow : (row, count) ∈ withOppositeCounts nullSafe df refDf := by
    have hfst := List.mem_map_of_mem (f := Prod.fst) hrank
    rw [number_map_fst, List.mem_filter, Arrangement.mem_run] at hfst
    exact hfst.1
  obtain ⟨-, rfl⟩ : row ∈ df ∧ count = oppositeCount nullSafe refDf row.exactKey :=
    mem_withOppositeCounts _ hrow
  refine ⟨hpos, ?_, ?_⟩
  · rw [((windows.sourceExact.perm _).filter _).countP_eq, filter_withOppositeCounts,
      List.countP_map] at hle
    exact hle
  · show (row.scope && _) = _
    rw [show row.scope = true from hscope, Bool.true_and]

/-- The exact rank of a reference row counts reference rows. -/
theorem exactRank_reference {r : Ranked k c V σ} (h : r ∈ referenceRanked windows nullSafe df refDf) :
    (r.exactRank ≤ refDf.countP fun s => s.exactKey = r.row.exactKey) ∧
      r.exactPair = decide (r.exactRank ≤
        oppositeCount nullSafe (df.filter (·.scope)) r.row.exactKey) := by
  obtain ⟨⟨⟨row, count⟩, rank⟩, hrank, rfl⟩ := List.mem_map.mp h
  have hle := (le_countP_of_mem_number hrank).2
  obtain ⟨-, rfl⟩ : row ∈ refDf ∧ count =
      oppositeCount nullSafe (df.filter (·.scope)) row.exactKey :=
    mem_withOppositeCounts _ (windows.referenceExact.mem_of_mem_rowNumber hrank)
  refine ⟨?_, Bool.true_and _⟩
  rw [(windows.referenceExact.perm _).countP_eq, withOppositeCounts_eq, List.countP_map] at hle
  exact hle

theorem exists_exactRank_reference {key : (Fin k → Option V) × (Fin c → Option V)} {n : Nat}
    (hn : 0 < n) (hle : n ≤ refDf.countP fun s => s.exactKey = key) :
    ∃ r ∈ referenceRanked windows nullSafe df refDf, r.row.exactKey = key ∧ r.exactRank = n := by
  let rows := withOppositeCounts nullSafe refDf (df.filter (·.scope))
  have hcount : n ≤ (windows.referenceExact.run rows).countP fun r => r.1.exactKey = key := by
    rw [(windows.referenceExact.perm _).countP_eq]
    show n ≤ (withOppositeCounts nullSafe refDf (df.filter (·.scope))).countP _
    rw [withOppositeCounts_eq, List.countP_map]
    exact hle
  obtain ⟨⟨row, count⟩, hkey, hmem⟩ := exists_number hn hcount
  exact ⟨_, List.mem_map_of_mem hmem, hkey, rfl⟩

/-- An exact pair in scope has a reference row to be paired with. -/
theorem exists_pair {a : Placed k c V ρ}
    (h : a ∈ (addExactValuePairingColumns windows nullSafe df refDf).1)
    (hscope : a.row.scope = true) (hphase : a.phase = 1) :
    ∃ b ∈ (addExactValuePairingColumns windows nullSafe df refDf).2,
      pairs true nullSafe a b = true := by
  rw [addExactValuePairingColumns_eq] at h ⊢
  obtain ⟨r, hr, hrow, hrphase, hnumber⟩ := of_mem_placed h
  have hpair : r.exactPair = true := by
    rw [hphase] at hrphase
    cases hexact : r.exactPair with
    | true => rfl
    | false => simp [hexact] at hrphase
  rw [hrow] at hscope
  obtain ⟨hpos, hle, hcount⟩ := exactRank_source windows nullSafe df refDf hr hscope
  rw [hpair] at hcount
  have hopposite : r.exactRank ≤ oppositeCount nullSafe refDf r.row.exactKey :=
    of_decide_eq_true hcount.symm
  have hsafe : nullSafe = true ∨ ∀ i, r.row.exactKey.1 i ≠ none := by
    by_contra hunsafe
    have hzero : oppositeCount nullSafe refDf r.row.exactKey = 0 := by
      rw [oppositeCount, List.countP_eq_zero]
      intro s _ hs
      rw [Bool.and_eq_true, buildJoinCondition_iff] at hs
      exact hunsafe hs.1.2
    omega
  rw [oppositeCount_eq hsafe] at hopposite
  obtain ⟨s, hs, hkey, hrank⟩ := exists_exactRank_reference windows nullSafe df refDf hpos hopposite
  have hspair : s.exactPair = true := by
    rw [(exactRank_reference windows nullSafe df refDf hs).2, hkey, hrank, oppositeCount_eq hsafe]
    exact decide_eq_true hle
  obtain ⟨b, hb, hbrow, hbphase, hbnumber⟩ := exists_placed_of_mem hs
  refine ⟨b, hb, ?_⟩
  obtain ⟨hkeys, hvalues⟩ := Prod.mk.inj (show b.row.exactKey = a.row.exactKey by
    rw [hbrow, hrow, hkey])
  rw [pairs_inScope (hrow ▸ hscope), pairsView]
  show (buildJoinCondition nullSafe a.row.key b.row.key && decide (a.phase = b.phase) &&
    decide (a.rowNumber = b.rowNumber) &&
    (decide (a.phase = 0) || buildJoinCondition true a.row.values b.row.values)) = true
  rw [hkeys, hvalues, hphase, hbphase, hspair, hnumber hpair, hbnumber hspair, hrank,
    buildJoinCondition_iff.mpr ⟨rfl, .inl rfl⟩, buildJoinCondition_iff.mpr ⟨rfl, hrow ▸ hsafe⟩]
  simp

/-- A row in scope that is no exact pair is not paired with a reference row like it. -/
theorem not_pairs_of_residual {a : Placed k c V ρ} {b : Placed k c V σ}
    (ha : a ∈ (addExactValuePairingColumns windows nullSafe df refDf).1)
    (hb : b ∈ (addExactValuePairingColumns windows nullSafe df refDf).2)
    (hscope : a.row.scope = true) (hphase : a.phase ≠ 1) (hvalues : b.row.values = a.row.values) :
    pairs true nullSafe a b ≠ true := by
  intro hpairs
  rw [addExactValuePairingColumns_eq] at ha hb
  obtain ⟨r, hr, hrow, hrphase, -⟩ := of_mem_placed ha
  obtain ⟨s, hs, hbrow, hsphase, -⟩ := of_mem_placed hb
  obtain ⟨hkey, -, hsame⟩ := eq_of_pairs hpairs
  have hsafe := (buildJoinCondition_iff.mp (key_of_pairs hpairs)).2
  have hrpair : r.exactPair = false := by
    cases hexact : r.exactPair with
    | true => exact absurd (hrphase.trans (by rw [hexact]; rfl)) hphase
    | false => rfl
  have hspair : s.exactPair = false := by
    have hboth := (hsame rfl).1
    rw [hrphase, hsphase, hrpair] at hboth
    cases hexact : s.exactPair with
    | true => simp [hexact] at hboth
    | false => rfl
  have hexact : s.row.exactKey = r.row.exactKey := by
    rw [← hrow, ← hbrow]
    exact Prod.ext hkey.symm hvalues
  rw [hrow] at hscope hsafe
  obtain ⟨-, hle, hcount⟩ := exactRank_source windows nullSafe df refDf hr hscope
  obtain ⟨hle', hcount'⟩ := exactRank_reference windows nullSafe df refDf hs
  rw [hrpair, oppositeCount_eq hsafe] at hcount
  rw [hspair, hexact, oppositeCount_eq hsafe] at hcount'
  rw [hexact] at hle'
  have hgreater := of_decide_eq_false hcount.symm
  have hgreater' := of_decide_eq_false hcount'.symm
  omega

/-- The exact pairs in scope with given key and values. -/
theorem countP_exactPairs (key : (Fin k → Option V) × (Fin c → Option V)) :
    (((addExactValuePairingColumns windows nullSafe df refDf).1.filter (·.row.scope)).countP fun a =>
      a.row.exactKey = key && a.phase = 1) =
        min ((df.filter (·.scope)).countP fun r => r.exactKey = key)
          (oppositeCount nullSafe refDf key) := by
  have hphase : (((addExactValuePairingColumns windows nullSafe df refDf).1.filter
      (·.row.scope)).countP fun a => a.row.exactKey = key && a.phase = 1) =
        ((sourceRanked windows nullSafe df refDf).filter (·.row.scope)).countP fun r =>
          r.row.exactKey = key && r.exactPair.toNat = 1 := by
    have hcount := (@placed_phase_perm k c V ρ _ _ windows.sourceResidual
      (sourceRanked windows nullSafe df refDf)).countP_eq fun x => x.1 = key && x.2 = 1
    rw [List.countP_map, List.countP_map] at hcount
    exact hcount
  have hview : (((sourceRanked windows nullSafe df refDf).filter (·.row.scope)).map Ranked.view) = _ :=
    withExactPairs_view (fun _ _ _ _ hle => hle) fun _ hrow => hrow
  have hpairs : (((sourceRanked windows nullSafe df refDf).filter (·.row.scope)).countP fun r =>
      r.row.exactKey = key && r.exactPair.toNat = 1) =
        (((sourceRanked windows nullSafe df refDf).filter (·.row.scope)).map Ranked.view).countP
          fun x => x.1 = key && x.2.2 := by
    rw [List.countP_map]
    apply List.countP_congr
    intro r _
    show _ ↔ (decide (r.row.exactKey = key) && r.exactPair) = true
    cases r.exactPair <;> simp
  rw [hphase, hpairs, hview, List.countP_map]
  have hbound : ∀ x ∈ number Prod.fst (((windows.sourceExact.run
      (withOppositeCounts nullSafe df refDf)).filter (·.1.scope)).map fun r => (r.1.exactKey, r.2)),
      ((decide (x.1.1 = key) && decide (x.2 ≤ x.1.2)) = true ↔
        (decide (x.1.1 = key) && decide (x.2 ≤ oppositeCount nullSafe refDf key)) = true) := by
    intro x hx
    have hfst := List.mem_map_of_mem (f := Prod.fst) hx
    rw [number_map_fst] at hfst
    obtain ⟨r, hr, hrx⟩ := List.mem_map.mp hfst
    have hcount := (mem_withOppositeCounts r
      (windows.sourceExact.mem_run.mp (List.mem_filter.mp hr).1)).2
    by_cases hkey : x.1.1 = key
    · have hopposite : x.1.2 = oppositeCount nullSafe refDf key := by
        rw [← hrx] at hkey ⊢
        exact hcount.trans (congrArg _ hkey)
      rw [hopposite]
    · simp [hkey]
  refine (List.countP_congr hbound).trans ?_
  rw [countP_number_le, List.countP_map, ((windows.sourceExact.perm _).filter _).countP_eq,
    filter_withOppositeCounts, List.countP_map]
  rfl

end Exact

section Report

variable {P Q : Type}

/-- The condition of `_add_column_diffs` on one column. `within` is `_match_values_with_tolerance`,
given where the column is numeric and a tolerance is set. -/
def columnDiffers (nullSafe : Bool) (within : Option (V → V → Bool)) (x y : Option V) :
    Option Bool :=
  match within with
  | some within =>
    match x, y with
    | some x, some y => some !within x y
    | none, none => some false
    | _, _ => some nullSafe
  | none =>
    if nullSafe then some (x ≠ y)
    else
      match x, y with
      | some x, some y => some (x ≠ y)
      | _, _ => none

/-- A value differs from itself only where it is not within the tolerance of itself. -/
theorem columnDiffers_self {nullSafe : Bool} {within : Option (V → V → Bool)} {x : Option V} :
    columnDiffers nullSafe within x x = some true ↔
      ∃ tolerates ∈ within, ∃ value ∈ x, tolerates value value = false := by
  cases within with
  | none => cases nullSafe <;> cases x <;> simp [columnDiffers]
  | some tolerates => cases x <;> simp [columnDiffers]

/-- A filtered comparison: `null_safe_row_matching`, `null_safe_column_value_matching` and the
tolerances of each column. -/
def filteredComparison (rowFilter : InputRow k c V P → Option Bool) (checkMissingRecords : Bool)
    (nullSafeRows nullSafeColumns : Bool) (within : Fin c → Option (V → V → Bool)) :
    CompareOptions k c V P where
  rowFilter := some rowFilter
  checkMissingRecords
  nullSafeRowMatching := nullSafeRows
  differs i := columnDiffers nullSafeColumns (within i)

/-- The rows in scope with given key and values that are paired with a reference row with the same
values. -/
def pairedRows (key : (Fin k → Option V) × (Fin c → Option V)) (result : List (Compared k c V P Q)) :
    List (Compared k c V P Q) :=
  (inScopeRows result).filter fun row =>
    row.source.any (fun r => r.exactKey = key) && row.reference.any fun r => r.values = key.2

theorem length_pairedRows {options : CompareOptions k c V P} (hfilter : options.rowFilter.isSome = true)
    (windows : Windows k c V (Option Bool × P) Q valueOrder) (df : List (InputRow k c V P))
    (refDf : List (InputRow k c V Q)) (key : (Fin k → Option V) × (Fin c → Option V)) :
    (pairedRows key (options.compareDatasets windows df refDf)).length =
      min (df.countP fun row => options.inScope row && (row.key, row.values) = key)
        (refDf.countP fun row => buildJoinCondition options.nullSafeRowMatching key.1 row.key &&
          key.2 = row.values) := by
  have hcount := countP_exactPairs windows options.nullSafeRowMatching (df.map options.withScope)
    (refDf.map asReference) key
  rw [pairedRows, inScopeRows_filtered windows df refDf hfilter, ← List.countP_eq_length_filter,
    List.countP_map]
  refine (List.countP_congr fun a ha => ?_).trans (hcount.trans ?_)
  · obtain ⟨hmem, hscope⟩ := List.mem_filter.mp ha
    show (decide (a.row.exactKey = key) && (((options.placed windows df refDf).2.find?
      (pairs true options.nullSafeRowMatching a)).map fun b => b.row).any
        fun r => decide (r.values = key.2)) = true ↔ _
    rw [Bool.and_eq_true, Bool.and_eq_true, decide_eq_true_eq, decide_eq_true_eq]
    refine and_congr_right fun hkey => ?_
    have hvalues : a.row.values = key.2 := congrArg Prod.snd hkey
    constructor
    · intro hpaired
      obtain ⟨r, hr, hrvalues⟩ := (Option.any_eq_true ..).mp hpaired
      obtain ⟨b, hb, rfl⟩ := Option.map_eq_some_iff.mp hr
      by_contra hphase
      exact not_pairs_of_residual windows _ _ _ hmem (List.mem_of_find?_eq_some hb) hscope hphase
        ((of_decide_eq_true hrvalues).trans hvalues.symm) (List.find?_some hb)
    · intro hphase
      obtain ⟨b, hb, hpairs⟩ := exists_pair windows _ _ _ hmem hscope hphase
      obtain ⟨b', hb'⟩ := Option.isSome_iff_exists.mp (List.find?_isSome.mpr ⟨b, hb, hpairs⟩)
      have hsame := ((eq_of_pairs (List.find?_some hb')).2.2 rfl).2 (hphase ▸ Nat.one_ne_zero)
      rw [show (options.placed windows df refDf).2.find? _ = some b' from hb']
      simpa using hsame.symm.trans hvalues
  · rw [filter_withScope, List.countP_map, List.countP_filter, oppositeCount, List.countP_map]
    congr 1
    apply List.countP_congr
    intro row _
    show (decide ((row.key, row.values) = key) && options.inScope row) = true ↔ _
    rw [Bool.and_comm]

/-- A row in scope that is paired with a reference row with the same values is not reported, where
each value is within the tolerance of itself. -/
theorem condition_pairedRows {options : CompareOptions k c V P}
    (hfilter : options.rowFilter.isSome = true)
    (windows : Windows k c V (Option Bool × P) Q valueOrder) {df : List (InputRow k c V P)}
    {refDf : List (InputRow k c V Q)} {key : (Fin k → Option V) × (Fin c → Option V)}
    (hself : ∀ i, options.differs i (key.2 i) (key.2 i) ≠ some true) :
    ∀ row ∈ pairedRows key (options.compareDatasets windows df refDf), row.condition = none := by
  intro row hrow
  rw [pairedRows, inScopeRows_filtered windows df refDf hfilter] at hrow
  obtain ⟨hmem, hpaired⟩ := List.mem_filter.mp hrow
  obtain ⟨a, ha, rfl⟩ := List.mem_map.mp hmem
  rw [Bool.and_eq_true] at hpaired
  obtain ⟨hsource, hreference⟩ := hpaired
  have hkey : a.row.exactKey = key := by simpa [CompareOptions.compared] using hsource
  obtain ⟨r, hr, hrvalues⟩ := (Option.any_eq_true ..).mp hreference
  obtain ⟨b, hb, rfl⟩ := Option.map_eq_some_iff.mp hr
  have hb' : (options.placed windows df refDf).2.find?
      (pairs true options.nullSafeRowMatching a) = some b := hb
  have hvalues : b.row.values = key.2 := of_decide_eq_true hrvalues
  have hsame : a.row.values = key.2 := congrArg Prod.snd hkey
  have hextra : absent (some b) = false := absent_some b
  have hmissing : absent (some a) = false := absent_some a
  rw [hb', CompareOptions.compared, CompareOptions.compareCondition, CompareOptions.status]
  dsimp only
  rw [hextra, hmissing]
  have hchanged : ((List.finRange c).filter fun i => decide (options.differs i
      ((some a).bind fun r => r.row.values i) ((some b).bind fun r => r.row.values i) =
        some true)) = [] := by
    rw [List.filter_eq_nil_iff]
    intro i _
    show ¬decide (options.differs i (a.row.values i) (b.row.values i) = some true) = true
    rw [hsame, hvalues]
    simpa using hself i
  rw [hchanged]
  simp

end Report

section Ties

/-- The text of an array of texts, each given by its code points. -/
def castArray (items : List (List Nat)) : List Nat := 91 :: [44, 32].intercalate items ++ [93]

/-- The sort key of one column of arrays: nulls first, then their texts. -/
def arrayKey (values : Fin 1 → Option (List (List Nat))) : WithBot (List Nat) :=
  (values 0).map castArray

/-- `_pairing_value_order` for one column of arrays. -/
def arrayOrder (x y : Fin 1 → Option (List (List Nat))) : Prop := arrayKey x ≤ arrayKey y

instance : DecidableRel arrayOrder := fun x y =>
  inferInstanceAs (Decidable (arrayKey x ≤ arrayKey y))

theorem arrayOrder_trans (x y z : Fin 1 → Option (List (List Nat))) (hxy : arrayOrder x y)
    (hyz : arrayOrder y z) : arrayOrder x z := le_trans hxy hyz

theorem arrayOrder_total (x y : Fin 1 → Option (List (List Nat))) :
    arrayOrder x y ∨ arrayOrder y x := le_total _ _

/-- A stable sort of the rows as they come, or, where there are three, the other way round. -/
def turningSort {α κ : Type} (part : α → κ) (le : α → α → Prop) [DecidableRel le]
    (htrans : ∀ a b c, le a b → le b c → le a c) (htotal : ∀ a b, le a b ∨ le b a) :
    Arrangement part le where
  run l := (Arrangement.ofSort part le htrans htotal).run (if l.length = 3 then l.reverse else l)
  perm l := by
    refine ((Arrangement.ofSort part le htrans htotal).perm _).trans ?_
    split
    · exact l.reverse_perm
    · exact .refl l
  sorted l := (Arrangement.ofSort part le htrans htotal).sorted _

def arrayWindows : Windows 1 1 (List (List Nat)) (Option Bool × Bool) Unit arrayOrder :=
  { Windows.ofSort arrayOrder_trans arrayOrder_total with
    sourceResidual := turningSort _ _ (residualOrder_trans arrayOrder_trans)
      (residualOrder_total arrayOrder_total) }

def arrayComparison : CompareOptions 1 1 (List (List Nat)) Bool :=
  filteredComparison (fun row => some row.rest) true true true fun _ => none

/-- Two arrays with one text: of the items "a, b", and of the items "a" and "b". -/
def tiedArrays : List (InputRow 1 1 (List (List Nat)) Bool) :=
  [⟨fun _ => none, fun _ => some [[97, 44, 32, 98]], true⟩,
    ⟨fun _ => none, fun _ => some [[97], [98]], true⟩]

def referenceArrays : List (InputRow 1 1 (List (List Nat)) Unit) :=
  [⟨fun _ => none, fun _ => some [[99]], ()⟩, ⟨fun _ => none, fun _ => some [[100]], ()⟩]

end Ties

end Dqx.Compare
