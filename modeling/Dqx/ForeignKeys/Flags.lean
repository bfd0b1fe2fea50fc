import Dqx.ForeignKeys.Check

/-! The rows that a foreign-key check flags, and the condition under which it keeps each row once and
flags those it is for. -/

namespace Dqx.ForeignKeys

open Lib Lib.Sql

variable {σ ρ α : Type}

namespace ForeignKey

variable (spark : Spark σ ρ α) (refs : References σ ρ) (check : ForeignKey σ ρ α)

/-- What the check is for: a row that the filter lets through, and whose key is not skipped for a
null, is a violation if its key is among the reference keys and must not, or must and is not. -/
def Violates (tuples : List (List (Option α))) (tuple : ρ → List (Option α)) (row : ρ) : Prop :=
  check.rowFilter row = some true ∧
    (check.nullSafe = true ∨ ∀ cell ∈ tuple row, cell.isSome = true) ∧
      (Occurs spark check.nullSafe (tuple row) tuples ↔ check.negate = true)

/-- A row in scope is looked up as it should be: all the reference tuples that match it are one, and
where the match speaks for a violation, the guard tells whether its key has a null. -/
structure LooksUp (tuples : List (List (Option α))) (tuple : ρ → List (Option α))
    (notNull : ρ → Bool) (row : ρ) : Prop where
  unique : ∀ cells ∈ tuples, ∀ cells' ∈ tuples, KeysMatch spark (!check.isPlain) (tuple row) cells →
    KeysMatch spark (!check.isPlain) (tuple row) cells' → cells = cells'
  guarded : check.isPlain = false → check.nullSafe = false →
    (Occurs spark true (tuple row) tuples ↔ check.negate = true) →
      (notNull row = true ↔ ∀ cell ∈ tuple row, cell.isSome = true)

/-- The expressions of the check resolve, and each row in scope is looked up. -/
def Sound (df : Table σ ρ) : Prop :=
  ∃ tuples tuple notNull, check.referenceTuples spark refs = some tuples ∧
    check.sourceTuple spark df.schema = some tuple ∧ check.guard spark df.schema = some notNull ∧
      ∀ row ∈ df.rows, check.rowFilter row = some true →
        check.LooksUp spark tuples tuple notNull row

/-- The result of a check is as it should be: it has every row once, with a violation or none. -/
def Reports (df : Table σ ρ) (result : Option (List (ρ × Truth))) : Prop :=
  ∃ tuples tuple rows, check.referenceTuples spark refs = some tuples ∧
    check.sourceTuple spark df.schema = some tuple ∧ result = some rows ∧
      (rows.map Prod.fst).Perm df.rows ∧
        ∀ row ∈ rows, row.2 = some true ↔ check.Violates spark tuples tuple row.1

variable {spark refs check} {tuples : List (List (Option α))} {tuple : ρ → List (Option α)}
  {notNull : ρ → Bool} {df : Table σ ρ}

theorem keysMatch_isPlain_iff {key cells : List (Option α)}
    (hkey : check.nullSafe = true ∨ ∀ cell ∈ key, cell.isSome = true) :
    KeysMatch spark (!check.isPlain) key cells ↔ KeysMatch spark check.nullSafe key cells := by
  rcases hkey with hsafe | hkey
  · have hplain : check.isPlain = false := by
      rw [isPlain, hsafe]
      exact Bool.and_false _
    rw [hplain, hsafe]
    exact Iff.rfl
  · exact ⟨keysMatch_of_isSome hkey, keysMatch_of_isSome hkey⟩

theorem occurs_isPlain_iff {key : List (Option α)}
    (hkey : check.nullSafe = true ∨ ∀ cell ∈ key, cell.isSome = true) :
    Occurs spark (!check.isPlain) key tuples ↔ Occurs spark check.nullSafe key tuples :=
  exists_congr fun _ => and_congr_right fun _ => keysMatch_isPlain_iff hkey

/-- A plain key is guarded by itself, a null-safe one not at all. -/
theorem guard_eq_true (h : check.isPlain = true ∨ check.nullSafe = true) (schema : σ) :
    check.guard spark schema = some fun _ => true := by
  rcases check.key_cases spark with ⟨hplain, column, refColumn, hcolumns, hrefColumns⟩ |
    ⟨hplain, hkey⟩
  · rw [guard, check.key_plain spark hplain hcolumns hrefColumns]
  · rw [guard, hkey]
    rcases h with h | hsafe
    · rw [hplain] at h
      cases h
    · show (handleFkCompositeKeys spark check.columns check.refColumns check.nullSafe).2.2 schema = _
      rw [handleFkCompositeKeys, hsafe]
      rfl

/-- A row out of scope joins nothing. -/
theorem filter_joins_eq_nil {row : ρ} {values : List (KeyValue α)}
    (hrow : check.rowFilter row ≠ some true) :
    (values.filter fun ref => decide (check.joins spark
      (fun row => check.keyOf (tuple row)) row ref = some true)) = [] := by
  rw [List.filter_eq_nil_iff]
  intro ref _ hjoins
  rw [decide_eq_true_eq, joins, Truth.and_eq_true] at hjoins
  exact hrow hjoins.2

section Rows

variable (htuples : check.referenceTuples spark refs = some tuples)
  (htuple : check.sourceTuple spark df.schema = some tuple)

include htuples htuple

theorem joins_keyOf_iff {row : ρ} {cells : List (Option α)} (hcells : cells ∈ tuples) :
    check.joins spark (fun row => check.keyOf (tuple row)) row (check.keyOf cells) = some true ↔
      check.rowFilter row = some true ∧ KeysMatch spark (!check.isPlain) (tuple row) cells := by
  rw [← check.equal_keyOf_iff spark (check.length_sourceTuple spark htuple row)
    (check.length_of_mem_referenceTuples spark refs htuples hcells), joins, Truth.and_eq_true,
    Truth.and_eq_true, Option.some.injEq, and_comm]

variable [DecidableEq α]

/-- The reference values that a row joins with stand for the tuples that match its own. -/
theorem exists_joins_iff {row : ρ} (hrow : check.rowFilter row = some true) :
    (∃ ref ∈ (tuples.map check.keyOf).dedup,
      check.joins spark (fun row => check.keyOf (tuple row)) row ref = some true) ↔
      Occurs spark (!check.isPlain) (tuple row) tuples := by
  constructor
  · rintro ⟨ref, href, hjoins⟩
    obtain ⟨cells, hcells, rfl⟩ := List.mem_map.mp (List.mem_dedup.mp href)
    exact ⟨cells, hcells, ((joins_keyOf_iff htuples htuple hcells).mp hjoins).2⟩
  · rintro ⟨cells, hcells, hmatch⟩
    exact ⟨check.keyOf cells, List.mem_dedup.mpr (List.mem_map_of_mem hcells),
      (joins_keyOf_iff htuples htuple hcells).mpr ⟨hrow, hmatch⟩⟩

/-- A row joins at most one reference value if all the tuples that match its own are one. -/
theorem length_joins_le_one_iff {row : ρ} (hrow : check.rowFilter row = some true) :
    (((tuples.map check.keyOf).dedup).filter fun ref => decide (check.joins spark
        (fun row => check.keyOf (tuple row)) row ref = some true)).length ≤ 1 ↔
      ∀ cells ∈ tuples, ∀ cells' ∈ tuples, KeysMatch spark (!check.isPlain) (tuple row) cells →
        KeysMatch spark (!check.isPlain) (tuple row) cells' → cells = cells' := by
  rw [length_filter_le_one_iff (List.nodup_dedup _)]
  constructor
  · intro h cells hcells cells' hcells' hmatch hmatch'
    refine check.keyOf_inj (check.length_of_mem_referenceTuples spark refs htuples hcells)
      (check.length_of_mem_referenceTuples spark refs htuples hcells') ?_
    exact h _ (List.mem_dedup.mpr (List.mem_map_of_mem hcells)) _
      (List.mem_dedup.mpr (List.mem_map_of_mem hcells'))
      (decide_eq_true ((joins_keyOf_iff htuples htuple hcells).mpr ⟨hrow, hmatch⟩))
      (decide_eq_true ((joins_keyOf_iff htuples htuple hcells').mpr ⟨hrow, hmatch'⟩))
  · intro h ref href ref' href' hjoins hjoins'
    obtain ⟨cells, hcells, rfl⟩ := List.mem_map.mp (List.mem_dedup.mp href)
    obtain ⟨cells', hcells', rfl⟩ := List.mem_map.mp (List.mem_dedup.mp href')
    rw [decide_eq_true_eq, joins_keyOf_iff htuples htuple hcells] at hjoins
    rw [decide_eq_true_eq, joins_keyOf_iff htuples htuple hcells'] at hjoins'
    rw [h cells hcells cells' hcells' hjoins.2 hjoins'.2]

end Rows

end ForeignKey

namespace ForeignKey

variable {spark : Spark σ ρ α} {refs : References σ ρ} {check : ForeignKey σ ρ α}
  {tuples : List (List (Option α))} {tuple : ρ → List (Option α)} {notNull : ρ → Bool}
  {df : Table σ ρ}

theorem isNotNull_keyOf_iff {key : List (Option α)} (hlength : key.length = check.columns.length) :
    (check.keyOf key).isNotNull = true ↔
      (check.isPlain = true → ∀ cell ∈ key, cell.isSome = true) := by
  cases hplain : check.isPlain with
  | true =>
    obtain ⟨hone, -⟩ := check.isPlain_eq_true_iff.mp hplain
    obtain ⟨a, rfl⟩ := List.length_eq_one_iff.mp (hlength.trans hone)
    rw [keyOf, if_pos hplain]
    simp [KeyValue.isNotNull]
  | false =>
    rw [keyOf, if_neg (by rw [hplain]; decide)]
    exact ⟨fun _ h => absurd h Bool.false_ne_true, fun _ => rfl⟩

theorem violation_iff {value : ρ → KeyValue α} {row : ρ} {ref : Option (KeyValue α)} :
    check.violation value notNull row ref = some true ↔
      check.rowFilter row = some true ∧ notNull row = true ∧ (value row).isNotNull = true ∧
        (ref.any KeyValue.isNotNull = true ↔ check.negate = true) := by
  unfold violation
  dsimp only
  rw [Truth.and_eq_true, Truth.and_eq_true, Truth.and_eq_true, Option.some.injEq, Option.some.injEq,
    Option.some.injEq]
  cases check.negate <;> cases ref.any KeyValue.isNotNull <;> simp [and_comm, and_assoc]

/-- On a row in scope the check does what it is for if and only if the guard serves its purpose. -/
theorem guarded_iff {row : ρ} (hguard : check.guard spark df.schema = some notNull) :
    ((notNull row = true ∧ (check.isPlain = true → ∀ cell ∈ tuple row, cell.isSome = true) ∧
        (Occurs spark (!check.isPlain) (tuple row) tuples ↔ check.negate = true)) ↔
      ((check.nullSafe = true ∨ ∀ cell ∈ tuple row, cell.isSome = true) ∧
        (Occurs spark (!check.isPlain) (tuple row) tuples ↔ check.negate = true))) ↔
      (check.isPlain = false → check.nullSafe = false →
        (Occurs spark true (tuple row) tuples ↔ check.negate = true) →
          (notNull row = true ↔ ∀ cell ∈ tuple row, cell.isSome = true)) := by
  by_cases h : check.isPlain = true ∨ check.nullSafe = true
  · have hnotNull : notNull row = true := by
      rw [guard_eq_true h] at hguard
      rw [← Option.some.inj hguard]
    rcases h with hplain | hsafe
    · have hsafe := (check.isPlain_eq_true_iff.mp hplain).2
      simp [hnotNull, hplain, hsafe]
    · have hplain : check.isPlain = false := by
        rw [isPlain, hsafe]
        exact Bool.and_false _
      simp [hnotNull, hplain, hsafe]
  · rw [not_or, Bool.not_eq_true, Bool.not_eq_true] at h
    rw [h.1, h.2]
    simp only [Bool.not_false, Bool.false_eq_true, false_or, false_implies, true_and, forall_const]
    constructor
    · intro hiff hoccurs
      exact ⟨fun hnotNull => (hiff.mp ⟨hnotNull, hoccurs⟩).1,
        fun hcells => (hiff.mpr ⟨hcells, hoccurs⟩).1⟩
    · exact fun hguarded => and_congr_left hguarded

variable [DecidableEq α]

section Rows

variable (htuples : check.referenceTuples spark refs = some tuples)
  (htuple : check.sourceTuple spark df.schema = some tuple)

include htuples htuple

theorem any_isNotNull_iff {row : ρ × Option (KeyValue α)}
    (hscope : check.rowFilter row.1 = some true)
    (hrow : row ∈ check.joined spark tuples tuple df.rows) :
    row.2.any KeyValue.isNotNull = true ↔
      Occurs spark (!check.isPlain) (tuple row.1) tuples := by
  rw [← exists_joins_iff htuples htuple hscope]
  obtain ⟨-, ⟨hnone, hnil⟩ | ⟨ref, href, hsome⟩⟩ := mem_leftOuter_iff.mp hrow
  · rw [hnone]
    refine ⟨nofun, fun ⟨ref, href, hjoins⟩ => ?_⟩
    exact absurd (decide_eq_true hjoins) (List.filter_eq_nil_iff.mp hnil ref href)
  · rw [hsome]
    obtain ⟨hmem, hjoins⟩ := List.mem_filter.mp href
    rw [decide_eq_true_eq] at hjoins
    refine ⟨fun _ => ⟨ref, hmem, hjoins⟩, fun _ => ?_⟩
    rw [joins, Truth.and_eq_true, Truth.and_eq_true] at hjoins
    exact KeyValue.isNotNull_of_equal hjoins.1.1

theorem violation_iff_violates_iff {row : ρ × Option (KeyValue α)}
    (hguard : check.guard spark df.schema = some notNull)
    (hscope : check.rowFilter row.1 = some true)
    (hrow : row ∈ check.joined spark tuples tuple df.rows) :
    (check.violation (fun row => check.keyOf (tuple row)) notNull row.1 row.2 = some true ↔
      check.Violates spark tuples tuple row.1) ↔
      (check.isPlain = false → check.nullSafe = false →
        (Occurs spark true (tuple row.1) tuples ↔ check.negate = true) →
          (notNull row.1 = true ↔ ∀ cell ∈ tuple row.1, cell.isSome = true)) := by
  have hviolates : check.Violates spark tuples tuple row.1 ↔
      (check.nullSafe = true ∨ ∀ cell ∈ tuple row.1, cell.isSome = true) ∧
        (Occurs spark (!check.isPlain) (tuple row.1) tuples ↔ check.negate = true) := by
    rw [Violates, and_iff_right hscope]
    exact and_congr_right fun hkey => by rw [occurs_isPlain_iff hkey]
  rw [violation_iff, and_iff_right hscope, any_isNotNull_iff htuples htuple hscope hrow,
    isNotNull_keyOf_iff (check.length_sourceTuple spark htuple row.1), hviolates]
  exact guarded_iff hguard

end Rows

/-- A check without a cache reports as it should if and only if it is sound. -/
theorem reports_iff (spark : Spark σ ρ α) (refs : References σ ρ) (check : ForeignKey σ ρ α)
    (df : Table σ ρ) :
    check.Reports spark refs df (check.apply spark refs df none).1 ↔ check.Sound spark refs df := by
  rw [apply_none]
  constructor
  · rintro ⟨tuples, tuple, rows, htuples, htuple, hrows, hperm, hflags⟩
    rw [htuples, Option.bind_some, htuple, Option.bind_some, Option.map_eq_some_iff] at hrows
    obtain ⟨notNull, hguard, rfl⟩ := hrows
    rw [List.map_map] at hperm
    have hone := leftOuter_map_fst_perm_iff.mp hperm
    refine ⟨tuples, tuple, notNull, htuples, htuple, hguard, fun row hrow hscope => ⟨?_, ?_⟩⟩
    · exact (length_joins_le_one_iff htuples htuple hscope).mp (hone row hrow)
    · obtain ⟨ref, hjoined⟩ := exists_mem_leftOuter hrow
      exact (violation_iff_violates_iff htuples htuple hguard hscope hjoined).mp
        (hflags _ (List.mem_map_of_mem hjoined))
  · rintro ⟨tuples, tuple, notNull, htuples, htuple, hguard, hrows⟩
    rw [htuples, Option.bind_some, htuple, Option.bind_some, hguard, Option.map_some]
    refine ⟨tuples, tuple, _, htuples, htuple, rfl, ?_, ?_⟩
    · rw [List.map_map]
      show ((check.joined spark tuples tuple df.rows).map Prod.fst).Perm df.rows
      rw [joined, leftOuter_map_fst_perm_iff]
      intro row hrow
      by_cases hscope : check.rowFilter row = some true
      · exact (length_joins_le_one_iff htuples htuple hscope).mpr (hrows row hrow hscope).unique
      · rw [filter_joins_eq_nil hscope]
        exact Nat.zero_le 1
    · intro row hrow
      obtain ⟨joined, hjoined, rfl⟩ := List.mem_map.mp hrow
      by_cases hscope : check.rowFilter joined.1 = some true
      · exact (violation_iff_violates_iff htuples htuple hguard hscope hjoined).mpr
          (hrows _ (mem_leftOuter_iff.mp hjoined).1 hscope).guarded
      · have hclear : check.violation (fun row => check.keyOf (tuple row)) notNull joined.1
            joined.2 ≠ some true := fun hflag => hscope (violation_iff.mp hflag).1
        exact iff_of_false hclear fun hviolates => hscope hviolates.1

end ForeignKey

end Dqx.ForeignKeys
