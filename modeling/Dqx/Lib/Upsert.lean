import Dqx.Lib.Traverse

/-! Two ways to bring a row into a table: every row that is found is updated, or the one that a unique
index finds. If there is none, the row is added. -/

namespace Dqx.Lib

universe u

variable {ε α : Type u} (found : α → Bool) (update : α → Except ε α) (new : α)

/-- `MERGE`: every row that is found is updated. -/
def mergeInto (rows : List α) : Except ε (List α) :=
  if rows.any found then rows.mapM fun row => if found row then update row else .ok row
  else .ok (rows ++ [new])

/-- `INSERT … ON CONFLICT`: the row that the index finds is updated. -/
def insertOnConflict : List α → Except ε (List α)
  | [] => .ok [new]
  | row :: rows =>
    if found row then (update row).map (· :: rows)
    else (insertOnConflict rows).map (row :: ·)

variable {found update new}

theorem mergeInto_cons_of_found {row : α} {rows : List α} (h : found row = true)
    (hrows : ∀ other ∈ rows, found other = false) :
    mergeInto found update new (row :: rows) = (update row).map (· :: rows) := by
  have hfixed : (rows.mapM fun other => if found other then update other else .ok other) =
      .ok rows := mapM_fixed fun other hother => by simp [hrows other hother]
  rw [mergeInto, List.any_cons, h, Bool.true_or, if_pos rfl, List.mapM_cons, hfixed, if_pos h]
  cases update row <;> rfl

theorem mergeInto_cons_of_not_found {row : α} {rows : List α} (h : found row = false) :
    mergeInto found update new (row :: rows) =
      (mergeInto found update new rows).map (row :: ·) := by
  unfold mergeInto
  rw [List.any_cons, h, Bool.false_or, List.mapM_cons, h]
  split
  · cases hrest : rows.mapM fun other => if found other then update other else .ok other
    · rfl
    · rfl
  · rfl

/-- Where no two rows are found, the two ways are one. -/
theorem mergeInto_eq_insertOnConflict {rows : List α}
    (hunique : rows.Pairwise fun a b => ¬(found a = true ∧ found b = true)) :
    mergeInto found update new rows = insertOnConflict found update new rows := by
  induction rows with
  | nil => rfl
  | cons row rows ih =>
    obtain ⟨hrow, hrows⟩ := List.pairwise_cons.mp hunique
    cases h : found row with
    | true =>
      have hothers : ∀ other ∈ rows, found other = false := fun other hother =>
        Bool.eq_false_iff.mpr fun hfound => hrow other hother ⟨h, hfound⟩
      rw [mergeInto_cons_of_found h hothers, insertOnConflict, if_pos h]
    | false =>
      have hne : ¬found row = true := by simp [h]
      rw [mergeInto_cons_of_not_found h, insertOnConflict, if_neg hne, ih hrows]

end Dqx.Lib
