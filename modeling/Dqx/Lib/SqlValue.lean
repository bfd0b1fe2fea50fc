import Mathlib.Algebra.BigOperators.Group.List.Basic
import Mathlib.Algebra.Order.Field.Rat
import Mathlib.Data.Finset.Card
import Mathlib.Tactic.Ring
import Dqx.Lib.Join

/-! Conditions with three truth values, and the aggregates of a column with NULLs. -/

namespace Dqx.Lib.Sql

/-- A condition holds, does not hold, or is unknown. -/
abbrev Truth := Option Bool

namespace Truth

def not (a : Truth) : Truth := a.map (!·)

def or : Truth → Truth → Truth
  | some true, _ => some true
  | some false, b => b
  | none, some true => some true
  | none, _ => none

def and (a b : Truth) : Truth := ((a.not).or b.not).not

/-- One of several conditions. -/
def any (conditions : List Truth) : Truth := conditions.foldr or (some false)

@[simp] theorem not_eq_true {a : Truth} : a.not = some true ↔ a = some false := by
  cases a with
  | none => simp [not]
  | some b => cases b <;> simp [not]

@[simp] theorem not_eq_false {a : Truth} : a.not = some false ↔ a = some true := by
  cases a with
  | none => simp [not]
  | some b => cases b <;> simp [not]

@[simp] theorem or_eq_true {a b : Truth} : a.or b = some true ↔ a = some true ∨ b = some true := by
  rcases a with _ | _ | _ <;> rcases b with _ | _ | _ <;> simp [or]

@[simp] theorem or_eq_false {a b : Truth} :
    a.or b = some false ↔ a = some false ∧ b = some false := by
  rcases a with _ | _ | _ <;> rcases b with _ | _ | _ <;> simp [or]

@[simp] theorem and_eq_true {a b : Truth} :
    a.and b = some true ↔ a = some true ∧ b = some true := by
  simp [and]

@[simp] theorem and_eq_false {a b : Truth} :
    a.and b = some false ↔ a = some false ∨ b = some false := by
  simp [and]

@[simp] theorem any_eq_true {conditions : List Truth} :
    any conditions = some true ↔ some true ∈ conditions := by
  induction conditions with
  | nil => simp [any]
  | cons a conditions ih =>
    rw [any, List.foldr_cons, or_eq_true, ← any, ih, List.mem_cons, eq_comm]

@[simp] theorem any_eq_false {conditions : List Truth} :
    any conditions = some false ↔ ∀ a ∈ conditions, a = some false := by
  induction conditions with
  | nil => simp [any]
  | cons a conditions ih =>
    rw [any, List.foldr_cons, or_eq_false, ← any, ih, List.forall_mem_cons]

end Truth

variable {α κ : Type}

/-- `CASE WHEN condition THEN value END` -/
def caseWhen (condition : Truth) (value : Option α) : Option α :=
  if condition = some true then value else none

/-- `COUNT(column)` -/
def count (column : List (Option α)) : ℕ := (column.filterMap id).length

/-- `AVG(column)` -/
def avg (column : List (Option ℚ)) : Option ℚ :=
  let values := column.filterMap id
  if values.isEmpty then none else some (values.sum / values.length)

/-- A filter inside of an aggregate leaves the other rows out of it. -/
theorem filterMap_caseWhen (condition : α → Truth) (value : α → Option κ) (rows : List α) :
    (rows.map fun row => caseWhen (condition row) (value row)).filterMap id =
      ((rows.filter fun row => condition row = some true).map value).filterMap id := by
  induction rows with
  | nil => rfl
  | cons row rows ih =>
    rw [List.map_cons, List.filterMap_cons, ih]
    by_cases h : condition row = some true
    · simp [caseWhen, h, List.filterMap_cons]
    · simp [caseWhen, h]

theorem count_caseWhen (condition : α → Truth) (value : α → Option κ) (rows : List α) :
    count (rows.map fun row => caseWhen (condition row) (value row)) =
      count ((rows.filter fun row => condition row = some true).map value) := by
  rw [count, filterMap_caseWhen, count]

theorem avg_caseWhen (condition : α → Truth) (value : α → Option ℚ) (rows : List α) :
    avg (rows.map fun row => caseWhen (condition row) (value row)) =
      avg ((rows.filter fun row => condition row = some true).map value) := by
  rw [avg, filterMap_caseWhen, avg]

@[simp] theorem filterMap_some (value : α → κ) (rows : List α) :
    (rows.map fun row => some (value row)).filterMap id = rows.map value := by
  simp [List.filterMap_map]

theorem count_some (value : α → κ) (rows : List α) :
    count (rows.map fun row => some (value row)) = rows.length := by
  rw [count, filterMap_some, List.length_map]

theorem sum_indicator (p : α → Bool) (high : ℚ) (rows : List α) :
    (rows.map fun row => if p row = true then high else 0).sum = high * rows.countP p := by
  induction rows with
  | nil => simp
  | cons row rows ih =>
    rw [List.map_cons, List.sum_cons, ih, List.countP_cons]
    split <;> push_cast <;> ring

/-- The average of an indicator is the share of the rows with the property. -/
theorem avg_indicator (p : α → Bool) (high : ℚ) (rows : List α) :
    avg (rows.map fun row => some (if p row = true then high else 0)) =
      if rows = [] then none else some (high * rows.countP p / rows.length) := by
  rw [avg, filterMap_some, sum_indicator]
  cases rows <;> simp

/-- The values that several rows have. -/
theorem length_filter_groupCounts [DecidableEq κ] (key : α → κ) (rows : List α) :
    ((groupCounts key rows).filter fun group => 1 < group.2).length =
      ((rows.map key).toFinset.filter fun k => 1 < (rows.map key).count k).card := by
  have hdedup : (rows.map key).toFinset.filter (fun k => 1 < (rows.map key).count k) =
      ((rows.map key).dedup.filter fun k => 1 < (rows.map key).count k).toFinset := by
    ext k
    simp
  rw [groupCounts, List.filter_map, List.length_map, hdedup,
    List.toFinset_card_of_nodup ((List.nodup_dedup _).filter _)]
  rfl

end Dqx.Lib.Sql
