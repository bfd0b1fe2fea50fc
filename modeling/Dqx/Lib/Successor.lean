import Mathlib.Data.Int.Order.Basic
import Mathlib.Data.List.Dedup
import Mathlib.Data.List.Sort
import Mathlib.Order.Bounds.Basic

/-! The successor of each element of a sorted list, as the window function `lead` finds it, against the
least larger element of a set. -/

namespace Dqx.Lib

variable {α : Type*}

/-- Every element with the one behind it. -/
def lead : List α → List (α × Option α)
  | [] => []
  | [x] => [(x, none)]
  | x :: y :: rest => (x, some y) :: lead (y :: rest)

@[simp] theorem lead_map_fst (l : List α) : (lead l).map Prod.fst = l := by
  induction l using lead.induct with
  | case1 => rfl
  | case2 x => rfl
  | case3 x y rest ih => simp [lead, ih]

variable [LinearOrder α]

/-- `next` is the least element of the set above `x`, or there is none. -/
def IsSuccessor (s : Set α) (x : α) : Option α → Prop
  | none => ∀ y ∈ s, y ≤ x
  | some next => IsLeast {y | y ∈ s ∧ x < y} next

theorem IsSuccessor.unique {s : Set α} {x : α} {next next' : Option α} (h : IsSuccessor s x next)
    (h' : IsSuccessor s x next') : next = next' := by
  cases next with
  | none =>
    cases next' with
    | none => rfl
    | some y => exact absurd (h y h'.1.1) (not_le.mpr h'.1.2)
  | some y =>
    cases next' with
    | none => exact absurd (h' y h.1.1) (not_le.mpr h.1.2)
    | some z => exact congrArg some (IsLeast.unique h h')

theorem isSuccessor_of_mem_lead {l : List α} (hsorted : l.Pairwise (· < ·)) {x : α}
    {next : Option α} (h : (x, next) ∈ lead l) : IsSuccessor {y | y ∈ l} x next := by
  induction l using lead.induct with
  | case1 => cases h
  | case2 y =>
    obtain ⟨rfl, rfl⟩ := Prod.mk.inj (List.mem_singleton.mp h)
    intro z hz
    exact (List.mem_singleton.mp hz).le
  | case3 y z rest ih =>
    obtain ⟨hy, hrest⟩ := List.pairwise_cons.mp hsorted
    obtain ⟨hz, -⟩ := List.pairwise_cons.mp hrest
    rcases List.mem_cons.mp h with h | h
    · obtain ⟨rfl, rfl⟩ := Prod.mk.inj h
      refine ⟨⟨by simp, hy z List.mem_cons_self⟩, ?_⟩
      rintro w ⟨hw, hlt⟩
      rcases List.mem_cons.mp hw with rfl | hw
      · exact absurd hlt (lt_irrefl _)
      · rcases List.mem_cons.mp hw with rfl | hw
        · exact le_rfl
        · exact (hz w hw).le
    · have hx : x ∈ z :: rest := by
        have := List.mem_map_of_mem (f := Prod.fst) h
        rwa [lead_map_fst] at this
      have hsuccessor := ih hrest h
      cases next with
      | none =>
        intro w hw
        rcases List.mem_cons.mp hw with rfl | hw
        · exact (hy x hx).le
        · exact hsuccessor w hw
      | some next =>
        refine ⟨⟨List.mem_cons_of_mem _ hsuccessor.1.1, hsuccessor.1.2⟩, ?_⟩
        rintro w ⟨hw, hlt⟩
        rcases List.mem_cons.mp hw with rfl | hw
        · exact absurd hlt (hy x hx).not_gt
        · exact hsuccessor.2 ⟨hw, hlt⟩

theorem exists_mem_lead {l : List α} {x : α} : x ∈ l ↔ ∃ next, (x, next) ∈ lead l := by
  conv_lhs => rw [← lead_map_fst l]
  simp only [List.mem_map, Prod.exists, exists_and_right, exists_eq_right]

theorem mem_lead_iff {l : List α} (hsorted : l.Pairwise (· < ·)) {x : α} {next : Option α} :
    (x, next) ∈ lead l ↔ x ∈ l ∧ IsSuccessor {y | y ∈ l} x next := by
  constructor
  · exact fun h => ⟨exists_mem_lead.mpr ⟨next, h⟩, isSuccessor_of_mem_lead hsorted h⟩
  · rintro ⟨hx, hnext⟩
    obtain ⟨next', h⟩ := exists_mem_lead.mp hx
    rwa [hnext.unique (isSuccessor_of_mem_lead hsorted h)]

/-- The distinct elements of a list in order. -/
def ascending (l : List α) : List α := l.dedup.insertionSort (· ≤ ·)

@[simp] theorem mem_ascending {l : List α} {x : α} : x ∈ ascending l ↔ x ∈ l := by
  simp [ascending]

theorem pairwise_ascending (l : List α) : (ascending l).Pairwise (· < ·) := by
  have hle : (ascending l).Pairwise (· ≤ ·) := List.pairwise_insertionSort (· ≤ ·) l.dedup
  have hne : (ascending l).Nodup :=
    (List.perm_insertionSort (· ≤ ·) l.dedup).nodup_iff.mpr (List.nodup_dedup l)
  exact hle.imp₂ (fun _ _ h h' => lt_of_le_of_ne h h') hne

end Dqx.Lib
