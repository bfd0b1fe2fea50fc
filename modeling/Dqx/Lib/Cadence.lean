import Mathlib.Order.Bounds.Basic
import Mathlib.Order.Monotone.Basic

/-! Cadences: instants of which every period has exactly one. Periods are numbered in the order of
time, and the next instant is the one of the current period, or else the one of the period behind
it. -/

namespace Dqx.Lib

structure Cadence where
  period : Nat → Nat
  /-- The instant of a period. -/
  instant : Nat → Nat
  period_mono : Monotone period
  period_instant : ∀ k, period (instant k) = k

namespace Cadence

variable (cadence : Cadence)

def Occurs (t : Nat) : Prop :=
  cadence.instant (cadence.period t) = t

def next (after : Nat) : Nat :=
  if cadence.instant (cadence.period after) ≤ after then cadence.instant (cadence.period after + 1)
  else cadence.instant (cadence.period after)

/-- The instants from one on, by their number. -/
def run (after : Nat) : Nat → Nat
  | 0 => cadence.next after
  | n + 1 => cadence.next (run after n)

variable {cadence} {after k t : Nat}

theorem occurs_instant (k : Nat) : cadence.Occurs (cadence.instant k) := by
  rw [Occurs, cadence.period_instant]

theorem instantlt_of_lt_period (h : k < cadence.period t) : cadence.instant k < t := by
  by_contra hle
  have hmono := cadence.period_mono (Nat.le_of_not_lt hle)
  rw [cadence.period_instant] at hmono
  omega

theorem lt_instantof_period_lt (h : cadence.period t < k) : t < cadence.instant k := by
  by_contra hle
  have hmono := cadence.period_mono (Nat.le_of_not_lt hle)
  rw [cadence.period_instant] at hmono
  omega

theorem instantle_of_le_period (h : k ≤ cadence.period t) (hoccurs : cadence.Occurs t) :
    cadence.instant k ≤ t := by
  by_cases heq : k = cadence.period t
  · rw [heq, hoccurs]
  · exact Nat.le_of_lt (instantlt_of_lt_period (by omega))

/-- Every period has exactly one instant. -/
theorem existsUnique_occurs (k : Nat) : ∃! t, cadence.period t = k ∧ cadence.Occurs t := by
  refine ⟨cadence.instant k, ⟨cadence.period_instant k, occurs_instant k⟩, ?_⟩
  rintro t ⟨rfl, hoccurs⟩
  exact hoccurs.symm

theorem next_eq_instant (after : Nat) :
    cadence.next after = cadence.instant (cadence.period (cadence.next after)) := by
  unfold next
  split <;> rw [cadence.period_instant]

theorem period_next (after : Nat) : cadence.period (cadence.next after) = cadence.period after ∨
    cadence.period (cadence.next after) = cadence.period after + 1 := by
  unfold next
  split <;> rw [cadence.period_instant]
  · exact .inr rfl
  · exact .inl rfl

theorem lt_next (after : Nat) : after < cadence.next after := by
  unfold next
  split
  · exact lt_instantof_period_lt (Nat.lt_succ_self _)
  · next h => exact Nat.lt_of_not_le h

theorem period_next_le (hafter : after < t) (hoccurs : cadence.Occurs t) :
    cadence.period (cadence.next after) ≤ cadence.period t := by
  have hperiod := cadence.period_mono (Nat.le_of_lt hafter)
  unfold next
  split <;> rw [cadence.period_instant]
  · next hpast =>
    -- an instant of the current period would be the one that has passed
    by_contra hle
    have hsame : cadence.period t = cadence.period after := by omega
    rw [Occurs, hsame] at hoccurs
    omega
  · exact hperiod

/-- The next instant is the first one behind. -/
theorem isLeast_next (after : Nat) :
    IsLeast {t | after < t ∧ cadence.Occurs t} (cadence.next after) := by
  refine ⟨⟨lt_next after, (next_eq_instant after).symm⟩, ?_⟩
  rintro t ⟨hafter, hoccurs⟩
  rw [next_eq_instant]
  exact instantle_of_le_period (period_next_le hafter hoccurs) hoccurs

theorem next_instant (k : Nat) : cadence.next (cadence.instant k) = cadence.instant (k + 1) := by
  rw [next, cadence.period_instant, if_pos (Nat.le_refl _)]

/-- A run visits one period after the other. -/
theorem run_eq_instant (after n : Nat) :
    cadence.run after n = cadence.instant (cadence.period (cadence.next after) + n) := by
  induction n with
  | zero => exact next_eq_instant after
  | succ n ih => rw [run, ih, next_instant, Nat.add_assoc]

theorem run_eq_iff {n : Nat} : cadence.run after n = t ↔
    cadence.Occurs t ∧ cadence.period t = cadence.period (cadence.next after) + n := by
  rw [run_eq_instant]
  constructor
  · rintro rfl
    exact ⟨occurs_instant _, cadence.period_instant _⟩
  · rintro ⟨hoccurs, hperiod⟩
    rw [← hperiod, hoccurs]

/-- One instant in every stretch of a fixed length. -/
def uniform (length offset : Nat) (h : offset < length) : Cadence where
  period t := t / length
  instant k := k * length + offset
  period_mono _ _ hle := Nat.div_le_div_right hle
  period_instant k := by
    rw [Nat.mul_comm, Nat.mul_add_div (by omega), Nat.div_eq_of_lt h, Nat.add_zero]

theorem occurs_uniform {length offset : Nat} (h : offset < length) :
    (uniform length offset h).Occurs t ↔ t % length = offset := by
  have hdiv := Nat.div_add_mod' t length
  rw [Occurs]
  dsimp only [uniform]
  omega

end Cadence

end Dqx.Lib
