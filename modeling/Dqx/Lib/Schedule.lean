import Mathlib.Order.Basic

/-! Schedules: sets of instants with a search for the next one. The search may give up; what it finds
is the first instant of the set behind the one that it began at. -/

namespace Dqx.Lib

structure Schedule where
  next : Nat → Option Nat
  Occurs : Nat → Prop
  next_spec : ∀ {after found}, next after = some found →
    after < found ∧ Occurs found ∧ ∀ t, after < t → t < found → ¬Occurs t

namespace Schedule

variable {schedule : Schedule} {a b found : Nat}

theorem lt_next (h : schedule.next a = some found) : a < found :=
  (schedule.next_spec h).1

theorem occurs_next (h : schedule.next a = some found) : schedule.Occurs found :=
  (schedule.next_spec h).2.1

theorem next_le (h : schedule.next a = some found) {t : Nat} (hafter : a < t)
    (hoccurs : schedule.Occurs t) : found ≤ t := by
  by_contra hlt
  exact (schedule.next_spec h).2.2 t hafter (Nat.lt_of_not_le hlt) hoccurs

/-- The next instant stays the next one until it comes. -/
theorem next_eq (h : schedule.next a = some found) (hab : a ≤ b) (hb : b < found)
    (hsome : (schedule.next b).isSome) : schedule.next b = some found := by
  obtain ⟨other, hother⟩ := Option.isSome_iff_exists.mp hsome
  have hle : found ≤ other :=
    next_le h (Nat.lt_of_le_of_lt hab (lt_next hother)) (occurs_next hother)
  have hge : other ≤ found := next_le hother hb (occurs_next h)
  rw [hother, Nat.le_antisymm hge hle]

end Schedule

end Dqx.Lib
