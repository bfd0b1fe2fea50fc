import Mathlib.Data.Int.Order.Basic
import Mathlib.Data.Nat.Size
import Mathlib.Tactic.Ring

/-! Double-precision numbers as far as integers reach: rounding to fifty-three bits, half to even. -/

namespace Dqx.Lib

/-- An integral double. -/
inductive Double where
  | finite (n : Int)
  | infinite (negative : Bool)
  deriving DecidableEq, Repr

namespace Double

/-- How many low bits of a number a significand of fifty-three bits cannot hold. -/
def excess (m : Nat) : Nat := m.size - 53

/-- The nearest number with fifty-three significant bits. -/
def roundNat (m : Nat) : Nat :=
  let unit := 2 ^ excess m
  let quotient := m / unit
  let twice := 2 * (m % unit)
  if unit < twice ∨ unit = twice ∧ quotient % 2 = 1 then (quotient + 1) * unit
  else quotient * unit

/-- The double nearest to an integer. -/
def ofInt (n : Int) : Double :=
  let rounded := roundNat n.natAbs
  if 1024 < rounded.size then infinite (n < 0) else finite (if n < 0 then -rounded else rounded)

/-- Subtraction of a double from a finite one. -/
def subFrom (n : Int) : Double → Double
  | finite m => ofInt (n - m)
  | infinite negative => infinite !negative

/-- `greatest(x, 0)` -/
def clamp : Double → Double
  | finite n => finite (max n 0)
  | infinite true => finite 0
  | infinite false => infinite false

/-- `x > y` -/
def gt : Double → Double → Bool
  | finite n, finite m => m < n
  | finite _, infinite negative => negative
  | infinite negative, finite _ => !negative
  | infinite negative, infinite negative' => !negative && negative'

theorem roundNat_of_le {m : Nat} (h : m ≤ 2 ^ 53) : roundNat m = m := by
  rcases Nat.lt_or_eq_of_le h with h | rfl
  · have hexcess : excess m = 0 := by
      have := Nat.size_le.mpr h
      unfold excess
      omega
    simp [roundNat, hexcess]
    omega
  · decide

theorem le_roundNat {m : Nat} (h : 2 ^ 53 ≤ m) : 2 ^ 53 ≤ roundNat m := by
  have hsize : 53 < m.size := Nat.lt_size.mpr h
  have hunit : 2 ^ 52 * 2 ^ excess m ≤ m := by
    rw [← Nat.pow_add]
    refine Nat.lt_size.mp ?_
    unfold excess
    omega
  have hquotient : 2 ^ 52 ≤ m / 2 ^ excess m := (Nat.le_div_iff_mul_le (Nat.two_pow_pos _)).mpr hunit
  have hsome : excess m ≠ 0 := by
    unfold excess
    omega
  have heven : 2 ≤ 2 ^ excess m := Nat.le_self_pow hsome 2
  have hproduct : 2 ^ 53 ≤ m / 2 ^ excess m * 2 ^ excess m := Nat.mul_le_mul hquotient heven
  unfold roundNat
  dsimp only
  split
  · exact hproduct.trans (Nat.mul_le_mul_right _ (Nat.le_succ _))
  · exact hproduct

theorem ofInt_of_le {n : Int} (h : n.natAbs ≤ 2 ^ 53) : ofInt n = finite n := by
  have hsmall : ¬1024 < n.natAbs.size := by
    have : n.natAbs.size ≤ 54 := Nat.size_le.mpr (by omega)
    omega
  unfold ofInt
  dsimp only
  rw [roundNat_of_le h, if_neg hsmall]
  congr 1
  split <;> omega

/-- Whether a limit below `2 ^ 53` is exceeded is decided right for every integer. -/
theorem gt_clamp_ofInt {n : Int} {k : Nat} (hk : k < 2 ^ 53) :
    gt (clamp (ofInt n)) (ofInt k) = true ↔ (k : Int) < n := by
  have hlimit : ofInt k = finite k := ofInt_of_le (by rw [Int.natAbs_natCast]; omega)
  rw [hlimit]
  by_cases hsmall : n.natAbs ≤ 2 ^ 53
  · rw [ofInt_of_le hsmall]
    simp only [clamp, gt, decide_eq_true_eq]
    omega
  · have hlarge := le_roundNat (by omega : 2 ^ 53 ≤ n.natAbs)
    unfold ofInt
    dsimp only
    by_cases hneg : n < 0
    · -- what is rounded away is far below zero
      have hfalse : ¬(k : Int) < n := by omega
      rw [if_pos hneg, decide_eq_true hneg]
      split
      · simp [hfalse, clamp, gt]
      · simp only [clamp, gt, decide_eq_true_eq, hfalse, iff_false]
        omega
    · have htrue : (k : Int) < n := by omega
      rw [if_neg hneg, decide_eq_false hneg]
      split
      · simp [htrue, clamp, gt]
      · simp only [clamp, gt, decide_eq_true_eq, htrue, iff_true]
        omega

end Double

end Dqx.Lib
