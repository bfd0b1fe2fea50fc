import Dqx.Lib.Digits
import Mathlib.Algebra.Field.Rat
import Mathlib.Algebra.Order.Field.Rat
import Mathlib.Algebra.GroupWithZero.Basic
import Mathlib.Data.List.DropRight
import Mathlib.Data.Rat.Cast.Defs
import Mathlib.Order.Bounds.Basic
import Mathlib.Tactic.FieldSimp
import Mathlib.Tactic.Linarith

/-! The decimal places of a number: how often it has to be multiplied by ten to become an integer. -/

namespace Dqx.Lib

/-- The numbers of places after which nothing is left of `q`. -/
def Clearing (q : ℚ) : Set ℕ := {d | ∃ z : ℤ, q * 10 ^ d = z}

@[simp] theorem clearing_neg (q : ℚ) : Clearing (-q) = Clearing q := by
  ext d
  constructor
  · rintro ⟨z, hz⟩
    exact ⟨-z, by rw [Int.cast_neg, ← hz]; ring⟩
  · rintro ⟨z, hz⟩
    exact ⟨-z, by rw [Int.cast_neg, ← hz]; ring⟩

theorem isLeast_clearing_zero : IsLeast (Clearing 0) 0 :=
  ⟨⟨0, by simp⟩, fun _ _ => Nat.zero_le _⟩

/-- A number that is not divisible by ten, times a power of ten. -/
theorem isLeast_clearing {m : ℕ} (hm : ¬10 ∣ m) (x : ℤ) :
    IsLeast (Clearing ((m : ℚ) * 10 ^ x)) (-x).toNat := by
  have hten : (10 : ℚ) ≠ 0 := by norm_num
  have hshift (d : ℕ) : (m : ℚ) * 10 ^ x * 10 ^ d = m * 10 ^ (x + d) := by
    rw [mul_assoc, ← zpow_natCast (10 : ℚ) d, ← zpow_add₀ hten]
  constructor
  · obtain ⟨k, hk⟩ := Int.eq_ofNat_of_zero_le (by omega : 0 ≤ x + ((-x).toNat : ℤ))
    refine ⟨m * 10 ^ k, ?_⟩
    rw [hshift, hk, zpow_natCast]
    push_cast
    rfl
  · rintro d ⟨z, hz⟩
    rw [hshift] at hz
    by_contra hless
    obtain ⟨k, hk⟩ := Int.eq_ofNat_of_zero_le (by omega : 0 ≤ -(x + (d : ℤ)) - 1)
    have hexponent : x + (d : ℤ) = -((k + 1 : ℕ) : ℤ) := by omega
    rw [hexponent, zpow_neg, zpow_natCast, ← div_eq_mul_inv,
      div_eq_iff (pow_ne_zero _ hten)] at hz
    have hint : (m : ℤ) = z * 10 ^ (k + 1) := by exact_mod_cast hz
    have hdvd : (10 : ℤ) ∣ m := by
      rw [hint, pow_succ, ← mul_assoc]
      exact Dvd.intro_left _ rfl
    exact hm (by exact_mod_cast hdvd)

namespace Digits

/-- Digits without the zeros at their end. -/
def significant (digits : List Char) : List Char := digits.rdropWhile (· = '0')

theorem significant_append_zeros (digits : List Char) : ∃ n,
    digits = significant digits ++ List.replicate n '0' := by
  refine ⟨(digits.rtakeWhile (· = '0')).length, ?_⟩
  have hzeros : ∀ c ∈ digits.rtakeWhile (· = '0'), c = '0' := by
    intro c hc
    have hzero := List.mem_rtakeWhile_imp hc
    exact of_decide_eq_true hzero
  rw [← List.eq_replicate_of_mem hzeros]
  exact List.rdropWhile_append_rtakeWhile.symm

theorem value_eq_zero_of_significant {digits : List Char} (h : significant digits = []) :
    value 10 digits = 0 := by
  obtain ⟨n, hn⟩ := significant_append_zeros digits
  rw [hn, h, List.nil_append, value_zeros]

/-- What is left ends in a digit other than zero. -/
theorem not_dvd_value_significant {digits : List Char} (hbase : InBase 10 digits)
    (h : significant digits ≠ []) : ¬10 ∣ value 10 (significant digits) := by
  have hlast : ¬decide ((significant digits).getLast h = '0') = true :=
    List.rdropWhile_last_not (fun c => decide (c = '0')) digits h
  have hsplit := List.dropLast_append_getLast h
  have hmem : (significant digits).getLast h ∈ digits :=
    (List.rdropWhile_prefix _ digits).subset (List.getLast_mem h)
  obtain ⟨hzero, hten⟩ := hbase _ hmem
  have hdigit : (significant digits).getLast h ≠ '0' := by simpa using hlast
  have hne : ((significant digits).getLast h).toNat ≠ '0'.toNat :=
    fun heq => hdigit (Char.toNat_inj.mp heq)
  have hle : '0'.toNat ≤ ((significant digits).getLast h).toNat := hzero
  rw [← hsplit, value_append, value_cons]
  simp only [List.length_singleton, List.length_nil, value_nil, pow_zero, pow_one]
  omega

/-- The places of digits with a decimal exponent. -/
theorem isLeast_clearing_value {digits : List Char} (hbase : InBase 10 digits)
    (h : significant digits ≠ []) (x : ℤ) :
    IsLeast (Clearing ((value 10 digits : ℚ) * 10 ^ x))
      (-x - (digits.length - (significant digits).length : ℤ)).toNat := by
  obtain ⟨n, hn⟩ := significant_append_zeros digits
  have hlength : digits.length = (significant digits).length + n := by
    have := congrArg List.length hn
    rwa [List.length_append, List.length_replicate] at this
  have hvalue : value 10 digits = value 10 (significant digits) * 10 ^ n := by
    conv_lhs => rw [hn]
    rw [value_append, value_zeros, List.length_replicate, Nat.add_zero]
  have hproduct : (value 10 digits : ℚ) * 10 ^ x =
      (value 10 (significant digits) : ℚ) * 10 ^ (n + x) := by
    rw [hvalue, zpow_add₀ (by norm_num), zpow_natCast]
    push_cast
    ring
  have hleast := isLeast_clearing (not_dvd_value_significant hbase h) (n + x)
  have hexponent : -(n + x) = -x - (digits.length - (significant digits).length : ℤ) := by omega
  rwa [hproduct, ← hexponent]

end Digits

end Dqx.Lib
