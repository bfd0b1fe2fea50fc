import Mathlib.Algebra.Order.Ring.Nat
import Mathlib.Tactic.Ring

/-! Numbers written as digits of one base, the most significant first. -/

namespace Dqx.Lib.Digits

variable {b : Nat} {x y : List Char}

def value (b : Nat) (digits : List Char) : Nat := Nat.ofDigitChars b digits 0

/-- Every character is a digit of the base. -/
def InBase (b : Nat) (digits : List Char) : Prop :=
  ∀ c ∈ digits, '0' ≤ c ∧ c.toNat - '0'.toNat < b

@[simp] theorem value_nil : value b [] = 0 := Nat.ofDigitChars_nil

@[simp] theorem inBase_nil : InBase b [] := nofun

@[simp] theorem inBase_cons {c : Char} :
    InBase b (c :: x) ↔ ('0' ≤ c ∧ c.toNat - '0'.toNat < b) ∧ InBase b x :=
  List.forall_mem_cons

@[simp] theorem inBase_append : InBase b (x ++ y) ↔ InBase b x ∧ InBase b y :=
  List.forall_mem_append

theorem InBase.sublist (h : InBase b y) (hsub : x.Sublist y) : InBase b x :=
  fun c hc => h c (hsub.subset hc)

theorem ofDigitChars_eq (init : Nat) :
    Nat.ofDigitChars b x init = init * b ^ x.length + value b x := by
  unfold value
  induction x generalizing init with
  | nil => simp
  | cons c x ih =>
    rw [Nat.ofDigitChars_cons, Nat.ofDigitChars_cons, ih, ih (b * 0 + _), List.length_cons]
    ring

theorem value_append : value b (x ++ y) = value b x * b ^ y.length + value b y := by
  rw [value, Nat.ofDigitChars_append, ofDigitChars_eq, ← value]

theorem value_cons (c : Char) :
    value b (c :: x) = (c.toNat - '0'.toNat) * b ^ x.length + value b x := by
  rw [value, Nat.ofDigitChars_cons, ofDigitChars_eq, Nat.mul_zero, Nat.zero_add]

@[simp] theorem value_zeros (n : Nat) : value b (List.replicate n '0') = 0 := by
  simp [value]

@[simp] theorem value_zeros_append (n : Nat) : value b (List.replicate n '0' ++ x) = value b x := by
  simp [value_append]

theorem value_lt (h : InBase b x) : value b x < b ^ x.length := by
  induction x with
  | nil => simp
  | cons c x ih =>
    obtain ⟨⟨-, hc⟩, hx⟩ := inBase_cons.mp h
    rw [value_cons, List.length_cons, Nat.pow_succ]
    calc (c.toNat - '0'.toNat) * b ^ x.length + value b x
        < (c.toNat - '0'.toNat) * b ^ x.length + b ^ x.length := by
          have := ih hx
          omega
      _ = (c.toNat - '0'.toNat + 1) * b ^ x.length := by ring
      _ ≤ b * b ^ x.length := Nat.mul_le_mul_right _ hc
      _ = b ^ x.length * b := Nat.mul_comm ..

/-- The value of the leading digits. -/
theorem value_append_div (hb : 0 < b) (h : InBase b y) :
    value b (x ++ y) / b ^ y.length = value b x := by
  rw [value_append, Nat.mul_comm, Nat.mul_add_div (Nat.pow_pos hb),
    Nat.div_eq_of_lt (value_lt h), Nat.add_zero]

theorem value_take (hb : 0 < b) (h : InBase b x) (n : Nat) :
    value b (x.take n) = value b x / b ^ (x.length - n) := by
  have hdrop := value_append_div (x := x.take n) hb (h.sublist (List.drop_sublist n x))
  rw [List.take_append_drop, List.length_drop] at hdrop
  exact hdrop.symm

/-- Digit sequences of one length are told apart by their values. -/
theorem eq_of_value_eq (hx : InBase b x) (hy : InBase b y) (hlength : x.length = y.length)
    (hvalue : value b x = value b y) : x = y := by
  induction x generalizing y with
  | nil => exact (List.length_eq_zero_iff.mp hlength.symm).symm
  | cons c x ih =>
    obtain ⟨d, y, rfl⟩ := List.exists_cons_of_length_eq_add_one hlength.symm
    obtain ⟨⟨hc, hcb⟩, hx⟩ := inBase_cons.mp hx
    obtain ⟨⟨hd, hdb⟩, hy⟩ := inBase_cons.mp hy
    have hlength : x.length = y.length := Nat.succ.inj hlength
    rw [value_cons, value_cons, hlength] at hvalue
    have hxlt := hlength ▸ value_lt hx
    have hylt := value_lt hy
    have hpos : 0 < b ^ y.length := Nat.zero_lt_of_lt hylt
    have hdigit : c.toNat - '0'.toNat = d.toNat - '0'.toNat := by
      have hdiv := congrArg (· / b ^ y.length) hvalue
      simp only [Nat.mul_comm _ (b ^ y.length), Nat.mul_add_div hpos, Nat.div_eq_of_lt hxlt,
        Nat.div_eq_of_lt hylt] at hdiv
      exact hdiv
    have hchar : c = d := by
      have hc' : '0'.toNat ≤ c.toNat := hc
      have hd' : '0'.toNat ≤ d.toNat := hd
      exact Char.toNat_inj.mp (by omega)
    rw [hdigit] at hvalue
    rw [hchar, ih hx hy hlength (Nat.add_left_cancel hvalue)]

theorem inBase_zeros (hb : 0 < b) (n : Nat) : InBase b (List.replicate n '0') := by
  intro c hc
  obtain rfl := List.eq_of_mem_replicate hc
  exact ⟨by decide, by simpa using hb⟩

/-! ### Numerals -/

theorem value_toDigits (hb : 1 < b) (hten : b ≤ 10) (n : Nat) : value b (Nat.toDigits b n) = n :=
  Nat.ofDigitChars_toDigits hb hten

theorem inBase_toDigits (hb : 1 < b) (hten : b ≤ 10) (n : Nat) : InBase b (Nat.toDigits b n) := by
  have hdigit : ∀ k < 10, '0' ≤ Nat.digitChar k ∧ (Nat.digitChar k).toNat - '0'.toNat = k := by
    decide
  have hsingle : ∀ k < b, InBase b [Nat.digitChar k] := by
    intro k hk
    obtain ⟨hle, hvalue⟩ := hdigit k (by omega)
    exact inBase_cons.mpr ⟨⟨hle, by omega⟩, inBase_nil⟩
  induction n using Nat.strong_induction_on with
  | _ n ih =>
    rw [Nat.toDigits_eq_if hb]
    split
    · next h => exact hsingle n h
    · next h =>
      have hpos : 0 < n := by omega
      refine inBase_append.mpr ⟨ih _ (Nat.div_lt_self hpos hb), hsingle _ (Nat.mod_lt _ (by omega))⟩

end Dqx.Lib.Digits
