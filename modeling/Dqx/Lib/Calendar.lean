import Mathlib.Order.Monotone.Basic
import Mathlib.Tactic.IntervalCases

/-! The proleptic Gregorian calendar. Days are counted from the first of January of the year 1, a
Monday, and months from the January of that year; both counts begin at 0. -/

namespace Dqx.Lib

/-- Whether the year `years + 1` is a leap year. -/
def leapYear (years : Nat) : Bool :=
  (years + 1) % 4 = 0 && ((years + 1) % 100 ≠ 0 || (years + 1) % 400 = 0)

/-- The days of so many years from the year 1 on. -/
def daysBeforeYear (years : Nat) : Nat :=
  years * 365 + years / 4 - years / 100 + years / 400

/-- The days of a year that come before its month `month`, counted from 0, in a common year. -/
def daysBeforeMonth : Nat → Nat
  | 0 => 0 | 1 => 31 | 2 => 59 | 3 => 90 | 4 => 120 | 5 => 151
  | 6 => 181 | 7 => 212 | 8 => 243 | 9 => 273 | 10 => 304 | 11 => 334 | _ => 365

/-- The first day of a month. -/
def monthStart (month : Nat) : Nat :=
  daysBeforeYear (month / 12) + daysBeforeMonth (month % 12) +
    if 2 ≤ month % 12 ∧ leapYear (month / 12) then 1 else 0

def monthLength (month : Nat) : Nat :=
  match month % 12 with
  | 1 => if leapYear (month / 12) then 29 else 28
  | 3 | 5 | 8 | 10 => 30
  | _ => 31

/-- A month near the one that a day lies in, from the mean length of a month. -/
def monthNear (day : Nat) : Nat :=
  day * 4800 / 146097

/-- The month that a day lies in. -/
def monthOf (day : Nat) : Nat :=
  if monthStart (monthNear day + 1) ≤ day then monthNear day + 1
  else if monthStart (monthNear day) ≤ day then monthNear day
  else monthNear day - 1

/-- The day of the month, counted from 1. -/
def dayOfMonth (day : Nat) : Nat :=
  day - monthStart (monthOf day) + 1

/-- The day of the week, counted from 0 for a Monday. -/
def weekday (day : Nat) : Nat :=
  day % 7

theorem daysBeforeYear_succ (years : Nat) :
    daysBeforeYear (years + 1) = daysBeforeYear years + 365 + if leapYear years then 1 else 0 := by
  have hquotient (n : Nat) :
      (years + 1) / n = years / n + if (years + 1) % n = 0 then 1 else 0 := by
    rw [Nat.succ_div]
    simp only [Nat.dvd_iff_mod_eq_zero]
  have hle : years / 100 ≤ years / 4 := Nat.div_le_div_left (by decide) (by decide)
  have hhundred : (years + 1) % 100 = 0 → (years + 1) % 4 = 0 := by omega
  have hcycle : (years + 1) % 400 = 0 → (years + 1) % 100 = 0 := by omega
  simp only [daysBeforeYear, leapYear, hquotient, Bool.and_eq_true, Bool.or_eq_true,
    decide_eq_true_eq]
  -- what remains is about the three quotients, whatever they are
  generalize years / 4 = fours, years / 100 = hundreds, years / 400 = cycles at hle ⊢
  by_cases h4 : (years + 1) % 4 = 0
  · by_cases h100 : (years + 1) % 100 = 0
    · by_cases h400 : (years + 1) % 400 = 0 <;> simp only [h4, h100, h400] <;> simp <;> omega
    · have h400 : (years + 1) % 400 ≠ 0 := fun h => h100 (hcycle h)
      simp [h4, h100, h400]
      omega
  · have h100 : (years + 1) % 100 ≠ 0 := fun h => h4 (hhundred h)
    have h400 : (years + 1) % 400 ≠ 0 := fun h => h100 (hcycle h)
    simp [h4, h100, h400]
    omega

theorem monthLength_ge (month : Nat) : 28 ≤ monthLength month := by
  unfold monthLength
  split <;> try omega
  split <;> omega

theorem monthLength_le (month : Nat) : monthLength month ≤ 31 := by
  unfold monthLength
  split <;> try omega
  split <;> omega

theorem monthStart_succ (month : Nat) :
    monthStart (month + 1) = monthStart month + monthLength month := by
  have hmod : month % 12 < 12 := Nat.mod_lt _ (by decide)
  by_cases hlast : month % 12 = 11
  · have hyear : (month + 1) / 12 = month / 12 + 1 := by omega
    have hmonth : (month + 1) % 12 = 0 := by omega
    simp only [monthStart, monthLength, hyear, hmonth, hlast, daysBeforeYear_succ, daysBeforeMonth]
    cases leapYear (month / 12) <;> simp
  · have hyear : (month + 1) / 12 = month / 12 := by omega
    have hmonth : (month + 1) % 12 = month % 12 + 1 := by omega
    simp only [monthStart, monthLength, hyear, hmonth]
    generalize month % 12 = k at hmod hlast
    cases leapYear (month / 12) <;> interval_cases k <;> simp_all [daysBeforeMonth]

theorem monthStart_strictMono : StrictMono monthStart := by
  apply strictMono_nat_of_lt_succ
  intro month
  have hpos := monthLength_ge month
  rw [monthStart_succ]
  omega

/-- A month begins at most a month's mean length away from where months of that length would have
it begin. -/
theorem monthStart_near (month : Nat) :
    146097 * month ≤ 4800 * monthStart month + 146097 ∧
      4800 * monthStart month ≤ 146097 * month + 146097 := by
  have hmonth : month = 12 * (month / 12) + month % 12 := by omega
  have hmod : month % 12 < 12 := Nat.mod_lt _ (by decide)
  simp only [monthStart, daysBeforeYear]
  generalize month / 12 = years at hmonth
  generalize month % 12 = k at hmonth hmod
  have hle : years / 100 ≤ years / 4 := by omega
  subst hmonth
  split <;> interval_cases k <;> simp only [daysBeforeMonth] <;> omega

theorem monthOf_spec (day : Nat) :
    monthStart (monthOf day) ≤ day ∧ day < monthStart (monthOf day + 1) := by
  have hnear : monthNear day * 146097 ≤ day * 4800 ∧ day * 4800 < (monthNear day + 1) * 146097 := by
    unfold monthNear
    omega
  unfold monthOf
  split
  · next h =>
    have hafter := (monthStart_near (monthNear day + 1 + 1)).1
    exact ⟨h, by omega⟩
  · next h =>
    split
    · next hle => exact ⟨hle, by omega⟩
    · next hlt =>
      have hpos : monthNear day ≠ 0 := by
        intro hzero
        rw [hzero] at hlt
        exact hlt (Nat.zero_le _)
      have hbefore := (monthStart_near (monthNear day - 1)).2
      rw [Nat.sub_add_cancel (by omega)]
      omega

theorem monthOf_eq_of_lt {month day : Nat} (hstart : monthStart month ≤ day)
    (hend : day < monthStart (month + 1)) : monthOf day = month := by
  obtain ⟨hle, hlt⟩ := monthOf_spec day
  have hbelow : monthOf day < month + 1 := monthStart_strictMono.lt_iff_lt.mp (by omega)
  have habove : month < monthOf day + 1 := monthStart_strictMono.lt_iff_lt.mp (by omega)
  omega

/-- The days from one on to the end of its month lie in the same month. -/
theorem monthOf_eq_of_le {day later : Nat} (hle : day ≤ later)
    (hlt : later < monthStart (monthOf day + 1)) : monthOf later = monthOf day :=
  monthOf_eq_of_lt (Nat.le_trans (monthOf_spec day).1 hle) hlt

theorem monthOf_mono : Monotone monthOf := by
  intro day later hle
  have hstart := (monthOf_spec day).1
  have hend := (monthOf_spec later).2
  have hlt : monthOf day < monthOf later + 1 :=
    monthStart_strictMono.lt_iff_lt.mp (by omega)
  omega

theorem dayOfMonth_le (day : Nat) : dayOfMonth day ≤ monthLength (monthOf day) := by
  obtain ⟨hle, hlt⟩ := monthOf_spec day
  rw [monthStart_succ] at hlt
  unfold dayOfMonth
  omega

end Dqx.Lib
