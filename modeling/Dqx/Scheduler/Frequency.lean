import Dqx.Scheduler.Cron

/-! The next run of a scope schedule, from the frequency in its config. -/

namespace Dqx.Scheduler

open Lib

inductive Frequency where
  | manual | hourly | daily | weekly | monthly
  /-- Any other text. -/
  | other
  deriving DecidableEq

structure ScopeConfig where
  frequency : Frequency
  hour : Int
  minute : Int
  dayOfWeek : Int
  dayOfMonth : Int
  paused : Bool

/-- The instant at an offset in the period that `after` lies in, or else in the one behind it. -/
def nextAt (period offset after : Nat) : Nat :=
  let first := after / period * period + offset
  if first ≤ after then first + period else first

namespace ScopeConfig

/-- The minute of the hour, if a `datetime` can have it. -/
def pastHour (cfg : ScopeConfig) : Option Nat :=
  if 0 ≤ cfg.minute ∧ cfg.minute < 60 then some (cfg.minute.toNat * Scheduler.minute) else none

/-- The time of the day, if a `datetime` can have it. -/
def timeOfDay (cfg : ScopeConfig) : Option Nat :=
  if 0 ≤ cfg.hour ∧ cfg.hour < 24 then
    cfg.pastHour.map (cfg.hour.toNat * Scheduler.hour + ·)
  else none

/-- The configured day of a month, clamped to its length; a missing day or 0 is the first. -/
def clampDay (cfg : ScopeConfig) (month : Nat) : Int :=
  min (if cfg.dayOfMonth = 0 then 1 else cfg.dayOfMonth) (monthLength month)

/-- The instant at a time of the configured day of a month, if there is such a day. -/
def monthlyAt (cfg : ScopeConfig) (month time : Nat) : Option Nat :=
  if 1 ≤ cfg.clampDay month then
    some ((monthStart month + (cfg.clampDay month).toNat - 1) * day + time)
  else none

/-- The end of the year 9999. -/
def endOfTime : Nat := daysBeforeYear 9999 * day

/-- An instant that the frequency names. -/
def Occurs (cfg : ScopeConfig) (t : Nat) : Prop :=
  t < endOfTime ∧
    match cfg.frequency with
    | .hourly => cfg.pastHour = some (t % Scheduler.hour)
    | .daily => cfg.timeOfDay = some (t % day)
    | .weekly => cfg.timeOfDay = some (t % day) ∧ (weekday (t / day) : Int) = cfg.dayOfWeek % 7
    | .monthly =>
      cfg.timeOfDay = some (t % day) ∧ (Lib.dayOfMonth (t / day) : Int) = cfg.clampDay (monthOf (t / day))
    | .manual | .other => False

/-- The candidates of `_compute_next_run`, before a `datetime` overflows. -/
def candidate (cfg : ScopeConfig) (after : Nat) : Option Nat :=
  match cfg.frequency with
  | .hourly => cfg.pastHour.map (nextAt Scheduler.hour · after)
  | .daily => cfg.timeOfDay.map (nextAt day · after)
  | .weekly => do
    let time ← cfg.timeOfDay
    let first := after / day * day + time
    let ahead := ((cfg.dayOfWeek - weekday (after / day)) % 7).toNat
    return if ahead = 0 ∧ first ≤ after then first + 7 * day else first + ahead * day
  | .monthly => do
    let time ← cfg.timeOfDay
    let month := monthOf (after / day)
    let first ← cfg.monthlyAt month time
    if first ≤ after then cfg.monthlyAt (month + 1) time else some first
  | .manual | .other => some (after + Scheduler.hour)

end ScopeConfig

/-- The next run behind an instant; there is none if computing it raises an error. -/
def computeNextRun (cfg : ScopeConfig) (after : Nat) : Option Nat :=
  (cfg.candidate after).filter (· < ScopeConfig.endOfTime)

theorem lt_nextAt {period offset after : Nat} (hoffset : offset < period) :
    after < nextAt period offset after := by
  have hdiv := Nat.div_add_mod' after period
  have hmod := Nat.mod_lt after (show 0 < period by omega)
  dsimp only [nextAt]
  split <;> omega

theorem nextAt_le {period offset after t : Nat} (hoffset : t % period = offset) (hafter : after < t) :
    nextAt period offset after ≤ t := by
  have hdiv := Nat.div_add_mod' after period
  have hdivt := Nat.div_add_mod' t period
  have hle : after / period * period ≤ t / period * period :=
    Nat.mul_le_mul_right _ (Nat.div_le_div_right (Nat.le_of_lt hafter))
  dsimp only [nextAt]
  split
  · next hfirst =>
    have hlt : after / period < t / period := by
      by_contra hge
      have hle := Nat.mul_le_mul_right period (Nat.le_of_not_lt hge)
      omega
    have hnext := Nat.mul_le_mul_right period (Nat.succ_le_of_lt hlt)
    rw [Nat.succ_mul] at hnext
    omega
  · omega

namespace ScopeConfig

variable {cfg : ScopeConfig} {after found : Nat}

theorem pastHour_lt {past : Nat} (h : cfg.pastHour = some past) : past < Scheduler.hour := by
  unfold pastHour at h
  split at h
  · obtain rfl := Option.some.inj h
    simp only [Scheduler.hour, Scheduler.minute, second]
    omega
  · cases h

theorem timeOfDay_lt {time : Nat} (h : cfg.timeOfDay = some time) : time < day := by
  unfold timeOfDay at h
  split at h
  · obtain ⟨past, hpast, rfl⟩ := Option.map_eq_some_iff.mp h
    have hlt := pastHour_lt hpast
    simp only [day, Scheduler.hour, Scheduler.minute, second] at hlt ⊢
    omega
  · cases h

/-- The instant that a month's candidate is. -/
theorem monthlyAt_eq_some {month time t : Nat} (htime : time < day) :
    cfg.monthlyAt month time = some t ↔
      t % day = time ∧ monthOf (t / day) = month ∧
        (Lib.dayOfMonth (t / day) : Int) = cfg.clampDay month := by
  have hlength : cfg.clampDay month ≤ monthLength month := min_le_right _ _
  have hsucc := monthStart_succ month
  constructor
  · intro h
    unfold monthlyAt at h
    split at h
    case isFalse => cases h
    next hpos =>
    obtain rfl := Option.some.inj h
    have hdiv : ((monthStart month + (cfg.clampDay month).toNat - 1) * day + time) / day =
        monthStart month + (cfg.clampDay month).toNat - 1 := by
      rw [Nat.mul_comm, Nat.mul_add_div (by decide), Nat.div_eq_of_lt htime, Nat.add_zero]
    have hmonth : monthOf (monthStart month + (cfg.clampDay month).toNat - 1) = month :=
      monthOf_eq_of_lt (by omega) (by omega)
    rw [hdiv]
    refine ⟨?_, hmonth, ?_⟩
    · rw [Nat.mul_comm, Nat.mul_add_mod, Nat.mod_eq_of_lt htime]
    · rw [Lib.dayOfMonth, hmonth]
      omega
  · rintro ⟨hmod, rfl, hclamp⟩
    have hstart := (monthOf_spec (t / day)).1
    have hday : monthStart (monthOf (t / day)) +
        (cfg.clampDay (monthOf (t / day))).toNat - 1 = t / day := by
      rw [← hclamp, Lib.dayOfMonth]
      omega
    rw [monthlyAt, if_pos (by rw [← hclamp, Lib.dayOfMonth]; omega), hday, ← hmod, Nat.mul_comm,
      Nat.div_add_mod]

theorem isSome_monthlyAt {month other time : Nat} (h : (cfg.monthlyAt month time).isSome) :
    (cfg.monthlyAt other time).isSome := by
  unfold monthlyAt at h ⊢
  split at h
  · next hpos =>
    have hother := monthLength_ge other
    have hle := min_le_left (if cfg.dayOfMonth = 0 then 1 else cfg.dayOfMonth) (monthLength month : Int)
    rw [if_pos]
    · rfl
    · unfold clampDay at hpos ⊢
      omega
  · cases h

theorem lt_of_monthOf_lt {a b : Nat} (h : monthOf (a / day) < monthOf (b / day)) : a < b := by
  by_contra hle
  have := monthOf_mono (Nat.div_le_div_right (c := day) (Nat.le_of_not_lt hle))
  omega

theorem lt_candidate (h : cfg.candidate after = some found) : after < found := by
  unfold candidate at h
  split at h
  · obtain ⟨past, hpast, rfl⟩ := Option.map_eq_some_iff.mp h
    exact lt_nextAt (pastHour_lt hpast)
  · obtain ⟨time, htime, rfl⟩ := Option.map_eq_some_iff.mp h
    exact lt_nextAt (timeOfDay_lt htime)
  · obtain ⟨time, htime, h⟩ := Option.bind_eq_some_iff.mp h
    obtain rfl := Option.some.inj h
    have hlt := timeOfDay_lt htime
    have hmod := Nat.mod_lt after (show 0 < day by decide)
    have hdiv := Nat.div_add_mod' after day
    generalize after / day * day = start at hdiv ⊢
    split
    · omega
    · next hsame =>
      by_cases hzero : ((cfg.dayOfWeek - weekday (after / day)) % 7).toNat = 0
      · omega
      · have := Nat.le_mul_of_pos_left day (Nat.pos_of_ne_zero hzero)
        omega
  · obtain ⟨time, htime, h⟩ := Option.bind_eq_some_iff.mp h
    obtain ⟨first, hfirst, h⟩ := Option.bind_eq_some_iff.mp h
    split at h
    · obtain ⟨-, hmonth, -⟩ := (monthlyAt_eq_some (timeOfDay_lt htime)).mp h
      exact lt_of_monthOf_lt (by omega)
    · obtain rfl := Option.some.inj h
      omega
  all_goals
    obtain rfl := Option.some.inj h
    exact Nat.lt_add_of_pos_right (by decide)

/-- No candidate passes over an occurrence. -/
theorem candidate_le {t : Nat} (hoccurs : cfg.Occurs t) (hafter : after < t) :
    ∃ found ≤ t, cfg.candidate after = some found := by
  obtain ⟨-, hoccurs⟩ := hoccurs
  unfold candidate
  split at hoccurs
  · exact ⟨_, nextAt_le rfl hafter, by rw [hoccurs]; rfl⟩
  · exact ⟨_, nextAt_le rfl hafter, by rw [hoccurs]; rfl⟩
  · refine ⟨_, ?_, by rw [hoccurs.1]; rfl⟩
    have hweekday := hoccurs.2
    have hday : day = 86400000000 := rfl
    by_cases hpast : ((cfg.dayOfWeek - weekday (after / day)) % 7).toNat = 0 ∧
        after / day * day + t % day ≤ after
    · rw [if_pos hpast]
      simp only [weekday, hday] at hweekday hpast ⊢
      omega
    · rw [if_neg hpast]
      simp only [weekday, hday] at hweekday hpast ⊢
      omega
  · obtain ⟨htime, hday⟩ := hoccurs
    have hlt := timeOfDay_lt htime
    have ht : cfg.monthlyAt (monthOf (t / day)) (t % day) = some t :=
      (monthlyAt_eq_some hlt).mpr ⟨rfl, rfl, hday⟩
    have hsome : ∀ month, ∃ found, cfg.monthlyAt month (t % day) = some found := fun month =>
      Option.isSome_iff_exists.mp (isSome_monthlyAt (by rw [ht]; rfl))
    -- the candidate of a month is `t` in its month, and before `t` in the months before
    have hle : ∀ month found, month ≤ monthOf (t / day) →
        cfg.monthlyAt month (t % day) = some found → found ≤ t := by
      intro month found hmonth hfound
      by_cases hsame : month = monthOf (t / day)
      · rw [hsame, ht] at hfound
        exact Nat.le_of_eq (Option.some.inj hfound).symm
      · obtain ⟨-, hof, -⟩ := (monthlyAt_eq_some hlt).mp hfound
        exact Nat.le_of_lt (lt_of_monthOf_lt (by omega))
    have hmonth : monthOf (after / day) ≤ monthOf (t / day) :=
      monthOf_mono (Nat.div_le_div_right (Nat.le_of_lt hafter))
    obtain ⟨first, hfirst⟩ := hsome (monthOf (after / day))
    obtain ⟨second, hsecond⟩ := hsome (monthOf (after / day) + 1)
    by_cases hpast : first ≤ after
    · have hlater : monthOf (after / day) ≠ monthOf (t / day) := by
        intro hsame
        rw [hsame, ht] at hfirst
        obtain rfl := Option.some.inj hfirst
        omega
      refine ⟨second, hle _ _ (by omega) hsecond, ?_⟩
      rw [htime, Option.bind_eq_bind, Option.bind_some]
      simp only [hfirst, hsecond, Option.bind_some, if_pos hpast]
    · refine ⟨first, hle _ _ hmonth hfirst, ?_⟩
      rw [htime, Option.bind_eq_bind, Option.bind_some]
      simp only [hfirst, Option.bind_some, if_neg hpast]
  all_goals cases hoccurs

end ScopeConfig

theorem lt_computeNextRun {cfg : ScopeConfig} {after found : Nat}
    (h : computeNextRun cfg after = some found) : after < found :=
  ScopeConfig.lt_candidate (Option.filter_eq_some_iff.mp h).1

/-- The next run passes over no occurrence. -/
theorem computeNextRun_le {cfg : ScopeConfig} {after t : Nat} (hoccurs : cfg.Occurs t)
    (hafter : after < t) : ∃ found ≤ t, computeNextRun cfg after = some found := by
  obtain ⟨found, hle, hcandidate⟩ := ScopeConfig.candidate_le hoccurs hafter
  refine ⟨found, hle, Option.filter_eq_some_iff.mpr ⟨hcandidate, ?_⟩⟩
  have := hoccurs.1
  rw [decide_eq_true_eq]
  omega

end Dqx.Scheduler
