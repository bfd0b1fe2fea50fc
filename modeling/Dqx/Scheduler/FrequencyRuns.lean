import Dqx.Lib.Cadence
import Dqx.Scheduler.Frequency

/-! The runs that a scope schedule comes to, one after the other: the instants that its frequency
names, in order. -/

namespace Dqx.Scheduler

open Lib

/-- The instants that `_compute_next_run` gives when it is called on its own results. -/
def nthRun (cfg : ScopeConfig) (after : Nat) : Nat → Option Nat
  | 0 => computeNextRun cfg after
  | n + 1 => (nthRun cfg after n).bind (computeNextRun cfg)

namespace ScopeConfig

/-- The fields of a config of one of the four frequencies. -/
structure InRange (cfg : ScopeConfig) : Prop where
  frequency : cfg.frequency ∈ [.hourly, .daily, .weekly, .monthly]
  hour : 0 ≤ cfg.hour ∧ cfg.hour < 24
  minute : 0 ≤ cfg.minute ∧ cfg.minute < 60
  dayOfWeek : 0 ≤ cfg.dayOfWeek ∧ cfg.dayOfWeek ≤ 6
  dayOfMonth : 1 ≤ cfg.dayOfMonth ∧ cfg.dayOfMonth ≤ 31

/-- Whether an instant is at the hour and the minute of a config. -/
def AtClock (cfg : ScopeConfig) (t : Nat) : Prop :=
  (t % day : Int) = cfg.hour * Scheduler.hour + cfg.minute * Scheduler.minute

/-- Whether an instant matches the frequency. -/
def Matches (cfg : ScopeConfig) (t : Nat) : Prop :=
  match cfg.frequency with
  | .hourly => (t % Scheduler.hour : Int) = cfg.minute * Scheduler.minute
  | .daily => cfg.AtClock t
  | .weekly => cfg.AtClock t ∧ (weekday (t / day) : Int) = cfg.dayOfWeek
  | .monthly => cfg.AtClock t ∧
    (Lib.dayOfMonth (t / day) : Int) = min cfg.dayOfMonth (monthLength (monthOf (t / day)))
  | .manual | .other => False

/-- The hour, the day, the week or the month of an instant, by its number. -/
def period (cfg : ScopeConfig) (t : Nat) : Nat :=
  match cfg.frequency with
  | .hourly => t / Scheduler.hour
  | .daily => t / day
  | .weekly => t / (7 * day)
  | .monthly => monthOf (t / day)
  | .manual | .other => t

/-- A cadence of the instants that a config names, which `_compute_next_run` steps through. -/
structure Keeps (cfg : ScopeConfig) (cadence : Cadence) : Prop where
  occurs : ∀ t, cadence.Occurs t ↔ cfg.Matches t
  period : ∀ t, cadence.period t = cfg.period t
  candidate : ∀ after, cfg.candidate after = some (cadence.next after)

variable {cfg : ScopeConfig}

/-- The time of the day of a config in range. -/
def clock (cfg : ScopeConfig) : Nat :=
  cfg.hour.toNat * Scheduler.hour + cfg.minute.toNat * Scheduler.minute

/-- The instant of a month. -/
def monthly (cfg : ScopeConfig) (month : Nat) : Nat :=
  (monthStart month + (min cfg.dayOfMonth.toNat (monthLength month) - 1)) * day + cfg.clock

namespace InRange

theorem pastHour (h : cfg.InRange) :
    cfg.pastHour = some (cfg.minute.toNat * Scheduler.minute) :=
  if_pos h.minute

theorem timeOfDay (h : cfg.InRange) : cfg.timeOfDay = some cfg.clock := by
  rw [ScopeConfig.timeOfDay, if_pos h.hour, h.pastHour, Option.map_some, clock]

theorem past_lt (h : cfg.InRange) : cfg.minute.toNat * Scheduler.minute < Scheduler.hour :=
  pastHour_lt h.pastHour

theorem clock_lt (h : cfg.InRange) : cfg.clock < day :=
  timeOfDay_lt h.timeOfDay

theorem atClock_iff (h : cfg.InRange) (t : Nat) : cfg.AtClock t ↔ t % day = cfg.clock := by
  have hhour := h.hour
  have hminute := h.minute
  simp only [AtClock, clock, Scheduler.hour, Scheduler.minute, second]
  omega

/-- The instant that `nextAt` gives is the next one of an even cadence. -/
theorem next_uniform {length offset : Nat} (hoffset : offset < length) (after : Nat) :
    (Cadence.uniform length offset hoffset).next after = nextAt length offset after := by
  have hnext := Nat.add_one_mul (after / length) length
  dsimp only [Cadence.next, Cadence.uniform, nextAt]
  split
  · omega
  · rfl

theorem keeps_hourly (h : cfg.InRange) (hfrequency : cfg.frequency = .hourly) :
    cfg.Keeps (.uniform Scheduler.hour _ h.past_lt) where
  occurs t := by
    have hminute := h.minute
    rw [Cadence.occurs_uniform, Matches, hfrequency]
    simp only [Scheduler.minute, second]
    omega
  period t := by rw [ScopeConfig.period, hfrequency]; rfl
  candidate after := by
    rw [candidate, hfrequency, h.pastHour, next_uniform]
    rfl

theorem keeps_daily (h : cfg.InRange) (hfrequency : cfg.frequency = .daily) :
    cfg.Keeps (.uniform day _ h.clock_lt) where
  occurs t := by
    rw [Cadence.occurs_uniform, Matches, hfrequency]
    exact (h.atClock_iff t).symm
  period t := by rw [ScopeConfig.period, hfrequency]; rfl
  candidate after := by
    rw [candidate, hfrequency, h.timeOfDay, next_uniform]
    rfl

theorem week_lt (h : cfg.InRange) : cfg.dayOfWeek.toNat * day + cfg.clock < 7 * day := by
  have hweekday := h.dayOfWeek
  have hclock := h.clock_lt
  have hle := Nat.mul_le_mul_right day (show cfg.dayOfWeek.toNat ≤ 6 by omega)
  omega

theorem keeps_weekly (h : cfg.InRange) (hfrequency : cfg.frequency = .weekly) :
    cfg.Keeps (.uniform (7 * day) _ h.week_lt) where
  occurs t := by
    have hweekday := h.dayOfWeek
    have hclock := h.clock_lt
    have hday : day = 86400000000 := rfl
    rw [Cadence.occurs_uniform, Matches, hfrequency]
    dsimp only
    rw [h.atClock_iff]
    simp only [weekday, hday] at hclock ⊢
    omega
  period t := by rw [ScopeConfig.period, hfrequency]; rfl
  candidate after := by
    have hweekday := h.dayOfWeek
    have hclock := h.clock_lt
    have hday : day = 86400000000 := rfl
    rw [candidate, hfrequency]
    dsimp only
    rw [h.timeOfDay, Option.bind_eq_bind, Option.bind_some, Cadence.next]
    dsimp only [Cadence.uniform]
    simp only [weekday, hday] at hclock ⊢
    congr 1
    -- this week's instant is behind if its day is, or if it is today's and its time is
    split <;> split <;> omega

theorem monthlyAt (h : cfg.InRange) (month : Nat) :
    cfg.monthlyAt month cfg.clock = some (cfg.monthly month) := by
  have hdom := h.dayOfMonth
  have hlength := monthLength_ge month
  have hclamp : cfg.clampDay month = (min cfg.dayOfMonth.toNat (monthLength month) : Nat) := by
    rw [clampDay, if_neg (by omega)]
    omega
  rw [ScopeConfig.monthlyAt, if_pos (by omega), hclamp, Int.toNat_natCast, monthly,
    Nat.add_sub_assoc (by omega)]

theorem monthly_spec (h : cfg.InRange) {month t : Nat} : cfg.monthly month = t ↔
    t % day = cfg.clock ∧ monthOf (t / day) = month ∧
      (Lib.dayOfMonth (t / day) : Int) = min cfg.dayOfMonth (monthLength month) := by
  have hspec := @monthlyAt_eq_some cfg month cfg.clock t h.clock_lt
  have hdom := h.dayOfMonth
  rw [h.monthlyAt, Option.some.injEq, clampDay, if_neg (by omega)] at hspec
  exact hspec

/-- The days of the months that a config names, at its time. -/
def months (h : cfg.InRange) : Cadence where
  period t := monthOf (t / day)
  instant := cfg.monthly
  period_mono _ _ hle := monthOf_mono (Nat.div_le_div_right hle)
  period_instant _ := (h.monthly_spec.mp rfl).2.1

theorem keeps_monthly (h : cfg.InRange) (hfrequency : cfg.frequency = .monthly) :
    cfg.Keeps h.months where
  occurs t := by
    rw [Matches, hfrequency]
    dsimp only
    rw [h.atClock_iff]
    exact h.monthly_spec.trans (by simp [months])
  period t := by rw [ScopeConfig.period, hfrequency]; rfl
  candidate after := by
    rw [candidate, hfrequency]
    dsimp only
    rw [h.timeOfDay, Option.bind_eq_bind, Option.bind_some, h.monthlyAt, Option.bind_some,
      h.monthlyAt]
    exact (apply_ite some (cfg.monthly (monthOf (after / day)) ≤ after) _ _).symm

/-- A config in range keeps a cadence. -/
theorem exists_keeps (h : cfg.InRange) : ∃ cadence, cfg.Keeps cadence := by
  have hfrequency : cfg.frequency = .hourly ∨ cfg.frequency = .daily ∨ cfg.frequency = .weekly ∨
      cfg.frequency = .monthly := by
    simpa using h.frequency
  rcases hfrequency with hourly | daily | weekly | monthly
  · exact ⟨_, h.keeps_hourly hourly⟩
  · exact ⟨_, h.keeps_daily daily⟩
  · exact ⟨_, h.keeps_weekly weekly⟩
  · exact ⟨_, h.keeps_monthly monthly⟩

end InRange

namespace Keeps

variable {cadence : Cadence} (keeps : cfg.Keeps cadence) {after t : Nat}

include keeps

theorem computeNextRun_eq_some :
    computeNextRun cfg after = some t ↔ cadence.next after = t ∧ t < endOfTime := by
  rw [computeNextRun, keeps.candidate]
  simp only [Option.filter_eq_some_iff, Option.some.injEq, decide_eq_true_eq]

theorem nthRun_eq_some (n : Nat) :
    nthRun cfg after n = some t ↔ cadence.run after n = t ∧ t < endOfTime := by
  induction n generalizing t with
  | zero => exact keeps.computeNextRun_eq_some
  | succ n ih =>
    simp only [nthRun, Option.bind_eq_some_iff, ih, keeps.computeNextRun_eq_some, Cadence.run]
    constructor
    · rintro ⟨_, ⟨rfl, -⟩, hnext, hend⟩
      exact ⟨hnext, hend⟩
    · rintro ⟨hnext, hend⟩
      -- a run before one in time is in time
      have hlt := cadence.lt_next (cadence.run after n)
      exact ⟨_, ⟨rfl, by omega⟩, hnext, hend⟩

theorem isLeast_next_iff : IsLeast {s | after < s ∧ cfg.Matches s} t ↔ cadence.next after = t := by
  have hset : {s | after < s ∧ cfg.Matches s} = {s | after < s ∧ cadence.Occurs s} :=
    Set.ext fun s => and_congr_right fun _ => (keeps.occurs s).symm
  rw [hset]
  exact ⟨fun h => (cadence.isLeast_next after).unique h, fun h => h ▸ cadence.isLeast_next after⟩

end Keeps

end ScopeConfig

/-- The next run is the least matching instant behind, unless it comes after the year 9999, and the
runs from an instant on are the matching instants behind it: one in each period, from the current one
or the one behind it on. -/
theorem computeNextRun_enumerates (cfg : ScopeConfig) (inRange : cfg.InRange) (after : Nat) :
    (∀ t, computeNextRun cfg after = some t ↔
      IsLeast {s | after < s ∧ cfg.Matches s} t ∧ t < ScopeConfig.endOfTime) ∧
    (∀ k, ∃! t, cfg.period t = k ∧ cfg.Matches t) ∧
    ∃ first, (first = cfg.period after ∨ first = cfg.period after + 1) ∧
      (∀ t, after < t → cfg.Matches t → first ≤ cfg.period t) ∧
      ∀ n t, nthRun cfg after n = some t ↔
        cfg.Matches t ∧ cfg.period t = first + n ∧ t < ScopeConfig.endOfTime := by
  obtain ⟨cadence, keeps⟩ := inRange.exists_keeps
  refine ⟨fun t => ?_, fun k => ?_, cadence.period (cadence.next after), ?_,
    fun t hafter hmatches => ?_, fun n t => ?_⟩
  · rw [keeps.computeNextRun_eq_some, keeps.isLeast_next_iff]
  · simpa only [← keeps.period, ← keeps.occurs] using cadence.existsUnique_occurs k
  · rw [← keeps.period]
    exact cadence.period_next after
  · rw [← keeps.period]
    exact cadence.period_next_le hafter ((keeps.occurs t).mpr hmatches)
  · rw [keeps.nthRun_eq_some, cadence.run_eq_iff, keeps.occurs, keeps.period, and_assoc]

/-- A run on the last day of each month. -/
def monthEnd : ScopeConfig := ⟨.monthly, 2, 30, 0, 31, false⟩

theorem inRange_monthEnd : monthEnd.InRange where
  frequency := by decide
  hour := by decide
  minute := by decide
  dayOfWeek := by decide
  dayOfMonth := by decide

theorem computeNextRun_enumerates_monthEnd :
    monthEnd.InRange ∧ ∃! t, monthEnd.period t = 1 ∧ monthEnd.Matches t :=
  ⟨inRange_monthEnd, (computeNextRun_enumerates monthEnd inRange_monthEnd 0).2.1 1⟩

/-- A run at each full hour. -/
def onTheHour : ScopeConfig := ⟨.hourly, 0, 0, 0, 1, false⟩

theorem inRange_onTheHour : onTheHour.InRange where
  frequency := by decide
  hour := by decide
  minute := by decide
  dayOfWeek := by decide
  dayOfMonth := by decide

/-- The last hour that a `datetime` can have is followed by no run. -/
theorem onTheHour_ends_with_year_9999 :
    onTheHour.InRange ∧ ScopeConfig.endOfTime - 1 < ScopeConfig.endOfTime ∧
      (∃ t, IsLeast {s | ScopeConfig.endOfTime - 1 < s ∧ onTheHour.Matches s} t) ∧
      computeNextRun onTheHour (ScopeConfig.endOfTime - 1) = none := by
  have keeps := inRange_onTheHour.keeps_hourly rfl
  exact ⟨inRange_onTheHour, by decide, ⟨_, keeps.isLeast_next_iff.mpr rfl⟩, by decide⟩

end Dqx.Scheduler
