import Dqx.Lib.Calendar
import Dqx.Lib.Schedule

/-! The next occurrence of a cron expression in UTC: a search that skips whole months, days and hours
whose fields do not match. Instants are counted in microseconds from the beginning of the year 1. -/

namespace Dqx.Scheduler

open Lib

def second : Nat := 1000000

def minute : Nat := 60 * second

def hour : Nat := 60 * minute

def day : Nat := 24 * hour

/-- The last minute of the year 9999, behind which there is no `datetime`. -/
def lastMinute : Nat := daysBeforeYear 9999 * 1440 - 1

def cronMaxSteps : Nat := 100000

/-- The values that the fields of a cron expression match, with the fields written `*` that the rule
for days tells apart. -/
structure Cron where
  minutes : List Nat
  hours : List Nat
  doms : List Nat
  months : List Nat
  dows : List Nat
  domWild : Bool
  dowWild : Bool
  deriving DecidableEq

namespace Cron

/-- A day matches either field when both are restricted. -/
def dayOk (cron : Cron) (day : Nat) : Bool :=
  let dowOk := cron.dows.contains ((weekday day + 1) % 7)
  let domOk := cron.doms.contains (dayOfMonth day)
  if cron.domWild && cron.dowWild then true
  else if cron.domWild then dowOk
  else if cron.dowWild then domOk
  else domOk || dowOk

def monthOk (cron : Cron) (day : Nat) : Bool :=
  cron.months.contains (monthOf day % 12 + 1)

/-- Minutes are counted from the beginning of the year 1. -/
def matchesMinute (cron : Cron) (candidate : Nat) : Bool :=
  cron.monthOk (candidate / 1440) && cron.dayOk (candidate / 1440) &&
    cron.hours.contains (candidate / 60 % 24) && cron.minutes.contains (candidate % 60)

def search (cron : Cron) : Nat → Nat → Option Nat
  | 0, _ => none
  | steps + 1, candidate =>
    if lastMinute < candidate then none
    else if cron.monthOk (candidate / 1440) = false then
      search cron steps (monthStart (monthOf (candidate / 1440) + 1) * 1440)
    else if cron.dayOk (candidate / 1440) = false then
      search cron steps ((candidate / 1440 + 1) * 1440)
    else if cron.hours.contains (candidate / 60 % 24) = false then
      search cron steps ((candidate / 60 + 1) * 60)
    else if cron.minutes.contains (candidate % 60) = false then search cron steps (candidate + 1)
    else some candidate

/-- An instant that the expression names. -/
def Occurs (cron : Cron) (t : Nat) : Prop :=
  t % minute = 0 ∧ cron.matchesMinute (t / minute) = true

instance (cron : Cron) (t : Nat) : Decidable (cron.Occurs t) :=
  inferInstanceAs (Decidable (_ ∧ _))

end Cron

/-- The next occurrence of an expression; there is none if the search raises an error. -/
def computeNextCronRun (cron : Cron) (after : Nat) : Option Nat :=
  (cron.search cronMaxSteps (after / minute + 1)).map (· * minute)

namespace Cron

/-- The search skips no minute that matches. -/
theorem search_eq_some {cron : Cron} {steps candidate found : Nat}
    (h : cron.search steps candidate = some found) :
    candidate ≤ found ∧ cron.matchesMinute found = true ∧
      ∀ k, candidate ≤ k → k < found → cron.matchesMinute k = false := by
  induction steps generalizing candidate with
  | zero => cases h
  | succ steps ih =>
    -- a skip from `candidate` to `next` passes over minutes that share the field that fails
    have hskip : ∀ next, candidate ≤ next → cron.search steps next = some found →
        (∀ k, candidate ≤ k → k < next → cron.matchesMinute k = false) →
        candidate ≤ found ∧ cron.matchesMinute found = true ∧
          ∀ k, candidate ≤ k → k < found → cron.matchesMinute k = false := by
      intro next hnext hsearch hbetween
      obtain ⟨hle, hfound, hnone⟩ := ih hsearch
      refine ⟨by omega, hfound, fun k hk hlt => ?_⟩
      by_cases hkn : k < next
      · exact hbetween k hk hkn
      · exact hnone k (by omega) hlt
    unfold search at h
    split at h
    · cases h
    split at h
    · next hmonth =>
      have hspec := (monthOf_spec (candidate / 1440)).2
      apply hskip _ (by omega) h
      intro k hk hlt
      have hsame : monthOf (k / 1440) = monthOf (candidate / 1440) :=
        monthOf_eq_of_le (by omega) (by omega)
      simp only [monthOk] at hmonth
      simp only [matchesMinute, monthOk, hsame, hmonth, Bool.false_and]
    split at h
    · next hday =>
      apply hskip _ (by omega) h
      intro k hk hlt
      have hsame : k / 1440 = candidate / 1440 := by omega
      simp [matchesMinute, hsame, hday]
    split at h
    · next hhour =>
      apply hskip _ (by omega) h
      intro k hk hlt
      have hsame : k / 60 = candidate / 60 := by omega
      simp only [matchesMinute, hsame, hhour, Bool.and_false, Bool.false_and]
    split at h
    · next hminute =>
      apply hskip _ (by omega) h
      intro k hk hlt
      obtain rfl : k = candidate := by omega
      simp only [matchesMinute, hminute, Bool.and_false]
    · next hmonth hday hhour hminute =>
      obtain rfl := Option.some.inj h
      simp only [Bool.not_eq_false] at hmonth hday hhour hminute
      refine ⟨Nat.le_refl _, ?_, fun k hk hlt => by omega⟩
      simp only [matchesMinute, hmonth, hday, hhour, hminute, Bool.and_self]

end Cron

/-- The next run is the least occurrence behind `after`. -/
theorem computeNextCronRun_spec {cron : Cron} {after next : Nat}
    (h : computeNextCronRun cron after = some next) :
    after < next ∧ cron.Occurs next ∧ ∀ t, after < t → t < next → ¬cron.Occurs t := by
  obtain ⟨found, hsearch, rfl⟩ := Option.map_eq_some_iff.mp h
  obtain ⟨hle, hmatch, hnone⟩ := Cron.search_eq_some hsearch
  have hminute : 0 < minute := by decide
  refine ⟨?_, ⟨Nat.mul_mod_left _ _, ?_⟩, ?_⟩
  · exact (Nat.div_lt_iff_lt_mul hminute).mp (by omega)
  · rwa [Nat.mul_div_cancel _ hminute]
  · rintro t hafter hlt ⟨hwhole, hoccurs⟩
    have hfound : t / minute < found := (Nat.div_lt_iff_lt_mul hminute).mpr hlt
    have hcandidate : after / minute + 1 ≤ t / minute := by
      have ht := Nat.div_add_mod t minute
      rw [hwhole, Nat.add_zero] at ht
      exact (Nat.div_lt_iff_lt_mul hminute).mpr (by rwa [Nat.mul_comm, ht])
    rw [hnone _ hcandidate hfound] at hoccurs
    cases hoccurs

def Cron.schedule (cron : Cron) : Schedule :=
  ⟨computeNextCronRun cron, cron.Occurs, computeNextCronRun_spec⟩

end Dqx.Scheduler
