import Dqx.Scheduler.CronField
import Dqx.Scheduler.Tracker

/-! Cron expressions in a time zone. The search runs on the wall clock, and what it finds is converted
with the fold reset, as the first instant at which the clock shows that time. After the clock has been
set back, this instant may be past. -/

namespace Dqx.Scheduler

open Lib

/-- A zone: the instants at which its offset from UTC changes, and the offset from each of them on. -/
structure Zone where
  before : Int
  transitions : List (Int × Int)
  increasing : transitions.Pairwise fun t u => t.1 < u.1

/-- `bisect.bisect_right` between two indices, which come closer in each round. -/
def bisectRight (keys : List Int) (x : Int) : Nat → Nat → Nat → Nat
  | 0, lo, _ => lo
  | rounds + 1, lo, hi =>
    if lo < hi then
      if x < keys.getD ((lo + hi) / 2) 0 then bisectRight keys x rounds lo ((lo + hi) / 2)
      else bisectRight keys x rounds ((lo + hi) / 2 + 1) hi
    else lo

def bisect (keys : List Int) (x : Int) : Nat := bisectRight keys x keys.length 0 keys.length

namespace Zone

/-- When the clock passes the transitions: of the two times that it shows at a transition, the later
one, as for a time without a fold. -/
def wallTransitions (previous : Int) : List (Int × Int) → List Int
  | [] => []
  | (instant, offset) :: rest => (instant + max previous offset) :: wallTransitions offset rest

/-- The offset after so many transitions. -/
def offsetAfter (zone : Zone) (count : Nat) : Int :=
  match count with
  | 0 => zone.before
  | count + 1 => (zone.transitions.map Prod.snd).getD count zone.before

/-- The offset at an instant. -/
def offset (zone : Zone) (instant : Int) : Int :=
  zone.offsetAfter (bisect (zone.transitions.map Prod.fst) instant)

/-- The offset at a time of the clock with `fold=0`. -/
def utcoffset (zone : Zone) (wall : Int) : Int :=
  let times := wallTransitions zone.before zone.transitions
  if times.head?.any (wall < ·) then zone.before
  else if times.getLast?.all (· < wall) then zone.offsetAfter times.length
  else zone.offsetAfter (bisect times wall)

/-- What the clock shows at an instant. -/
def wall (zone : Zone) (instant : Nat) : Int := instant + zone.offset instant

/-- The first instant at which the clock shows a time, by which it is converted. -/
def firstShown (zone : Zone) (time : Nat) : Int := time - zone.utcoffset time

end Zone

/-- The next occurrence of an expression in a zone; there is none if the search raises an error. -/
def computeNextCronRunIn (zone : Zone) (cron : Cron) (after : Nat) : Option Nat :=
  match zone.wall after with
  | .negSucc _ => none
  | .ofNat wall =>
    (computeNextCronRun cron wall).bind fun found =>
      match zone.firstShown found with
      | .negSucc _ => none
      | .ofNat next => if next / minute ≤ lastMinute then some next else none

/-- The next run that `_finish_schedule_firing` stores. -/
def nextRunAfterFiring (zone : Zone) (cron : Cron) (now : Nat) : Nat :=
  (computeNextCronRunIn zone cron now).getD (now + failureBackoff)

/-- The first time after `wall` that an expression names. -/
structure FirstAfter (cron : Cron) (wall : Int) (time : Nat) : Prop where
  after : wall < time
  occurs : cron.Occurs time
  first : ∀ t : Nat, wall < t → t < time → ¬cron.Occurs t

theorem FirstAfter.unique {cron : Cron} {wall : Int} {t t' : Nat} (h : FirstAfter cron wall t)
    (h' : FirstAfter cron wall t') : t = t' := by
  rcases Nat.lt_trichotomy t t' with hlt | heq | hlt
  · exact absurd h.occurs (h'.first t h.after hlt)
  · exact heq
  · exact absurd h'.occurs (h.first t' h'.after hlt)

/-- The clock has not shown the next time that the expression names by `after`. -/
def NotYetShown (zone : Zone) (cron : Cron) (after : Nat) : Prop :=
  ∀ time, FirstAfter cron (zone.wall after) time → (after : Int) < zone.firstShown time

theorem computeNextCronRunIn_eq_some {zone : Zone} {cron : Cron} {after next : Nat}
    (h : computeNextCronRunIn zone cron after = some next) :
    ∃ time, FirstAfter cron (zone.wall after) time ∧ zone.firstShown time = next := by
  unfold computeNextCronRunIn at h
  split at h
  · cases h
  · next wall hwall =>
    obtain ⟨found, hfound, h⟩ := Option.bind_eq_some_iff.mp h
    obtain ⟨hlt, hoccurs, hnone⟩ := computeNextCronRun_spec hfound
    split at h
    · cases h
    · next shown hshown =>
      obtain rfl : shown = next := by
        split at h
        · exact Option.some.inj h
        · cases h
      refine ⟨found, ⟨?_, hoccurs, ?_⟩, hshown⟩
      · rw [hwall]
        exact Int.ofNat_lt.mpr hlt
      · intro t ht
        rw [hwall] at ht
        exact hnone t (Int.ofNat_lt.mp ht)

/-! ### Set-backs -/

/-- Whatever the order of the keys, `x` lies between the two keys where the search ends. -/
theorem bisectRight_spec {keys : List Int} {x : Int} {rounds lo hi : Nat} (hle : lo ≤ hi)
    (hhi : hi ≤ keys.length) (hrounds : hi - lo ≤ rounds) (hlow : lo = 0 ∨ keys.getD (lo - 1) 0 ≤ x)
    (hhigh : hi = keys.length ∨ x < keys.getD hi 0) :
    let n := bisectRight keys x rounds lo hi
    n ≤ keys.length ∧ (n = 0 ∨ keys.getD (n - 1) 0 ≤ x) ∧ (n = keys.length ∨ x < keys.getD n 0) := by
  induction rounds generalizing lo hi with
  | zero =>
    obtain rfl : lo = hi := by omega
    exact ⟨hhi, hlow, hhigh⟩
  | succ rounds ih =>
    rw [bisectRight]
    split
    · split
      · next hx => exact ih (by omega) (by omega) (by omega) hlow (.inr hx)
      · next hx =>
        refine ih (by omega) hhi (by omega) (.inr ?_) hhigh
        rw [Nat.add_sub_cancel]
        omega
    · obtain rfl : lo = hi := by omega
      exact ⟨hhi, hlow, hhigh⟩

theorem bisect_spec (keys : List Int) (x : Int) :
    bisect keys x ≤ keys.length ∧ (bisect keys x = 0 ∨ keys.getD (bisect keys x - 1) 0 ≤ x) ∧
      (bisect keys x = keys.length ∨ x < keys.getD (bisect keys x) 0) :=
  bisectRight_spec (Nat.zero_le _) (Nat.le_refl _) (Nat.sub_le _ _) (.inl rfl) (.inl rfl)

namespace Zone

variable (zone : Zone)

/-- The instant of a transition. -/
def instant (i : Nat) : Int := (zone.transitions.map Prod.fst).getD i 0

theorem instant_lt {i j : Nat} (hij : i < j) (hj : j < zone.transitions.length) :
    zone.instant i < zone.instant j := by
  have hpair := List.pairwise_iff_getElem.mp zone.increasing i j (by omega) hj hij
  simpa [instant, List.getD_eq_getElem?_getD, hj, Nat.lt_trans hij hj] using hpair

theorem length_wallTransitions (previous : Int) (transitions : List (Int × Int)) :
    (wallTransitions previous transitions).length = transitions.length := by
  induction transitions generalizing previous with
  | nil => rfl
  | cons transition transitions ih => exact congrArg (· + 1) (ih transition.2)

theorem getElem?_wallTransitions {previous : Int} {transitions : List (Int × Int)} {i : Nat}
    {instant offset : Int} (hi : transitions[i]? = some (instant, offset)) :
    (wallTransitions previous transitions)[i]? =
      some (instant + max ((previous :: transitions.map Prod.snd).getD i 0) offset) := by
  induction transitions generalizing previous i with
  | nil => cases hi
  | cons transition transitions ih =>
    cases i with
    | zero =>
      obtain rfl := Option.some.inj hi
      rfl
    | succ i =>
      rw [List.getElem?_cons_succ] at hi
      rw [wallTransitions, List.getElem?_cons_succ, ih hi, List.getD_cons_succ, List.map_cons]

theorem offsetAfter_eq (i : Nat) (hi : i ≤ zone.transitions.length) :
    zone.offsetAfter i = (zone.before :: zone.transitions.map Prod.snd).getD i 0 := by
  cases i with
  | zero => rfl
  | succ i =>
    rw [offsetAfter, List.getD_cons_succ, List.getD_eq_getElem?_getD, List.getD_eq_getElem?_getD,
      List.getElem?_eq_getElem (by rw [List.length_map]; exact hi)]
    rfl

def times : List Int := wallTransitions zone.before zone.transitions

theorem getD_times {i : Nat} (hi : i < zone.transitions.length) :
    zone.times.getD i 0 =
      zone.instant i + max (zone.offsetAfter i) (zone.offsetAfter (i + 1)) := by
  have hget : zone.transitions[i]? = some (zone.transitions[i].1, zone.transitions[i].2) :=
    List.getElem?_eq_getElem hi
  rw [offsetAfter_eq zone i (by omega), times, List.getD_eq_getElem?_getD,
    getElem?_wallTransitions hget]
  simp [instant, offsetAfter, List.getD_eq_getElem?_getD, hi]

/-- The offset of a time is that between the two transitions that the clock passes around it. -/
theorem utcoffset_spec (wall : Int) : ∃ n ≤ zone.transitions.length,
    zone.utcoffset wall = zone.offsetAfter n ∧ (n = 0 ∨ zone.times.getD (n - 1) 0 ≤ wall) ∧
      (n = zone.transitions.length ∨ wall < zone.times.getD n 0) := by
  have hlength : zone.times.length = zone.transitions.length := length_wallTransitions _ _
  rw [utcoffset]
  show ∃ n ≤ _, (if zone.times.head?.any (wall < ·) then zone.before
    else if zone.times.getLast?.all (· < wall) then zone.offsetAfter zone.times.length
    else zone.offsetAfter (bisect zone.times wall)) = _ ∧ _
  split
  · next hhead =>
    refine ⟨0, Nat.zero_le _, rfl, .inl rfl, .inr ?_⟩
    cases htimes : zone.times with
    | nil => simp [htimes] at hhead
    | cons first rest => simpa [htimes] using hhead
  · split
    · next hlast =>
      refine ⟨zone.times.length, by omega, rfl, ?_, .inl hlength⟩
      rcases List.eq_nil_or_concat zone.times with hnil | ⟨front, last, hconcat⟩
      · exact .inl (by simp [hnil])
      · right
        rw [hconcat] at hlast ⊢
        simp at hlast
        simp
        omega
    · have hspec := bisect_spec zone.times wall
      rw [hlength] at hspec
      exact ⟨_, hspec.1, rfl, hspec.2⟩

theorem offset_spec (instant : Int) : ∃ n ≤ zone.transitions.length,
    zone.offset instant = zone.offsetAfter n ∧ (n = 0 ∨ zone.instant (n - 1) ≤ instant) ∧
      (n = zone.transitions.length ∨ instant < zone.instant n) := by
  have hspec := bisect_spec (zone.transitions.map Prod.fst) instant
  rw [List.length_map] at hspec
  exact ⟨_, hspec.1, rfl, hspec.2⟩

/-- A time ahead of the clock that it has shown by `after` has been passed by a set-back: at some
transition by then, the clock left a later time. -/
theorem exists_setBack {after time : Nat} (hahead : zone.wall after < time)
    (hshown : zone.firstShown time ≤ after) :
    ∃ i < zone.transitions.length, zone.instant i ≤ after ∧
      (time : Int) < zone.instant i + zone.offsetAfter i := by
  obtain ⟨j, hj, hoffset, hbefore, hbehind⟩ := zone.utcoffset_spec time
  obtain ⟨a, ha, hnow, hpast, hahead'⟩ := zone.offset_spec after
  rw [wall] at hahead
  rw [firstShown] at hshown
  have hmono : ∀ {i k : Nat}, i ≤ k → k < zone.transitions.length →
      zone.instant i ≤ zone.instant k := by
    intro i k hik hk
    rcases Nat.eq_or_lt_of_le hik with rfl | hlt
    · exact Int.le_refl _
    · exact Int.le_of_lt (zone.instant_lt hlt hk)
  have hpassed : ∀ i < a, zone.instant i ≤ after := by
    intro i hi
    exact Int.le_trans (hmono (by omega) (by omega)) (hpast.resolve_left (by omega))
  -- the offset that converts the time is one from before `after`
  have hlt : j < a := by
    by_contra hge
    rcases Nat.eq_or_lt_of_le (Nat.not_lt.mp hge) with rfl | hgt
    · omega
    · have hstart := hbefore.resolve_left (by omega)
      rw [zone.getD_times (by omega), Nat.sub_add_cancel (by omega)] at hstart
      have hle := hmono (show a ≤ j - 1 by omega) (by omega)
      have hnext := hahead'.resolve_left (by omega)
      omega
  have hend := hbehind.resolve_left (by omega)
  rw [zone.getD_times (by omega)] at hend
  have hj := hpassed j hlt
  by_cases hfold : (time : Int) < zone.instant j + zone.offsetAfter j
  · exact ⟨j, by omega, hj, hfold⟩
  · -- the clock jumped over the time, so it has been set back since
    have hcases : j + 1 = a ∨ j + 1 < a := by omega
    rcases hcases with hlast | hmore
    · rw [hnow, ← hlast] at hahead
      omega
    · have hstep : zone.instant j < zone.instant (j + 1) := zone.instant_lt (by omega) (by omega)
      exact ⟨j + 1, by omega, hpassed _ hmore, by omega⟩

end Zone

def everyHourAt (minuteOfHour : Nat) : Cron :=
  ⟨[minuteOfHour], List.range 24, [], List.range' 1 12, [], true, true⟩

/-- Midnight at the beginning of the 26th of October 2025. -/
def october26 : Nat := (daysBeforeYear 2024 + 298) * day

/-- A clock two hours ahead that is set back by one at one o'clock UTC on that day. -/
def setBack : Zone := ⟨2 * hour, [((october26 + hour : Nat), hour)], by simp⟩

end Dqx.Scheduler
