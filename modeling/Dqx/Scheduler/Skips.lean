import Dqx.Scheduler.CronTick

/-! Whether an occurrence that was skipped stays skipped. The realignment of the next run goes by the
last run, which a skip leaves alone: it takes the tracker back to the occurrence that was skipped. -/

namespace Dqx.Scheduler

open Lib

/-- A schedule with the time of the last tick that fired it or recorded a skip. -/
structure Watched where
  tracker : Option Tracker
  since : Nat

def watch (schedule : Schedule) : Machine Watched CronTick Action where
  step s tick :=
    let result := tickOne schedule s.tracker tick
    (⟨some result.1, if result.2 = .idle then s.since else tick.now⟩, result.2)

/-- A schedule that no tick has seeded: it has no tracker, or one that was only paused. -/
def Unseeded (tracker : Option Tracker) : Prop :=
  ∀ row, tracker = some row → row.nextRunAt = none ∧ row.lastRunAt = none

/-- A firing has an occurrence behind the last tick that fired or skipped, and a tick that does
neither leaves a seeded tracker alone. -/
def Faithful (schedule : Schedule) (s : Watched) (tick : CronTick) : Prop :=
  ((tickOne schedule s.tracker tick).2 = .fired →
    ∃ t, schedule.Occurs t ∧ s.since < t ∧ t ≤ tick.now) ∧
  ((tickOne schedule s.tracker tick).2 = .idle →
    ∀ row, s.tracker = some row → row.nextRunAt ≠ none → (tickOne schedule s.tracker tick).1 = row)

/-- A tick that does not skip comes behind a recorded skip and before the occurrence that the skip
advanced to, and the schedule has fired before, or an occurrence is less than a second old. -/
def Disturbing (schedule : Schedule) (tracker : Option Tracker) (tick : CronTick) : Prop :=
  ∃ row next, tracker = some row ∧ row.paused = false ∧ row.status = some .skipped ∧
    row.nextRunAt = some next ∧ tick.now < next ∧ tick.overlap ≠ .skip ∧
    (row.lastRunAt ≠ none ∨ ∃ t, schedule.Occurs t ∧ tick.now - second < t ∧ t ≤ tick.now)

/-- The trackers of runs without a disturbing tick, with the tick that comes next at `now`. -/
inductive Steady (schedule : Schedule) (since now : Nat) : Option Tracker → Prop
  | unseeded {tracker : Option Tracker} (hunseeded : Unseeded tracker)
      (hsince : since ≤ now - second) : Steady schedule since now tracker
  | seeded {row : Tracker} {anchor : Nat} (hstatus : row.status ≠ some .skipped)
      (hlast : row.lastRunAt = none) (hnext : row.nextRunAt = schedule.next anchor)
      (hsince : since ≤ anchor) (hanchor : anchor ≤ now - second) : Steady schedule since now (some row)
  | fired {row : Tracker} (hstatus : row.status ≠ some .skipped)
      (hlast : row.lastRunAt = some since) (hnext : row.nextRunAt = schedule.next since)
      (hsince : since < now) : Steady schedule since now (some row)
  | skipped {row : Tracker} (hstatus : row.status = some .skipped)
      (hnext : row.nextRunAt = schedule.next since) (hsince : since < now)
      (hlast : ∀ last, row.lastRunAt = some last →
        ∃ missed, schedule.next last = some missed ∧ missed ≤ since) :
      Steady schedule since now (some row)

theorem unseeded_none : Unseeded none := nofun

theorem Steady.mono {schedule : Schedule} {since now later : Nat} {tracker : Option Tracker}
    (h : Steady schedule since now tracker) (hle : now ≤ later) : Steady schedule since later tracker := by
  have hsecond : now - second ≤ later - second := Nat.sub_le_sub_right hle _
  cases h with
  | unseeded hunseeded hsince => exact .unseeded hunseeded (Nat.le_trans hsince hsecond)
  | seeded hstatus hlast hnext hsince hanchor =>
    exact .seeded hstatus hlast hnext hsince (Nat.le_trans hanchor hsecond)
  | fired hstatus hlast hnext hsince => exact .fired hstatus hlast hnext (by omega)
  | skipped hstatus hnext hsince hlast => exact .skipped hstatus hnext (by omega) hlast

theorem Outcome.status_ne_skipped (outcome : Outcome) : outcome.status ≠ .skipped := by
  unfold Outcome.status
  split
  · decide
  split <;> decide

/-- What a schedule that is due turns into keeps the invariant. -/
theorem steady_tickDue {schedule : Schedule} {since later : Nat} {row : Tracker} {tracker : Option Tracker}
    {tick : CronTick} (hvalid : (schedule.next tick.now).isSome)
    (hrow : Steady schedule since tick.now (some row)) (hlater : tick.now < later)
    (hlast : ∀ last, tracker.bind (·.lastRunAt) = some last →
      ∃ missed, schedule.next last = some missed ∧ missed ≤ tick.now) :
    Steady schedule (if (tickDue schedule row tracker tick).2 = .idle then since else tick.now) later
      (some (tickDue schedule row tracker tick).1) := by
  obtain ⟨next, hnext⟩ := Option.isSome_iff_exists.mp hvalid
  unfold tickDue
  cases tick.overlap with
  | fire =>
    simp only [reduceCtorEq, if_false]
    refine .fired ?_ rfl ?_ hlater
    · intro h
      exact Outcome.status_ne_skipped _ (Option.some.inj h)
    · simp [finishScheduleFiring, upsertTracker, hnext]
  | defer => exact hrow.mono (Nat.le_of_lt hlater)
  | skip =>
    simp only [reduceCtorEq, if_false]
    refine .skipped rfl ?_ hlater hlast
    simp [recordSkip, upsertTracker, hnext]

/-- A schedule that is due fires for an occurrence, and is left alone when it waits. -/
theorem faithful_tickDue {schedule : Schedule} {since anchor next : Nat} {row : Tracker}
    {tracker : Option Tracker} {tick : CronTick} (hnext : schedule.next anchor = some next)
    (hanchor : since ≤ anchor) (hdue : next ≤ tick.now) :
    ((tickDue schedule row tracker tick).2 = .fired →
      ∃ t, schedule.Occurs t ∧ since < t ∧ t ≤ tick.now) ∧
    ((tickDue schedule row tracker tick).2 = .idle → (tickDue schedule row tracker tick).1 = row) := by
  have hafter := Schedule.lt_next hnext
  refine ⟨fun _ => ⟨next, Schedule.occurs_next hnext, by omega, hdue⟩, ?_⟩
  unfold tickDue
  cases tick.overlap with
  | defer => exact fun _ => rfl
  | _ => exact fun h => by cases h

/-- The next run of a seeded tracker is the first occurrence behind an instant that is no earlier than
the last tick that fired or skipped. -/
theorem Steady.anchored {schedule : Schedule} {since now next : Nat} {row : Tracker}
    (h : Steady schedule since now (some row)) (hnext : row.nextRunAt = some next) :
    ∃ anchor, since ≤ anchor ∧ schedule.next anchor = some next := by
  cases h with
  | unseeded hunseeded _ =>
    rw [(hunseeded row rfl).1] at hnext
    cases hnext
  | @seeded _ anchor _ _ hcompute hsince _ => exact ⟨anchor, hsince, by rw [← hcompute, hnext]⟩
  | fired _ _ hcompute _ => exact ⟨since, Nat.le_refl _, by rw [← hcompute, hnext]⟩
  | skipped _ hcompute _ _ => exact ⟨since, Nat.le_refl _, by rw [← hcompute, hnext]⟩

/-- The occurrence behind the last run has passed when the next run is due. -/
theorem Steady.missed {schedule : Schedule} {since now next : Nat} {row : Tracker}
    (h : Steady schedule since now (some row)) (hnext : row.nextRunAt = some next) (hdue : next ≤ now) :
    ∀ last, row.lastRunAt = some last →
      ∃ missed, schedule.next last = some missed ∧ missed ≤ now := by
  intro last hlastRun
  cases h with
  | unseeded hunseeded _ =>
    rw [(hunseeded row rfl).2] at hlastRun
    cases hlastRun
  | seeded _ hlast _ _ _ =>
    rw [hlast] at hlastRun
    cases hlastRun
  | fired _ hlast hcompute _ =>
    obtain rfl : since = last := Option.some.inj (hlast.symm.trans hlastRun)
    exact ⟨next, by rw [← hcompute, hnext], hdue⟩
  | skipped _ _ hsince hlast =>
    obtain ⟨missed, hmissed, hle⟩ := hlast last hlastRun
    exact ⟨missed, hmissed, by omega⟩

theorem realignNextRun_of_eq {schedule : Schedule} {row : Tracker} {stored now : Nat}
    (h : schedule.next (row.lastRunAt.getD (now - second)) = some stored) :
    realignNextRun schedule row stored now = (row, stored) := by
  unfold realignNextRun
  rw [h]
  simp

theorem realignNextRun_of_ne {schedule : Schedule} {row : Tracker} {stored now expected : Nat}
    (hfuture : now < stored) (hne : stored ≠ expected)
    (h : schedule.next (row.lastRunAt.getD (now - second)) = some expected) :
    realignNextRun schedule row stored now =
      (upsertTracker (some row) row.lastRunAt (some expected) row.lastRunId
        (row.status.getD .pending), expected) := by
  unfold realignNextRun
  rw [h]
  simp [Nat.not_le.mpr hfuture, hne]

/-- What the realignment does in the future of a tracker: nothing, or it goes back to an occurrence
that was skipped. -/
theorem Steady.realigned {schedule : Schedule} {since now stored : Nat} {row : Tracker}
    (h : Steady schedule since now (some row))
    (hvalid : ∀ after ≤ now, (schedule.next after).isSome)
    (hstored : row.nextRunAt = some stored) (hfuture : now < stored) :
    (schedule.next (row.lastRunAt.getD (now - second)) = some stored ∧
      (row.status = some .skipped → row.lastRunAt = none ∧
        ∀ t, schedule.Occurs t → now - second < t → now < t)) ∨
    ∃ missed, schedule.next (row.lastRunAt.getD (now - second)) = some missed ∧
      missed ≤ since ∧ since < now ∧ row.status = some .skipped ∧
      schedule.next since = some stored ∧
      (∀ last, row.lastRunAt = some last →
        ∃ missed, schedule.next last = some missed ∧ missed ≤ since) ∧
      (row.lastRunAt ≠ none ∨ ∃ t, schedule.Occurs t ∧ now - second < t ∧ t ≤ now) := by
  cases h with
  | unseeded hunseeded _ =>
    rw [(hunseeded row rfl).1] at hstored
    cases hstored
  | @seeded _ anchor hstatus hlast hcompute hsince hanchor =>
    refine .inl ⟨?_, fun h => absurd h hstatus⟩
    rw [hlast, Option.getD_none]
    exact Schedule.next_eq (by rw [← hcompute, hstored]) hanchor
      (Nat.lt_of_le_of_lt (Nat.sub_le _ _) hfuture) (hvalid _ (Nat.sub_le _ _))
  | fired hstatus hlast hcompute _ =>
    refine .inl ⟨?_, fun h => absurd h hstatus⟩
    rw [hlast, Option.getD_some, ← hcompute, hstored]
  | skipped hstatus hcompute hsince hlast =>
    have hnext : schedule.next since = some stored := by rw [← hcompute, hstored]
    cases hlastRun : row.lastRunAt with
    | some last =>
      rw [Option.getD_some]
      rw [hlastRun] at hlast
      obtain ⟨missed, hmissed, hle⟩ := hlast last rfl
      exact .inr ⟨missed, hmissed, hle, hsince, hstatus, hnext, hlast, .inl (by simp)⟩
    | none =>
      rw [Option.getD_none]
      obtain ⟨missed, hmissed⟩ := Option.isSome_iff_exists.mp (hvalid _ (Nat.sub_le now second))
      by_cases hle : missed ≤ since
      · exact .inr ⟨missed, hmissed, hle, hsince, hstatus, hnext, by simp,
          .inr ⟨missed, Schedule.occurs_next hmissed, Schedule.lt_next hmissed, by omega⟩⟩
      · have hge : stored ≤ missed :=
          Schedule.next_le hnext (by omega) (Schedule.occurs_next hmissed)
        have hle : missed ≤ stored :=
          Schedule.next_le hmissed (Nat.lt_of_le_of_lt (Nat.sub_le _ _) hfuture)
            (Schedule.occurs_next hnext)
        obtain rfl : missed = stored := by omega
        refine .inl ⟨hmissed, fun _ => ⟨rfl, fun t ht hlow => ?_⟩⟩
        exact Nat.lt_of_lt_of_le hfuture (Schedule.next_le hmissed hlow ht)

theorem steady_seedTracker {schedule : Schedule} {since later : Nat} {tracker : Option Tracker}
    {tick : CronTick} (hunseeded : Unseeded tracker) (hsince : since ≤ tick.now - second)
    (hvalid : ∀ after ≤ tick.now, (schedule.next after).isSome)
    (hlater : tick.now < later) :
    ((seedTracker schedule tracker tick).2 = .fired →
      ∃ t, schedule.Occurs t ∧ since < t ∧ t ≤ tick.now) ∧
    Steady schedule (if (seedTracker schedule tracker tick).2 = .idle then since else tick.now) later
      (some (seedTracker schedule tracker tick).1) := by
  have hnone : tracker.bind (·.lastRunAt) = none := by
    cases tracker with
    | none => rfl
    | some row => exact (hunseeded row rfl).2
  obtain ⟨computed, hcomputed⟩ :=
    Option.isSome_iff_exists.mp (hvalid _ (Nat.sub_le tick.now second))
  simp only [seedTracker, hcomputed]
  have hrow : Steady schedule since tick.now
      (some (upsertTracker tracker (tracker.bind (·.lastRunAt)) (some computed)
        (tracker.bind (·.lastRunId)) .pending)) :=
    .seeded (by simp [upsertTracker]) hnone hcomputed.symm hsince (Nat.le_refl _)
  split
  · next hdue =>
    refine ⟨(faithful_tickDue hcomputed hsince hdue).1, ?_⟩
    apply steady_tickDue (hvalid _ (Nat.le_refl _)) hrow hlater
    intro last hlast
    rw [hnone] at hlast
    cases hlast
  · exact ⟨nofun, hrow.mono (Nat.le_of_lt hlater)⟩

/-- A tracker without a next run has not been seeded. -/
theorem Steady.unseeded_of_none {schedule : Schedule} {since now : Nat} {row : Tracker}
    (h : Steady schedule since now (some row))
    (hvalid : ∀ after ≤ now, (schedule.next after).isSome) (hnone : row.nextRunAt = none) :
    Unseeded (some row) ∧ since ≤ now - second := by
  have hnext : ∀ anchor ≤ now, row.nextRunAt ≠ schedule.next anchor := by
    intro anchor hle heq
    have hsome := hvalid anchor hle
    rw [← heq, hnone] at hsome
    cases hsome
  cases h with
  | unseeded hunseeded hsince => exact ⟨hunseeded, hsince⟩
  | seeded _ _ hcompute _ hanchor =>
    exact absurd hcompute (hnext _ (Nat.le_trans hanchor (Nat.sub_le _ _)))
  | fired _ _ hcompute hsince => exact absurd hcompute (hnext _ (Nat.le_of_lt hsince))
  | skipped _ hcompute hsince _ => exact absurd hcompute (hnext _ (Nat.le_of_lt hsince))

/-- The tick is faithful exactly when it does not disturb a skip, and then it keeps the invariant. -/
def Settles (schedule : Schedule) (since : Nat) (tracker : Option Tracker) (tick : CronTick) : Prop :=
  (Faithful schedule ⟨tracker, since⟩ tick ↔ ¬Disturbing schedule tracker tick) ∧
  (¬Disturbing schedule tracker tick → ∀ later, tick.now < later →
    Steady schedule (if (tickOne schedule tracker tick).2 = .idle then since else tick.now) later
      (some (tickOne schedule tracker tick).1))

theorem settles_seed {schedule : Schedule} {since : Nat} {tracker : Option Tracker} {tick : CronTick}
    (hunseeded : Unseeded tracker) (hsince : since ≤ tick.now - second)
    (hvalid : ∀ after ≤ tick.now, (schedule.next after).isSome)
    (htick : tickOne schedule tracker tick = seedTracker schedule tracker tick) :
    Settles schedule since tracker tick := by
  have hquiet : ¬Disturbing schedule tracker tick := by
    rintro ⟨row, next, rfl, -, -, hnext, -⟩
    rw [(hunseeded row rfl).1] at hnext
    cases hnext
  have hresult := fun later (hlater : tick.now < later) =>
    steady_seedTracker hunseeded hsince hvalid hlater
  rw [← htick] at hresult
  refine ⟨iff_of_true ⟨(hresult _ (Nat.lt_succ_self _)).1, ?_⟩ hquiet,
    fun _ later hlater => (hresult later hlater).2⟩
  intro _ row hrow hseeded
  exact absurd (hunseeded row hrow).1 hseeded

/-- A tick that leaves the tracker alone settles if it comes behind no skip, or realigns nothing. -/
theorem settles_idle {schedule : Schedule} {since : Nat} {row : Tracker} {tick : CronTick}
    (h : Steady schedule since tick.now (some row))
    (htick : tickOne schedule (some row) tick = (row, .idle))
    (hquiet : ¬Disturbing schedule (some row) tick) : Settles schedule since (some row) tick := by
  unfold Settles Faithful
  rw [htick]
  exact ⟨iff_of_true ⟨nofun, fun _ other hother _ => Option.some.inj hother⟩ hquiet,
    fun _ later hlater => h.mono (Nat.le_of_lt hlater)⟩

theorem settles_due {schedule : Schedule} {since stored : Nat} {row : Tracker} {tick : CronTick}
    (h : Steady schedule since tick.now (some row))
    (hvalid : ∀ after ≤ tick.now, (schedule.next after).isSome)
    (hpaused : row.paused = false) (hstored : row.nextRunAt = some stored)
    (hdue : stored ≤ tick.now) : Settles schedule since (some row) tick := by
  have htick : tickOne schedule (some row) tick = tickDue schedule row (some row) tick := by
    simp [tickOne, hpaused, hstored, realignNextRun, hdue, Nat.not_lt.mpr hdue]
  obtain ⟨anchor, hsince, hanchor⟩ := h.anchored hstored
  have hfaithful := @faithful_tickDue _ _ _ _ row (some row) _ hanchor hsince hdue
  unfold Settles Faithful
  rw [htick]
  refine ⟨iff_of_true ⟨hfaithful.1, ?_⟩ ?_, ?_⟩
  · rintro hidle other hother -
    obtain rfl := Option.some.inj hother
    exact hfaithful.2 hidle
  · rintro ⟨other, next, hother, -, -, hnext, hfuture, -⟩
    obtain rfl := Option.some.inj hother
    obtain rfl : stored = next := Option.some.inj (hstored.symm.trans hnext)
    omega
  · exact fun _ later hlater =>
      steady_tickDue (hvalid _ (Nat.le_refl _)) h hlater (h.missed hstored hdue)

/-- A tick that takes the tracker back to an occurrence that was skipped must skip it again. -/
theorem settles_undone {schedule : Schedule} {since stored missed : Nat} {row : Tracker}
    {tick : CronTick} (hnext : schedule.next since = some stored) (hfuture : tick.now < stored)
    (hsince : since < tick.now) (hmissed : missed ≤ since) (hpaused : row.paused = false)
    (hstatus : row.status = some .skipped) (hstored : row.nextRunAt = some stored)
    (hexpected : schedule.next (row.lastRunAt.getD (tick.now - second)) = some missed)
    (hlast : ∀ last, row.lastRunAt = some last →
      ∃ missed, schedule.next last = some missed ∧ missed ≤ since)
    (hfired : row.lastRunAt ≠ none ∨
      ∃ t, schedule.Occurs t ∧ tick.now - second < t ∧ t ≤ tick.now)
    (hvalid : ∀ after ≤ tick.now, (schedule.next after).isSome) :
    Settles schedule since (some row) tick := by
  have htick : tickOne schedule (some row) tick =
      tickDue schedule (upsertTracker (some row) row.lastRunAt (some missed) row.lastRunId
        (row.status.getD .pending)) (some row) tick := by
    simp only [tickOne, hpaused, hstored, realignNextRun_of_ne hfuture (by omega) hexpected,
      Bool.false_eq_true, if_false]
    rw [if_neg (by omega)]
  have hdisturbing : ¬Disturbing schedule (some row) tick ↔ tick.overlap = .skip := by
    constructor
    · intro hnot
      by_contra hskip
      exact hnot ⟨row, stored, rfl, hpaused, hstatus, hstored, hfuture, hskip, hfired⟩
    · rintro hskip ⟨other, next, -, -, -, -, -, hnot, -⟩
      exact hnot hskip
  unfold Settles Faithful
  rw [hdisturbing, htick]
  unfold tickDue
  cases tick.overlap with
  | fire =>
    simp only [reduceCtorEq, iff_false, false_imp_iff, and_true]
    intro h
    obtain ⟨t, hoccurs, hlow, hle⟩ := h trivial
    have := Schedule.next_le hnext hlow hoccurs
    omega
  | defer =>
    simp only [reduceCtorEq, iff_false, false_imp_iff, true_and]
    refine ⟨fun h => ?_, trivial⟩
    have hnextRun := congrArg Tracker.nextRunAt (h trivial row rfl (by simp [hstored]))
    rw [hstored] at hnextRun
    have := Option.some.inj hnextRun
    omega
  | skip =>
    obtain ⟨newNext, hnewNext⟩ := Option.isSome_iff_exists.mp (hvalid _ (Nat.le_refl tick.now))
    refine ⟨by simp, fun _ later hlater => ?_⟩
    simp only [reduceCtorEq, if_false, hnewNext]
    refine .skipped rfl hnewNext.symm hlater fun last hlastRun => ?_
    obtain ⟨before, hbefore, hle⟩ := hlast last hlastRun
    exact ⟨before, hbefore, by omega⟩

theorem settles_tickOne {schedule : Schedule} {since : Nat} {tracker : Option Tracker}
    {tick : CronTick} (h : Steady schedule since tick.now tracker)
    (hvalid : ∀ after ≤ tick.now, (schedule.next after).isSome) :
    Settles schedule since tracker tick := by
  cases tracker with
  | none =>
    cases h with
    | unseeded hunseeded hsince => exact settles_seed hunseeded hsince hvalid rfl
  | some row =>
    by_cases hpaused : row.paused = true
    · apply settles_idle h (by simp [tickOne, hpaused])
      rintro ⟨other, next, hother, hnot, -⟩
      obtain rfl := Option.some.inj hother
      rw [hpaused] at hnot
      cases hnot
    rw [Bool.not_eq_true] at hpaused
    cases hstored : row.nextRunAt with
    | none =>
      obtain ⟨hunseeded, hsince⟩ := h.unseeded_of_none hvalid hstored
      exact settles_seed hunseeded hsince hvalid (by simp [tickOne, hpaused, hstored])
    | some stored =>
      by_cases hdue : stored ≤ tick.now
      · exact settles_due h hvalid hpaused hstored hdue
      have hfuture : tick.now < stored := by omega
      rcases h.realigned hvalid hstored hfuture with
        ⟨hexpected, hkept⟩ | ⟨missed, hexpected, hmissed, hsince, hstatus, hnext, hlast, hfired⟩
      · apply settles_idle h
        · simp [tickOne, hpaused, hstored, realignNextRun_of_eq hexpected, hfuture]
        rintro ⟨other, next, hother, -, hskipped, -, -, -, hfired⟩
        obtain rfl := Option.some.inj hother
        rcases hfired with hfired | ⟨t, ht, hlow, hle⟩
        · exact hfired (hkept hskipped).1
        · exact absurd ((hkept hskipped).2 t ht hlow) (by omega)
      · exact settles_undone hnext hfuture hsince hmissed hpaused hstatus hstored hexpected hlast
          hfired hvalid

/-- A second before the first tick, from where a seed looks for an occurrence. -/
def beginning (ticks : List CronTick) : Nat :=
  (ticks.head?.map (·.now - second)).getD 0

theorem guarded_faithful_iff (schedule : Schedule) {tracker : Option Tracker}
    (hstart : Unseeded tracker) {ticks : List CronTick} (horder : ticks.Pairwise (·.now < ·.now))
    (hvalid : ∀ tick ∈ ticks, ∀ after ≤ tick.now, (schedule.next after).isSome) :
    (watch schedule).Guarded (Faithful schedule) ⟨tracker, beginning ticks⟩ ticks ↔
      (watch schedule).Guarded (fun s tick => ¬Disturbing schedule s.tracker tick)
        ⟨tracker, beginning ticks⟩ ticks := by
  refine (watch schedule).guarded_iff
    (I := fun s tick => Steady schedule s.since tick.now s.tracker) ?_ ?_ hvalid horder
  · intro s tick hsteady hvalid
    obtain ⟨hiff, hkeep⟩ := settles_tickOne hsteady hvalid
    exact ⟨hiff, fun hquiet next hlater => hkeep hquiet next.now hlater⟩
  · intro tick htick
    have hbeginning : beginning ticks = tick.now - second := by
      rw [beginning, Option.mem_def.mp htick, Option.map_some, Option.getD_some]
    exact .unseeded hstart (Nat.le_of_eq hbeginning)

/-- In a run of ticks no occurrence that was skipped is fired, and a tick that neither fires nor skips
leaves a seeded tracker alone, exactly when no tick of the run disturbs a skip. -/
theorem skipped_stays_skipped (cron : Cron) {tracker : Option Tracker} (hstart : Unseeded tracker)
    {ticks : List CronTick} (horder : ticks.Pairwise (·.now < ·.now))
    (hvalid : ∀ tick ∈ ticks, ∀ after ≤ tick.now, (computeNextCronRun cron after).isSome) :
    (watch cron.schedule).Guarded (Faithful cron.schedule) ⟨tracker, beginning ticks⟩ ticks ↔
      (watch cron.schedule).Guarded (fun s tick => ¬Disturbing cron.schedule s.tracker tick)
        ⟨tracker, beginning ticks⟩ ticks :=
  guarded_faithful_iff cron.schedule hstart horder hvalid

/-- The schedule `0 * * * *`. -/
def hourly : Cron :=
  ⟨[0], List.range 24, List.range' 1 31, List.range' 1 12, List.range 7, true, true⟩

theorem search_hourly (steps : Nat) {candidate : Nat} (hbound : candidate ≤ lastMinute) :
    hourly.search (steps + 1) candidate =
      if candidate % 60 = 0 then some candidate else hourly.search steps (candidate + 1) := by
  have hmonth : hourly.monthOk (candidate / 1440) = true := by
    simp only [Cron.monthOk, hourly, List.contains_iff_mem, List.mem_range'_1]
    omega
  have hday : hourly.dayOk (candidate / 1440) = true := rfl
  have hhour : hourly.hours.contains (candidate / 60 % 24) = true := by
    simp only [hourly, List.contains_iff_mem, List.mem_range]
    omega
  rw [Cron.search, if_neg (by omega), if_neg (by rw [hmonth]; decide),
    if_neg (by rw [hday]; decide), if_neg (by rw [hhour]; decide)]
  by_cases hwhole : candidate % 60 = 0 <;> simp [hourly, hwhole]

theorem isSome_search_hourly {wait steps candidate : Nat} (hwhole : (candidate + wait) % 60 = 0)
    (hsteps : wait < steps) (hbound : candidate + wait ≤ lastMinute) :
    (hourly.search steps candidate).isSome := by
  induction wait generalizing steps candidate with
  | zero =>
    obtain ⟨steps, rfl⟩ : ∃ k, steps = k + 1 := ⟨steps - 1, by omega⟩
    rw [Nat.add_zero] at hwhole hbound
    rw [search_hourly steps hbound, if_pos hwhole]
    rfl
  | succ wait ih =>
    obtain ⟨steps, rfl⟩ : ∃ k, steps = k + 1 := ⟨steps - 1, by omega⟩
    rw [search_hourly steps (by omega)]
    split
    · rfl
    · exact ih (by omega) (by omega) (by omega)

theorem isSome_next_hourly {after : Nat} (hle : after ≤ lastMinute * minute - hour) :
    (computeNextCronRun hourly after).isSome := by
  have hminutes : after / minute + 60 ≤ lastMinute := by
    have hdiv := Nat.div_le_div_right (c := minute) hle
    have hlast : (lastMinute * minute - hour) / minute = lastMinute - 60 := by decide
    have hlarge : 60 ≤ lastMinute := by decide
    omega
  rw [computeNextCronRun, Option.isSome_map]
  have hwhole : (after / minute + 1 + (59 - after / minute % 60)) % 60 = 0 := by omega
  exact isSome_search_hourly hwhole (Nat.lt_of_le_of_lt (Nat.sub_le _ _) (by decide)) (by omega)

/-- An instant of the fifth of January 2026. -/
def clock (hours minutes : Nat) : Nat :=
  739620 * day + hours * hour + minutes * minute

/-- The first run is fired, the second one skipped, and a minute later it is fired all the same. -/
def hourlyTicks : List CronTick :=
  [⟨clock 8 30, .fire, .dqOnly, "a", .table (some "1") none⟩,
    ⟨clock 9 0, .fire, .dqOnly, "b", .table (some "2") none⟩,
    ⟨clock 10 0, .skip, .dqOnly, "c", .table (some "3") none⟩,
    ⟨clock 10 1, .fire, .dqOnly, "d", .table (some "4") none⟩]

theorem hourlyTicks_valid :
    ∀ tick ∈ hourlyTicks, ∀ after ≤ tick.now, (computeNextCronRun hourly after).isSome := by
  intro tick htick after hafter
  have hnow : ∀ tick ∈ hourlyTicks, tick.now ≤ lastMinute * minute - hour := by decide
  exact isSome_next_hourly (Nat.le_trans hafter (hnow tick htick))

theorem skipped_stays_skipped_hourly :
    (watch hourly.schedule).Guarded (Faithful hourly.schedule) ⟨none, beginning hourlyTicks⟩
        hourlyTicks ↔
      (watch hourly.schedule).Guarded (fun s tick => ¬Disturbing hourly.schedule s.tracker tick)
        ⟨none, beginning hourlyTicks⟩ hourlyTicks :=
  skipped_stays_skipped hourly unseeded_none (by decide) hourlyTicks_valid

theorem skipped_occurrence_fires :
    ¬∀ (cron : Cron) (tracker : Option Tracker) (ticks : List CronTick), Unseeded tracker →
      ticks.Pairwise (·.now < ·.now) →
      (∀ tick ∈ ticks, ∀ after ≤ tick.now, (computeNextCronRun cron after).isSome) →
      (watch cron.schedule).Guarded (Faithful cron.schedule) ⟨tracker, beginning ticks⟩ ticks := by
  intro h
  obtain ⟨-, -, -, hlast, -⟩ := h hourly none hourlyTicks unseeded_none (by decide) hourlyTicks_valid
  obtain ⟨t, hoccurs, hlow, hle⟩ := hlast.1 rfl
  have hnext : hourly.schedule.next (clock 10 0) = some (clock 11 0) := by rfl
  have := Schedule.next_le hnext hlow hoccurs
  exact absurd (Nat.le_trans this hle) (by decide)

end Dqx.Scheduler
