import Dqx.Scheduler.ScopeTick
import Dqx.Lib.Run

/-! Whether a due occurrence of a scope schedule can be dropped. A tick that recalculates the schedules
looks for their next runs from a second ago on, and forgets the runs that are due but were not yet
processed, or deferred. -/

namespace Dqx.Scheduler

open Lib

/-- Every occurrence since the first seeding was followed by a tick that fired the schedule or
recorded a skip, or the next run is no later than it. -/
def Kept (cfg : ScopeConfig) (s : WatchedScope) : Prop :=
  ∀ d, cfg.Occurs d → (∃ a, s.seededAt = some a ∧ a ≤ d) →
    (∃ h, s.handledAt = some h ∧ d ≤ h) ∨ ∃ n, s.tracker.bind (·.nextRunAt) = some n ∧ n ≤ d

/-- The tick fires a run that is due, or records its skip. -/
def ScopeRun.acts (run : ScopeRun) : Bool :=
  match run.overlap with
  | some .fire => true
  | some .skip => run.skipWritten
  | _ => false

/-- A tick recalculates a schedule with an occurrence that is at least a second old and was neither
fired nor skipped, and does neither itself. -/
def Drops (cfg : ScopeConfig) (s : WatchedScope) (now : Nat) (recalc : Bool) (run : ScopeRun) : Prop :=
  recalc = true ∧ run.readable = true ∧ run.seedWritten = true ∧
    (∃ computed, computeFromLastSecond cfg now = some computed ∧
      ¬(computed ≤ now ∧ run.acts = true)) ∧
    ∃ d, cfg.Occurs d ∧ (∃ a, s.seededAt = some a ∧ a ≤ d) ∧
      (∀ h, s.handledAt = some h → h < d) ∧ d + second ≤ now

theorem nextRunAt_advanceAfterFailure {cfg : ScopeConfig} {row : Tracker} {now nextRun d : Nat}
    {run : ScopeRun} (hrow : row.nextRunAt = some nextRun) (hdue : nextRun ≤ now)
    (hoccurs : cfg.Occurs d) (hd : now < d) :
    ∃ n, (advanceAfterFailure cfg row now run).nextRunAt = some n ∧ n ≤ d := by
  obtain ⟨found, hle, hfound⟩ := computeNextRun_le hoccurs hd
  simp only [advanceAfterFailure, hfound, Option.getD_some]
  split
  · exact ⟨found, rfl, hle⟩
  · exact ⟨nextRun, hrow, by omega⟩

theorem nextRunAt_finishRun {cfg : ScopeConfig} {row : Tracker} {now nextRun d : Nat}
    {run : ScopeRun} (hrow : row.nextRunAt = some nextRun) (hdue : nextRun ≤ now)
    (hoccurs : cfg.Occurs d) (hd : now < d) :
    ∃ n, (finishRun cfg row now run).nextRunAt = some n ∧ n ≤ d := by
  obtain ⟨found, hle, hfound⟩ := computeNextRun_le hoccurs hd
  have hfailure : ∃ n, (advanceAfterFailure cfg row now run).nextRunAt = some n ∧ n ≤ d :=
    nextRunAt_advanceAfterFailure hrow hdue hoccurs hd
  unfold finishRun
  rw [hfound]
  cases run.trigger with
  | none => exact hfailure
  | some result =>
    dsimp only
    split
    · exact ⟨found, rfl, hle⟩
    · exact hfailure

/-- What a tick does about a schedule: nothing, or it acts on a run that is due and leaves a next run
that passes over no occurrence. -/
theorem tickRun_cases (cfg : ScopeConfig) {row : Tracker} (tracker : Option Tracker)
    {nextRun : Nat} (now : Nat) (run : ScopeRun) (hrow : row.nextRunAt = some nextRun) :
    (tickRun cfg row tracker nextRun now run = (row, .idle) ∧ ¬(nextRun ≤ now ∧ run.acts = true)) ∨
    ((tickRun cfg row tracker nextRun now run).2 ≠ .idle ∧ nextRun ≤ now ∧ run.acts = true ∧
      ∀ d, cfg.Occurs d → now < d →
        ∃ n, (tickRun cfg row tracker nextRun now run).1.nextRunAt = some n ∧ n ≤ d) := by
  unfold tickRun
  split
  · exact .inl ⟨rfl, by omega⟩
  next hdue =>
  rw [Nat.not_lt] at hdue
  split
  · next hoverlap => exact .inl ⟨rfl, by simp [ScopeRun.acts, hoverlap]⟩
  · next hoverlap =>
    exact .inr ⟨by simp, hdue, by simp [ScopeRun.acts, hoverlap],
      fun d => nextRunAt_finishRun hrow hdue⟩
  · next hoverlap => exact .inl ⟨rfl, by simp [ScopeRun.acts, hoverlap]⟩
  · next hoverlap =>
    split
    · next hwritten =>
      refine .inr ⟨by simp, hdue, by simp [ScopeRun.acts, hoverlap, hwritten], fun d hoccurs hd => ?_⟩
      obtain ⟨found, hle, hfound⟩ := computeNextRun_le hoccurs hd
      exact ⟨found, by simp [recordSkip, upsertTracker, hfound], hle⟩
    · next hwritten => exact .inl ⟨rfl, by simp [ScopeRun.acts, hoverlap, hwritten]⟩

/-- The ticks so far are before `now`, and the tracker is seeded from the first seeding on. -/
structure Ordered (s : WatchedScope) (now : Nat) : Prop where
  seededAt : ∀ a, s.seededAt = some a → a < now
  handledAt : ∀ h, s.handledAt = some h → h < now
  seeded : s.seededAt.isSome = isSeeded s.tracker

/-- A schedule that was fired or skipped keeps its occurrences. -/
theorem kept_of_acted {cfg : ScopeConfig} {s : WatchedScope} {now : Nat}
    (hhandled : s.handledAt = some now)
    (hnext : ∀ d, cfg.Occurs d → now < d →
      ∃ n, s.tracker.bind (·.nextRunAt) = some n ∧ n ≤ d) : Kept cfg s := by
  intro d hoccurs _
  by_cases hd : d ≤ now
  · exact .inl ⟨now, hhandled, hd⟩
  · exact .inr (hnext d hoccurs (by omega))

/-- A next run that was computed from a second ago keeps the occurrences exactly when none of them is
older than that and still open. -/
theorem kept_recalculated {cfg : ScopeConfig} {s : WatchedScope} {now computed : Nat}
    (hcomputed : computeFromLastSecond cfg now = some computed)
    (hnext : s.tracker.bind (·.nextRunAt) = some computed) :
    Kept cfg s ↔ ¬∃ d, cfg.Occurs d ∧ (∃ a, s.seededAt = some a ∧ a ≤ d) ∧
      (∀ h, s.handledAt = some h → h < d) ∧ d + second ≤ now := by
  have hcompute : second ≤ now ∧ computeNextRun cfg (now - second) = some computed := by
    unfold computeFromLastSecond at hcomputed
    split at hcomputed
    · next hle => exact ⟨hle, hcomputed⟩
    · cases hcomputed
  obtain ⟨hle, hcompute⟩ := hcompute
  have hlt := lt_computeNextRun hcompute
  constructor
  · rintro hkept ⟨d, hoccurs, hseeded, hopen, hold⟩
    rcases hkept d hoccurs hseeded with ⟨h, hhandled, hdh⟩ | ⟨n, hn, hnd⟩
    · have := hopen h hhandled
      omega
    · obtain rfl : computed = n := Option.some.inj (hnext.symm.trans hn)
      omega
  · intro hnone d hoccurs hseeded
    by_cases hold : d + second ≤ now
    · refine .inl ?_
      by_contra hopen
      refine hnone ⟨d, hoccurs, hseeded, fun h hhandled => ?_, hold⟩
      by_contra hge
      exact hopen ⟨h, hhandled, by omega⟩
    · have hafter : now - second < d := by omega
      obtain ⟨found, hfoundLe, hfound⟩ := computeNextRun_le hoccurs hafter
      obtain rfl : computed = found := Option.some.inj (hcompute.symm.trans hfound)
      exact .inr ⟨computed, hnext, hfoundLe⟩

variable {cfg : ScopeConfig} {s : WatchedScope} {now : Nat} {recalc : Bool} {run : ScopeRun}

theorem seededAt_or (hordered : Ordered s now) (seeded : Bool) :
    isSeeded s.tracker = true → s.seededAt.or (if seeded then some now else none) = s.seededAt := by
  intro hseeded
  rw [← hordered.seeded] at hseeded
  obtain ⟨a, ha⟩ := Option.isSome_iff_exists.mp hseeded
  rw [ha, Option.some_or]

theorem watchScope_of_unchanged (hordered : Ordered s now)
    (htick : tickScope cfg s.tracker now recalc run = (s.tracker, .idle)) :
    watchScope cfg s now recalc run = s := by
  have hseededAt : s.seededAt.or (if isSeeded s.tracker then some now else none) = s.seededAt := by
    cases hseeded : isSeeded s.tracker with
    | true => exact seededAt_or hordered true hseeded
    | false => simp
  unfold watchScope
  rw [htick]
  simp only [if_true, hseededAt]

theorem tickScope_eq_recalculate {tracker : Option Tracker} (hreadable : run.readable = true)
    (h : recalc = true ∨ isSeeded tracker = false) :
    tickScope cfg tracker now recalc run = recalculate cfg tracker now run := by
  cases tracker with
  | none => simp [tickScope, hreadable]
  | some row =>
    cases hnext : row.nextRunAt with
    | none => simp [tickScope, hreadable, hnext]
    | some nextRun =>
      have hrecalc : recalc = true := by simpa [isSeeded, hnext] using h
      simp [tickScope, hreadable, hnext, hrecalc]

theorem tickScope_eq_tickRun {tracker : Option Tracker} {row : Tracker} {nextRun : Nat}
    (hreadable : run.readable = true) (hrecalc : recalc = false) (hrow : tracker = some row)
    (hnext : row.nextRunAt = some nextRun) :
    tickScope cfg tracker now recalc run =
      (some (tickRun cfg row tracker nextRun now run).1,
        (tickRun cfg row tracker nextRun now run).2) := by
  subst hrow
  simp [tickScope, hreadable, hnext, hrecalc]

theorem kept_of_tickRun {row : Tracker} {nextRun : Nat}
    (htick : tickScope cfg s.tracker now recalc run =
      (some (tickRun cfg row s.tracker nextRun now run).1,
        (tickRun cfg row s.tracker nextRun now run).2))
    (hacted : (tickRun cfg row s.tracker nextRun now run).2 ≠ .idle)
    (hlater : ∀ d, cfg.Occurs d → now < d →
      ∃ n, (tickRun cfg row s.tracker nextRun now run).1.nextRunAt = some n ∧ n ≤ d) :
    Kept cfg (watchScope cfg s now recalc run) := by
  refine @kept_of_acted _ _ now ?_ ?_
  · simp only [watchScope, htick, if_neg hacted]
  · intro d hoccurs hd
    simpa only [watchScope, htick, Option.bind_some] using hlater d hoccurs hd

/-- The next run was computed again and the tick did not act on it. -/
theorem kept_reseeded {computed : Nat} (hordered : Ordered s now) (hreadable : run.readable = true)
    (hwritten : run.seedWritten = true) (hcause : recalc = true ∨ isSeeded s.tracker = false)
    (hcomputed : computeFromLastSecond cfg now = some computed)
    (hnot : ¬(computed ≤ now ∧ run.acts = true))
    (htick : tickScope cfg s.tracker now recalc run =
      (some (reseedTracker s.tracker computed), .idle)) :
    Kept cfg (watchScope cfg s now recalc run) ↔ ¬Drops cfg s now recalc run := by
  have hwatch : watchScope cfg s now recalc run =
      ⟨some (reseedTracker s.tracker computed), s.seededAt.or (some now), s.handledAt⟩ := by
    unfold watchScope
    rw [htick]
    rfl
  rw [hwatch, kept_recalculated hcomputed rfl, not_iff_not]
  cases hseeded : isSeeded s.tracker with
  | true =>
    have hrecalc : recalc = true := by simpa [hseeded] using hcause
    have hsame : s.seededAt.or (some now) = s.seededAt := seededAt_or hordered true hseeded
    simp only [hsame]
    constructor
    · exact fun hopen => ⟨hrecalc, hreadable, hwritten, ⟨computed, hcomputed, hnot⟩, hopen⟩
    · exact fun hdrops => hdrops.2.2.2.2
  | false =>
    have hnone : s.seededAt = none := by
      have := hordered.seeded
      rw [hseeded] at this
      simpa using this
    apply iff_of_false
    · rintro ⟨d, -, ⟨a, ha, had⟩, -, hold⟩
      simp only [hnone, Option.none_or] at ha
      obtain rfl := Option.some.inj ha
      simp only [second] at hold
      omega
    · rintro ⟨-, -, -, -, d, -, ⟨a, ha, -⟩, -⟩
      rw [hnone] at ha
      cases ha

/-- A schedule whose next run is computed again keeps its occurrences exactly when the tick drops
none. -/
theorem kept_recalculate (hordered : Ordered s now) (hkept : Kept cfg s)
    (hreadable : run.readable = true) (hcause : recalc = true ∨ isSeeded s.tracker = false) :
    Kept cfg (watchScope cfg s now recalc run) ↔ ¬Drops cfg s now recalc run := by
  have htick : tickScope cfg s.tracker now recalc run = recalculate cfg s.tracker now run :=
    tickScope_eq_recalculate hreadable hcause
  cases hcomputed : computeFromLastSecond cfg now with
  | none =>
    rw [watchScope_of_unchanged hordered (by rw [htick, recalculate, hcomputed])]
    refine iff_of_true hkept ?_
    rintro ⟨-, -, -, ⟨computed, hsome, -⟩, -⟩
    rw [hcomputed] at hsome
    cases hsome
  | some computed =>
    by_cases hwritten : run.seedWritten = true
    · simp only [recalculate, hcomputed, hwritten, if_true] at htick
      have hrow : (reseedTracker s.tracker computed).nextRunAt = some computed := rfl
      rcases tickRun_cases cfg s.tracker now run hrow with
        ⟨hidle, hnot⟩ | ⟨hacted, hdue, hacts, hlater⟩
      · rw [hidle] at htick
        exact kept_reseeded hordered hreadable hwritten hcause hcomputed hnot htick
      · refine iff_of_true (kept_of_tickRun htick hacted hlater) ?_
        rintro ⟨-, -, -, ⟨other, hother, hnot⟩, -⟩
        obtain rfl : computed = other := Option.some.inj (hcomputed.symm.trans hother)
        exact hnot ⟨hdue, hacts⟩
    · rw [watchScope_of_unchanged hordered
        (by rw [htick, recalculate, hcomputed]; simp [hwritten])]
      exact iff_of_true hkept fun h => hwritten h.2.2.1

/-- The turn of a schedule keeps its occurrences exactly when it drops none. -/
theorem kept_watchScope (hordered : Ordered s now) (hkept : Kept cfg s) :
    Kept cfg (watchScope cfg s now recalc run) ↔ ¬Drops cfg s now recalc run := by
  by_cases hreadable : run.readable = true
  · by_cases hcause : recalc = true ∨ isSeeded s.tracker = false
    · exact kept_recalculate hordered hkept hreadable hcause
    · obtain ⟨hrecalc, hseeded⟩ := not_or.mp hcause
      rw [Bool.not_eq_true] at hrecalc
      rw [Bool.not_eq_false] at hseeded
      have hquiet : ¬Drops cfg s now recalc run := fun h => by
        rw [h.1] at hrecalc
        cases hrecalc
      refine iff_of_true ?_ hquiet
      obtain ⟨nextRun, hnext⟩ := Option.isSome_iff_exists.mp hseeded
      obtain ⟨row, hrow, hnext⟩ := Option.bind_eq_some_iff.mp hnext
      have htick : tickScope cfg s.tracker now recalc run = _ :=
        tickScope_eq_tickRun hreadable hrecalc hrow hnext
      rcases tickRun_cases cfg s.tracker now run hnext with ⟨hidle, -⟩ | ⟨hacted, -, -, hlater⟩
      · rw [hidle, ← hrow] at htick
        rwa [watchScope_of_unchanged hordered htick]
      · exact kept_of_tickRun htick hacted hlater
  · rw [watchScope_of_unchanged hordered (by simp [tickScope, hreadable])]
    exact iff_of_true hkept fun h => hreadable h.2.1

theorem isSome_nextRunAt_finishRun {row : Tracker} (h : row.nextRunAt.isSome) :
    (finishRun cfg row now run).nextRunAt.isSome := by
  have hfailure : (advanceAfterFailure cfg row now run).nextRunAt.isSome := by
    unfold advanceAfterFailure
    split
    · rfl
    · exact h
  unfold finishRun
  split
  · split
    · rfl
    · exact hfailure
  · exact hfailure

theorem isSome_nextRunAt_tickRun {row : Tracker} {tracker : Option Tracker} {nextRun : Nat}
    (h : row.nextRunAt.isSome) : (tickRun cfg row tracker nextRun now run).1.nextRunAt.isSome := by
  unfold tickRun
  split
  · exact h
  split
  · exact h
  · exact isSome_nextRunAt_finishRun h
  · exact h
  · split
    · rfl
    · exact h

/-- A seeded tracker stays seeded. -/
theorem isSeeded_tickScope {tracker : Option Tracker} (h : isSeeded tracker = true) :
    isSeeded (tickScope cfg tracker now recalc run).1 = true := by
  obtain ⟨nextRun, hnext⟩ := Option.isSome_iff_exists.mp h
  obtain ⟨row, hrow, hnext⟩ := Option.bind_eq_some_iff.mp hnext
  by_cases hreadable : run.readable = true
  · cases hrecalc : recalc with
    | false =>
      rw [tickScope_eq_tickRun hreadable rfl hrow hnext]
      exact isSome_nextRunAt_tickRun (by rw [hnext]; rfl)
    | true =>
      rw [tickScope_eq_recalculate hreadable (.inl rfl)]
      unfold recalculate
      split
      · exact h
      · split
        · exact isSome_nextRunAt_tickRun rfl
        · exact h
  · simpa [tickScope, hreadable] using h

theorem ordered_watchScope (hordered : Ordered s now) {later : Nat} (hlater : now < later) :
    Ordered (watchScope cfg s now recalc run) later := by
  have hseeded : isSeeded s.tracker = true →
      isSeeded (tickScope cfg s.tracker now recalc run).1 = true := isSeeded_tickScope
  constructor
  · intro a ha
    simp only [watchScope, Option.or_eq_some_iff, Option.ite_none_right_eq_some] at ha
    rcases ha with hbefore | ⟨-, -, hnow⟩
    · have := hordered.seededAt a hbefore
      omega
    · obtain rfl := Option.some.inj hnow
      exact hlater
  · intro h hh
    simp only [watchScope] at hh
    split at hh
    · have := hordered.handledAt h hh
      omega
    · obtain rfl := Option.some.inj hh
      exact hlater
  · simp only [watchScope, Option.isSome_or, hordered.seeded]
    cases hbefore : isSeeded s.tracker with
    | true => simp [hseeded hbefore]
    | false => cases isSeeded (tickScope cfg s.tracker now recalc run).1 <;> rfl

theorem takeTurn_other {tick : ScopeTick} {s : String → WatchedScope} {name : String}
    {entry : String × ScopeConfig} (hne : name ≠ entry.1) : takeTurn tick s entry name = s name := by
  unfold takeTurn
  split
  · exact Function.update_of_ne hne _ _
  · rfl

theorem tickConfigs_other {tick : ScopeTick} {configs : List (String × ScopeConfig)} {name : String}
    (hnot : name ∉ configs.map Prod.fst) (s : String → WatchedScope) :
    tickConfigs configs s tick name = s name := by
  induction configs generalizing s with
  | nil => rfl
  | cons entry configs ih =>
    rw [List.map_cons, List.mem_cons, not_or] at hnot
    calc tickConfigs (entry :: configs) s tick name
        = tickConfigs configs (takeTurn tick s entry) tick name := rfl
      _ = takeTurn tick s entry name := ih hnot.2 _
      _ = s name := takeTurn_other hnot.1

/-- A tick takes the turn of each active config, whatever the other configs are. -/
theorem tickConfigs_apply {configs : List (String × ScopeConfig)}
    (hnames : (configs.map Prod.fst).Nodup) {name : String} {cfg : ScopeConfig}
    (hmem : (name, cfg) ∈ configs) (hactive : cfg.active = true) (s : String → WatchedScope)
    (tick : ScopeTick) :
    tickConfigs configs s tick name =
      watchScope cfg (s name) tick.now tick.recalc (tick.runs name) := by
  induction configs generalizing s with
  | nil => cases hmem
  | cons entry configs ih =>
    obtain ⟨hfresh, hrest⟩ := List.nodup_cons.mp hnames
    have hcons : tickConfigs (entry :: configs) s tick name =
        tickConfigs configs (takeTurn tick s entry) tick name := rfl
    rcases List.mem_cons.mp hmem with rfl | hmem
    · rw [hcons, tickConfigs_other hfresh]
      simp [takeTurn, hactive]
    · have hne : name ≠ entry.1 := fun h => hfresh (h ▸ List.mem_map_of_mem hmem)
      rw [hcons, ih hrest hmem, takeTurn_other hne]

def ticker (configs : List (String × ScopeConfig)) :
    Machine (String → WatchedScope) ScopeTick Unit where
  step s tick := (tickConfigs configs s tick, ())

/-- No tracker exists before the first tick. -/
def unseeded : String → WatchedScope := fun _ => ⟨none, none, none⟩

/-- In a run of ticks no due occurrence of an active schedule is dropped exactly when no tick
recalculates a schedule with an occurrence that is at least a second old and still open, without
acting on it. -/
theorem due_occurrences_kept (configs : List (String × ScopeConfig))
    (hnames : (configs.map Prod.fst).Nodup) {ticks : List ScopeTick}
    (horder : ticks.Pairwise (·.now < ·.now)) :
    (ticker configs).Guarded
        (fun s tick => ∀ name cfg, (name, cfg) ∈ configs → cfg.active = true →
          Kept cfg (tickConfigs configs s tick name)) unseeded ticks ↔
      (ticker configs).Guarded
        (fun s tick => ∀ name cfg, (name, cfg) ∈ configs → cfg.active = true →
          ¬Drops cfg (s name) tick.now tick.recalc (tick.runs name)) unseeded ticks := by
  refine (ticker configs).guarded_iff
    (I := fun s tick => ∀ name cfg, (name, cfg) ∈ configs → cfg.active = true →
      Ordered (s name) tick.now ∧ Kept cfg (s name))
    (V := fun _ => True) ?_ ?_ (fun _ _ => trivial) horder
  · intro s tick hinvariant _
    have hstep : ∀ name cfg, (name, cfg) ∈ configs → cfg.active = true →
        (Kept cfg (tickConfigs configs s tick name) ↔
          ¬Drops cfg (s name) tick.now tick.recalc (tick.runs name)) := by
      intro name cfg hmem hactive
      obtain ⟨hordered, hkept⟩ := hinvariant name cfg hmem hactive
      rw [tickConfigs_apply hnames hmem hactive]
      exact kept_watchScope hordered hkept
    refine ⟨forall₄_congr hstep, fun hquiet next hlater name cfg hmem hactive => ?_⟩
    refine ⟨?_, (hstep name cfg hmem hactive).mpr (hquiet name cfg hmem hactive)⟩
    have happly := tickConfigs_apply hnames hmem hactive s tick
    rw [show ((ticker configs).step s tick).1 name = _ from happly]
    exact ordered_watchScope (hinvariant name cfg hmem hactive).1 hlater
  · intro tick _ name cfg _ _
    refine ⟨⟨nofun, nofun, rfl⟩, ?_⟩
    rintro d - ⟨a, ha, -⟩
    cases ha

/-- A schedule at every full hour. -/
def everyHour : ScopeConfig := ⟨.hourly, 0, 0, 0, 1, false⟩

/-- The reads and writes go through, and the run is submitted. -/
def smoothRun : ScopeRun := ⟨true, true, some .fire, true, "a", some (false, ["1"]), true, true⟩

/-- The second tick comes a minute behind the full hour, before its run is processed. -/
def hastyTicks : List ScopeTick :=
  [⟨29 * minute, false, fun _ => smoothRun⟩, ⟨61 * minute, true, fun _ => smoothRun⟩]

theorem due_occurrences_kept_everyHour :
    (ticker [("sales", everyHour)]).Guarded
        (fun s tick => ∀ name cfg, (name, cfg) ∈ [("sales", everyHour)] → cfg.active = true →
          Kept cfg (tickConfigs [("sales", everyHour)] s tick name)) unseeded hastyTicks ↔
      (ticker [("sales", everyHour)]).Guarded
        (fun s tick => ∀ name cfg, (name, cfg) ∈ [("sales", everyHour)] → cfg.active = true →
          ¬Drops cfg (s name) tick.now tick.recalc (tick.runs name)) unseeded hastyTicks :=
  due_occurrences_kept [("sales", everyHour)] (by simp) (by simp [hastyTicks, minute, second])

theorem recalculated_occurrence_dropped :
    ¬∀ (configs : List (String × ScopeConfig)) (ticks : List ScopeTick),
      (configs.map Prod.fst).Nodup → ticks.Pairwise (·.now < ·.now) →
      (ticker configs).Guarded
        (fun s tick => ∀ name cfg, (name, cfg) ∈ configs → cfg.active = true →
          Kept cfg (tickConfigs configs s tick name)) unseeded ticks := by
  intro h
  obtain ⟨-, hkept, -⟩ := h [("sales", everyHour)] hastyTicks (by simp)
    (by simp [hastyTicks, minute, second])
  have happly := @tickConfigs_apply [("sales", everyHour)] (by simp) "sales" everyHour
    List.mem_cons_self rfl
  have hsales := hkept "sales" everyHour List.mem_cons_self rfl
  have hfirst : computeFromLastSecond everyHour (29 * minute) = some hour := by decide
  have hsecond : computeFromLastSecond everyHour (61 * minute) = some (2 * hour) := by decide
  have hseeded : watchScope everyHour ⟨none, none, none⟩ (29 * minute) false smoothRun =
      ⟨some ⟨none, some hour, none, some .pending, false⟩, some (29 * minute), none⟩ := by
    have hfuture : 29 * minute < hour := by decide
    simp [watchScope, tickScope, recalculate, hfirst, tickRun, hfuture, smoothRun,
      reseedTracker, upsertTracker, isSeeded]
  have hrecalculated : watchScope everyHour
        ⟨some ⟨none, some hour, none, some .pending, false⟩, some (29 * minute), none⟩
        (61 * minute) true smoothRun =
      ⟨some ⟨none, some (2 * hour), none, some .pending, false⟩, some (29 * minute), none⟩ := by
    have hfuture : 61 * minute < 2 * hour := by decide
    simp [watchScope, tickScope, recalculate, hsecond, tickRun, hfuture, smoothRun,
      reseedTracker, upsertTracker, isSeeded]
  simp only [ticker, happly, unseeded, hseeded, hrecalculated] at hsales
  rcases hsales hour ⟨by decide, rfl⟩ ⟨29 * minute, rfl, by decide⟩ with ⟨_, hnone, -⟩ | ⟨n, hn, hle⟩
  · cases hnone
  · obtain rfl := Option.some.inj hn
    exact absurd hle (by decide)

end Dqx.Scheduler
