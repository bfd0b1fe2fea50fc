import Dqx.Scheduler.ScoreRuns
import Mathlib.Data.Finset.Lattice.Lemmas

/-! What a pass does with one run: the run stays tracked, is observed through its terminal rows, or is
dropped. -/

namespace Dqx.Scheduler

open Lib

/-- The pass finds a terminal row of `run` in `dq_validation_runs`. -/
def ScorePass.Landed (pass : ScorePass) (run : String) : Prop :=
  ∃ row ∈ pass.table, row.runId = run ∧ row.status ≠ .running

/-- The Jobs API lists `run` among the executing runs. -/
def ScorePass.Lists (pass : ScorePass) (run : String) : Prop :=
  pass.jobsAnswer = true ∧ run ∈ pass.executing

/-- The pass looks `run` up, which is tracked from `since`: the Jobs API fails, or has the run
finished, and it was listed before or is past the grace period. -/
def ScorePass.LooksUp (pass : ScorePass) (run : String) (since : Nat) (listed : Prop) : Prop :=
  pass.jobsAnswer = false ∨ run ∉ pass.executing ∧ (listed ∨ pastJobStateGrace pass.now since)

/-- The pass comes at most 24 hours after `since`. -/
def ScorePass.InTime (pass : ScorePass) (since : Nat) : Prop :=
  scoreRunExpired pass.now since = false

instance (pass : ScorePass) (run : String) : Decidable (pass.Landed run) :=
  inferInstanceAs (Decidable (∃ row ∈ pass.table, row.runId = run ∧ row.status ≠ .running))

instance (pass : ScorePass) (run : String) : Decidable (pass.Lists run) :=
  inferInstanceAs (Decidable (_ ∧ _))

instance (pass : ScorePass) (run : String) (since : Nat) (listed : Prop) [Decidable listed] :
    Decidable (pass.LooksUp run since listed) :=
  inferInstanceAs (Decidable (_ ∨ _ ∧ (_ ∨ _)))

instance (pass : ScorePass) (since : Nat) : Decidable (pass.InTime since) :=
  inferInstanceAs (Decidable (_ = _))

/-- The pass reads terminal rows of `run`. -/
def Completed.Observes (completed : Completed) (run : String) : Prop :=
  ∃ row ∈ completed.rows, row.runId = run

instance (completed : Completed) (run : String) : Decidable (completed.Observes run) :=
  inferInstanceAs (Decidable (∃ row ∈ completed.rows, row.runId = run))

namespace ScoreRuns

variable {s : ScoreRuns} {run : String} {since : Nat}

theorem mem_tracked : run ∈ s.tracked ↔ (s.pending.lookup run).isSome := by
  simp [tracked, List.lookup_isSome_iff]

theorem lookup_forget (runs : Finset String) :
    (s.forget runs).pending.lookup run = if run ∈ runs then none else s.pending.lookup run := by
  rw [forget, lookup_filter_key (fun key => decide (key ∉ runs)) run]
  by_cases h : run ∈ runs
  · simp [h]
  · simp [h]

/-- `run` is tracked from `since`; `listed` and `missing` tell whether it was listed as active, and
whether a lookup found no row of it. -/
structure Tracks (s : ScoreRuns) (run : String) (since : Nat) (listed missing : Prop) : Prop where
  pending : s.pending.lookup run = some since
  seen : run ∈ s.seen
  seenActive : run ∈ s.seenActive ↔ listed
  missingRow : run ∈ s.missingRow ↔ missing

variable {listed missing : Prop}

theorem Tracks.mem_tracked (h : s.Tracks run since listed missing) : run ∈ s.tracked := by
  rw [ScoreRuns.mem_tracked, h.pending]
  rfl

theorem Tracks.forget (h : s.Tracks run since listed missing) {runs : Finset String}
    (hrun : run ∉ runs) : (s.forget runs).Tracks run since listed missing where
  pending := by rw [lookup_forget, if_neg hrun, h.pending]
  seen := h.seen
  seenActive := by
    rw [← h.seenActive]
    simp [ScoreRuns.forget, hrun]
  missingRow := by
    rw [← h.missingRow]
    simp [ScoreRuns.forget, hrun]

theorem lookup_forget_of_mem {runs : Finset String} (hrun : run ∈ runs) :
    (s.forget runs).pending.lookup run = none := by
  rw [lookup_forget, if_pos hrun]

/-! ### The sweep -/

theorem lookup_map_const {α : Type} (rows : List String) (value : α) (hrun : run ∉ rows) :
    (rows.map (·, value)).lookup run = none := by
  rw [List.lookup_eq_none_iff]
  simp only [List.mem_map, forall_exists_index, and_imp]
  rintro _ row hrow rfl
  rw [bne_iff_ne]
  rintro rfl
  exact hrun hrow

/-- A sweep leaves the pending time of a run that it does not add. -/
theorem lookup_sweep {now : Nat} {window : Option (List String)}
    (hrun : ∀ rows, window = some rows → run ∈ rows → run ∈ s.seen) :
    (s.sweepRecentRunSets now window).pending.lookup run = s.pending.lookup run := by
  cases window with
  | none => rfl
  | some rows =>
    have hunseen : run ∉ (rows.filter (· ≠ "")).filter (· ∉ s.seen) := by
      intro hmem
      simp only [List.mem_filter, decide_eq_true_eq] at hmem
      exact hmem.2 (hrun rows rfl hmem.1.1)
    dsimp only [sweepRecentRunSets]
    rw [List.lookup_append, lookup_map_const _ _ hunseen, Option.none_or,
      lookup_filter_key (fun key => decide (key ∉ (rows.filter (· ≠ "")).filter (· ∉ s.seen)))]
    rw [if_pos (decide_eq_true hunseen)]

theorem Tracks.sweep (h : s.Tracks run since listed missing) (now : Nat)
    (window : Option (List String)) :
    (s.sweepRecentRunSets now window).Tracks run since listed missing := by
  have hpending : (s.sweepRecentRunSets now window).pending.lookup run = some since := by
    rw [lookup_sweep fun _ _ _ => h.seen, h.pending]
  cases window with
  | none => exact h
  | some rows =>
    refine ⟨hpending, ?_, h.seenActive, h.missingRow⟩
    have hmem : run ∈ (s.sweepRecentRunSets now (some rows)).tracked := by
      rw [ScoreRuns.mem_tracked, hpending]
      rfl
    have hkey := List.mem_toFinset.mp hmem
    simp only [sweepRecentRunSets] at hkey ⊢
    exact Finset.mem_inter.mpr ⟨Finset.mem_union_left _ h.seen,
      List.mem_toFinset.mpr (List.mem_append_right _ hkey)⟩

/-- A run that the scheduler launches is tracked. -/
theorem tracks_trackRunForScoreRefresh (launched : Nat) (hactive : run ∉ s.seenActive)
    (hmissing : run ∉ s.missingRow) :
    (s.trackRunForScoreRefresh run launched).Tracks run launched False False where
  pending := by simp [trackRunForScoreRefresh]
  seen := Finset.mem_insert_self _ _
  seenActive := iff_of_false hactive id
  missingRow := iff_of_false hmissing id

theorem lookup_map_of_mem {α : Type} {rows : List String} (value : α) (hrun : run ∈ rows) :
    (rows.map (·, value)).lookup run = some value := by
  induction rows with
  | nil => cases hrun
  | cons row rows ih =>
    rw [List.map_cons, List.lookup_cons]
    by_cases h : run = row
    · simp [h]
    · rw [beq_false_of_ne h]
      exact ih ((List.mem_cons.mp hrun).resolve_left h)

/-- A run that a sweep lists for the first time is tracked. -/
theorem tracks_sweep {now : Nat} {rows : List String} (hname : run ≠ "") (hrun : run ∈ rows)
    (hseen : run ∉ s.seen) (hactive : run ∉ s.seenActive) (hmissing : run ∉ s.missingRow) :
    (s.sweepRecentRunSets now (some rows)).Tracks run now False False := by
  have hwindow : run ∈ rows.filter (· ≠ "") := by simp [hrun, hname]
  have hunseen : run ∈ (rows.filter (· ≠ "")).filter (· ∉ s.seen) := by simp [hrun, hname, hseen]
  refine ⟨?_, ?_, iff_of_false hactive id, iff_of_false hmissing id⟩
  · dsimp only [sweepRecentRunSets]
    rw [List.lookup_append, lookup_map_of_mem now hunseen, Option.some_or]
  · exact Finset.mem_inter.mpr ⟨Finset.mem_union_right _ (List.mem_toFinset.mpr hunseen),
      List.mem_toFinset.mpr (List.mem_append_left _ hwindow)⟩

/-- Sweeping twice is sweeping once. -/
theorem sweep_sweep (now : Nat) (window : Option (List String)) :
    (s.sweepRecentRunSets now window).sweepRecentRunSets now window =
      s.sweepRecentRunSets now window := by
  cases window with
  | none => rfl
  | some rows =>
    have hseen : ∀ run ∈ rows.filter (· ≠ ""), run ∈ (s.sweepRecentRunSets now (some rows)).seen := by
      intro run hrun
      refine Finset.mem_inter.mpr ⟨?_, List.mem_toFinset.mpr (List.mem_append_left _ hrun)⟩
      by_cases h : run ∈ s.seen
      · exact Finset.mem_union_left _ h
      · exact Finset.mem_union_right _ (List.mem_toFinset.mpr (by simpa [h] using hrun))
    have hunseen : (rows.filter (· ≠ "")).filter
        (· ∉ (s.sweepRecentRunSets now (some rows)).seen) = [] := by
      rw [List.filter_eq_nil_iff]
      intro run hrun
      simpa using hseen run hrun
    generalize hswept : s.sweepRecentRunSets now (some rows) = swept at hseen hunseen ⊢
    have hbound : swept.seen ⊆
        (rows.filter (· ≠ "") ++ swept.pending.map Prod.fst).toFinset := by
      rw [← hswept]
      exact Finset.inter_subset_right
    cases swept
    simp only [sweepRecentRunSets, hunseen] at hbound ⊢
    simp only [List.map_nil, List.nil_append, List.not_mem_nil, not_false_eq_true, decide_true,
      List.filter_true, List.toFinset_nil, Finset.union_empty, Finset.inter_eq_left.mpr hbound]

/-! ### The expiry -/

theorem Tracks.mem_expired (h : s.Tracks run since listed missing) (now : Nat) :
    run ∈ (s.tracked.filter fun run => (s.pending.lookup run).any (scoreRunExpired now)) ↔
      scoreRunExpired now since = true := by
  rw [Finset.mem_filter, h.pending, Option.any_some]
  exact and_iff_right h.mem_tracked

theorem Tracks.expire (h : s.Tracks run since listed missing) {now : Nat}
    (hnow : scoreRunExpired now since = false) : (s.expire now).Tracks run since listed missing := by
  apply h.forget
  rw [h.mem_expired, hnow]
  exact Bool.false_ne_true

theorem lookup_expire_none {now : Nat} (h : s.pending.lookup run = none) :
    (s.expire now).pending.lookup run = none := by
  rw [ScoreRuns.expire, lookup_forget, h, ite_self]

theorem Tracks.expired (h : s.Tracks run since listed missing) {now : Nat}
    (hnow : scoreRunExpired now since = true) : (s.expire now).pending.lookup run = none :=
  lookup_forget_of_mem ((h.mem_expired now).mpr hnow)

/-! ### The lookup -/

variable {pass : ScorePass}

theorem active_eq_none (h : pass.jobsAnswer = false) : pass.active = none := by
  rw [ScorePass.active, h]
  rfl

theorem active_eq_some (h : pass.jobsAnswer = true) : pass.active = some pass.executing := by
  rw [ScorePass.active, h]
  rfl

theorem runsWithFinishedJobs_some (now : Nat) (active : List String) :
    (s.runsWithFinishedJobs now (some active)).1 =
      { s with seenActive := s.seenActive ∪ (active.toFinset ∩ s.tracked) } := rfl

theorem runsWithFinishedJobs_subset (now : Nat) (active : Option (List String)) :
    (s.runsWithFinishedJobs now active).2 ⊆ s.tracked := by
  cases active with
  | none => exact Finset.Subset.refl _
  | some active => exact (Finset.filter_subset _ _).trans Finset.sdiff_subset

theorem Tracks.runsWithFinishedJobs (h : s.Tracks run since listed missing) (pass : ScorePass) :
    (s.runsWithFinishedJobs pass.now pass.active).1.Tracks run since (listed ∨ pass.Lists run)
      missing := by
  cases hanswer : pass.jobsAnswer with
  | false =>
    rw [active_eq_none hanswer]
    refine ⟨h.pending, h.seen, ?_, h.missingRow⟩
    show run ∈ s.seenActive ↔ _
    simpa [ScorePass.Lists, hanswer] using h.seenActive
  | true =>
    rw [active_eq_some hanswer, runsWithFinishedJobs_some]
    refine ⟨h.pending, h.seen, ?_, h.missingRow⟩
    simp only [ScorePass.Lists, hanswer, Finset.mem_union, Finset.mem_inter, List.mem_toFinset,
      h.seenActive, h.mem_tracked, and_true, true_and]

theorem mem_runsWithFinishedJobs_some (now : Nat) (active : List String) :
    run ∈ (s.runsWithFinishedJobs now (some active)).2 ↔
      (run ∈ s.tracked ∧ run ∉ active) ∧
        ((run ∈ s.seenActive ∨ run ∈ active ∧ run ∈ s.tracked) ∨
          (s.pending.lookup run).any (pastJobStateGrace now)) := by
  show run ∈ Finset.filter _ _ ↔ _
  rw [Finset.mem_filter, Finset.mem_sdiff, Finset.mem_union, Finset.mem_inter, List.mem_toFinset]

theorem Tracks.mem_finished (h : s.Tracks run since listed missing) (pass : ScorePass) :
    run ∈ (s.runsWithFinishedJobs pass.now pass.active).2 ↔ pass.LooksUp run since listed := by
  cases hanswer : pass.jobsAnswer with
  | false =>
    rw [active_eq_none hanswer]
    exact iff_of_true h.mem_tracked (.inl hanswer)
  | true =>
    rw [active_eq_some hanswer, mem_runsWithFinishedJobs_some, h.pending, Option.any_some,
      h.seenActive]
    constructor
    · rintro ⟨⟨-, hexecuting⟩, (hlisted | hmem) | hgrace⟩
      · exact .inr ⟨hexecuting, .inl hlisted⟩
      · exact absurd hmem.1 hexecuting
      · exact .inr ⟨hexecuting, .inr hgrace⟩
    · rintro (hfails | ⟨hexecuting, hlisted | hgrace⟩)
      · rw [hanswer] at hfails
        cases hfails
      · exact ⟨⟨h.mem_tracked, hexecuting⟩, .inl (.inl hlisted)⟩
      · exact ⟨⟨h.mem_tracked, hexecuting⟩, .inr hgrace⟩

theorem Tracks.dropMissing (h : s.Tracks run since listed missing) {finished : Finset String}
    (hdrop : run ∉ finished ∨ ¬missing) :
    (s.dropMissing finished).Tracks run since listed (missing ∨ run ∈ finished) := by
  have hrun : run ∉ finished ∩ s.tracked ∩ s.missingRow := by
    simp only [Finset.mem_inter, h.missingRow, not_and]
    rintro ⟨hfinished, -⟩ hmissing
    exact hdrop.elim (· hfinished) (· hmissing)
  have hdropped := h.forget hrun
  refine ⟨hdropped.pending, hdropped.seen, hdropped.seenActive, ?_⟩
  show run ∈ (s.forget _).missingRow ∪ _ ↔ _
  rw [Finset.mem_union, hdropped.missingRow, Finset.mem_sdiff, Finset.mem_inter, h.missingRow]
  constructor
  · rintro (hmissing | ⟨⟨hfinished, -⟩, -⟩)
    · exact .inl hmissing
    · exact .inr hfinished
  · rintro (hmissing | hfinished)
    · exact .inl hmissing
    · exact .inr ⟨⟨hfinished, h.mem_tracked⟩, hdrop.resolve_left (not_not_intro hfinished)⟩

theorem lookup_dropMissing_none {finished : Finset String} (h : s.pending.lookup run = none) :
    (s.dropMissing finished).pending.lookup run = none := by
  show (s.forget _).pending.lookup run = none
  rw [lookup_forget, h, ite_self]

theorem Tracks.dropped (h : s.Tracks run since listed missing) {finished : Finset String}
    (hrun : run ∈ finished) (hmissing : missing) :
    (s.dropMissing finished).pending.lookup run = none := by
  apply lookup_forget_of_mem
  rw [Finset.mem_inter, Finset.mem_inter, h.missingRow]
  exact ⟨⟨hrun, h.mem_tracked⟩, hmissing⟩

theorem exists_terminalRow {pass : ScorePass} {finished : Finset String} (hname : run ≠ "") :
    (∃ row ∈ (terminalRows pass.table finished).filter (·.runId ≠ ""), row.runId = run) ↔
      run ∈ finished ∧ pass.Landed run := by
  simp only [terminalRows, List.mem_filter, List.mem_dedup, List.mem_map, decide_eq_true_eq,
    Bool.decide_and, Bool.and_eq_true, ScorePass.Landed]
  constructor
  · rintro ⟨_, ⟨⟨row, ⟨hrow, hfinished, hstatus⟩, rfl⟩, -⟩, rfl⟩
    exact ⟨hfinished, row, hrow, rfl, hstatus⟩
  · rintro ⟨hfinished, row, hrow, rfl, hstatus⟩
    exact ⟨_, ⟨⟨row, ⟨hrow, hfinished, hstatus⟩, rfl⟩, hname⟩, rfl⟩

theorem mem_terminalRows {pass : ScorePass} {finished : Finset String} (hname : run ≠ "") :
    run ∈ (((terminalRows pass.table finished).filter (·.runId ≠ "")).map
      CompletedRun.runId).toFinset ↔ run ∈ finished ∧ pass.Landed run := by
  rw [← exists_terminalRow hname, List.mem_toFinset, List.mem_map]

/-! ### A whole pass -/

/-- The state of a pass after the expiry. -/
def beforeLookup (s : ScoreRuns) (pass : ScorePass) : ScoreRuns :=
  (s.sweepRecentRunSets pass.now pass.window).expire pass.now

/-- The runs that a pass looks up. -/
def lookedUp (s : ScoreRuns) (pass : ScorePass) : Finset String :=
  ((s.beforeLookup pass).runsWithFinishedJobs pass.now pass.active).2

/-- The runs that a pass observes. -/
def observed (s : ScoreRuns) (pass : ScorePass) : Finset String :=
  (((terminalRows pass.table (s.lookedUp pass)).filter (·.runId ≠ "")).map
    CompletedRun.runId).toFinset

theorem refresh_fst (s : ScoreRuns) (pass : ScorePass) :
    (s.refreshScoresForCompletedRuns pass).1 =
      ((((s.beforeLookup pass).runsWithFinishedJobs pass.now pass.active).1.forget
        (s.observed pass)).dropMissing (s.lookedUp pass)) := rfl

/-- A pass that sweeps once more in advance does the same. -/
theorem refresh_sweep (s : ScoreRuns) (pass : ScorePass) :
    (s.sweepRecentRunSets pass.now pass.window).refreshScoresForCompletedRuns pass =
      s.refreshScoresForCompletedRuns pass := by
  rw [refreshScoresForCompletedRuns, sweep_sweep]
  rfl

theorem observes_refresh (hname : run ≠ "") :
    (s.refreshScoresForCompletedRuns pass).2.Observes run ↔
      run ∈ s.lookedUp pass ∧ pass.Landed run := exists_terminalRow hname

theorem mem_observed (hname : run ≠ "") :
    run ∈ s.observed pass ↔ run ∈ s.lookedUp pass ∧ pass.Landed run := mem_terminalRows hname

theorem Tracks.beforeLookup (h : s.Tracks run since listed missing) (htime : pass.InTime since) :
    (s.beforeLookup pass).Tracks run since listed missing := (h.sweep _ _).expire htime

theorem Tracks.mem_lookedUp (h : s.Tracks run since listed missing) (htime : pass.InTime since) :
    run ∈ s.lookedUp pass ↔ pass.LooksUp run since listed := (h.beforeLookup htime).mem_finished pass

/-- A pass within 24 hours keeps a run that it does not look up, or whose row it misses for the first
time. -/
theorem Tracks.refresh (h : s.Tracks run since listed missing) (hname : run ≠ "")
    (htime : pass.InTime since)
    (hkept : pass.LooksUp run since listed → ¬pass.Landed run ∧ ¬missing) :
    (s.refreshScoresForCompletedRuns pass).1.Tracks run since (listed ∨ pass.Lists run)
      (missing ∨ pass.LooksUp run since listed) := by
  have hlookedUp := h.mem_lookedUp htime
  have hobserved : run ∉ s.observed pass := by
    rw [mem_observed hname, hlookedUp]
    rintro ⟨hlooks, hlanded⟩
    exact (hkept hlooks).1 hlanded
  have hdrop : run ∉ s.lookedUp pass ∨ ¬missing := by
    rw [hlookedUp]
    by_cases hlooks : pass.LooksUp run since listed
    · exact .inr (hkept hlooks).2
    · exact .inl hlooks
  rw [refresh_fst, ← hlookedUp]
  exact (((h.beforeLookup htime).runsWithFinishedJobs pass).forget hobserved).dropMissing hdrop

theorem not_mem_lookedUp (h : (s.beforeLookup pass).pending.lookup run = none) :
    run ∉ s.lookedUp pass := by
  intro hmem
  have htracked := runsWithFinishedJobs_subset _ _ hmem
  rw [ScoreRuns.mem_tracked, h] at htracked
  cases htracked

theorem pending_runsWithFinishedJobs (now : Nat) (active : Option (List String)) :
    (s.runsWithFinishedJobs now active).1.pending = s.pending := by
  cases active <;> rfl

/-- A run that is not tracked when a pass reads the terminal rows stays so, unobserved. -/
theorem lookup_refresh_none (h : (s.beforeLookup pass).pending.lookup run = none) (hname : run ≠ "") :
    (s.refreshScoresForCompletedRuns pass).1.pending.lookup run = none ∧
      ¬(s.refreshScoresForCompletedRuns pass).2.Observes run := by
  constructor
  · rw [refresh_fst]
    apply lookup_dropMissing_none
    rw [lookup_forget, pending_runsWithFinishedJobs, h, ite_self]
  · rw [observes_refresh hname]
    exact fun hobserves => not_mem_lookedUp h hobserves.1

/-- A pass drops a run whose row it reads, or misses for the second time. -/
theorem Tracks.dropped_refresh (h : s.Tracks run since listed missing) (hname : run ≠ "")
    (htime : pass.InTime since) (hlooks : pass.LooksUp run since listed)
    (hdrop : pass.Landed run ∨ missing) :
    (s.refreshScoresForCompletedRuns pass).1.pending.lookup run = none := by
  have hlookedUp := (h.mem_lookedUp htime).mpr hlooks
  rw [refresh_fst]
  by_cases hlanded : pass.Landed run
  · apply lookup_dropMissing_none
    exact lookup_forget_of_mem ((mem_observed hname).mpr ⟨hlookedUp, hlanded⟩)
  · have hobserved : run ∉ s.observed pass := by
      rw [mem_observed hname]
      exact fun hmem => hlanded hmem.2
    exact (((h.beforeLookup htime).runsWithFinishedJobs pass).forget hobserved).dropped hlookedUp
      (hdrop.resolve_left hlanded)

/-- A pass drops a run that it finds tracked for over 24 hours. -/
theorem Tracks.expired_refresh (h : s.Tracks run since listed missing) (hname : run ≠ "")
    (htime : scoreRunExpired pass.now since = true) :
    (s.refreshScoresForCompletedRuns pass).1.pending.lookup run = none :=
  (lookup_refresh_none ((h.sweep _ _).expired htime) hname).1

/-- A pass reads the row of a tracked run if it comes within 24 hours, looks the run up and finds a
row. -/
theorem Tracks.observes (h : s.Tracks run since listed missing) (hname : run ≠ "") :
    (s.refreshScoresForCompletedRuns pass).2.Observes run ↔
      pass.InTime since ∧ pass.LooksUp run since listed ∧ pass.Landed run := by
  cases htime : scoreRunExpired pass.now since with
  | false =>
    rw [observes_refresh hname, h.mem_lookedUp htime]
    exact (and_iff_right htime).symm
  | true =>
    apply iff_of_false (lookup_refresh_none ((h.sweep _ _).expired htime) hname).2
    rintro ⟨hintime, -⟩
    exact Bool.false_ne_true (hintime.symm.trans htime)

/-- A run that is not tracked is not observed, and is tracked again only by a sweep that lists it
while it is not among the runs seen. -/
theorem untracked_refresh (h : s.pending.lookup run = none) (hname : run ≠ "")
    (hseen : ∀ rows, pass.window = some rows → run ∈ rows → run ∈ s.seen) :
    (s.refreshScoresForCompletedRuns pass).1.pending.lookup run = none ∧
      ¬(s.refreshScoresForCompletedRuns pass).2.Observes run := by
  apply lookup_refresh_none _ hname
  apply lookup_expire_none
  rw [lookup_sweep hseen, h]

/-- The tables of observed runs go to the score refresh. -/
theorem mem_fqns_of_observed {row : CompletedRun}
    (hrow : row ∈ (s.refreshScoresForCompletedRuns pass).2.rows) (hfqn : row.sourceTableFqn ≠ "")
    (hcheck : ¬sqlCheckPrefix.toList <+: row.sourceTableFqn.toList) :
    row.sourceTableFqn ∈ (s.refreshScoresForCompletedRuns pass).2.fqns := by
  show _ ∈ List.toFinset _
  rw [List.mem_toFinset, List.mem_filter]
  exact ⟨List.mem_map_of_mem hrow, decide_eq_true ⟨hfqn, hcheck⟩⟩

end ScoreRuns

end Dqx.Scheduler
