import Dqx.Scheduler.ScoreTrack
import Mathlib.Data.List.TakeWhile

/-! A run that is tracked for the score refresh, over the passes of the scheduler: when it stays
tracked while its job executes, and when exactly one pass observes it. Any lookup counts against a
run that has no terminal row yet, so that two failures of the Jobs API drop a run that executes. -/

namespace Dqx.Scheduler

open Lib

/-- The passes that look `run` up while it is tracked from `since`; `listed` tells whether it was
listed as active before them. -/
def lookups (run : String) (since : Nat) (listed : Bool) : List ScorePass → List ScorePass
  | [] => []
  | pass :: passes =>
    let rest := lookups run since (listed || pass.Lists run) passes
    if pass.LooksUp run since listed then pass :: rest else rest

/-- The lookups that find no terminal row of `run`. -/
def vain (run : String) (since : Nat) (listed : Bool) (passes : List ScorePass) : List ScorePass :=
  (lookups run since listed passes).filter fun pass => ¬pass.Landed run

/-- A pass that finds the job of `run` still executing, at most 24 hours after `since`. -/
def ScorePass.Young (pass : ScorePass) (run : String) (since : Nat) : Prop :=
  run ∈ pass.executing ∧ pass.InTime since

instance (pass : ScorePass) (run : String) (since : Nat) : Decidable (pass.Young run since) :=
  inferInstanceAs (Decidable (_ ∧ _))

/-- A sweep that lists `run` still knows that it was seen. -/
def Remembers (run : String) (s : ScoreRuns) (pass : ScorePass) : Prop :=
  ∀ rows ∈ pass.window, run ∈ rows → run ∈ s.seen

instance (run : String) (s : ScoreRuns) (pass : ScorePass) : Decidable (Remembers run s pass) :=
  inferInstanceAs (Decidable (∀ rows ∈ pass.window, _))

variable {s : ScoreRuns} {run : String} {since : Nat} {passes : List ScorePass}

@[simp] theorem scoreRefresh_step (s : ScoreRuns) (pass : ScorePass) :
    scoreRefresh.step s pass = s.refreshScoresForCompletedRuns pass := rfl

/-- Untracked, a run is not observed again. -/
theorem countP_observes_untracked (h : s.pending.lookup run = none) (hname : run ≠ "")
    (hremembers : scoreRefresh.Guarded (Remembers run) s passes) :
    (scoreRefresh.outputs s passes).countP (·.Observes run) = 0 := by
  induction passes generalizing s with
  | nil => rfl
  | cons pass passes ih =>
    obtain ⟨hnow, hlater⟩ := hremembers
    have hstep := ScoreRuns.untracked_refresh h hname hnow
    have hzero := ih hstep.1 hlater
    rw [Machine.outputs_cons, scoreRefresh_step, List.countP_cons, hzero]
    simp [hstep.2]

theorem lookups_subset {listed : Bool} {pass : ScorePass}
    (h : pass ∈ lookups run since listed passes) : pass ∈ passes := by
  induction passes generalizing listed with
  | nil => exact h
  | cons p passes ih =>
    rw [lookups] at h
    split at h
    · rcases List.mem_cons.mp h with rfl | h
      · exact List.mem_cons_self
      · exact List.mem_cons_of_mem _ (ih h)
    · exact List.mem_cons_of_mem _ (ih h)

theorem vain_eq_nil {listed : Bool} (h : ∀ pass ∈ passes, pass.Landed run) :
    vain run since listed passes = [] := by
  rw [vain, List.filter_eq_nil_iff]
  intro pass hpass
  simpa using h pass (lookups_subset hpass)

section Cons

variable {pass : ScorePass} {listed : Bool}

theorem lookups_cons_of_pos (h : pass.LooksUp run since listed) :
    lookups run since listed (pass :: passes) =
      pass :: lookups run since (listed || pass.Lists run) passes := if_pos h

theorem lookups_cons_of_neg (h : ¬pass.LooksUp run since listed) :
    lookups run since listed (pass :: passes) =
      lookups run since (listed || pass.Lists run) passes := if_neg h

theorem vain_cons_of_neg (h : ¬pass.LooksUp run since listed) :
    vain run since listed (pass :: passes) = vain run since (listed || pass.Lists run) passes := by
  rw [vain, lookups_cons_of_neg h]
  rfl

theorem vain_cons_of_not_landed (h : pass.LooksUp run since listed) (hlanded : ¬pass.Landed run) :
    vain run since listed (pass :: passes) =
      pass :: vain run since (listed || pass.Lists run) passes := by
  rw [vain, lookups_cons_of_pos h, List.filter_cons_of_pos (by simpa using hlanded)]
  rfl

end Cons

theorem ScorePass.InTime.of_le {p q : ScorePass} (h : q.InTime since) (hle : p.now ≤ q.now) :
    p.InTime since := by
  simp only [ScorePass.InTime, scoreRunExpired, decide_eq_false_iff_not, Nat.not_lt] at h ⊢
  exact hle.trans h

theorem ScoreRuns.Tracks.congr {listed listed' missing missing' : Prop}
    (h : s.Tracks run since listed missing) (hlisted : listed ↔ listed')
    (hmissing : missing ↔ missing') : s.Tracks run since listed' missing' :=
  ⟨h.pending, h.seen, h.seenActive.trans hlisted, h.missingRow.trans hmissing⟩

/-- How often a tracked run is observed: once, if its earlier lookups and those of the passes fail at
most once together, and one in time finds its row. -/
theorem countP_observes (hname : run ≠ "") {listed missing : Bool}
    (htracks : s.Tracks run since listed missing)
    (horder : passes.Pairwise fun p q => p.now ≤ q.now)
    (hrows : passes.Pairwise fun p q => p.Landed run → q.Landed run)
    (hremembers : scoreRefresh.Guarded (Remembers run) s passes) :
    (scoreRefresh.outputs s passes).countP (·.Observes run) = 1 ↔
      (vain run since listed passes).length + missing.toNat ≤ 1 ∧
        ∃ pass ∈ lookups run since listed passes, pass.Landed run ∧ pass.InTime since := by
  induction passes generalizing s listed missing with
  | nil => simp [lookups]
  | cons pass passes ih =>
    obtain ⟨-, hlater⟩ := hremembers
    obtain ⟨hearlier, horder⟩ := List.pairwise_cons.mp horder
    obtain ⟨hlands, hrows⟩ := List.pairwise_cons.mp hrows
    have hobserves : (s.refreshScoresForCompletedRuns pass).2.Observes run ↔
        pass.InTime since ∧ pass.LooksUp run since listed ∧ pass.Landed run :=
      htracks.observes hname
    have hgone := fun h => countP_observes_untracked
      (s := (s.refreshScoresForCompletedRuns pass).1) h hname hlater
    rw [Machine.outputs_cons, scoreRefresh_step, List.countP_cons]
    by_cases htime : pass.InTime since
    case neg =>
      have hcount := hgone (htracks.expired_refresh hname (by simpa [ScorePass.InTime] using htime))
      have hnone : ¬∃ q ∈ lookups run since listed (pass :: passes),
          q.Landed run ∧ q.InTime since := by
        rintro ⟨q, hq, -, hintime⟩
        rcases List.mem_cons.mp (lookups_subset hq) with rfl | hq
        · exact htime hintime
        · exact htime (hintime.of_le (hearlier q hq))
      simp [hcount, hobserves, htime, hnone]
    by_cases hlooks : pass.LooksUp run since listed
    case neg =>
      have hnext : (s.refreshScoresForCompletedRuns pass).1.Tracks run since
          ((listed || pass.Lists run) = true) (missing = true) :=
        (htracks.refresh hname htime (absurd · hlooks)).congr (by simp) (or_iff_left hlooks)
      rw [vain_cons_of_neg hlooks, lookups_cons_of_neg hlooks]
      simpa [hobserves, hlooks] using ih hnext horder hrows hlater
    by_cases hlanded : pass.Landed run
    case pos =>
      have hcount := hgone (htracks.dropped_refresh hname htime hlooks (.inl hlanded))
      have hvain : vain run since listed (pass :: passes) = [] :=
        vain_eq_nil (List.forall_mem_cons.mpr ⟨hlanded, fun q hq => hlands q hq hlanded⟩)
      have hfound : ∃ q ∈ lookups run since listed (pass :: passes),
          q.Landed run ∧ q.InTime since := by
        rw [lookups_cons_of_pos hlooks]
        exact ⟨pass, List.mem_cons_self, hlanded, htime⟩
      simp [hcount, hobserves, htime, hlooks, hlanded, hvain, hfound, Bool.toNat_le]
    rw [vain_cons_of_not_landed hlooks hlanded, lookups_cons_of_pos hlooks]
    cases missing with
    | true =>
      have hcount := hgone (htracks.dropped_refresh hname htime hlooks (.inr rfl))
      simp [hcount, hobserves, hlanded]
    | false =>
      have hnext : (s.refreshScoresForCompletedRuns pass).1.Tracks run since
          ((listed || pass.Lists run) = true) (true = true) :=
        (htracks.refresh hname htime fun _ => ⟨hlanded, Bool.false_ne_true⟩).congr (by simp)
          (by simp [hlooks])
      simpa [hobserves, hlanded] using ih hnext horder hrows hlater

/-- A pass that finds the job executing looks the run up only if the Jobs API fails. -/
theorem looksUp_of_executing {pass : ScorePass} {listed : Prop} (h : run ∈ pass.executing) :
    pass.LooksUp run since listed ↔ pass.jobsAnswer = false :=
  or_iff_left fun hfinished => hfinished.1 h

/-- The Jobs API fails at most once in `passes`, counting the lookup that `missing` tells of, and no
pass in which it does finds a terminal row of `run`. -/
def FailsOnce (run : String) (missing : Bool) (passes : List ScorePass) : Prop :=
  (passes.filter fun pass => !pass.jobsAnswer).length + missing.toNat ≤ 1 ∧
    ∀ pass ∈ passes, pass.jobsAnswer = false → ¬pass.Landed run

instance (run : String) (missing : Bool) (passes : List ScorePass) :
    Decidable (FailsOnce run missing passes) :=
  inferInstanceAs (Decidable (_ ∧ ∀ pass ∈ passes, _ → ¬_))

theorem forall_prefix_cons {P : ScoreRuns → Prop} {pass : ScorePass} :
    (∀ before, before <+: pass :: passes → P (scoreRefresh.final s before)) ↔
      P s ∧ ∀ before, before <+: passes →
        P (scoreRefresh.final (s.refreshScoresForCompletedRuns pass).1 before) := by
  constructor
  · intro h
    exact ⟨h [] List.nil_prefix, fun before hbefore =>
      h (pass :: before) ((List.prefix_cons_inj pass).mpr hbefore)⟩
  · rintro ⟨hnow, hlater⟩ before hbefore
    rcases List.prefix_cons_iff.mp hbefore with rfl | ⟨rest, rfl, hrest⟩
    · exact hnow
    · exact hlater rest hrest

/-- When a run stays tracked through passes that find its job executing. -/
theorem tracked_iff_failsOnce (hname : run ≠ "") {listed missing : Bool}
    (htracks : s.Tracks run since listed missing) (hyoung : ∀ pass ∈ passes, pass.Young run since) :
    (∀ before, before <+: passes → run ∈ (scoreRefresh.final s before).tracked) ↔
      FailsOnce run missing passes := by
  induction passes generalizing s listed missing with
  | nil => simp [FailsOnce, Bool.toNat_le, htracks.mem_tracked]
  | cons pass passes ih =>
    obtain ⟨⟨hexecuting, htime⟩, hyoung⟩ := List.forall_mem_cons.mp hyoung
    have hlooks : pass.LooksUp run since (listed = true) ↔ pass.jobsAnswer = false :=
      looksUp_of_executing hexecuting
    rw [forall_prefix_cons (P := fun s => run ∈ s.tracked), and_iff_right htracks.mem_tracked]
    cases hanswer : pass.jobsAnswer with
    | true =>
      have hlooks' : ¬pass.LooksUp run since (listed = true) := by simp [hlooks, hanswer]
      have hnext : (s.refreshScoresForCompletedRuns pass).1.Tracks run since
          ((listed || pass.Lists run) = true) (missing = true) :=
        (htracks.refresh hname htime (absurd · hlooks')).congr (by simp) (or_iff_left hlooks')
      rw [ih hnext hyoung]
      simp [FailsOnce, hanswer]
    | false =>
      have hlooks' := hlooks.mpr hanswer
      by_cases hdrop : pass.Landed run ∨ missing = true
      · have hgone := htracks.dropped_refresh hname htime hlooks' hdrop
        apply iff_of_false
        · intro h
          have hmem := ScoreRuns.mem_tracked.mp (h [] List.nil_prefix)
          rw [Machine.final_nil, hgone] at hmem
          cases hmem
        · rintro ⟨hcount, hrows⟩
          rcases hdrop with hlanded | rfl
          · exact hrows pass List.mem_cons_self hanswer hlanded
          · simp [hanswer] at hcount
      · obtain ⟨hlanded, hmissing⟩ := not_or.mp hdrop
        have hnext : (s.refreshScoresForCompletedRuns pass).1.Tracks run since
            ((listed || pass.Lists run) = true) (true = true) :=
          (htracks.refresh hname htime fun _ => ⟨hlanded, hmissing⟩).congr (by simp)
            (by simp [hlooks'])
        rw [ih hnext hyoung]
        simp [FailsOnce, hanswer, hlanded, hmissing]

theorem prefix_takeWhile_iff {α : Type*} {p : α → Bool} {xs ys : List α} :
    xs <+: ys.takeWhile p ↔ xs <+: ys ∧ ∀ x ∈ xs, p x = true := by
  induction ys generalizing xs with
  | nil =>
    rw [List.takeWhile_nil, List.prefix_nil]
    exact ⟨fun h => by simp [h], And.left⟩
  | cons y ys ih =>
    cases xs with
    | nil => simp
    | cons x xs =>
      cases hy : p y with
      | true =>
        rw [List.takeWhile_cons_of_pos hy, List.cons_prefix_cons, List.cons_prefix_cons, ih]
        constructor
        · rintro ⟨rfl, hxs, hall⟩
          exact ⟨⟨rfl, hxs⟩, List.forall_mem_cons.mpr ⟨hy, hall⟩⟩
        · rintro ⟨⟨rfl, hxs⟩, hall⟩
          exact ⟨rfl, hxs, (List.forall_mem_cons.mp hall).2⟩
      | false =>
        rw [List.takeWhile_cons_of_neg (by simp [hy]), List.cons_prefix_cons]
        simp only [List.prefix_nil, reduceCtorEq, false_iff]
        rintro ⟨⟨rfl, -⟩, hall⟩
        exact Bool.false_ne_true (hy.symm.trans (hall x List.mem_cons_self))

/-- A run that the scheduler tracks stays tracked while its job executes, for at most 24 hours,
exactly when the Jobs API fails at most once meanwhile, and not once its terminal row has landed. If
sweeps that list it remember it, exactly one pass observes it if and only if at most one pass looks
it up before its terminal row lands and some pass within 24 hours looks it up after that. The tables
of its rows go to the score refresh of the pass that observes it. -/
theorem tracked_run_observed_once (hname : run ≠ "") (htracks : s.Tracks run since False False)
    (horder : passes.Pairwise fun p q => p.now ≤ q.now)
    (hrows : passes.Pairwise fun p q => p.Landed run → q.Landed run) :
    ((∀ before, before <+: passes → (∀ pass ∈ before, pass.Young run since) →
        run ∈ (scoreRefresh.final s before).tracked) ↔
      FailsOnce run false (passes.takeWhile fun pass => pass.Young run since)) ∧
    (scoreRefresh.Guarded (Remembers run) s passes →
      ((scoreRefresh.outputs s passes).countP (·.Observes run) = 1 ↔
        (vain run since false passes).length ≤ 1 ∧
          ∃ pass ∈ lookups run since false passes, pass.Landed run ∧ pass.InTime since)) ∧
    ∀ completed ∈ scoreRefresh.outputs s passes, ∀ row ∈ completed.rows, row.runId = run →
      row.sourceTableFqn ≠ "" → ¬sqlCheckPrefix.toList <+: row.sourceTableFqn.toList →
        row.sourceTableFqn ∈ completed.fqns := by
  have htracks' : s.Tracks run since (false = true) (false = true) :=
    htracks.congr (by simp) (by simp)
  refine ⟨?_, ?_, ?_⟩
  · have hyoung : ∀ pass ∈ passes.takeWhile fun pass => pass.Young run since,
        pass.Young run since := fun pass hpass => by simpa using List.mem_takeWhile_imp hpass
    rw [← tracked_iff_failsOnce hname htracks' hyoung]
    simp only [prefix_takeWhile_iff, decide_eq_true_eq, and_imp]
  · intro hremembers
    simpa using countP_observes hname htracks' horder hrows hremembers
  · intro completed hcompleted row hrow _ hfqn hcheck
    obtain ⟨t, pass, rfl⟩ := scoreRefresh.exists_step_of_mem_outputs hcompleted
    exact ScoreRuns.mem_fqns_of_observed hrow hfqn hcheck

/-- A scheduler that has launched one run. -/
def launched : ScoreRuns := ScoreRuns.trackRunForScoreRefresh ⟨[], ∅, ∅, ∅⟩ "r1" 0

def executingAt (n : Nat) (jobsAnswer : Bool) : ScorePass :=
  ⟨n * minute, some ["r1"], ["r1"], jobsAnswer, []⟩

def finishedAt (n : Nat) : ScorePass :=
  ⟨n * minute, some ["r1"], [], true, [⟨"r1", "c.s.t", none, .success, none⟩]⟩

theorem tracked_run_observed_once_launched :
    (scoreRefresh.outputs launched [executingAt 1 false, executingAt 2 true, finishedAt 3,
      finishedAt 4]).countP (·.Observes "r1") = 1 := by
  have htracks : launched.Tracks "r1" 0 False False :=
    ScoreRuns.tracks_trackRunForScoreRefresh 0 (by decide) (by decide)
  obtain ⟨-, hobserved, -⟩ := @tracked_run_observed_once _ _ _ [executingAt 1 false,
    executingAt 2 true, finishedAt 3, finishedAt 4] (by decide) htracks (by decide) (by decide)
  exact (hobserved ⟨by decide, by decide, by decide, by decide, trivial⟩).mpr (by decide)

/-- Two failures of the Jobs API while a run executes drop it, and no later pass observes it. -/
theorem executing_run_dropped :
    let passes := [executingAt 1 false, executingAt 2 false, executingAt 3 true, finishedAt 4]
    (passes.Pairwise fun p q => p.now + minute ≤ q.now) ∧
    (∀ pass ∈ passes.take 3, pass.Young "r1" 0) ∧
    (∀ pass ∈ passes.drop 3, pass.jobsAnswer = true ∧ pass.Landed "r1" ∧ pass.InTime 0) ∧
    "r1" ∉ (scoreRefresh.final launched (passes.take 2)).tracked ∧
    (scoreRefresh.outputs launched passes).countP (·.Observes "r1") = 0 := by
  decide

end Dqx.Scheduler
