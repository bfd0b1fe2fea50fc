import Dqx.Scheduler.CronField
import Dqx.Lib.Traverse

/-! The search for the next occurrence never gives up on an expression that has one. A day that matches
lies at most nine years ahead, and on the way there the search passes each day in one step, but for
the day that it starts on. -/

namespace Dqx.Scheduler

open Lib

/-! ### Accepted expressions -/

/-- What the parser leaves true of the values that the search depends on. -/
structure Cron.Valid (cron : Cron) : Prop where
  minute : ∃ m ∈ cron.minutes, m < 60
  hour : ∃ h ∈ cron.hours, h < 24

theorem parseCronPart_range {lo hi : Nat} {names : List (List Char × Nat)} {part : List Char}
    {values : List Nat} (h : parseCronPart lo hi names part = .ok values) :
    ∀ v ∈ values, lo ≤ v ∧ v ≤ hi := by
  obtain ⟨step, -, h⟩ := bind_eq_ok.mp h
  obtain ⟨⟨start, stop⟩, -, h⟩ := bind_eq_ok.mp h
  dsimp only at h
  split at h
  · next hbounds =>
    cases h
    intro v hv
    have hmem := (List.mem_filter.mp hv).1
    rw [List.mem_range'_1] at hmem
    omega
  · cases h

theorem parseCronField_range {raw : List Char} {lo hi : Nat} {names : List (List Char × Nat)}
    {values : List Nat} (h : parseCronField raw lo hi names = .ok values) :
    ∃ v ∈ values, lo ≤ v ∧ v ≤ hi := by
  obtain ⟨parts, hparts, h⟩ := bind_eq_ok.mp h
  split at h
  · cases h
  · next hne =>
    cases h
    obtain ⟨v, hv⟩ := List.exists_mem_of_ne_nil _ hne
    obtain ⟨part, hpart, hvpart⟩ := List.mem_flatten.mp hv
    obtain ⟨text, -, htext⟩ := exists_of_forall₂_right (mapM_eq_ok_iff_forall₂.mp hparts) hpart
    exact ⟨v, hv, parseCronPart_range htext v hvpart⟩

theorem valid_of_parseCron {expr : List Char} {cron : Cron} (h : parseCron expr = .ok cron) :
    cron.Valid := by
  unfold parseCron at h
  split at h
  · obtain ⟨minutes, hminutes, h⟩ := bind_eq_ok.mp h
    obtain ⟨hours, hhours, h⟩ := bind_eq_ok.mp h
    obtain ⟨doms, -, h⟩ := bind_eq_ok.mp h
    obtain ⟨months, -, h⟩ := bind_eq_ok.mp h
    obtain ⟨dows, -, h⟩ := bind_eq_ok.mp h
    cases h
    obtain ⟨m, hm, -, hm60⟩ := parseCronField_range hminutes
    obtain ⟨h, hh, -, hh24⟩ := parseCronField_range hhours
    exact ⟨⟨m, hm, by omega⟩, ⟨h, hh, by omega⟩⟩
  · cases h

/-! ### A day that matches -/

/-- There is a leap year among any eight years in a row. -/
theorem exists_leapYear (year : Nat) : ∃ leap, year < leap ∧ leap ≤ year + 8 ∧ leapYear leap = true := by
  have hleap : ∀ leap, (leap + 1) % 4 = 0 → (leap + 1) % 100 ≠ 0 → leapYear leap = true := by
    intro leap h4 h100
    simp [leapYear, h4, h100]
  -- the next year but one that 4 divides, unless 100 divides it, and then the one after it
  let leap := 4 * ((year + 1) / 4 + 1) - 1
  by_cases h : (leap + 1) % 100 = 0
  · exact ⟨leap + 4, by omega, by omega, hleap _ (by omega) (by omega)⟩
  · exact ⟨leap, by omega, by omega, hleap _ (by omega) h⟩

theorem monthLength_le_leap {month month' : Nat} (hsame : month' % 12 = month % 12)
    (hleap : leapYear (month' / 12) = true) : monthLength month ≤ monthLength month' := by
  unfold monthLength
  rw [hsame, hleap]
  split
  · split <;> decide
  all_goals exact Nat.le_refl _

theorem dayOfMonth_add {month k : Nat} (hk : k < monthLength month) :
    monthOf (monthStart month + k) = month ∧ dayOfMonth (monthStart month + k) = k + 1 := by
  have hmonth : monthOf (monthStart month + k) = month := by
    apply monthOf_eq_of_lt
    · omega
    · rw [monthStart_succ]
      omega
  rw [dayOfMonth, hmonth]
  exact ⟨rfl, by omega⟩

/-- The months of nine years. -/
theorem monthStart_le_add {month month' : Nat} (h : month' ≤ month + 107) :
    monthStart month' ≤ monthStart month + 3400 := by
  have hlow := (monthStart_near month).1
  have hhigh := (monthStart_near month').2
  omega

namespace Cron

variable {cron : Cron}

/-- The month and the day of a date both match. -/
def DayMatches (cron : Cron) (day : Nat) : Prop := cron.monthOk day = true ∧ cron.dayOk day = true

theorem dayMatches_of_matchesMinute {k : Nat} (h : cron.matchesMinute k = true) :
    cron.DayMatches (k / 1440) := by
  simp only [matchesMinute, Bool.and_eq_true] at h
  exact ⟨h.1.1.1, h.1.1.2⟩

/-- A day matches by its day of the month or by its day of the week. -/
theorem dayOk_cases {day : Nat} (h : cron.dayOk day = true) :
    (∀ d, dayOfMonth d = dayOfMonth day → cron.dayOk d = true) ∨
      ∀ d, weekday d = weekday day → cron.dayOk d = true := by
  cases hdom : cron.domWild with
  | true =>
    right
    intro d hd
    simpa only [dayOk, hdom, hd, Bool.true_and, if_true] using h
  | false =>
    cases hdow : cron.dowWild with
    | true =>
      left
      intro d hd
      simpa [dayOk, hdom, hdow, hd] using h
    | false =>
      simp only [dayOk, hdom, hdow, Bool.false_and, Bool.false_eq_true, if_false,
        Bool.or_eq_true] at h
      rcases h with h | h
      · left
        intro d hd
        simp only [dayOk, hdom, hdow, Bool.false_and, Bool.false_eq_true, if_false, hd, h,
          Bool.true_or]
      · right
        intro d hd
        simp only [dayOk, hdom, hdow, Bool.false_and, Bool.false_eq_true, if_false, hd, h,
          Bool.or_true]

/-- If any day matches, one does in the leap year that comes next. -/
theorem exists_dayMatches {known : Nat} (h : cron.DayMatches known) (day : Nat) :
    ∃ later, day < later ∧ later ≤ day + 3500 ∧ cron.DayMatches later := by
  obtain ⟨hmonth, hday⟩ := h
  obtain ⟨leap, hafter, hnear, hleap⟩ := exists_leapYear (monthOf day / 12)
  -- the month of the known day in the leap year
  let month := 12 * leap + monthOf known % 12
  have hsame : month % 12 = monthOf known % 12 := by omega
  have hyear : month / 12 = leap := by omega
  have hlength : monthLength (monthOf known) ≤ monthLength month :=
    monthLength_le_leap hsame (by rw [hyear, hleap])
  have hstart : day < monthStart month := by
    have hend := (monthOf_spec day).2
    have hmono : monthStart (monthOf day + 1) ≤ monthStart month :=
      monthStart_strictMono.monotone (by omega)
    omega
  have hbound : monthStart month ≤ day + 3400 := by
    have hbegin := (monthOf_spec day).1
    have hle : monthStart month ≤ monthStart (monthOf day) + 3400 := monthStart_le_add (by omega)
    omega
  have hlater : ∀ k < monthLength month,
      cron.dayOk (monthStart month + k) = true → ∃ later, day < later ∧ later ≤ day + 3500 ∧
        cron.DayMatches later := by
    intro k hk hok
    have hle := monthLength_le month
    refine ⟨monthStart month + k, by omega, by omega, ?_, hok⟩
    rw [monthOk, (dayOfMonth_add hk).1, hsame]
    exact hmonth
  rcases dayOk_cases hday with hok | hok
  · have hle := dayOfMonth_le known
    have hk : dayOfMonth known - 1 < monthLength month := by
      have hpos := monthLength_ge month
      omega
    apply hlater _ hk
    apply hok
    rw [(dayOfMonth_add hk).2, dayOfMonth]
    omega
  · have hge := monthLength_ge month
    apply hlater ((weekday known + 7 - weekday (monthStart month)) % 7) (by omega)
    apply hok
    simp only [weekday]
    omega

/-! ### The search -/

/-- With so many steps or more, the search from `candidate` finds a minute. -/
def Finds (cron : Cron) (steps candidate : Nat) : Prop :=
  ∀ n, steps ≤ n → (cron.search n candidate).isSome = true

theorem finds_mono {steps more candidate : Nat} (h : cron.Finds steps candidate) (hle : steps ≤ more) :
    cron.Finds more candidate := fun n hn => h n (Nat.le_trans hle hn)

/-- The minute lies before the end of the year 9999. -/
def InRange (candidate : Nat) : Prop := candidate / 1440 < daysBeforeYear 9999

theorem not_lastMinute_lt {candidate : Nat} (h : InRange candidate) : ¬lastMinute < candidate := by
  unfold InRange at h
  unfold lastMinute
  omega

section Step

variable {candidate steps : Nat} (hrange : InRange candidate)

include hrange

theorem finds_month (hmonth : cron.monthOk (candidate / 1440) = false)
    (h : cron.Finds steps (monthStart (monthOf (candidate / 1440) + 1) * 1440)) :
    cron.Finds (steps + 1) candidate := by
  intro n hn
  obtain ⟨n, rfl⟩ : ∃ k, n = k + 1 := ⟨n - 1, by omega⟩
  rw [search, if_neg (not_lastMinute_lt hrange), if_pos hmonth]
  exact h n (by omega)

variable (hmonth : cron.monthOk (candidate / 1440) = true)

include hmonth

theorem finds_day (hday : cron.dayOk (candidate / 1440) = false)
    (h : cron.Finds steps ((candidate / 1440 + 1) * 1440)) : cron.Finds (steps + 1) candidate := by
  intro n hn
  obtain ⟨n, rfl⟩ : ∃ k, n = k + 1 := ⟨n - 1, by omega⟩
  rw [search, if_neg (not_lastMinute_lt hrange), if_neg (by simp [hmonth]), if_pos hday]
  exact h n (by omega)

variable (hday : cron.dayOk (candidate / 1440) = true)

include hday

theorem finds_hour (hhour : cron.hours.contains (candidate / 60 % 24) = false)
    (h : cron.Finds steps ((candidate / 60 + 1) * 60)) : cron.Finds (steps + 1) candidate := by
  intro n hn
  obtain ⟨n, rfl⟩ : ∃ k, n = k + 1 := ⟨n - 1, by omega⟩
  rw [search, if_neg (not_lastMinute_lt hrange), if_neg (by simp [hmonth]), if_neg (by simp [hday]),
    if_pos hhour]
  exact h n (by omega)

variable (hhour : cron.hours.contains (candidate / 60 % 24) = true)

include hhour

theorem finds_minute (h : cron.minutes.contains (candidate % 60) = false →
    cron.Finds steps (candidate + 1)) : cron.Finds (steps + 1) candidate := by
  intro n hn
  obtain ⟨n, rfl⟩ : ∃ k, n = k + 1 := ⟨n - 1, by omega⟩
  rw [search, if_neg (not_lastMinute_lt hrange), if_neg (by simp [hmonth]), if_neg (by simp [hday]),
    if_neg (by simp only [hhour]; decide)]
  split
  · next hminute => exact h hminute n (by omega)
  · rfl

end Step

/-- In an hour that matches, the search finds a minute that is not past. -/
theorem finds_in_hour {m candidate : Nat} (hm : m ∈ cron.minutes) (hm60 : m < 60)
    (hle : candidate % 60 ≤ m) (hrange : InRange candidate)
    (hday : cron.DayMatches (candidate / 1440))
    (hhour : cron.hours.contains (candidate / 60 % 24) = true) :
    cron.Finds (m - candidate % 60 + 1) candidate := by
  induction hd : m - candidate % 60 generalizing candidate with
  | zero =>
    have hmatch : candidate % 60 = m := by omega
    apply finds_minute hrange hday.1 hday.2 hhour
    intro hnone
    rw [hmatch] at hnone
    simp [hm] at hnone
  | succ d ih =>
    apply finds_minute hrange hday.1 hday.2 hhour
    intro _
    have hsame : (candidate + 1) / 1440 = candidate / 1440 := by omega
    have hsame' : (candidate + 1) / 60 = candidate / 60 := by omega
    apply ih (by omega)
    · rwa [InRange, hsame]
    · rwa [hsame]
    · rwa [hsame']
    · omega

/-- On a day that matches, the search finds a minute of an hour that has not begun. -/
theorem finds_in_day (hvalid : cron.Valid) {h candidate : Nat} (hh : h ∈ cron.hours) (hh24 : h < 24)
    (hle : candidate / 60 % 24 ≤ h) (hwhole : candidate % 60 = 0) (hrange : InRange candidate)
    (hday : cron.DayMatches (candidate / 1440)) :
    cron.Finds (h - candidate / 60 % 24 + 60) candidate := by
  obtain ⟨m, hm, hm60⟩ := hvalid.minute
  induction hd : h - candidate / 60 % 24 generalizing candidate with
  | zero =>
    have hmatch : candidate / 60 % 24 = h := by omega
    apply finds_mono (finds_in_hour hm hm60 (by omega) hrange hday (by simp [hmatch, hh]))
    omega
  | succ d ih =>
    cases hhour : cron.hours.contains (candidate / 60 % 24) with
    | true => exact finds_mono (finds_in_hour hm hm60 (by omega) hrange hday hhour) (by omega)
    | false =>
      have hsame : (candidate / 60 + 1) * 60 / 1440 = candidate / 1440 := by omega
      have hfinds : cron.Finds (d + 60) ((candidate / 60 + 1) * 60) :=
        ih (by omega) (by omega) (by rwa [InRange, hsame]) (by rwa [hsame]) (by omega)
      exact finds_mono (finds_hour hrange hday.1 hday.2 hhour hfinds) (by omega)

/-- From a midnight on, the search passes each day in one step at most. -/
theorem finds_from_midnight (hvalid : cron.Valid) {day target : Nat} (hle : day ≤ target)
    (htarget : cron.DayMatches target) (hrange : target < daysBeforeYear 9999) :
    cron.Finds (target - day + 84) (day * 1440) := by
  induction hd : target - day using Nat.strongRecOn generalizing day with
  | _ d ih =>
    have hwhole : day * 1440 / 1440 = day := by omega
    have hinRange : InRange (day * 1440) := by
      rw [InRange, hwhole]
      omega
    cases hmonth : cron.monthOk day with
    | false =>
      have hnext : monthStart (monthOf day + 1) ≤ target := by
        have hne : monthOf day ≠ monthOf target := by
          intro hsame
          have hok := htarget.1
          rw [monthOk, ← hsame, ← monthOk, hmonth] at hok
          cases hok
        have hmono := monthOf_mono hle
        have hstart := (monthOf_spec target).1
        have hmonths : monthStart (monthOf day + 1) ≤ monthStart (monthOf target) :=
          monthStart_strictMono.monotone (by omega)
        omega
      have hspec := (monthOf_spec day).2
      have hfinds := ih _ (by omega) hnext rfl
      refine finds_mono (finds_month hinRange (by rwa [hwhole]) (by rwa [hwhole])) ?_
      omega
    | true =>
      cases hday : cron.dayOk day with
      | false =>
        have hne : day ≠ target := by
          rintro rfl
          exact Bool.false_ne_true (hday.symm.trans htarget.2)
        have hfinds := ih _ (by omega) (show day + 1 ≤ target by omega) rfl
        refine finds_mono (finds_day hinRange (by rwa [hwhole]) (by rwa [hwhole]) (by rwa [hwhole])) ?_
        omega
      | true =>
        obtain ⟨h, hh, hh24⟩ := hvalid.hour
        have hfinds : cron.Finds (h - day * 1440 / 60 % 24 + 60) (day * 1440) :=
          finds_in_day hvalid hh hh24 (by omega) (by omega) hinRange (by
            rw [hwhole]
            exact ⟨hmonth, hday⟩)
        exact finds_mono hfinds (by omega)

/-- A day that does not match is left for a later midnight. -/
theorem finds_of_not_dayMatches (hvalid : cron.Valid) {candidate target : Nat}
    (hlt : candidate / 1440 < target) (htarget : cron.DayMatches target)
    (hrange : target < daysBeforeYear 9999) (hday : ¬cron.DayMatches (candidate / 1440)) :
    cron.Finds (target - candidate / 1440 + 84) candidate := by
  have hinRange : InRange candidate := Nat.lt_trans hlt hrange
  cases hmonth : cron.monthOk (candidate / 1440) with
  | false =>
    have hnext : monthStart (monthOf (candidate / 1440) + 1) ≤ target := by
      by_contra hlate
      have hsame : monthOf target = monthOf (candidate / 1440) :=
        monthOf_eq_of_le (Nat.le_of_lt hlt) (by omega)
      have hok := htarget.1
      rw [monthOk, hsame, ← monthOk, hmonth] at hok
      cases hok
    have hspec := (monthOf_spec (candidate / 1440)).2
    exact finds_mono (finds_month hinRange hmonth (finds_from_midnight hvalid hnext htarget hrange))
      (by omega)
  | true =>
    have hno : cron.dayOk (candidate / 1440) = false := by
      cases hok : cron.dayOk (candidate / 1440) with
      | false => rfl
      | true => exact absurd ⟨hmonth, hok⟩ hday
    exact finds_mono (finds_day hinRange hmonth hno (finds_from_midnight hvalid hlt htarget hrange))
      (by omega)

/-- From the beginning of an hour, the search reaches the target day within the hours that are left of
this day. -/
theorem finds_from_hour (hvalid : cron.Valid) {candidate target : Nat} (hwhole : candidate % 60 = 0)
    (hlt : candidate / 1440 < target) (htarget : cron.DayMatches target)
    (hrange : target < daysBeforeYear 9999) :
    cron.Finds (24 - candidate / 60 % 24 + (target - candidate / 1440 + 84)) candidate := by
  have hinRange : InRange candidate := Nat.lt_trans hlt hrange
  by_cases hday : cron.DayMatches (candidate / 1440)
  case neg => exact finds_mono (finds_of_not_dayMatches hvalid hlt htarget hrange hday) (by omega)
  induction hd : 24 - candidate / 60 % 24 generalizing candidate with
  | zero => omega
  | succ d ih =>
    cases hhour : cron.hours.contains (candidate / 60 % 24) with
    | true =>
      obtain ⟨m, hm, hm60⟩ := hvalid.minute
      exact finds_mono (finds_in_hour hm hm60 (by omega) hinRange hday hhour) (by omega)
    | false =>
      by_cases hlast : candidate / 60 % 24 = 23
      · have hmidnight : (candidate / 60 + 1) * 60 = (candidate / 1440 + 1) * 1440 := by omega
        have hfinds := finds_from_midnight hvalid hlt htarget hrange
        rw [← hmidnight] at hfinds
        exact finds_mono (finds_hour hinRange hday.1 hday.2 hhour hfinds) (by omega)
      · have hsame : (candidate / 60 + 1) * 60 / 1440 = candidate / 1440 := by omega
        have hfinds : cron.Finds (d + (target - (candidate / 60 + 1) * 60 / 1440 + 84))
            ((candidate / 60 + 1) * 60) :=
          ih (by omega) (by omega) (by rwa [InRange, hsame]) (by rwa [hsame]) (by omega)
        rw [hsame] at hfinds
        exact finds_mono (finds_hour hinRange hday.1 hday.2 hhour hfinds) (by omega)

/-- From any minute, the search reaches the target day. -/
theorem finds_from_minute (hvalid : cron.Valid) {candidate target : Nat}
    (hlt : candidate / 1440 < target) (htarget : cron.DayMatches target)
    (hrange : target < daysBeforeYear 9999) :
    cron.Finds (60 - candidate % 60 + (target - candidate / 1440 + 108)) candidate := by
  have hinRange : InRange candidate := Nat.lt_trans hlt hrange
  by_cases hday : cron.DayMatches (candidate / 1440)
  case neg => exact finds_mono (finds_of_not_dayMatches hvalid hlt htarget hrange hday) (by omega)
  -- the next hour may be the midnight of the next day
  have hhours : cron.Finds (target - candidate / 1440 + 108) ((candidate / 60 + 1) * 60) := by
    by_cases hlast : candidate / 60 % 24 = 23
    · have hmidnight : (candidate / 60 + 1) * 60 = (candidate / 1440 + 1) * 1440 := by omega
      rw [hmidnight]
      exact finds_mono (finds_from_midnight hvalid hlt htarget hrange) (by omega)
    · have hsame : (candidate / 60 + 1) * 60 / 1440 = candidate / 1440 := by omega
      have hfinds := finds_from_hour hvalid (by omega) (hsame ▸ hlt) htarget hrange
      exact finds_mono hfinds (by omega)
  induction hd : 60 - candidate % 60 generalizing candidate with
  | zero => omega
  | succ d ih =>
    cases hhour : cron.hours.contains (candidate / 60 % 24) with
    | false => exact finds_mono (finds_hour hinRange hday.1 hday.2 hhour hhours) (by omega)
    | true =>
      have hnext : cron.Finds (d + (target - candidate / 1440 + 108)) (candidate + 1) := by
        by_cases hlast : candidate % 60 = 59
        · have hhour' : candidate + 1 = (candidate / 60 + 1) * 60 := by omega
          rw [hhour']
          exact finds_mono hhours (by omega)
        · have hsame : (candidate + 1) / 1440 = candidate / 1440 := by omega
          have hsame' : (candidate + 1) / 60 = candidate / 60 := by omega
          have hfinds : cron.Finds (d + (target - (candidate + 1) / 1440 + 108)) (candidate + 1) :=
            ih (by rwa [hsame]) (by rwa [InRange, hsame]) (by rwa [hsame]) (by rwa [hsame, hsame'])
              (by omega)
          rwa [hsame] at hfinds
      exact finds_mono (finds_minute hinRange hday.1 hday.2 hhour fun _ => hnext) (by omega)

end Cron

theorem isSome_computeNextCronRun {cron : Cron} (hvalid : cron.Valid) {t after : Nat}
    (hoccurs : cron.Occurs t) (hafter : after < daysBeforeYear 5000 * day) :
    (computeNextCronRun cron after).isSome = true := by
  obtain ⟨target, hlt, hnear, htarget⟩ := Cron.exists_dayMatches
    (Cron.dayMatches_of_matchesMinute hoccurs.2) ((after / minute + 1) / 1440)
  have hminutes : after / minute / 1440 < daysBeforeYear 5000 := by
    rw [Nat.div_div_eq_div_mul]
    exact (Nat.div_lt_iff_lt_mul (by decide)).mpr hafter
  have hyears : daysBeforeYear 5000 + 3501 < daysBeforeYear 9999 := by decide
  have hfinds := Cron.finds_from_minute hvalid hlt htarget (by omega)
  rw [computeNextCronRun, Option.isSome_map]
  apply hfinds
  have hsteps : 4000 < cronMaxSteps := by decide
  omega

/-- The next occurrence of an accepted expression, in UTC and after an instant up to the year 5000, is
the earliest occurrence after it; and the search gives up on no expression that has one at all. -/
theorem nextCronRun_earliest {expr : List Char} {cron : Cron} {after : Nat}
    (hparse : parseCron expr = .ok cron) (hafter : after < daysBeforeYear 5000 * day) :
    (∀ next, nextCronRun expr after = .ok next →
      after < next ∧ cron.Occurs next ∧ ∀ t, after < t → t < next → ¬cron.Occurs t) ∧
    ∀ error, nextCronRun expr after = .error error →
      error = .lookahead expr ∧ ∀ t, ¬cron.Occurs t := by
  have hvalid := valid_of_parseCron hparse
  constructor
  · intro next h
    rw [nextCronRun, hparse] at h
    apply computeNextCronRun_spec
    cases hnext : computeNextCronRun cron after with
    | none => simp [bind, Except.bind, hnext, throw, throwThe, MonadExceptOf.throw] at h
    | some t =>
      simp [bind, Except.bind, hnext, pure, Except.pure] at h
      rw [h]
  · intro error h
    rw [nextCronRun, hparse] at h
    cases hnext : computeNextCronRun cron after with
    | some t => simp [bind, Except.bind, hnext, pure, Except.pure] at h
    | none =>
      simp [bind, Except.bind, hnext, throw, throwThe, MonadExceptOf.throw] at h
      refine ⟨h.symm, fun t hoccurs => ?_⟩
      have hsome := isSome_computeNextCronRun hvalid hoccurs hafter
      rw [hnext] at hsome
      cases hsome

/-- Midnight of the leap days. -/
def leapDays : Cron :=
  ⟨[0], [0], [29], [2], [0, 1, 2, 3, 4, 5, 6, 0], false, true⟩

/-- After the leap day of 1896 the next one is that of 1904. -/
theorem nextCronRun_earliest_leapDays :
    ∃ next, nextCronRun "0 0 29 2 *".toList ((daysBeforeYear 1895 + 59) * day) = .ok next ∧
      (daysBeforeYear 1895 + 59) * day < next ∧ next ≤ (daysBeforeYear 1903 + 59) * day ∧
      leapDays.Occurs next := by
  have hparse : parseCron "0 0 29 2 *".toList = .ok leapDays := rfl
  have hoccurs : leapDays.Occurs ((daysBeforeYear 1903 + 59) * day) := by decide
  obtain ⟨hfound, hmissed⟩ := @nextCronRun_earliest _ _ ((daysBeforeYear 1895 + 59) * day) hparse
    (by decide)
  cases h : nextCronRun "0 0 29 2 *".toList ((daysBeforeYear 1895 + 59) * day) with
  | error error => exact absurd hoccurs ((hmissed error h).2 _)
  | ok next =>
    obtain ⟨hlt, hnext, hnone⟩ := hfound next h
    refine ⟨next, rfl, hlt, ?_, hnext⟩
    by_contra hlate
    exact hnone _ (by decide) (Nat.not_le.mp hlate) hoccurs

end Dqx.Scheduler
