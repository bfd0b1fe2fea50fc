import Dqx.TimeWindows.Gaps

/-! Which rows are reported before a gap, and what the window of the sentinel does to rows without a
timestamp. -/

namespace Dqx.TimeWindows

open Lib Lib.Sql

/-! ### Windows -/

namespace Settings

variable (s : Settings)

theorem windowStart_eq (timestamp : Int) :
    s.windowStart timestamp = timestamp / s.windowLength * s.windowLength := by
  have := Int.mul_ediv_add_emod timestamp s.windowLength
  unfold windowStart
  rw [Int.mul_comm]
  omega

/-- The start of a window is a whole number of seconds. -/
theorem unixTimestamp_windowStart (timestamp : Int) :
    unixTimestamp (s.windowStart timestamp) * second = s.windowStart timestamp := by
  have hmul : s.windowStart timestamp =
      timestamp / s.windowLength * (s.windowMinutes * 60) * second := by
    rw [windowStart_eq]
    unfold windowLength
    ring
  rw [unixTimestamp, hmul, Int.mul_ediv_cancel _ (by decide)]

/-- Comparing seconds is comparing the starts of windows. -/
theorem lt_unixTimestamp_iff (x y : Int) :
    (s.windowMinutes * 60 : Int) <
        unixTimestamp (s.windowStart y) - unixTimestamp (s.windowStart x) ↔
      s.windowStart x + s.windowLength < s.windowStart y := by
  have hx := s.unixTimestamp_windowStart x
  have hy := s.unixTimestamp_windowStart y
  have hsecond : second = 1000000 := rfl
  unfold windowLength
  rw [hsecond] at hx hy ⊢
  omega

end Settings

section Windows

variable {ρ κ : Type} (s : Settings) (timestamp : ρ → Option Int) (group : ρ → κ)
  (rows : List ρ)

/-- The windows of a group that hold a timestamp. -/
def Occupied (key : κ) : Set Int :=
  {window | ∃ row ∈ rows, group row = key ∧ ∃ t, timestamp row = some t ∧ s.windowStart t = window}

/-- The window that has to follow a window of a group: the next occupied one, or behind the last the
one of the current timestamp, if trailing gaps count. -/
def Follows (key : κ) (window next : Int) : Prop :=
  IsLeast {w | w ∈ Occupied s timestamp group rows key ∧ window < w} next ∨
    (∀ w ∈ Occupied s timestamp group rows key, w ≤ window) ∧ s.trailingGap = true ∧
      next = s.windowStart s.currTimestamp

/-- An occupied window with a gap behind it. -/
def BeforeGap (key : κ) (window : Int) : Prop :=
  window ∈ Occupied s timestamp group rows key ∧
    ∃ next, Follows s timestamp group rows key window next ∧ window + s.windowLength < next

section Following

variable {s timestamp group rows} {key : κ} {window : Int} {next : Option Int}

/-- The next window of a gap is the one that has to follow. -/
theorem follows_iff (hnext : IsSuccessor (Occupied s timestamp group rows key) window next)
    {n : Int} : Follows s timestamp group rows key window n ↔
      (gapOf s key (window, next)).nextWindowStart = some n := by
  unfold Follows gapOf
  cases next with
  | none =>
    have hnone : ¬IsLeast {w | w ∈ Occupied s timestamp group rows key ∧ window < w} n :=
      fun h => absurd (hnext n h.1.1) (not_le.mpr h.1.2)
    cases htrailing : s.trailingGap
    · simp [hnone]
    · simp only [hnone, false_or, if_true, Option.getD_none, Option.some.injEq, true_and]
      exact ⟨fun h => h.2.symm, fun h => ⟨hnext, h.symm⟩⟩
  | some w =>
    have hbehind : ¬∀ v ∈ Occupied s timestamp group rows key, v ≤ window := fun h =>
      absurd (h w hnext.1.1) (not_le.mpr hnext.1.2)
    have hsome : (if s.trailingGap then some ((some w).getD (s.windowStart s.currTimestamp))
        else some w) = some w := by
      split <;> rfl
    simp only [hbehind, false_and, or_false, hsome, Option.some.injEq]
    exact ⟨fun h => IsLeast.unique hnext h, fun h => h ▸ hnext⟩

theorem condition_gapOf (hmem : window ∈ Occupied s timestamp group rows key)
    (hnext : IsSuccessor (Occupied s timestamp group rows key) window next) :
    (gapOf s key (window, next)).condition = true ↔ BeforeGap s timestamp group rows key window := by
  have hcondition : (gapOf s key (window, next)).condition = true ↔
      ∃ n, (gapOf s key (window, next)).nextWindowStart = some n ∧
        (s.windowMinutes * 60 : Int) < unixTimestamp n - unixTimestamp window := by
    simp [gapOf, Option.any_eq_true]
  have hstart {n : Int} (h : Follows s timestamp group rows key window n) :
      ∃ t, n = s.windowStart t := by
    rcases h with ⟨⟨⟨_, _, _, t, _, rfl⟩, _⟩, _⟩ | ⟨-, -, rfl⟩
    · exact ⟨t, rfl⟩
    · exact ⟨_, rfl⟩
  obtain ⟨_, _, _, t, _, rfl⟩ := id hmem
  rw [hcondition]
  constructor
  · rintro ⟨n, hn, hlt⟩
    have hfollows := (follows_iff hnext).mpr hn
    obtain ⟨u, rfl⟩ := hstart hfollows
    exact ⟨hmem, _, hfollows, (s.lt_unixTimestamp_iff t u).mp hlt⟩
  · rintro ⟨-, n, hfollows, hlt⟩
    obtain ⟨u, rfl⟩ := hstart hfollows
    exact ⟨_, (follows_iff hnext).mp hfollows, (s.lt_unixTimestamp_iff t u).mpr hlt⟩

end Following

variable [DecidableEq κ]

theorem mem_distinctWindows {key : κ} {window : Int} :
    (key, window) ∈ distinctWindows s timestamp group rows ↔
      window ∈ Occupied s timestamp group rows key := by
  simp only [distinctWindows, List.mem_dedup, List.mem_map, List.mem_filter, Prod.mk.injEq,
    Option.isSome_iff_exists, Occupied, Set.mem_ofPred_eq, windowOf]
  constructor
  · rintro ⟨row, ⟨hrow, t, ht⟩, rfl, rfl⟩
    exact ⟨row, hrow, rfl, t, ht, by rw [ht]; rfl⟩
  · rintro ⟨row, hrow, rfl, t, ht, rfl⟩
    exact ⟨row, ⟨hrow, t, ht⟩, rfl, by rw [ht]; rfl⟩

/-- The windows of a group in order. -/
def windowsOf (key : κ) : List Int :=
  ascending (((distinctWindows s timestamp group rows).filter (·.1 = key)).map (·.2))

theorem mem_windowsOf {key : κ} {window : Int} :
    window ∈ windowsOf s timestamp group rows key ↔
      window ∈ Occupied s timestamp group rows key := by
  simp only [windowsOf, mem_ascending, List.mem_map, List.mem_filter, decide_eq_true_eq]
  constructor
  · rintro ⟨⟨_, _⟩, ⟨hmem, rfl⟩, rfl⟩
    exact (mem_distinctWindows ..).mp hmem
  · intro hmem
    exact ⟨(key, window), ⟨(mem_distinctWindows ..).mpr hmem, rfl⟩, rfl⟩

theorem mem_gaps {gap : Gap κ} : gap ∈ gaps s timestamp group rows ↔
    ∃ key window next, window ∈ Occupied s timestamp group rows key ∧
      IsSuccessor (Occupied s timestamp group rows key) window next ∧
        gap = gapOf s key (window, next) := by
  have hset (key : κ) : {w | w ∈ windowsOf s timestamp group rows key} =
      Occupied s timestamp group rows key := Set.ext fun w => mem_windowsOf ..
  simp only [gaps, List.mem_flatMap, List.mem_map, List.mem_dedup]
  constructor
  · rintro ⟨key, -, ⟨window, next⟩, hlead, rfl⟩
    obtain ⟨hmem, hnext⟩ := (mem_lead_iff (pairwise_ascending _)).mp hlead
    exact ⟨key, window, next, (mem_windowsOf ..).mp hmem, hset key ▸ hnext, rfl⟩
  · rintro ⟨key, window, next, hmem, hnext, rfl⟩
    refine ⟨key, ⟨(key, window), (mem_distinctWindows ..).mpr hmem, rfl⟩, (window, next), ?_, rfl⟩
    exact (mem_lead_iff (pairwise_ascending _)).mpr
      ⟨(mem_windowsOf ..).mpr hmem, (hset key).symm ▸ hnext⟩

/-- No two gaps are of one window. -/
theorem pairwise_gaps : (gaps s timestamp group rows).Pairwise fun gap gap' =>
    ¬(gap.group = gap'.group ∧ gap.windowStart = gap'.windowStart) := by
  refine List.pairwise_flatMap.mpr ⟨fun key _ => ?_, ?_⟩
  · have hstarts :
        ((lead (windowsOf s timestamp group rows key)).map Prod.fst).Pairwise (· ≠ ·) := by
      rw [lead_map_fst]
      exact (pairwise_ascending _).imp fun h => h.ne
    rw [List.pairwise_map] at hstarts ⊢
    exact hstarts.imp fun hne h => hne h.2
  · refine (List.nodup_dedup _).imp fun hne gap hgap gap' hgap' h => hne ?_
    obtain ⟨_, -, rfl⟩ := List.mem_map.mp hgap
    obtain ⟨_, -, rfl⟩ := List.mem_map.mp hgap'
    exact h.1

variable {s timestamp group rows} {key : κ} {window : Int}

/-! ### Rows -/

/-- The join finds the gap of the window of a row, if there is one. -/
theorem apply_eq (inputRows : List ρ) : apply s timestamp group rows inputRows =
    rows.map fun row => (row, (gaps s timestamp group inputRows).find? fun gap =>
      gap.group = group row ∧ gap.windowStart = windowOf s timestamp row) := by
  refine leftOuter_eq_map fun row _ => length_filter_le_one ?_
  refine (pairwise_gaps s timestamp group inputRows).imp fun hne h => hne ?_
  simp only [decide_eq_true_eq] at h
  exact ⟨h.1.1.trans h.2.1.symm, h.1.2.trans h.2.2.symm⟩

theorem exists_gap (hmem : window ∈ Occupied s timestamp group rows key) : ∃ next,
    IsSuccessor (Occupied s timestamp group rows key) window next ∧
      gapOf s key (window, next) ∈ gaps s timestamp group rows := by
  obtain ⟨next, hlead⟩ := exists_mem_lead.mp ((mem_windowsOf s timestamp group rows).mpr hmem)
  have hnext := isSuccessor_of_mem_lead (pairwise_ascending _) hlead
  have hset : {w | w ∈ windowsOf s timestamp group rows key} =
      Occupied s timestamp group rows key := Set.ext fun w => mem_windowsOf ..
  have hnext : IsSuccessor (Occupied s timestamp group rows key) window next := hset ▸ hnext
  exact ⟨next, hnext, (mem_gaps ..).mpr ⟨key, window, next, hmem, hnext, rfl⟩⟩

/-- A row is reported exactly if its window, which may be that of the sentinel, is before a gap. -/
theorem condition_isSome_iff (row : ρ) :
    (condition s timestamp row ((gaps s timestamp group rows).find? fun gap =>
      gap.group = group row ∧ gap.windowStart = windowOf s timestamp row)).isSome = true ↔
      BeforeGap s timestamp group rows (group row) (windowOf s timestamp row) := by
  have hreport (gap : Option (Gap κ)) :
      (condition s timestamp row gap).isSome = true ↔ gap.any (·.condition) = true := by
    unfold condition
    split <;> simp_all
  rw [hreport]
  cases hfound : (gaps s timestamp group rows).find? fun gap =>
      gap.group = group row ∧ gap.windowStart = windowOf s timestamp row with
  | none =>
    refine iff_of_false (by simp) fun hbefore => ?_
    obtain ⟨next, -, hgap⟩ := exists_gap hbefore.1
    exact List.find?_eq_none.mp hfound _ hgap (by simp [gapOf])
  | some gap =>
    obtain ⟨key, window, next, hmem, hnext, rfl⟩ :=
      (mem_gaps ..).mp (List.mem_of_find?_eq_some hfound)
    have hmatch := List.find?_some hfound
    simp only [decide_eq_true_eq] at hmatch
    obtain ⟨hkey, hwindow⟩ : key = group row ∧ window = windowOf s timestamp row := hmatch
    rw [← hkey, ← hwindow]
    exact condition_gapOf hmem hnext

end Windows

/-! ### The check -/

section Check

variable {ρ κ : Type} [DecidableEq κ] (s : Settings) (timestamp : ρ → Option Int) (group : ρ → κ)
  (rows : List ρ)

/-- A row with a timestamp, in a window before a gap. -/
def Flagged (row : ρ) : Prop :=
  ∃ t, timestamp row = some t ∧ BeforeGap s timestamp group rows (group row) (s.windowStart t)

/-- Every row comes once, and is reported exactly if it is flagged. -/
structure Faithful (results : List (ρ × Option String)) : Prop where
  once : (results.map Prod.fst).Perm rows
  reports : ∀ result ∈ results,
    result.2.isSome = true ↔ Flagged s timestamp group rows result.1

/-- No group with a row without timestamp has a gap behind the window of the sentinel. -/
def Undisturbed : Prop :=
  ∀ row ∈ rows, timestamp row = none →
    ¬BeforeGap s timestamp group rows (group row) (s.windowStart s.sentinel)

/-- What the check answers. -/
def results : List (ρ × Option String) :=
  (apply s timestamp group rows rows).map fun p => (p.1, condition s timestamp p.1 p.2)

theorem results_eq : results s timestamp group rows = rows.map fun row => (row,
    condition s timestamp row ((gaps s timestamp group rows).find? fun gap =>
      gap.group = group row ∧ gap.windowStart = windowOf s timestamp row)) := by
  rw [results, apply_eq, List.map_map]
  rfl

theorem faithful_iff : Faithful s timestamp group rows (results s timestamp group rows) ↔
    Undisturbed s timestamp group rows := by
  rw [results_eq]
  constructor
  · rintro ⟨-, hreports⟩ row hrow hnull hbefore
    have hreport := hreports _ (List.mem_map_of_mem hrow)
    rw [condition_isSome_iff, windowOf, hnull] at hreport
    obtain ⟨t, ht, -⟩ := hreport.mp hbefore
    exact absurd (hnull.symm.trans ht) nofun
  · intro hundisturbed
    refine ⟨by rw [List.map_map]; exact .of_eq (List.map_id'' (fun _ => rfl) rows), ?_⟩
    intro result hresult
    obtain ⟨row, hrow, rfl⟩ := List.mem_map.mp hresult
    rw [condition_isSome_iff, windowOf]
    cases htimestamp : timestamp row with
    | none =>
      refine iff_of_false (hundisturbed row hrow htimestamp) ?_
      rintro ⟨t, ht, -⟩
      exact absurd (htimestamp.symm.trans ht) nofun
    | some t => exact ⟨fun h => ⟨t, htimestamp, h⟩, fun ⟨u, hu, h⟩ =>
        Option.some.inj (htimestamp.symm.trans hu) ▸ h⟩

end Check

section Settings

variable (windowMinutes : Int) (trailingGap : Bool) (currTimestamp : Option Int) (now sentinel : Int)
  (castString : Int → String)

/-- The settings of an accepted check. -/
def settings : Settings :=
  ⟨windowMinutes.toNat, trailingGap, currTimestamp.getD now, sentinel, castString⟩

/-- An accepted check is faithful to exactly the rows that the sentinel does not disturb. -/
theorem hasNoGapsPerTimeWindow_faithful_iff {ρ κ : Type} [DecidableEq κ]
    (timestamp : ρ → Option Int) (group : ρ → κ) {check : List ρ → List (ρ × Option String)}
    (h : hasNoGapsPerTimeWindow windowMinutes trailingGap currTimestamp now sentinel castString
      timestamp group = .ok check) (rows : List ρ) :
    Faithful (settings windowMinutes trailingGap currTimestamp now sentinel castString) timestamp
        group rows (check rows) ↔
      Undisturbed (settings windowMinutes trailingGap currTimestamp now sentinel castString)
        timestamp group rows := by
  unfold hasNoGapsPerTimeWindow at h
  split at h
  · cases h
  · split at h
    · cases h
    · obtain rfl := Except.ok.inj h
      exact faithful_iff _ timestamp group rows

end Settings

/-- 1900-01-01 00:00:00 in UTC -/
def utcSentinel : Int := -2208988800 * second

theorem hasNoGapsPerTimeWindow_faithful_iff_hourly :
    Faithful (settings 60 true none 0 utcSentinel toString) id (fun _ => ()) [some 0, none]
        (results (settings 60 true none 0 utcSentinel toString) id (fun _ => ()) [some 0, none]) ↔
      Undisturbed (settings 60 true none 0 utcSentinel toString) id (fun _ => ()) [some 0, none] :=
  hasNoGapsPerTimeWindow_faithful_iff 60 true none 0 utcSentinel toString id (fun _ => ()) rfl
    [some 0, none]

/-- A row without timestamp, one at the sentinel and one in 1970. -/
def longGap : List (Option Int) := [none, some utcSentinel, some 0]

theorem not_all_checks_faithful : ¬∀ (windowMinutes : Int) (trailingGap : Bool)
    (currTimestamp : Option Int) (now sentinel : Int) (castString : Int → String)
    (timestamp : Option Int → Option Int) (group : Option Int → Unit)
    (check : List (Option Int) → List (Option Int × Option String)),
    hasNoGapsPerTimeWindow windowMinutes trailingGap currTimestamp now sentinel castString timestamp
      group = .ok check → ∀ rows, Faithful (settings windowMinutes trailingGap currTimestamp now
        sentinel castString) timestamp group rows (check rows) := by
  intro h
  have hfaithful := h 60 false none 0 utcSentinel toString id (fun _ => ()) _ rfl longGap
  have hundisturbed := (faithful_iff _ _ _ longGap).mp hfaithful
  refine hundisturbed none (by decide) rfl ?_
  have hreported : (condition (settings 60 false none 0 utcSentinel toString) id none
      ((gaps (settings 60 false none 0 utcSentinel toString) id (fun _ => ()) longGap).find?
        fun gap => gap.group = () ∧
          gap.windowStart = windowOf (settings 60 false none 0 utcSentinel toString) id
            none)).isSome = true := by decide
  exact (condition_isSome_iff none).mp hreported

end Dqx.TimeWindows
