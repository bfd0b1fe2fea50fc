import Mathlib.Data.List.Perm.Basic
import Mathlib.Data.List.Pairwise
import Mathlib.Data.List.Dedup

/-! Outer joins and grouped counts over lists of rows, and the conditions under which an outer join
pairs rows instead of multiplying them. -/

namespace Dqx.Lib

variable {α β κ : Type*}

/-- A left outer join: every left row with each match, or once without. -/
def leftOuter (on : α → β → Bool) (l : List α) (r : List β) : List (α × Option β) :=
  l.flatMap fun a =>
    match r.filter (on a) with
    | [] => [(a, none)]
    | b :: bs => (b :: bs).map fun b => (a, some b)

/-- A full outer join: the right rows that match nothing come on their own. -/
def fullOuter (on : α → β → Bool) (l : List α) (r : List β) : List (Option α × Option β) :=
  ((leftOuter on l r).map fun p => (some p.1, p.2)) ++
    ((r.filter fun b => !l.any fun a => on a b).map fun b => (none, some b))

/-- `GROUP BY key` with `count(*)`. -/
def groupCounts [DecidableEq κ] (key : α → κ) (l : List α) : List (κ × Nat) :=
  (l.map key).dedup.map fun k => (k, (l.map key).count k)

variable {on : α → β → Bool} {l : List α} {r : List β}

/-- The matches of one left row. -/
def matched (on : α → β → Bool) (r : List β) (a : α) : List (α × Option β) :=
  match r.filter (on a) with
  | [] => [(a, none)]
  | b :: bs => (b :: bs).map fun b => (a, some b)

theorem leftOuter_cons (on : α → β → Bool) (a : α) (l : List α) (r : List β) :
    leftOuter on (a :: l) r = matched on r a ++ leftOuter on l r := rfl

theorem matched_filterMap_snd (on : α → β → Bool) (r : List β) (a : α) :
    (matched on r a).filterMap Prod.snd = r.filter (on a) := by
  unfold matched
  split
  · rename_i h
    rw [h]
    rfl
  · rename_i b bs h
    rw [h, List.filterMap_map]
    exact List.filterMap_some

theorem mem_leftOuter {a : α} {o : Option β} (h : (a, o) ∈ leftOuter on l r) :
    a ∈ l ∧ ∀ b, o = some b → b ∈ r ∧ on a b = true := by
  induction l with
  | nil => simp [leftOuter] at h
  | cons c l ih =>
    rw [leftOuter_cons, List.mem_append] at h
    rcases h with h | h
    · unfold matched at h
      split at h
      · cases List.mem_singleton.mp h
        exact ⟨List.mem_cons_self, fun b hb => by cases hb⟩
      · rename_i b bs hbs
        obtain ⟨d, hd, hda⟩ := List.mem_map.mp h
        cases hda
        refine ⟨List.mem_cons_self, fun e he => ?_⟩
        cases he
        rw [← hbs] at hd
        exact List.mem_filter.mp hd
    · obtain ⟨ha, hb⟩ := ih h
      exact ⟨List.mem_cons_of_mem _ ha, hb⟩

/-- A left row with at most one match comes out once. -/
theorem leftOuter_map_fst (h : ∀ a ∈ l, (r.filter (on a)).length ≤ 1) :
    (leftOuter on l r).map Prod.fst = l := by
  induction l with
  | nil => rfl
  | cons a l ih =>
    have ha := h a List.mem_cons_self
    rw [leftOuter_cons, List.map_append, ih fun b hb => h b (List.mem_cons_of_mem _ hb)]
    unfold matched
    split
    · rfl
    · rename_i b bs hbs
      rw [hbs, List.length_cons] at ha
      have hnil : bs = [] := List.eq_nil_of_length_eq_zero (by omega)
      subst hnil
      rfl

/-- When no right row matches two left rows, each comes out of the join at most once: with the
unmatched ones added, the right rows are all there. -/
theorem leftOuter_filterMap_snd_append_perm
    (h : l.Pairwise fun a a' => ∀ b ∈ r, ¬(on a b = true ∧ on a' b = true)) :
    ((leftOuter on l r).filterMap Prod.snd ++ r.filter fun b => !l.any fun a => on a b).Perm r := by
  induction l with
  | nil => simp [leftOuter]
  | cons a l ih =>
    obtain ⟨ha, hl⟩ := List.pairwise_cons.mp h
    have hone : (r.filter fun b => !l.any fun a => on a b).filter (on a) = r.filter (on a) := by
      rw [List.filter_filter]
      refine List.filter_congr fun b hb => ?_
      cases hab : on a b with
      | false => rfl
      | true =>
        simp only [Bool.true_and, Bool.not_eq_true', List.any_eq_false]
        intro a' ha' hab'
        exact ha a' ha' b hb ⟨hab, hab'⟩
    have hrest : (r.filter fun b => !l.any fun a => on a b).filter (fun b => !on a b) =
        r.filter fun b => !(a :: l).any fun a => on a b := by
      rw [List.filter_filter]
      refine List.filter_congr fun b _ => ?_
      simp [List.any_cons, Bool.not_or]
    have hsplit := List.filter_append_perm (on a) (r.filter fun b => !l.any fun a => on a b)
    rw [hone, hrest] at hsplit
    rw [leftOuter_cons, List.filterMap_append, matched_filterMap_snd]
    have hswap : (r.filter (on a) ++ (leftOuter on l r).filterMap Prod.snd ++
          r.filter fun b => !(a :: l).any fun a => on a b).Perm
        ((leftOuter on l r).filterMap Prod.snd ++ (r.filter (on a) ++
          r.filter fun b => !(a :: l).any fun a => on a b)) := by
      rw [← List.append_assoc]
      exact List.perm_append_comm.append_right _
    exact hswap.trans ((hsplit.append_left _).trans (ih hl))

/-- At most one element of a list of pairwise exclusive matches is a match. -/
theorem length_filter_le_one {p : β → Bool} (h : r.Pairwise fun b b' => ¬(p b = true ∧ p b' = true)) :
    (r.filter p).length ≤ 1 := by
  induction r with
  | nil => simp
  | cons b r ih =>
    obtain ⟨hb, hr⟩ := List.pairwise_cons.mp h
    rw [List.filter_cons]
    split
    · rename_i hp
      have hnil : r.filter p = [] := by
        rw [List.filter_eq_nil_iff]
        exact fun b' hb' hp' => hb b' hb' ⟨hp, hp'⟩
      rw [hnil]
      exact Nat.le_refl 1
    · exact ih hr

/-- Where every left row has at most one match, the join looks it up. -/
theorem leftOuter_eq_map (h : ∀ a ∈ l, (r.filter (on a)).length ≤ 1) :
    leftOuter on l r = l.map fun a => (a, r.find? (on a)) := by
  induction l with
  | nil => rfl
  | cons a l ih =>
    have hone := h a List.mem_cons_self
    rw [leftOuter_cons, ih fun b hb => h b (List.mem_cons_of_mem _ hb), List.map_cons,
      ← List.head?_filter]
    unfold matched
    split
    · rename_i hnil
      rw [hnil]
      rfl
    · rename_i b bs hbs
      rw [hbs, List.length_cons] at hone
      have hnil : bs = [] := List.eq_nil_of_length_eq_zero (by omega)
      rw [hbs, hnil]
      rfl

theorem length_matched (on : α → β → Bool) (r : List β) (a : α) :
    (matched on r a).length = max 1 (r.filter (on a)).length := by
  unfold matched
  split
  · rename_i hnil
    rw [hnil]
    rfl
  · rename_i b bs hbs
    rw [hbs, List.length_map, List.length_cons]
    omega

theorem mem_matched_iff {a : α} {p : α × Option β} :
    p ∈ matched on r a ↔
      p.1 = a ∧ ((p.2 = none ∧ r.filter (on a) = []) ∨ ∃ b ∈ r.filter (on a), p.2 = some b) := by
  obtain ⟨a', o⟩ := p
  unfold matched
  split
  · rename_i hnil
    simp [hnil]
  · rename_i b bs hbs
    rw [hbs, List.mem_map]
    constructor
    · rintro ⟨c, hc, heq⟩
      cases heq
      exact ⟨rfl, .inr ⟨c, hc, rfl⟩⟩
    · rintro ⟨rfl, ⟨-, hnil⟩ | ⟨c, hc, rfl⟩⟩
      · cases hnil
      · exact ⟨c, hc, rfl⟩

theorem mem_leftOuter_iff {p : α × Option β} :
    p ∈ leftOuter on l r ↔ p.1 ∈ l ∧
      ((p.2 = none ∧ r.filter (on p.1) = []) ∨ ∃ b ∈ r.filter (on p.1), p.2 = some b) := by
  have hmem : p ∈ leftOuter on l r ↔ ∃ a ∈ l, p ∈ matched on r a := List.mem_flatMap
  rw [hmem]
  constructor
  · rintro ⟨a, ha, hp⟩
    obtain ⟨rfl, hcase⟩ := mem_matched_iff.mp hp
    exact ⟨ha, hcase⟩
  · rintro ⟨hp, hcase⟩
    exact ⟨p.1, hp, mem_matched_iff.mpr ⟨rfl, hcase⟩⟩

theorem exists_mem_leftOuter {a : α} (h : a ∈ l) : ∃ o, (a, o) ∈ leftOuter on l r := by
  cases hmatches : r.filter (on a) with
  | nil => exact ⟨none, mem_leftOuter_iff.mpr ⟨h, .inl ⟨rfl, hmatches⟩⟩⟩
  | cons b bs =>
    exact ⟨some b, mem_leftOuter_iff.mpr ⟨h, .inr ⟨b, by rw [hmatches]; exact .head _, rfl⟩⟩⟩

theorem length_le_leftOuter : l.length ≤ (leftOuter on l r).length := by
  induction l with
  | nil => exact Nat.zero_le _
  | cons a l ih =>
    rw [leftOuter_cons, List.length_append, List.length_cons, length_matched]
    omega

/-- The join pairs the left rows, and multiplies none, if and only if each has at most one match. -/
theorem leftOuter_map_fst_perm_iff :
    ((leftOuter on l r).map Prod.fst).Perm l ↔ ∀ a ∈ l, (r.filter (on a)).length ≤ 1 := by
  refine ⟨fun h => ?_, fun h => .of_eq (leftOuter_map_fst h)⟩
  have hlength := h.length_eq
  rw [List.length_map] at hlength
  clear h
  induction l with
  | nil => exact fun _ => nofun
  | cons a l ih =>
    rw [leftOuter_cons, List.length_append, List.length_cons, length_matched] at hlength
    have hle : l.length ≤ (leftOuter on l r).length := length_le_leftOuter
    rw [List.forall_mem_cons]
    exact ⟨by omega, ih (by omega)⟩

/-- Of a list without duplicates, at most one element is a match if and only if all matches are
equal. -/
theorem length_filter_le_one_iff {p : β → Bool} (h : r.Nodup) :
    (r.filter p).length ≤ 1 ↔ ∀ b ∈ r, ∀ b' ∈ r, p b = true → p b' = true → b = b' := by
  constructor
  · intro hlength b hb b' hb' hp hp'
    have hmem := List.mem_filter.mpr ⟨hb, hp⟩
    have hmem' := List.mem_filter.mpr ⟨hb', hp'⟩
    match hmatches : r.filter p with
    | [] => rw [hmatches] at hmem; cases hmem
    | [c] =>
      rw [hmatches, List.mem_singleton] at hmem hmem'
      rw [hmem, hmem']
    | _ :: _ :: _ => rw [hmatches] at hlength; simp at hlength
  · intro hunique
    refine length_filter_le_one (h.imp_of_mem fun {b b'} hb hb' hne hboth => ?_)
    exact hne (hunique b hb b' hb' hboth.1 hboth.2)

/-- A lookup with at most one match does not depend on the order. -/
theorem find?_eq_of_perm {p : β → Bool} {r' : List β} (hperm : r.Perm r')
    (h : (r.filter p).length ≤ 1) : r.find? p = r'.find? p := by
  have hfilter := hperm.filter p
  rw [← List.head?_filter, ← List.head?_filter]
  match hr : r.filter p with
  | [] =>
    rw [hr] at hfilter
    rw [hfilter.symm.eq_nil]
  | [b] =>
    rw [hr] at hfilter
    rw [List.perm_singleton.mp hfilter.symm]
  | _ :: _ :: _ => simp [hr] at h

theorem find?_eq_some_of_mem [DecidableEq κ] {k : κ} {keys : List κ} (h : k ∈ keys) :
    (keys.find? fun key => decide (key = k)) = some k := by
  obtain ⟨found, hfound⟩ := Option.isSome_iff_exists.mp
    (List.find?_isSome.mpr ⟨k, h, decide_eq_true rfl⟩ :
      (keys.find? fun key => decide (key = k)).isSome = true)
  have hkey : found = k := by simpa using List.find?_some hfound
  rw [hfound, hkey]

/-- The count of a group is the number of rows with its key. -/
theorem find?_groupCounts [DecidableEq κ] (key : α → κ) (l : List α) (k : κ) :
    (((groupCounts key l).find? fun group => group.1 = k).map Prod.snd).getD 0 =
      l.countP fun a => key a = k := by
  have hcount : (l.countP fun a => key a = k) = (l.map key).count k := by
    rw [List.count, List.countP_map]
    rfl
  rw [hcount, groupCounts, List.find?_map]
  show ((((l.map key).dedup.find? fun key => decide (key = k)).map _).map _).getD 0 = _
  by_cases hk : k ∈ l.map key
  · rw [find?_eq_some_of_mem (List.mem_dedup.mpr hk)]
    rfl
  · have hnone : ((l.map key).dedup.find? fun key => decide (key = k)) = none := by
      rw [List.find?_eq_none]
      intro key hkey
      rw [decide_eq_true_eq]
      rintro rfl
      exact hk (List.mem_dedup.mp hkey)
    rw [hnone, List.count_eq_zero.mpr hk]
    rfl

/-- No two groups have the same key. -/
theorem groupCounts_pairwise_ne [DecidableEq κ] (key : α → κ) (l : List α) :
    (groupCounts key l).Pairwise fun x y => x.1 ≠ y.1 := by
  rw [groupCounts, List.pairwise_map]
  exact List.nodup_dedup _

end Dqx.Lib
