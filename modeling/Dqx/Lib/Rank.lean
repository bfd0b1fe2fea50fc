import Mathlib.Data.List.Basic
import Mathlib.Data.List.Pairwise
import Mathlib.Data.List.Sort
import Mathlib.Order.Defs.LinearOrder

/-! Ranking within partitions: `row_number` over rows put in an order that leaves ties open, the rows
of rank one, and the rows that `DISTINCT ON` keeps. -/

namespace Dqx.Lib

variable {α κ : Type*}

/-- An order of rows as an engine may arrange them: it permutes them, and sorts those of each
partition. How it breaks ties, and how partitions interleave, is its own choice. -/
structure Arrangement (part : α → κ) (le : α → α → Prop) where
  run : List α → List α
  perm : ∀ l, (run l).Perm l
  sorted : ∀ l, (run l).Pairwise fun a b => part a = part b → le a b

namespace Arrangement

variable {le : α → α → Prop} {order : Arrangement (fun _ : α => ()) le} {rows : List α}

theorem head_eq_none_iff : (order.run rows).head? = none ↔ rows = [] := by
  rw [List.head?_eq_none_iff]
  constructor
  · intro h
    exact (h ▸ order.perm rows).nil_eq.symm
  · rintro rfl
    exact (order.perm []).eq_nil

/-- The first row of a sorted whole comes before every other row. -/
theorem head_le {first : α} (h : (order.run rows).head? = some first) :
    first ∈ rows ∧ ∀ row ∈ rows, row = first ∨ le first row := by
  have hsorted := order.sorted rows
  have hperm := order.perm rows
  cases hrun : order.run rows with
  | nil => simp [hrun] at h
  | cons head rest =>
    obtain rfl : head = first := by simpa [hrun] using h
    rw [hrun] at hsorted hperm
    refine ⟨hperm.subset List.mem_cons_self, fun row hrow => ?_⟩
    rcases List.mem_cons.mp (hperm.symm.subset hrow) with hhead | hrest
    · exact .inl hhead
    · exact .inr ((List.pairwise_cons.mp hsorted).1 row hrest rfl)

end Arrangement

/-- `ORDER BY ... DESC NULLS LAST`. -/
def DescNullsLast {β : Type*} [LE β] : Option β → Option β → Prop
  | some a, some b => b ≤ a
  | none, some _ => False
  | _, none => True

variable [DecidableEq κ]

/-- `row_number` of rows that come in order, after rows of the partitions `seen`. -/
def numberFrom (part : α → κ) (seen : List κ) : List α → List (α × Nat)
  | [] => []
  | a :: l => (a, seen.count (part a) + 1) :: numberFrom part (part a :: seen) l

/-- `row_number` over rows in order: the place of each among those of its partition. -/
def number (part : α → κ) (l : List α) : List (α × Nat) := numberFrom part [] l

/-- `DISTINCT ON` over rows in order: the first row of each partition. -/
def distinctOnFrom (part : α → κ) (seen : List κ) : List α → List α
  | [] => []
  | a :: l =>
    if part a ∈ seen then distinctOnFrom part seen l
    else a :: distinctOnFrom part (part a :: seen) l

def distinctOn (part : α → κ) (l : List α) : List α := distinctOnFrom part [] l

theorem numberFrom_map_fst (part : α → κ) (seen : List κ) (l : List α) :
    (numberFrom part seen l).map Prod.fst = l := by
  induction l generalizing seen with
  | nil => rfl
  | cons a l ih => simp only [numberFrom, List.map_cons, ih]

@[simp] theorem number_map_fst (part : α → κ) (l : List α) :
    (number part l).map Prod.fst = l := numberFrom_map_fst part [] l

/-- A rank counts past the rows seen before. -/
theorem count_lt_of_mem_numberFrom {part : α → κ} {seen : List κ} {l : List α} {a : α} {n : Nat}
    (h : (a, n) ∈ numberFrom part seen l) : seen.count (part a) < n := by
  induction l generalizing seen with
  | nil => simp [numberFrom] at h
  | cons b l ih =>
    rcases List.mem_cons.mp h with h | h
    · cases h
      omega
    · have := ih h
      rw [List.count_cons] at this
      omega

/-- No two rows of a partition have the same rank. -/
theorem numberFrom_pairwise_ne (part : α → κ) (seen : List κ) (l : List α) :
    (numberFrom part seen l).Pairwise fun x y => part x.1 = part y.1 → x.2 ≠ y.2 := by
  induction l generalizing seen with
  | nil => exact .nil
  | cons a l ih =>
    refine List.pairwise_cons.mpr ⟨fun y hy (hp : part a = part y.1)
      (hn : seen.count (part a) + 1 = y.2) => ?_, ih _⟩
    have := count_lt_of_mem_numberFrom (a := y.1) (n := y.2) hy
    rw [← hp, List.count_cons_self] at this
    omega

theorem number_pairwise_ne (part : α → κ) (l : List α) :
    (number part l).Pairwise fun x y => part x.1 = part y.1 → x.2 ≠ y.2 :=
  numberFrom_pairwise_ne part [] l

/-- The rows of rank one are the first of their partition. -/
theorem mem_numberFrom_one {part : α → κ} {seen : List κ} {l : List α} {a : α} :
    (a, 1) ∈ numberFrom part seen l ↔
      part a ∉ seen ∧ ∃ xs ys, l = xs ++ a :: ys ∧ ∀ x ∈ xs, part x ≠ part a := by
  induction l generalizing seen with
  | nil => simp [numberFrom]
  | cons b l ih =>
    rw [numberFrom, List.mem_cons, ih]
    constructor
    · rintro (h | ⟨hns, xs, ys, rfl, hx⟩)
      · simp only [Prod.mk.injEq] at h
        obtain ⟨rfl, h⟩ := h
        exact ⟨List.count_eq_zero.mp (by omega), [], l, rfl, by simp⟩
      · simp only [List.mem_cons, not_or] at hns
        refine ⟨hns.2, b :: xs, ys, rfl, fun x hx' => ?_⟩
        rcases List.mem_cons.mp hx' with rfl | hx'
        · exact fun h => hns.1 h.symm
        · exact hx x hx'
    · rintro ⟨hns, xs, ys, hl, hx⟩
      cases xs with
      | nil =>
        simp only [List.nil_append, List.cons.injEq] at hl
        obtain ⟨rfl, rfl⟩ := hl
        exact .inl (by rw [List.count_eq_zero.mpr hns])
      | cons c xs =>
        simp only [List.cons_append, List.cons.injEq] at hl
        obtain ⟨rfl, rfl⟩ := hl
        refine .inr ⟨?_, xs, ys, rfl, fun x hx' => hx x (List.mem_cons_of_mem _ hx')⟩
        simp only [List.mem_cons, not_or]
        exact ⟨fun h => hx b List.mem_cons_self h.symm, hns⟩

theorem mem_distinctOnFrom {part : α → κ} {seen : List κ} {l : List α} {a : α} :
    a ∈ distinctOnFrom part seen l ↔
      part a ∉ seen ∧ ∃ xs ys, l = xs ++ a :: ys ∧ ∀ x ∈ xs, part x ≠ part a := by
  induction l generalizing seen with
  | nil => simp [distinctOnFrom]
  | cons b l ih =>
    rw [← mem_numberFrom_one, distinctOnFrom, numberFrom, List.mem_cons, mem_numberFrom_one]
    split
    · rename_i hb
      rw [ih]
      constructor
      · rintro ⟨hns, hx⟩
        refine .inr ⟨?_, hx⟩
        simp only [List.mem_cons, not_or]
        exact ⟨fun h => hns (h ▸ hb), hns⟩
      · rintro (h | ⟨hns, hx⟩)
        · simp only [Prod.mk.injEq] at h
          have := List.count_pos_iff.mpr hb
          omega
        · simp only [List.mem_cons, not_or] at hns
          exact ⟨hns.2, hx⟩
    · rename_i hb
      rw [List.mem_cons, ih]
      refine or_congr ?_ Iff.rfl
      simp [List.count_eq_zero.mpr hb]

/-- `DISTINCT ON` keeps the rows of rank one. -/
theorem mem_distinctOn_iff {part : α → κ} {l : List α} {a : α} :
    a ∈ distinctOn part l ↔ (a, 1) ∈ number part l := by
  rw [distinctOn, number, mem_distinctOnFrom, mem_numberFrom_one]

/-- Rows that come before the others of their partition are ranked as if alone. -/
theorem numberFrom_filter {part : α → κ} {p : α → Bool} {seen seen' : List κ} {l : List α}
    (hseen : ∀ a ∈ l, p a = true → seen.count (part a) = seen'.count (part a))
    (h : l.Pairwise fun a b => part a = part b → p b = true → p a = true) :
    (numberFrom part seen l).filter (fun x => p x.1) = numberFrom part seen' (l.filter p) := by
  induction l generalizing seen seen' with
  | nil => rfl
  | cons a l ih =>
    obtain ⟨ha, hl⟩ := List.pairwise_cons.mp h
    rw [numberFrom, List.filter_cons, List.filter_cons]
    split
    · rename_i hp
      rw [numberFrom, hseen a List.mem_cons_self hp]
      refine congrArg (_ :: ·) (ih (fun b hb hpb => ?_) hl)
      rw [List.count_cons, List.count_cons, hseen b (List.mem_cons_of_mem _ hb) hpb]
    · rename_i hp
      refine ih (fun b hb hpb => ?_) hl
      have hne : part a ≠ part b := fun hab => hp (ha b hb hab hpb)
      rw [List.count_cons_of_ne hne]
      exact hseen b (List.mem_cons_of_mem _ hb) hpb

theorem number_filter {part : α → κ} {p : α → Bool} {l : List α}
    (h : l.Pairwise fun a b => part a = part b → p b = true → p a = true) :
    (number part l).filter (fun x => p x.1) = number part (l.filter p) :=
  numberFrom_filter (fun _ _ _ => rfl) h

/-- Ranks depend on the partitions alone. -/
theorem number_map {β : Type*} (f : α → β) (part : β → κ) (l : List α) :
    (number (part ∘ f) l).map (fun x => (f x.1, x.2)) = number part (l.map f) := by
  have hfrom : ∀ seen, (numberFrom (part ∘ f) seen l).map (fun x => (f x.1, x.2)) =
      numberFrom part seen (l.map f) := by
    induction l with
    | nil => exact fun _ => rfl
    | cons a l ih =>
      intro seen
      rw [numberFrom, List.map_cons, List.map_cons, numberFrom, ih]
      rfl
  exact hfrom []

/-- Lists with the same rows in every partition are permutations. -/
theorem perm_of_filter_eq {l l' : List α} (part : α → κ)
    (h : ∀ k, l.filter (fun a => part a = k) = l'.filter fun a => part a = k) : l.Perm l' := by
  classical
  rw [List.perm_iff_count]
  intro a
  have hcount : ∀ l : List α, (l.filter fun b => part b = part a).count a = l.count a :=
    fun l => List.count_filter (by simp)
  rw [← hcount l, ← hcount l', h]

/-- Rows sorted within their partitions by an order without ties have the same ranks however they
were arranged. -/
theorem number_perm_of_sorted {part : α → κ} {le : α → α → Prop} {l l' : List α}
    (hties : ∀ a ∈ l, ∀ b ∈ l', part a = part b → le a b → le b a → a = b)
    (hl : l.Pairwise fun a b => part a = part b → le a b)
    (hl' : l'.Pairwise fun a b => part a = part b → le a b) (hperm : l.Perm l') :
    (number part l).Perm (number part l') := by
  apply perm_of_filter_eq fun x => part x.1
  intro k
  have hpart : ∀ xs : List α, (number part xs).filter (fun x => part x.1 = k) =
      number part (xs.filter fun a => part a = k) := by
    intro xs
    apply number_filter (p := fun a => decide (part a = k))
    rw [List.pairwise_iff_forall_sublist]
    intro a b _ hab hb
    rw [decide_eq_true_eq] at hb ⊢
    exact hab.trans hb
  have hsorted : ∀ xs : List α, (xs.Pairwise fun a b => part a = part b → le a b) →
      (xs.filter fun a => part a = k).Pairwise le := by
    intro xs hxs
    refine (hxs.filter _).imp_of_mem fun ha hb hab => hab ?_
    rw [List.mem_filter, decide_eq_true_eq] at ha hb
    exact ha.2.trans hb.2.symm
  have heq : (l.filter fun a => part a = k) = l'.filter fun a => part a = k := by
    refine (hperm.filter _).eq_of_pairwise (fun a b ha hb hab hba => ?_) (hsorted l hl)
      (hsorted l' hl')
    rw [List.mem_filter, decide_eq_true_eq] at ha hb
    exact hties a ha.1 b hb.1 (ha.2.trans hb.2.symm) hab hba
  rw [hpart, hpart, heq]

/-- The ranks of a partition up to a bound are as many as the rows, up to the bound. -/
theorem countP_number_le (part : α → κ) (k : κ) (bound : Nat) (l : List α) :
    (number part l).countP (fun x => part x.1 = k && x.2 ≤ bound) =
      min (l.countP fun a => part a = k) bound := by
  have hfrom : ∀ seen, (numberFrom part seen l).countP (fun x => part x.1 = k && x.2 ≤ bound) =
      min (l.countP fun a => part a = k) (bound - seen.count k) := by
    induction l with
    | nil => simp [numberFrom]
    | cons a l ih =>
      intro seen
      rw [numberFrom, List.countP_cons, List.countP_cons, ih]
      by_cases hk : part a = k
      · subst hk
        simp only [decide_true, Bool.true_and, List.count_cons_self, if_true, decide_eq_true_eq]
        split <;> omega
      · simp [hk]
  simpa [number] using hfrom []

/-- Every rank up to the number of rows of a partition is taken. -/
theorem exists_number {part : α → κ} {k : κ} {n : Nat} {l : List α} (hn : 0 < n)
    (h : n ≤ l.countP fun a => part a = k) : ∃ a, part a = k ∧ (a, n) ∈ number part l := by
  have hfrom : ∀ seen, seen.count k < n → n ≤ seen.count k + (l.countP fun a => part a = k) →
      ∃ a, part a = k ∧ (a, n) ∈ numberFrom part seen l := by
    clear h
    induction l with
    | nil =>
      intro seen hlow hhigh
      simp at hhigh
      omega
    | cons a l ih =>
      intro seen hlow hhigh
      rw [numberFrom]
      by_cases hnext : part a = k ∧ n = seen.count k + 1
      · obtain ⟨rfl, rfl⟩ := hnext
        exact ⟨a, rfl, List.mem_cons_self⟩
      · have hbounds : (part a :: seen).count k < n ∧
            n ≤ (part a :: seen).count k + l.countP fun a => part a = k := by
          rw [List.countP_cons] at hhigh
          rw [List.count_cons]
          by_cases hk : part a = k
          · simp only [hk, decide_true, if_true, true_and, beq_self_eq_true] at hhigh hnext ⊢
            omega
          · simp [hk] at hhigh ⊢
            omega
        obtain ⟨b, hb, hmem⟩ := ih (part a :: seen) hbounds.1 hbounds.2
        exact ⟨b, hb, List.mem_cons_of_mem _ hmem⟩
  exact hfrom [] (by simpa using hn) (by simpa using h)

/-- A rank is at most the number of rows of its partition. -/
theorem le_countP_of_mem_number {part : α → κ} {a : α} {n : Nat} {l : List α}
    (h : (a, n) ∈ number part l) : 0 < n ∧ n ≤ l.countP fun b => part b = part a := by
  have hfrom : ∀ seen, (a, n) ∈ numberFrom part seen l →
      n ≤ seen.count (part a) + l.countP fun b => part b = part a := by
    clear h
    induction l with
    | nil => simp [numberFrom]
    | cons b l ih =>
      intro seen h
      rw [numberFrom] at h
      rcases List.mem_cons.mp h with h | h
      · cases h
        simp
      · have hrest := ih _ h
        rw [List.count_cons] at hrest
        rw [List.countP_cons]
        by_cases hb : part b = part a
        · simp [hb] at hrest ⊢
          omega
        · simp [hb] at hrest ⊢
          omega
  constructor
  · have := count_lt_of_mem_numberFrom h
    omega
  · simpa using hfrom [] h

namespace Arrangement

variable {part : α → κ} {le : α → α → Prop} (w : Arrangement part le)

/-- `row_number` over a partition and an order. -/
def rowNumber (l : List α) : List (α × Nat) := number part (w.run l)

omit [DecidableEq κ] in
@[simp] theorem mem_run {l : List α} {a : α} : a ∈ w.run l ↔ a ∈ l := (w.perm l).mem_iff

theorem rowNumber_map_fst_perm (l : List α) : ((w.rowNumber l).map Prod.fst).Perm l := by
  rw [rowNumber, number_map_fst]
  exact w.perm l

theorem rowNumber_pairwise_ne (l : List α) :
    (w.rowNumber l).Pairwise fun x y => part x.1 = part y.1 → x.2 ≠ y.2 :=
  number_pairwise_ne part (w.run l)

theorem mem_of_mem_rowNumber {l : List α} {a : α} {n : Nat} (h : (a, n) ∈ w.rowNumber l) :
    a ∈ l :=
  (w.rowNumber_map_fst_perm l).mem_iff.mp (List.mem_map.mpr ⟨(a, n), h, rfl⟩)

/-- A row of rank one is a least one of its partition. -/
theorem le_of_mem_rowNumber_one {l : List α} {a b : α} (ha : (a, 1) ∈ w.rowNumber l)
    (hb : b ∈ l) (hp : part b = part a) : b = a ∨ le a b := by
  obtain ⟨-, xs, ys, hl, hx⟩ := mem_numberFrom_one.mp ha
  have hmem : b ∈ w.run l := w.mem_run.mpr hb
  have hsorted := w.sorted l
  rw [hl] at hmem hsorted
  rcases List.mem_append.mp hmem with hb' | hb'
  · exact absurd hp (hx b hb')
  · rcases List.mem_cons.mp hb' with rfl | hb'
    · exact .inl rfl
    · have := (List.pairwise_append.mp hsorted).2.1
      exact .inr ((List.pairwise_cons.mp this).1 b hb' hp.symm)

/-- Every partition has a row of rank one. -/
theorem exists_rowNumber_one {l : List α} {b : α} (hb : b ∈ l) :
    ∃ a, part a = part b ∧ (a, 1) ∈ w.rowNumber l := by
  have hfirst : ∀ xs : List α, b ∈ xs →
      ∃ a us vs, xs = us ++ a :: vs ∧ part a = part b ∧ ∀ x ∈ us, part x ≠ part a := by
    intro xs hxs
    induction xs with
    | nil => simp at hxs
    | cons c xs ih =>
      by_cases hc : part c = part b
      · exact ⟨c, [], xs, rfl, hc, by simp⟩
      · rcases List.mem_cons.mp hxs with rfl | hxs
        · exact absurd rfl hc
        · obtain ⟨a, us, vs, rfl, ha, hus⟩ := ih hxs
          refine ⟨a, c :: us, vs, rfl, ha, fun x hx => ?_⟩
          rcases List.mem_cons.mp hx with rfl | hx
          · exact fun h => hc (h.trans ha)
          · exact hus x hx
  obtain ⟨a, us, vs, hrun, ha, hus⟩ := hfirst (w.run l) (w.mem_run.mpr hb)
  exact ⟨a, ha, mem_numberFrom_one.mpr ⟨by simp, us, vs, hrun, hus⟩⟩

omit [DecidableEq κ] in
/-- Some arrangement puts given rows in a given order, if that order is sorted. -/
theorem exists_run (w : Arrangement part le) {l order : List α} (hperm : order.Perm l)
    (hsorted : order.Pairwise fun a b => part a = part b → le a b) :
    ∃ w' : Arrangement part le, w'.run l = order := by
  classical
  let w' : Arrangement part le := {
    run := fun rows => if rows = l then order else w.run rows
    perm := fun rows => by
      split
      · rename_i h
        exact h ▸ hperm
      · exact w.perm rows
    sorted := fun rows => by
      split
      · exact hsorted
      · exact w.sorted rows }
  exact ⟨w', if_pos rfl⟩

omit [DecidableEq κ] in
/-- Some arrangement puts the rows that come first in their partitions in a given order. -/
theorem exists_run_filter (w : Arrangement part le) {p : α → Bool} {first l : List α}
    (hperm : first.Perm (l.filter p))
    (hsorted : first.Pairwise fun a b => part a = part b → le a b)
    (hfirst : ∀ a b, part a = part b → p a = true → p b = false → le a b) :
    ∃ w' : Arrangement part le, (w'.run l).filter p = first := by
  have hp : ∀ a ∈ first, p a = true := fun a ha => (List.mem_filter.mp (hperm.subset ha)).2
  have hrest : ∀ a ∈ (w.run l).filter fun a => !p a, p a = false := by
    intro a ha
    simpa using (List.mem_filter.mp ha).2
  obtain ⟨w', hw'⟩ := w.exists_run (l := l)
    ((hperm.append ((w.perm l).filter _)).trans (List.filter_append_perm p l))
    (List.pairwise_append.mpr ⟨hsorted, (w.sorted l).filter _,
      fun a ha b hb hab => hfirst a b hab (hp a ha) (hrest b hb)⟩)
  refine ⟨w', ?_⟩
  rw [hw', List.filter_append, List.filter_eq_self.mpr hp,
    List.filter_eq_nil_iff.mpr fun a ha => by simp [hrest a ha], List.append_nil]

/-- Sorting by a total order is an arrangement. -/
def ofSort (part : α → κ) (le : α → α → Prop) [DecidableRel le]
    (htrans : ∀ a b c, le a b → le b c → le a c) (htotal : ∀ a b, le a b ∨ le b a) :
    Arrangement part le where
  run l := l.insertionSort le
  perm l := List.perm_insertionSort le l
  sorted l := by
    have : IsTrans α le := ⟨htrans⟩
    have : Std.Total le := ⟨htotal⟩
    apply (List.pairwise_insertionSort le l).imp
    intro a b h _
    exact h

end Arrangement

namespace DescNullsLast

variable {β : Type*} [LinearOrder β]

instance : DecidableRel (DescNullsLast (β := β))
  | some a, some b => inferInstanceAs (Decidable (b ≤ a))
  | none, some _ => inferInstanceAs (Decidable False)
  | some _, none => inferInstanceAs (Decidable True)
  | none, none => inferInstanceAs (Decidable True)

theorem trans : ∀ a b c : Option β, DescNullsLast a b → DescNullsLast b c → DescNullsLast a c
  | some _, some _, some _, hab, hbc => le_trans hbc hab
  | none, none, some _, _, hbc => hbc
  | none, some _, _, hab, _ => hab.elim
  | _, none, some _, _, hbc => hbc.elim
  | some _, _, none, _, _ => trivial
  | none, none, none, _, _ => trivial

theorem total : ∀ a b : Option β, DescNullsLast a b ∨ DescNullsLast b a
  | some a, some b => (le_total a b).symm
  | none, some _ => .inr trivial
  | some _, none => .inl trivial
  | none, none => .inl trivial

theorem antisymm : ∀ a b : Option β, DescNullsLast a b → DescNullsLast b a → a = b
  | some _, some _, hab, hba => congrArg some (le_antisymm hba hab)
  | none, some _, hab, _ => hab.elim
  | some _, none, _, hba => hba.elim
  | none, none, _, _ => rfl

end DescNullsLast

end Dqx.Lib
