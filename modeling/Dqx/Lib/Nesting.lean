import Mathlib.Data.List.Basic
import Mathlib.Algebra.Order.Ring.Int

/-! Lists whose elements open and close levels: where a list is first stopped on its outermost level,
its pieces between such stops, and the lists that can stand between them without being cut. -/

namespace Dqx.Lib.Nesting

variable {α : Type} (weight : α → Int)

/-- The levels that a list leaves open. -/
def depth : List α → Int
  | [] => 0
  | c :: rest => weight c + depth rest

section Cut

variable (stop : α → Bool)

/-- What stands before and after the first stop on the outermost level. -/
def breakTop : Int → List α → Option (List α × List α)
  | _, [] => none
  | d, c :: rest =>
    if stop c ∧ d = 0 then some ([], rest)
    else (breakTop (d + weight c) rest).map (Prod.map (c :: ·) id)

/-- A first piece with more before it. -/
def prepend (xs : List α) : List (List α) → List (List α)
  | [] => [xs]
  | piece :: pieces => (xs ++ piece) :: pieces

/-- The pieces between the stops on the outermost level. -/
def splitTop : Int → List α → List (List α)
  | _, [] => [[]]
  | d, c :: rest =>
    if stop c ∧ d = 0 then [] :: splitTop d rest
    else prepend [c] (splitTop (d + weight c) rest)

/-- No element stops on the outermost level, where the list begins at this depth. -/
def Passes : Int → List α → Prop
  | _, [] => True
  | d, c :: rest => (stop c = true → d ≠ 0) ∧ Passes (d + weight c) rest

end Cut

/-- No level is closed that was not open. -/
def Above : Int → List α → Prop
  | d, [] => 0 ≤ d
  | d, c :: rest => 0 ≤ d ∧ Above (d + weight c) rest

/-- Every level that is opened is closed. -/
structure Balanced (xs : List α) : Prop where
  above : Above weight 0 xs
  depth_eq : depth weight xs = 0

variable {weight} {stop stop' : α → Bool} {xs ys : List α} {c : α} {d : Int}

@[simp] theorem depth_append : depth weight (xs ++ ys) = depth weight xs + depth weight ys := by
  induction xs with
  | nil => simp [depth]
  | cons x xs ih => simp [depth, ih, add_assoc]

theorem depth_eq_zero (h : ∀ x ∈ xs, weight x = 0) : depth weight xs = 0 := by
  induction xs with
  | nil => rfl
  | cons x xs ih =>
    rw [depth, h x List.mem_cons_self, ih fun y hy => h y (List.mem_cons_of_mem _ hy)]
    rfl

theorem passes_append : Passes weight stop d (xs ++ ys) ↔
    Passes weight stop d xs ∧ Passes weight stop (d + depth weight xs) ys := by
  induction xs generalizing d with
  | nil => simp [Passes, depth]
  | cons x xs ih =>
    rw [List.cons_append, Passes, Passes, ih, depth, and_assoc, ← add_assoc]

theorem passes_of_forall (h : ∀ x ∈ xs, stop x = false) : Passes weight stop d xs := by
  induction xs generalizing d with
  | nil => trivial
  | cons x xs ih =>
    refine ⟨fun hx => ?_, ih fun y hy => h y (List.mem_cons_of_mem _ hy)⟩
    rw [h x List.mem_cons_self] at hx
    cases hx

theorem Passes.mono (h : Passes weight stop d xs) (hstop : ∀ x, stop' x = true → stop x = true) :
    Passes weight stop' d xs := by
  induction xs generalizing d with
  | nil => trivial
  | cons x xs ih => exact ⟨fun hx => h.1 (hstop x hx), ih h.2⟩

theorem above_append : Above weight d (xs ++ ys) ↔
    Above weight d xs ∧ Above weight (d + depth weight xs) ys := by
  induction xs generalizing d with
  | nil =>
    rw [List.nil_append, depth, add_zero, Above]
    refine ⟨fun h => ⟨?_, h⟩, And.right⟩
    cases ys with
    | nil => exact h
    | cons y ys => exact h.1
  | cons x xs ih => rw [List.cons_append, Above, Above, ih, depth, and_assoc, ← add_assoc]

theorem Balanced.append (h : Balanced weight xs) (h' : Balanced weight ys) :
    Balanced weight (xs ++ ys) where
  above := above_append.mpr ⟨h.above, by rw [h.depth_eq, add_zero]; exact h'.above⟩
  depth_eq := by rw [depth_append, h.depth_eq, h'.depth_eq, add_zero]

theorem balanced_of_forall (h : ∀ x ∈ xs, weight x = 0) : Balanced weight xs := by
  refine ⟨?_, depth_eq_zero h⟩
  induction xs with
  | nil => exact le_refl (0 : Int)
  | cons x xs ih =>
    refine ⟨le_refl (0 : Int), ?_⟩
    rw [h x List.mem_cons_self, add_zero]
    exact ih fun y hy => h y (List.mem_cons_of_mem _ hy)

theorem above_mono {d' : Int} (h : Above weight d xs) (hd : d ≤ d') : Above weight d' xs := by
  induction xs generalizing d d' with
  | nil => exact le_trans h hd
  | cons x xs ih => exact ⟨le_trans h.1 hd, ih h.2 (by omega)⟩

/-- A balanced list in a pair of brackets. -/
theorem Balanced.enclosed {opening closing : α} (h : Balanced weight xs) (hopen : weight opening = 1)
    (hclose : weight closing = -1) : Balanced weight (opening :: (xs ++ [closing])) where
  above := by
    refine ⟨le_refl (0 : Int), above_append.mpr ⟨above_mono h.above (by omega), ?_⟩⟩
    rw [h.depth_eq, hopen]
    refine ⟨by decide, ?_⟩
    rw [Above, hclose]
    decide
  depth_eq := by
    rw [depth, depth_append, h.depth_eq, depth, depth, hopen, hclose]
    rfl

/-- Inside a level nothing stops. -/
theorem Balanced.passes (h : Balanced weight xs) (hd : 0 < d) : Passes weight stop d xs := by
  have hpasses : ∀ {e : Int}, Above weight e xs → Passes weight stop (d + e) xs := by
    clear h
    intro e habove
    induction xs generalizing e with
    | nil => trivial
    | cons x xs ih =>
      refine ⟨fun _ => by have := habove.1; omega, ?_⟩
      rw [add_assoc]
      exact ih habove.2
  rw [← add_zero d]
  exact hpasses h.above

/-- A list in brackets does not stop either. -/
theorem Balanced.passes_enclosed {opening closing : α} (h : Balanced weight xs)
    (hopen : weight opening = 1) (hstop : stop opening = false) (hstop' : stop closing = false) :
    Passes weight stop 0 (opening :: (xs ++ [closing])) := by
  refine ⟨fun hs => ?_, passes_append.mpr ⟨?_, fun hs => ?_, trivial⟩⟩
  · rw [hstop] at hs
    cases hs
  · rw [hopen]
    exact h.passes (by decide)
  · rw [hstop'] at hs
    cases hs

/-- What closes a level cannot stop a balanced list. -/
theorem Balanced.passes_closing (h : Balanced weight xs)
    (hstop : ∀ x, stop x = true → weight x < 0) : Passes weight stop 0 xs := by
  have hpasses : ∀ {e : Int}, Above weight e xs → Passes weight stop e xs := by
    clear h
    intro e habove
    induction xs generalizing e with
    | nil => trivial
    | cons x xs ih =>
      refine ⟨fun hs heq => ?_, ih habove.2⟩
      have hnext : 0 ≤ e + weight x := by
        cases xs with
        | nil => exact habove.2
        | cons y ys => exact habove.2.1
      have := hstop x hs
      omega
  exact hpasses h.above

theorem breakTop_append (h : Passes weight stop d xs) :
    breakTop weight stop d (xs ++ ys) =
      (breakTop weight stop (d + depth weight xs) ys).map (Prod.map (xs ++ ·) id) := by
  induction xs generalizing d with
  | nil =>
    rw [depth, add_zero, List.nil_append]
    exact (Option.map_id_apply).symm
  | cons x xs ih =>
    rw [List.cons_append, breakTop, if_neg fun hs => h.1 hs.1 hs.2, ih h.2, depth, add_assoc,
      Option.map_map]
    rfl

/-- A list that does not stop before an element that does. -/
theorem breakTop_eq_some (h : Passes weight stop 0 xs) (hdepth : depth weight xs = 0)
    (hstop : stop c = true) : breakTop weight stop 0 (xs ++ c :: ys) = some (xs, ys) := by
  rw [breakTop_append h, hdepth, add_zero, breakTop, if_pos ⟨hstop, rfl⟩]
  simp

theorem splitTop_ne_nil (d : Int) (xs : List α) : splitTop weight stop d xs ≠ [] := by
  cases xs with
  | nil => exact List.cons_ne_nil _ _
  | cons x xs =>
    rw [splitTop]
    split
    · exact List.cons_ne_nil _ _
    · cases splitTop weight stop (d + weight x) xs with
      | nil => exact List.cons_ne_nil _ _
      | cons p ps => exact List.cons_ne_nil _ _

theorem splitTop_append (h : Passes weight stop d xs) :
    splitTop weight stop d (xs ++ ys) =
      prepend xs (splitTop weight stop (d + depth weight xs) ys) := by
  induction xs generalizing d with
  | nil =>
    rw [depth, add_zero, List.nil_append]
    cases hpieces : splitTop weight stop d ys with
    | nil => exact absurd hpieces (splitTop_ne_nil d ys)
    | cons p ps => rfl
  | cons x xs ih =>
    rw [List.cons_append, splitTop, if_neg fun hs => h.1 hs.1 hs.2, ih h.2, depth, add_assoc]
    cases splitTop weight stop (d + (weight x + depth weight xs)) ys with
    | nil => rfl
    | cons p ps => rfl

theorem splitTop_eq_singleton (h : Passes weight stop d xs) :
    splitTop weight stop d xs = [xs] := by
  have happend := @splitTop_append _ weight stop xs [] d h
  rw [List.append_nil] at happend
  rw [happend, splitTop, prepend, List.append_nil]

theorem splitTop_eq_cons (h : Passes weight stop 0 xs) (hdepth : depth weight xs = 0)
    (hstop : stop c = true) :
    splitTop weight stop 0 (xs ++ c :: ys) = xs :: splitTop weight stop 0 ys := by
  rw [splitTop_append h, hdepth, add_zero, splitTop, if_pos ⟨hstop, rfl⟩, prepend, List.append_nil]

end Dqx.Lib.Nesting
