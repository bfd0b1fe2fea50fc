import Mathlib.Data.List.DropRight

/-! A list without what stands at its ends. -/

namespace Dqx.Lib

variable {α : Type} (p : α → Bool)

/-- What is left of both ends does not begin or end with what was dropped. -/
theorem rdropWhile_dropWhile_idempotent (xs : List α) :
    (((xs.dropWhile p).rdropWhile p).dropWhile p).rdropWhile p = (xs.dropWhile p).rdropWhile p := by
  have hhead : ((xs.dropWhile p).rdropWhile p).dropWhile p = (xs.dropWhile p).rdropWhile p := by
    rw [List.dropWhile_eq_self_iff]
    intro hlength hdropped
    have hleading := List.rdropWhile_prefix p (xs.dropWhile p)
    have hhead := hleading.getElem hlength
    have hdrop := @List.dropWhile_get_zero_not _ p xs (hlength.trans_le hleading.length_le)
    rw [List.get_eq_getElem, ← hhead] at hdrop
    exact hdrop hdropped
  rw [hhead, List.rdropWhile_idempotent]

/-- A list without what is dropped at its beginning, and then at its end. -/
def trimmed (xs : List α) : List α := ((xs.dropWhile p).reverse.dropWhile p).reverse

/-- Nothing is dropped at the ends of the list, which is not empty. -/
structure Trimmed (xs : List α) : Prop where
  nonempty : xs ≠ []
  head : ∀ c ∈ xs.head?, p c = false
  last : ∀ c ∈ xs.getLast?, p c = false

variable {p} {xs ys : List α}

theorem Trimmed.dropWhile_eq (h : Trimmed p xs) : xs.dropWhile p = xs := by
  cases xs with
  | nil => rfl
  | cons c rest => exact List.dropWhile_cons_of_neg (by rw [h.head c rfl]; exact Bool.false_ne_true)

theorem Trimmed.reverse (h : Trimmed p xs) : Trimmed p xs.reverse where
  nonempty := List.reverse_ne_nil_iff.mpr h.nonempty
  head c hc := h.last c (List.head?_reverse ▸ hc)
  last c hc := h.head c (List.getLast?_reverse ▸ hc)

/-- Lists that begin and end as trimmed ones do. -/
theorem Trimmed.append (h : Trimmed p xs) (zs : List α) (h' : Trimmed p ys) :
    Trimmed p (xs ++ zs ++ ys) where
  nonempty := List.append_ne_nil_of_right_ne_nil _ h'.nonempty
  head c hc := by
    refine h.head c ?_
    rw [List.append_assoc, List.head?_append_of_ne_nil _ h.nonempty] at hc
    exact hc
  last c hc := by
    refine h'.last c ?_
    rw [List.getLast?_append_of_ne_nil _ h'.nonempty] at hc
    exact hc

theorem trimmed_append_left (h : ∀ c ∈ xs, p c = true) : trimmed p (xs ++ ys) = trimmed p ys := by
  rw [trimmed, List.dropWhile_append_of_pos h, trimmed]

theorem Trimmed.trimmed_eq (h : Trimmed p xs) : trimmed p xs = xs := by
  rw [trimmed, h.dropWhile_eq, h.reverse.dropWhile_eq, List.reverse_reverse]

/-- What is dropped around a trimmed list. -/
theorem Trimmed.trimmed_pad (h : Trimmed p xs) {left right : List α} (hleft : ∀ c ∈ left, p c = true)
    (hright : ∀ c ∈ right, p c = true) : trimmed p (left ++ xs ++ right) = xs := by
  have hhead : (xs ++ right).dropWhile p = xs ++ right := by
    cases xs with
    | nil => exact absurd rfl h.nonempty
    | cons c rest =>
      exact List.dropWhile_cons_of_neg (by rw [h.head c rfl]; exact Bool.false_ne_true)
  rw [List.append_assoc, trimmed_append_left hleft, trimmed, hhead, List.reverse_append,
    List.dropWhile_append_of_pos fun c hc => hright c (List.mem_reverse.mp hc), h.reverse.dropWhile_eq,
    List.reverse_reverse]

end Dqx.Lib
