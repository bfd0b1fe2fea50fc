import Mathlib.Data.List.Infix

/-! Patterns with wildcards over lists: a token matches one element by a predicate, or any run of
elements. -/

namespace Dqx.Lib

variable {α : Type*}

/-- A token of a pattern: any run of elements, or one element that satisfies a predicate. -/
inductive Token (α : Type*) where
  | star
  | one (p : α → Bool)

/-- A whole list matches a whole pattern. -/
def matchTokens : List (Token α) → List α → Bool
  | [], s => s.isEmpty
  | .star :: ts, s => s.tails.any (matchTokens ts)
  | .one p :: ts, s =>
    match s with
    | [] => false
    | a :: s => p a && matchTokens ts s

@[simp] theorem matchTokens_nil (s : List α) : matchTokens [] s = s.isEmpty := rfl

@[simp] theorem matchTokens_one_cons (p : α → Bool) (ts : List (Token α)) (a : α) (s : List α) :
    matchTokens (.one p :: ts) (a :: s) = (p a && matchTokens ts s) := rfl

/-- A run matches when the rest of the pattern matches what comes after some part of the list. -/
theorem matchTokens_star (ts : List (Token α)) (s : List α) :
    matchTokens (.star :: ts) s = true ↔ ∃ u v, s = u ++ v ∧ matchTokens ts v = true := by
  simp only [matchTokens, List.any_eq_true, List.mem_tails]
  constructor
  · rintro ⟨v, ⟨u, rfl⟩, hv⟩
    exact ⟨u, v, rfl, hv⟩
  · rintro ⟨u, v, rfl, hv⟩
    exact ⟨v, ⟨u, rfl⟩, hv⟩

/-- A token accepts one element. -/
def Token.accepts : Token α → α → Bool
  | .star, _ => true
  | .one p, a => p a

/-- A list matches a pattern made of it element by element. -/
theorem matchTokens_map_self (f : α → Token α) (s : List α)
    (h : ∀ a ∈ s, (f a).accepts a = true) : matchTokens (s.map f) s = true := by
  induction s with
  | nil => rfl
  | cons a s ih =>
    have ha := h a List.mem_cons_self
    have hs := ih fun b hb => h b (List.mem_cons_of_mem _ hb)
    rw [List.map_cons]
    cases hf : f a with
    | star => exact (matchTokens_star _ _).mpr ⟨[a], s, rfl, hs⟩
    | one p =>
      rw [hf] at ha
      rw [matchTokens_one_cons, hs, Bool.and_true]
      exact ha

end Dqx.Lib
