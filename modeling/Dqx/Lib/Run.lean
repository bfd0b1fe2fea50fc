import Mathlib.Data.List.Forall2

/-! Runs of machines: labelled paths of a step relation, and the outputs of a deterministic machine
that answers each input. The rules here carry what one step preserves to what a whole run
preserves. -/

namespace Dqx.Lib

variable {σ τ ι ο ℓ : Type*}

/-- `Path step s ls t`: steps with the labels `ls`, in order, lead from `s` to `t`. -/
inductive Path (step : σ → ℓ → σ → Prop) : σ → List ℓ → σ → Prop
  | nil (s : σ) : Path step s [] s
  | cons {s t u : σ} {l : ℓ} {ls : List ℓ} : step s l t → Path step t ls u →
      Path step s (l :: ls) u

namespace Path

variable {step : σ → ℓ → σ → Prop}

/-- What every step preserves holds at the end of every path. -/
theorem invariant {P : σ → Prop} (hstep : ∀ s l t, P s → step s l t → P t) {s t : σ}
    {ls : List ℓ} (path : Path step s ls t) (hs : P s) : P t := by
  induction path with
  | nil => exact hs
  | cons h _ ih => exact ih (hstep _ _ _ hs h)

/-- What every step preserves, given the labels before it, holds at the end of every path. -/
theorem trace_invariant {P : List ℓ → σ → Prop} {s : σ} (hs : P [] s)
    (hstep : ∀ ls t l u, P ls t → step t l u → P (ls ++ [l]) u) {t : σ} {ls : List ℓ}
    (path : Path step s ls t) : P ls t := by
  induction path generalizing P with
  | nil => exact hs
  | @cons s t u l ls h _ ih =>
    apply ih (P := fun ls u => P (l :: ls) u) (hstep [] s l t hs h)
    intro ls t l u hP hstep'
    exact hstep _ _ _ _ hP hstep'

/-- A path of a smaller step relation is a path of the larger one. -/
theorem mono {step' : σ → ℓ → σ → Prop} (h : ∀ s l t, step s l t → step' s l t) {s t : σ}
    {ls : List ℓ} (path : Path step s ls t) : Path step' s ls t := by
  induction path with
  | nil => exact nil _
  | cons hs _ ih => exact cons (h _ _ _ hs) ih

theorem append {s t u : σ} {ls ms : List ℓ} (h : Path step s ls t) (h' : Path step t ms u) :
    Path step s (ls ++ ms) u := by
  induction h with
  | nil => exact h'
  | cons hs _ ih => exact cons hs (ih h')

end Path

/-- A deterministic machine: a state and an input give the next state and an output. -/
structure Machine (σ ι ο : Type*) where
  step : σ → ι → σ × ο

namespace Machine

variable (m : Machine σ ι ο)

/-- The outputs of a run, one for each input. -/
def outputs (s : σ) : List ι → List ο
  | [] => []
  | i :: is => (m.step s i).2 :: outputs (m.step s i).1 is

/-- The state after a run. -/
def final (s : σ) : List ι → σ
  | [] => s
  | i :: is => final (m.step s i).1 is

/-- Every step of the run meets `G`, a condition on the state before it and its input. -/
def Guarded (G : σ → ι → Prop) (s : σ) : List ι → Prop
  | [] => True
  | i :: is => G s i ∧ Guarded G (m.step s i).1 is

@[simp] theorem outputs_nil (s : σ) : m.outputs s [] = [] := rfl

@[simp] theorem outputs_cons (s : σ) (i : ι) (is : List ι) :
    m.outputs s (i :: is) = (m.step s i).2 :: m.outputs (m.step s i).1 is := rfl

@[simp] theorem final_nil (s : σ) : m.final s [] = s := rfl

@[simp] theorem final_cons (s : σ) (i : ι) (is : List ι) :
    m.final s (i :: is) = m.final (m.step s i).1 is := rfl

theorem guarded_append {G : σ → ι → Prop} {s : σ} {is js : List ι} :
    m.Guarded G s (is ++ js) ↔ m.Guarded G s is ∧ m.Guarded G (m.final s is) js := by
  induction is generalizing s with
  | nil => simp [Guarded]
  | cons i is ih => exact (and_congr_right fun _ => ih).trans and_assoc.symm

/-- Each output is that of a step. -/
theorem exists_step_of_mem_outputs {s : σ} {is : List ι} {o : ο} (h : o ∈ m.outputs s is) :
    ∃ t i, o = (m.step t i).2 := by
  induction is generalizing s with
  | nil => cases h
  | cons i is ih =>
    rcases List.mem_cons.mp h with rfl | h
    · exact ⟨s, i, rfl⟩
    · exact ih h

/-- A run meets `P` exactly when it meets `G`, if under an invariant `I` of a state with the input
ahead of it each step does, and a step that meets `G` keeps the invariant for every input that may
come next. -/
theorem guarded_iff {P G I : σ → ι → Prop} {R : ι → ι → Prop} {V : ι → Prop}
    (hstep : ∀ s i, I s i → V i →
      (P s i ↔ G s i) ∧ (G s i → ∀ j, R i j → I (m.step s i).1 j))
    {s : σ} {is : List ι} (hstart : ∀ i ∈ is.head?, I s i) (hvalid : ∀ i ∈ is, V i)
    (horder : is.Pairwise R) : m.Guarded P s is ↔ m.Guarded G s is := by
  induction is generalizing s with
  | nil => exact Iff.rfl
  | cons i is ih =>
    obtain ⟨hrest, horder⟩ := List.pairwise_cons.mp horder
    obtain ⟨hhere, hnext⟩ := hstep s i (hstart i rfl) (hvalid i List.mem_cons_self)
    have hlater : G s i → (m.Guarded P (m.step s i).1 is ↔ m.Guarded G (m.step s i).1 is) := by
      intro hG
      apply ih _ (fun j hj => hvalid j (List.mem_cons_of_mem _ hj)) horder
      exact fun j hj => hnext hG j (hrest j (List.mem_of_mem_head? hj))
    constructor
    · rintro ⟨hP, hguarded⟩
      exact ⟨hhere.mp hP, (hlater (hhere.mp hP)).mp hguarded⟩
    · rintro ⟨hG, hguarded⟩
      exact ⟨hhere.mpr hG, (hlater hG).mpr hguarded⟩

/-- Two machines whose related states answer related inputs with related outputs, and stay related,
have related outputs on every run. -/
theorem outputs_forall₂_of_simulation {ι' ο' : Type*} {m : Machine σ ι ο} {n : Machine τ ι' ο'}
    {R : σ → τ → Prop} {I : ι → ι' → Prop} {O : ο → ο' → Prop}
    (hstep : ∀ s t i j, R s t → I i j →
      O (m.step s i).2 (n.step t j).2 ∧ R (m.step s i).1 (n.step t j).1)
    {s : σ} {t : τ} (hR : R s t) {is : List ι} {js : List ι'} (hI : List.Forall₂ I is js) :
    List.Forall₂ O (m.outputs s is) (n.outputs t js) := by
  induction hI generalizing s t with
  | nil => exact .nil
  | cons hij _ ih =>
    obtain ⟨hout, hnext⟩ := hstep s t _ _ hR hij
    exact .cons hout (ih hnext)

end Machine

/-- Between any two elements of `os` that satisfy `F` there is one that satisfies `H`. -/
def Separated (F H : ο → Prop) (os : List ο) : Prop :=
  ∀ (i j : Nat) (x y : ο), i < j → os[i]? = some x → os[j]? = some y → F x → F y →
    ∃ k z, i < k ∧ k < j ∧ os[k]? = some z ∧ H z

/-- No element of `os` that satisfies `F` comes before one that satisfies `H`. -/
def Silent (F H : ο → Prop) (os : List ο) : Prop :=
  ∀ (j : Nat) (y : ο), os[j]? = some y → F y → ∃ k z, k < j ∧ os[k]? = some z ∧ H z

theorem Separated.nil {F H : ο → Prop} : Separated F H [] := by
  intro i j x y _ hi
  simp at hi

theorem Silent.nil {F H : ο → Prop} : Silent F H [] := by
  intro j y hj
  simp at hj

/-- Behind a first element that satisfies `F` the rest has to be silent. -/
theorem Separated.cons {F H : ο → Prop} {o : ο} {os : List ο} (h : Separated F H os)
    (hs : F o → Silent F H os) : Separated F H (o :: os) := by
  intro i j x y hij hi hj hx hy
  cases j with
  | zero => omega
  | succ j =>
    cases i with
    | zero =>
      simp only [List.getElem?_cons_zero, Option.some.injEq] at hi
      subst hi
      obtain ⟨k, z, hk, hz, hH⟩ := hs hx j y hj hy
      exact ⟨k + 1, z, by omega, by omega, hz, hH⟩
    | succ i =>
      obtain ⟨k, z, hik, hkj, hz, hH⟩ := h i j x y (by omega) hi hj hx hy
      exact ⟨k + 1, z, by omega, by omega, hz, hH⟩

theorem Silent.cons_of_holds {F H : ο → Prop} {o : ο} {os : List ο} (hF : ¬F o) (hH : H o) :
    Silent F H (o :: os) := by
  intro j y hj hy
  cases j with
  | zero =>
    simp only [List.getElem?_cons_zero, Option.some.injEq] at hj
    exact absurd (hj ▸ hy) hF
  | succ j => exact ⟨0, o, by omega, rfl, hH⟩

theorem Silent.cons {F H : ο → Prop} {o : ο} {os : List ο} (h : Silent F H os) (hF : ¬F o) :
    Silent F H (o :: os) := by
  intro j y hj hy
  cases j with
  | zero =>
    simp only [List.getElem?_cons_zero, Option.some.injEq] at hj
    exact absurd (hj ▸ hy) hF
  | succ j =>
    obtain ⟨k, z, hk, hz, hH⟩ := h j y hj hy
    exact ⟨k + 1, z, by omega, hz, hH⟩

namespace Machine

variable {m : Machine σ ι ο} {F H : ο → Prop} {G : σ → ι → Prop} {Q : σ → Prop}

/-- A latch keeps a run silent: in a latched state no admissible step outputs `F`, and it either
outputs `H` or stays latched. -/
theorem outputs_silent (hlatch : ∀ s i, Q s → G s i → ¬F (m.step s i).2 ∧
      (H (m.step s i).2 ∨ Q (m.step s i).1))
    {s : σ} (hs : Q s) {is : List ι} (hG : m.Guarded G s is) : Silent F H (m.outputs s is) := by
  induction is generalizing s with
  | nil => exact Silent.nil
  | cons i is ih =>
    obtain ⟨hi, his⟩ := hG
    obtain ⟨hF, hH | hQ⟩ := hlatch s i hs hi
    · exact Silent.cons_of_holds hF hH
    · exact Silent.cons (ih hQ his) hF

/-- A machine that latches on each output `F` separates them by outputs `H`. -/
theorem outputs_separated (hset : ∀ s i, G s i → F (m.step s i).2 → Q (m.step s i).1)
    (hlatch : ∀ s i, Q s → G s i → ¬F (m.step s i).2 ∧
      (H (m.step s i).2 ∨ Q (m.step s i).1))
    (s : σ) (is : List ι) (hG : m.Guarded G s is) : Separated F H (m.outputs s is) := by
  induction is generalizing s with
  | nil => exact Separated.nil
  | cons i is ih =>
    obtain ⟨hi, his⟩ := hG
    exact Separated.cons (ih _ his) fun hF => outputs_silent hlatch (hset s i hi hF) his

end Machine

end Dqx.Lib
