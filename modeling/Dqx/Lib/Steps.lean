import Mathlib.Data.List.Basic

/-! Programs whose steps can fail: what they have changed when the first step fails. -/

namespace Dqx.Lib

/-- A step that may fail, with what it changes where it does not, or an error that the program raises
itself. -/
inductive Action (σ τ ε : Type) where
  | attempt (step : σ) (effect : τ → τ)
  | raise (error : ε)

namespace Action

variable {σ τ ε : Type} (fails : σ → Option ε)

def error : Action σ τ ε → Option ε
  | .attempt step _ => fails step
  | .raise error => some error

def apply : Action σ τ ε → τ → τ
  | .attempt _ effect, t => effect t
  | .raise _, t => t

/-- An action that changes nothing. -/
def Pure (action : Action σ τ ε) : Prop := ∀ t, action.apply t = t

/-- The state after the actions, or at the first that fails, with its error. -/
def perform : List (Action σ τ ε) → τ → τ × Option ε
  | [], t => (t, none)
  | action :: rest, t =>
    match action.error fails with
    | some error => (t, some error)
    | none => perform rest (action.apply t)

def Succeeds (actions : List (Action σ τ ε)) : Prop := ∀ action ∈ actions, action.error fails = none

variable {fails} {action : Action σ τ ε} {actions before after : List (Action σ τ ε)} {t : τ}

theorem perform_cons_ok (h : action.error fails = none) :
    perform fails (action :: actions) t = perform fails actions (action.apply t) := by
  rw [perform, h]

theorem perform_cons_error {error : ε} (h : action.error fails = some error) :
    perform fails (action :: actions) t = (t, some error) := by
  rw [perform, h]

theorem succeeds_append : Succeeds fails (before ++ after) ↔
    Succeeds fails before ∧ Succeeds fails after := List.forall_mem_append

/-- Actions that all succeed leave the state after them all. -/
theorem perform_append_of_succeeds (h : Succeeds fails before) :
    perform fails (before ++ after) t =
      perform fails after (before.foldl (fun t action => action.apply t) t) := by
  induction before generalizing t with
  | nil => rfl
  | cons action before ih =>
    obtain ⟨hfirst, hrest⟩ := List.forall_mem_cons.mp h
    rw [List.cons_append, perform_cons_ok hfirst, ih hrest, List.foldl_cons]

theorem perform_of_succeeds (h : Succeeds fails actions) :
    perform fails actions t = (actions.foldl (fun t action => action.apply t) t, none) := by
  have hend : perform fails (actions ++ []) t = perform fails [] _ := perform_append_of_succeeds h
  rwa [List.append_nil] at hend

theorem foldl_pure (h : ∀ action ∈ actions, action.Pure) :
    actions.foldl (fun t action => action.apply t) t = t := by
  induction actions with
  | nil => rfl
  | cons action actions ih =>
    obtain ⟨hfirst, hrest⟩ := List.forall_mem_cons.mp h
    rw [List.foldl_cons, hfirst t, ih hrest]

/-- What follows a failure is not reached. -/
theorem perform_append_of_fails (h : ¬Succeeds fails before) :
    perform fails (before ++ after) t = perform fails before t := by
  induction before generalizing t with
  | nil => exact absurd (fun _ hmem => nomatch hmem) h
  | cons action before ih =>
    rw [List.cons_append]
    cases hfirst : action.error fails with
    | some error => rw [perform_cons_error hfirst, perform_cons_error hfirst]
    | none =>
      rw [perform_cons_ok hfirst, perform_cons_ok hfirst]
      exact ih fun hrest => h (List.forall_mem_cons.mpr ⟨hfirst, hrest⟩)

theorem exists_error_of_fails (h : ¬Succeeds fails actions) :
    ∃ error, (perform fails actions t).2 = some error := by
  induction actions generalizing t with
  | nil => exact absurd (fun _ hmem => nomatch hmem) h
  | cons action actions ih =>
    cases hfirst : action.error fails with
    | some error => exact ⟨error, by rw [perform_cons_error hfirst]⟩
    | none =>
      rw [perform_cons_ok hfirst]
      exact ih fun hrest => h (List.forall_mem_cons.mpr ⟨hfirst, hrest⟩)

/-- Actions that change nothing leave the state as it is, wherever they fail. -/
theorem perform_pure (h : ∀ action ∈ actions, action.Pure) : (perform fails actions t).1 = t := by
  induction actions with
  | nil => rfl
  | cons action actions ih =>
    obtain ⟨hfirst, hrest⟩ := List.forall_mem_cons.mp h
    cases herror : action.error fails with
    | some error => rw [perform_cons_error herror]
    | none => rw [perform_cons_ok herror, hfirst t, ih hrest]

/-- A program that changes the state at its end or not at all. -/
def Commits (fails : σ → Option ε) (actions : List (Action σ τ ε)) (effect : τ → τ) : Prop :=
  ∀ t, (Succeeds fails actions → perform fails actions t = (effect t, none)) ∧
    (¬Succeeds fails actions → ∃ error, perform fails actions t = (t, some error))

theorem commits_pure (h : ∀ action ∈ actions, action.Pure) : Commits fails actions id := by
  refine fun t => ⟨fun hall => ?_, fun hfails => ?_⟩
  · rw [perform_of_succeeds hall, foldl_pure h, id_eq]
  · obtain ⟨error, herror⟩ := exists_error_of_fails (t := t) hfails
    exact ⟨error, Prod.ext (perform_pure h) herror⟩

/-- Steps that change nothing may precede the one that does. -/
theorem commits_append {last : Action σ τ ε} (h : ∀ action ∈ before, action.Pure) :
    Commits fails (before ++ [last]) last.apply := by
  refine fun t => ⟨fun hall => ?_, fun hfails => ?_⟩
  · rw [perform_of_succeeds hall, List.foldl_append, foldl_pure h]
    rfl
  · by_cases hbefore : Succeeds fails before
    · rw [perform_append_of_succeeds hbefore, foldl_pure h]
      cases hlast : last.error fails with
      | some error => exact ⟨error, perform_cons_error hlast⟩
      | none => exact absurd (succeeds_append.mpr ⟨hbefore, by simpa [Succeeds] using hlast⟩) hfails
    · rw [perform_append_of_fails hbefore]
      exact (commits_pure h t).2 hbefore

theorem Commits.append_of_succeeds {effect : τ → τ} (hcommits : Commits fails before effect)
    (h : Succeeds fails before) :
    perform fails (before ++ after) t = perform fails after (effect t) := by
  have hend := (hcommits t).1 h
  rw [perform_of_succeeds h] at hend
  rw [perform_append_of_succeeds h, (Prod.mk.inj hend).1]

theorem Commits.append_of_fails {effect : τ → τ} (hcommits : Commits fails before effect)
    (h : ¬Succeeds fails before) :
    ∃ error, perform fails (before ++ after) t = (t, some error) := by
  rw [perform_append_of_fails h]
  exact (hcommits t).2 h

end Action

end Dqx.Lib
