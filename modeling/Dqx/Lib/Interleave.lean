import Dqx.Lib.Run

/-! Calls that run at the same time on a shared state. Each is a sequence of statements; the
statements of different calls come in any order, and each of them is atomic. -/

namespace Dqx.Lib

universe u v w

/-- A call has returned, or goes on with a statement: its event, what it makes of the shared state, and
how the call goes on after it, given the state that it met. -/
inductive Call (σ : Type u) (ε : Type v) (ρ : Type w) where
  | done (result : ρ)
  | stmt (event : ε) (write : σ → σ) (next : σ → Call σ ε ρ)

variable {σ : Type u} {ε : Type v} {ρ : Type w}

namespace Call

def result? : Call σ ε ρ → Option ρ
  | done result => some result
  | stmt _ _ _ => none

/-- The event of the statement that comes next. -/
def nextEvent : Call σ ε ρ → Option ε
  | done _ => none
  | stmt event _ _ => some event

/-- Every statement of the call, in whatever state it runs, meets `Spec`, a condition on its event, the
states before and after it, and the rest of the call. -/
def Obeys (Spec : ε → σ → σ → Call σ ε ρ → Prop) : Call σ ε ρ → Prop
  | done _ => True
  | stmt event write next => ∀ s, Spec event s (write s) (next s) ∧ (next s).Obeys Spec

/-- Before it returns, the call runs a statement whose event is one of `p`. -/
def Will (p : ε → Prop) : Call σ ε ρ → Prop
  | done _ => False
  | stmt event _ next => p event ∨ ∀ s, (next s).Will p

@[simp] theorem result?_done (result : ρ) : (done result : Call σ ε ρ).result? = some result := rfl

@[simp] theorem result?_stmt (event : ε) (write : σ → σ) (next : σ → Call σ ε ρ) :
    (stmt event write next).result? = none := rfl

@[simp] theorem nextEvent_done (result : ρ) : (done result : Call σ ε ρ).nextEvent = none := rfl

@[simp] theorem nextEvent_stmt (event : ε) (write : σ → σ) (next : σ → Call σ ε ρ) :
    (stmt event write next).nextEvent = some event := rfl

@[simp] theorem obeys_done (Spec : ε → σ → σ → Call σ ε ρ → Prop) (result : ρ) :
    (done result).Obeys Spec := trivial

@[simp] theorem obeys_stmt (Spec : ε → σ → σ → Call σ ε ρ → Prop) (event : ε) (write : σ → σ)
    (next : σ → Call σ ε ρ) : (stmt event write next).Obeys Spec ↔
      ∀ s, Spec event s (write s) (next s) ∧ (next s).Obeys Spec := Iff.rfl

@[simp] theorem will_done (p : ε → Prop) (result : ρ) : ¬(done result : Call σ ε ρ).Will p := id

@[simp] theorem will_stmt (p : ε → Prop) (event : ε) (write : σ → σ) (next : σ → Call σ ε ρ) :
    (stmt event write next).Will p ↔ p event ∨ ∀ s, (next s).Will p := Iff.rfl

end Call

/-- Calls at work on a shared state. -/
structure Session (σ : Type u) (ε : Type v) (ρ : Type w) where
  shared : σ
  calls : List (Call σ ε ρ)

namespace Session

/-- One call runs its next statement. The label has the state that the statement meets. -/
inductive Step : Session σ ε ρ → σ × ε → Session σ ε ρ → Prop
  | stmt {s : Session σ ε ρ} {i : Nat} {event : ε} {write : σ → σ} {next : σ → Call σ ε ρ} :
      s.calls[i]? = some (.stmt event write next) →
        Step s (s.shared, event) ⟨write s.shared, s.calls.set i (next s.shared)⟩

/-- How many calls have returned a result that `p` accepts. -/
def returned (s : Session σ ε ρ) (p : ρ → Bool) : Nat :=
  s.calls.countP fun call => call.result?.any p

variable {s t : Session σ ε ρ} {label : σ × ε} {Spec : ε → σ → σ → Call σ ε ρ → Prop}

/-- What a step of calls that obey `Spec` does. -/
theorem Step.obeys (h : Step s label t) (hcalls : ∀ call ∈ s.calls, call.Obeys Spec) :
    ∃ i call rest, s.calls[i]? = some call ∧ call.nextEvent = some label.2 ∧
      label.1 = s.shared ∧ t.calls = s.calls.set i rest ∧ Spec label.2 s.shared t.shared rest ∧
      rest.Obeys Spec := by
  cases h with
  | stmt hcall =>
    obtain ⟨hspec, hrest⟩ := hcalls _ (List.mem_of_getElem? hcall) s.shared
    exact ⟨_, _, _, hcall, rfl, rfl, rfl, hspec, hrest⟩

theorem Step.calls_obey (h : Step s label t) (hcalls : ∀ call ∈ s.calls, call.Obeys Spec) :
    ∀ call ∈ t.calls, call.Obeys Spec := by
  obtain ⟨i, call, rest, -, -, -, ht, -, hrest⟩ := h.obeys hcalls
  intro other hother
  rw [ht] at hother
  rcases List.mem_or_eq_of_mem_set hother with hmem | rfl
  · exact hcalls other hmem
  · exact hrest

/-- What a call will do is still to be done after a step that does something else. -/
theorem Step.will {p : ε → Prop} (h : Step s label t) (hlabel : ¬p label.2)
    (hwill : ∃ call ∈ s.calls, call.Will p) : ∃ call ∈ t.calls, call.Will p := by
  obtain ⟨call, hmem, hwill⟩ := hwill
  cases h with
  | @stmt i event write next hcall =>
    obtain ⟨j, hj⟩ := List.getElem?_of_mem hmem
    by_cases hij : j = i
    · subst hij
      obtain rfl := Option.some.inj (hj.symm.trans hcall)
      obtain hevent | hnext := hwill
      · exact absurd hevent hlabel
      · exact ⟨_, List.mem_set (List.getElem?_eq_some_iff.mp hcall).1 _, hnext s.shared⟩
    · exact ⟨call, List.mem_of_getElem? ((List.getElem?_set_ne (Ne.symm hij)).trans hj), hwill⟩

/-- A step changes a count of calls by the call that takes it. -/
theorem countP_set {i : Nat} {call rest : Call σ ε ρ} (p : Call σ ε ρ → Bool)
    (hcall : s.calls[i]? = some call) (ht : t.calls = s.calls.set i rest) :
    t.calls.countP p + (p call).toNat = s.calls.countP p + (p rest).toNat := by
  obtain ⟨hi, rfl⟩ := List.getElem?_eq_some_iff.mp hcall
  have hpos : (p s.calls[i]).toNat ≤ s.calls.countP p := by
    cases hp : p s.calls[i] with
    | false => exact Nat.zero_le _
    | true => exact List.countP_pos_iff.mpr ⟨_, List.getElem_mem hi, hp⟩
  rw [ht, List.countP_set hi]
  cases hp : p s.calls[i] <;> cases hr : p rest <;>
    simp only [hp, Bool.toNat_false, Bool.toNat_true, if_true, if_false, Bool.false_eq_true]
      at hpos ⊢ <;>
    omega

/-- A step changes the count of results by the call that returns in it. -/
theorem returned_set {i : Nat} {call rest : Call σ ε ρ} {event : ε} (p : ρ → Bool)
    (hcall : s.calls[i]? = some call) (hevent : call.nextEvent = some event)
    (ht : t.calls = s.calls.set i rest) :
    t.returned p = s.returned p + (rest.result?.any p).toNat := by
  obtain ⟨hi, rfl⟩ := List.getElem?_eq_some_iff.mp hcall
  have hopen : (s.calls[i].result?.any p) = false := by
    cases hstmt : s.calls[i] with
    | done result => simp [hstmt] at hevent
    | stmt event write next => rfl
  rw [returned, returned, ht, List.countP_set hi, hopen]
  cases rest.result?.any p <;> simp

/-- The run in which the calls take turns in the given order; a call that has returned skips its
turns. -/
def run (s : Session σ ε ρ) : List Nat → List (σ × ε) × Session σ ε ρ
  | [] => ([], s)
  | i :: turns =>
    match s.calls[i]? with
    | some (.stmt event write next) =>
      let (labels, final) := run ⟨write s.shared, s.calls.set i (next s.shared)⟩ turns
      ((s.shared, event) :: labels, final)
    | _ => run s turns

theorem path_run (s : Session σ ε ρ) (turns : List Nat) :
    Path Step s (s.run turns).1 (s.run turns).2 := by
  induction turns generalizing s with
  | nil => exact .nil s
  | cons i turns ih =>
    rw [run]
    split
    · rename_i hcall
      exact .cons (.stmt hcall) (ih _)
    · exact ih s

end Session

end Dqx.Lib
