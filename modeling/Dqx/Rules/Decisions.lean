import Dqx.Rules.Resolved

/-! Decisions on a row of `dq_resolved_rules` while it is materialized. What a call to approve records
is what it approves, and no materialization undoes a decision, if each of their writes finds the row
as its call has read it. The version of the row does not tell: a materialization sets it to that of
the registry rule, whatever the row held. -/

namespace Dqx.Rules

open Lib

variable {κ : Type}

abbrev Rule (κ : Type) := Session (Store κ) (Event κ) (Result κ)

/-- A state that a statement meets, with the event of the statement. -/
abbrev Moment (κ : Type) := Store κ × Event κ

def Store.status (store : Store κ) : Option RuleStatus := store.row.map (·.status)

/-- What a statement does to the status of the row and to its history. -/
def Writes [DecidableEq κ] : Event κ → Store κ → Store κ → Prop
  | .read, s, s' => s' = s
  | .setStatus status user entry, s, s' => s' = writeStatus status user entry s
  | .edit, s, s' => s'.status = s.status.map (fun _ => .draft) ∧ s'.history = s.history
  | .insert, s, s' => s'.status = some (s.status.getD .draft) ∧ s'.history = s.history
  | .materialize rendered existing, s, s' =>
    s'.status = s.status.map (fun _ => rendered.statusOf existing) ∧ s'.history = s.history
  | .record history, s, s' => s'.status = s.status ∧ s'.history = s.history ++ [history]

/-- What a statement does, and which row of the history its call writes next. -/
structure Effect [DecidableEq κ] (event : Event κ) (s s' : Store κ) (rest : RuleCall κ) : Prop where
  writes : Writes event s s'
  records : ∀ history, rest.nextEvent = some (.record history) → history.newStatus = .approved →
    ∃ user entry, event = .setStatus .approved user entry ∧
      history = statusHistory .approved user entry

/-! ### The calls -/

section Calls

variable [DecidableEq κ]

/-- A call that obeys, and does not begin with a write to the history. -/
def Begins (call : RuleCall κ) : Prop :=
  (∀ history, call.nextEvent ≠ some (.record history)) ∧ call.Obeys Effect

theorem begins_fail (error : Error) : Begins (fail error : RuleCall κ) := ⟨nofun, trivial⟩

theorem begins_done (result : Result κ) : Begins (.done result) := ⟨nofun, trivial⟩

theorem begins_stmt {event : Event κ} {write : Store κ → Store κ} {next : Store κ → RuleCall κ}
    (hevent : ∀ history, event ≠ .record history) (hwrites : ∀ s, Writes event s (write s))
    (hnext : ∀ s, Begins (next s)) : Begins (.stmt event write next) := by
  refine ⟨fun history h => hevent history (Option.some.inj h), fun s => ⟨⟨hwrites s, ?_⟩, (hnext s).2⟩⟩
  exact fun history h => absurd h ((hnext s).1 history)

theorem begins_read {next : Store κ → RuleCall κ} (hnext : ∀ s, Begins (next s)) :
    Begins (.stmt .read id next) := begins_stmt nofun (fun _ => rfl) hnext

theorem begins_getByRuleId {ruleId : String} {next : ResolvedRule κ → RuleCall κ}
    (hnext : ∀ entry, Begins (next entry)) : Begins (getByRuleId ruleId next) := by
  apply begins_read
  intro s
  split
  · exact hnext _
  · exact begins_fail _

theorem obeys_recordHistory {history : HistoryRow κ} {next : RuleCall κ} (hnext : Begins next) :
    (recordHistory history next).Obeys Effect :=
  fun _ => ⟨⟨⟨rfl, rfl⟩, fun other h => absurd h (hnext.1 other)⟩, hnext.2⟩

theorem begins_confirmStatus (ruleId : String) (status : RuleStatus) :
    Begins (confirmStatus ruleId status : RuleCall κ) := by
  apply begins_read
  intro s
  split
  · exact begins_fail _
  · split
    · exact begins_done _
    · exact begins_fail _

theorem begins_updateStatus (ruleId : String) (status : RuleStatus) (user : String)
    (entry : ResolvedRule κ) : Begins (updateStatus ruleId status user entry) := by
  refine ⟨nofun, fun s => ⟨⟨rfl, ?_⟩, obeys_recordHistory (begins_confirmStatus ruleId status)⟩⟩
  intro history h happroved
  obtain rfl : statusHistory status user entry = history := by simpa [recordHistory] using h
  obtain rfl : status = .approved := happroved
  exact ⟨user, entry, rfl, rfl⟩

theorem begins_expectVersion (ruleId : String) (expectedVersion : Option Nat)
    (entry : ResolvedRule κ) {next : RuleCall κ} (hnext : Begins next) :
    Begins (expectVersion ruleId expectedVersion entry next) := by
  unfold expectVersion
  split
  · exact hnext
  · split
    · exact hnext
    · exact begins_fail _

theorem begins_checkNoDuplicate (duplicate : Option (String × RuleStatus)) {next : RuleCall κ}
    (hnext : Begins next) : Begins (checkNoDuplicate duplicate next) := by
  apply begins_read
  intro s
  split
  · exact hnext
  · exact begins_fail _

theorem begins_setStatus (ruleId : String) (status : RuleStatus) (user : String)
    (expectedVersion : Option Nat) (duplicate : Option (String × RuleStatus)) :
    Begins (setStatus ruleId status user expectedVersion duplicate : RuleCall κ) := by
  apply begins_getByRuleId
  intro entry
  have hupdate := begins_expectVersion ruleId expectedVersion entry
    (begins_updateStatus ruleId status user entry)
  dsimp only
  split
  · exact begins_fail _
  · split
    · exact begins_checkNoDuplicate duplicate hupdate
    · exact hupdate

variable (functions : CheckFunctions κ)

theorem begins_updateRule (ruleId : String) (checks : List κ) (user : String) :
    Begins (updateRule functions ruleId checks user) := by
  rw [updateRule]
  split
  · exact begins_fail _
  · apply begins_getByRuleId
    intro entry
    split
    · exact begins_fail _
    · refine ⟨nofun, fun s => ⟨⟨⟨?_, rfl⟩, ?_⟩, ?_⟩⟩
      · simp [Store.status, editRow, Option.map_map, Function.comp_def]
      · intro history h happroved
        obtain rfl : editHistory _ user entry = history := by simpa [recordHistory] using h
        cases happroved
      · exact obeys_recordHistory (begins_read fun _ => begins_done _)

theorem begins_upsertMaterializedRow (rendered : Rendered κ) :
    Begins (upsertMaterializedRow functions rendered) := by
  apply begins_read
  intro s
  split
  · apply begins_stmt
    · nofun
    · intro t
      refine ⟨?_, rfl⟩
      cases hrow : t.row <;> simp [Store.status, hrow, Rendered.row]
    · intro t
      split
      · exact begins_fail _
      · exact begins_done _
  · apply begins_stmt
    · nofun
    · intro t
      exact ⟨by simp [Store.status, Rendered.row, Option.map_map, Function.comp_def], rfl⟩
    · exact fun _ => begins_done _

theorem Operation.begins (operation : Operation κ) : Begins (operation.call functions) := by
  cases operation with
  | setStatus ruleId status user expectedVersion duplicate =>
    exact begins_setStatus ruleId status user expectedVersion duplicate
  | updateRule ruleId checks user => exact begins_updateRule functions ruleId checks user
  | materialize rendered => exact begins_upsertMaterializedRow functions rendered

end Calls

/-! ### Runs -/

/-- The row has the check that a call to approve has read, and for a materialization the status, the
registry version and the check. -/
def FindsAsRead (moment : Moment κ) : Prop :=
  match moment.2 with
  | .setStatus .approved _ entry => moment.1.row.map (·.check) = some entry.check
  | .materialize _ existing => moment.1.row.map (fun row => (row.status, row.registryVersion, row.check)) =
      some (existing.status, existing.registryVersion, existing.check)
  | _ => True

instance [DecidableEq κ] : DecidablePred (FindsAsRead (κ := κ))
  | (_, .setStatus .approved _ _) => inferInstanceAs (Decidable (_ = _))
  | (_, .setStatus .draft _ _) => .isTrue trivial
  | (_, .setStatus .pendingApproval _ _) => .isTrue trivial
  | (_, .setStatus .rejected _ _) => .isTrue trivial
  | (_, .materialize _ _) => inferInstanceAs (Decidable (_ = _))
  | (_, .read) => .isTrue trivial
  | (_, .edit) => .isTrue trivial
  | (_, .insert) => .isTrue trivial
  | (_, .record _) => .isTrue trivial

/-- The decision that a statement makes: a change of the status that takes effect, or an edit, which
resets the row to a draft. -/
def decision? (moment : Moment κ) : Option RuleStatus :=
  match moment.2 with
  | .setStatus status _ entry =>
    moment.1.row.bind fun row => if row.version = entry.version then some status else none
  | .edit => moment.1.row.map fun _ => .draft
  | _ => none

def lastDecision (moments : List (Moment κ)) : Option RuleStatus :=
  (moments.filterMap decision?).getLast?

/-- A call to approve has written `history`, and right after its write the row had that check. -/
def Approved (moments : List (Moment κ)) (history : HistoryRow κ) : Prop :=
  ∃ moment ∈ moments, ∃ user entry, moment.2 = .setStatus .approved user entry ∧
    history = statusHistory .approved user entry ∧
    (writeStatus .approved user entry moment.1).row.map (·.check) = some history.check

theorem Approved.append {moments : List (Moment κ)} {history : HistoryRow κ}
    (h : Approved moments history) (moment : Moment κ) : Approved (moments ++ [moment]) history := by
  obtain ⟨past, hpast, h⟩ := h
  exact ⟨past, List.mem_append_left _ hpast, h⟩

theorem lastDecision_append_none {moments : List (Moment κ)} {moment : Moment κ}
    (h : decision? moment = none) : lastDecision (moments ++ [moment]) = lastDecision moments := by
  simp [lastDecision, List.filterMap_append, h]

theorem lastDecision_append_some {moments : List (Moment κ)} {moment : Moment κ} {status : RuleStatus}
    (h : decision? moment = some status) : lastDecision (moments ++ [moment]) = some status := by
  simp [lastDecision, List.filterMap_append, h]

theorem check_writeStatus (status : RuleStatus) (user : String) (entry : ResolvedRule κ)
    (store : Store κ) :
    (writeStatus status user entry store).row.map (·.check) = store.row.map (·.check) := by
  cases hrow : store.row with
  | none => simp [writeStatus, hrow]
  | some row =>
    simp only [writeStatus, hrow, Option.map_some]
    split <;> rfl

section Runs

variable [DecidableEq κ]

theorem existing_of_statusOf {rendered : Rendered κ} {existing : ResolvedRule κ}
    (h : rendered.statusOf existing = .approved) : existing.status = .approved := by
  revert h
  rw [Rendered.statusOf, decideStatus]
  cases existing.status with
  | approved => exact fun _ => rfl
  | draft => simp
  | pendingApproval => simp
  | rejected =>
    split
    · exact id
    · simp

/-- A materialization that finds the row as read gives it the status that follows from it. -/
theorem statusOf_of_findsAsRead {s : Store κ} {rendered : Rendered κ} {existing row : ResolvedRule κ}
    (hfinds : FindsAsRead (s, .materialize rendered existing)) (hrow : row ∈ s.row) :
    rendered.statusOf existing = rendered.statusOf row := by
  have hread : s.row.map (fun row => (row.status, row.registryVersion, row.check)) =
    some (existing.status, existing.registryVersion, existing.check) := hfinds
  rw [Option.mem_def.mp hrow] at hread
  obtain ⟨hstatus, hversion, hcheck⟩ : row.status = existing.status ∧
      row.registryVersion = existing.registryVersion ∧ row.check = existing.check := by
    simpa using hread
  rw [Rendered.statusOf, Rendered.statusOf, hstatus, hversion, hcheck]

/-- What a statement preserves: the last decision on an approved row, if any, approved it. -/
theorem lastDecision_step {moments : List (Moment κ)} {event : Event κ} {s t : Store κ}
    (hwrites : Writes event s t) (hfinds : FindsAsRead (s, event))
    (hlast : s.status = some .approved → ∀ d ∈ lastDecision moments, d = .approved)
    (happroved : t.status = some .approved) :
    ∀ d ∈ lastDecision (moments ++ [(s, event)]), d = .approved := by
  cases event with
  | read =>
    obtain rfl : t = s := hwrites
    rw [lastDecision_append_none rfl]
    exact hlast happroved
  | setStatus status user entry =>
    obtain rfl : t = writeStatus status user entry s := hwrites
    cases hrow : s.row with
    | none => simp [Store.status, writeStatus, hrow] at happroved
    | some row =>
      by_cases hversion : row.version = entry.version
      · have hstatus : status = .approved := by
          simpa [Store.status, writeStatus, hrow, hversion] using happroved
        have hdecides : decision? (s, .setStatus status user entry) = some status := by
          simp [decision?, hrow, hversion]
        rw [lastDecision_append_some hdecides]
        rintro d hd
        exact (Option.some.inj hd).symm.trans hstatus
      · have hsame : s.status = some .approved := by
          simpa [Store.status, writeStatus, hrow, hversion] using happroved
        rw [lastDecision_append_none (by simp [decision?, hrow, hversion])]
        exact hlast hsame
  | edit =>
    rw [hwrites.1] at happroved
    cases hstatus : s.status <;> simp [hstatus] at happroved
  | insert =>
    rw [hwrites.1] at happroved
    rw [lastDecision_append_none rfl]
    apply hlast
    cases hstatus : s.status with
    | none => simp [hstatus] at happroved
    | some status => simpa [hstatus] using happroved
  | materialize rendered existing =>
    rw [hwrites.1] at happroved
    rw [lastDecision_append_none rfl]
    apply hlast
    cases hrow : s.row with
    | none => simp [Store.status, hrow] at happroved
    | some row =>
      have hstatus : rendered.statusOf existing = .approved := by
        simpa [Store.status, hrow] using happroved
      rw [statusOf_of_findsAsRead hfinds hrow] at hstatus
      simp [Store.status, hrow, existing_of_statusOf hstatus]
  | record history =>
    rw [hwrites.1] at happroved
    rw [lastDecision_append_none rfl]
    exact hlast happroved

theorem history_of_writes {event : Event κ} {s t : Store κ} (h : Writes event s t) :
    t.history = s.history ∨ ∃ history, event = .record history ∧ t.history = s.history ++ [history] := by
  cases event with
  | read =>
    obtain rfl : t = s := h
    exact .inl rfl
  | setStatus status user entry =>
    obtain rfl : t = writeStatus status user entry s := h
    exact .inl rfl
  | edit => exact .inl h.2
  | insert => exact .inl h.2
  | materialize rendered existing => exact .inl h.2
  | record history => exact .inr ⟨history, rfl, h.2⟩

/-- What holds at the end of a run that began with `known` in the history. -/
structure Faithful (known : List (HistoryRow κ)) (moments : List (Moment κ)) (t : Rule κ) : Prop where
  calls : ∀ call ∈ t.calls, call.Obeys Effect
  records : ∀ call ∈ t.calls, ∀ history, call.nextEvent = some (.record history) →
    history.newStatus = .approved → Approved moments history
  history : ∀ history ∈ t.shared.history, history.newStatus = .approved →
    history ∈ known ∨ Approved moments history
  last : t.shared.status = some .approved → ∀ d ∈ lastDecision moments, d = .approved

theorem faithful_step {known : List (HistoryRow κ)} {moments : List (Moment κ)} {s t : Rule κ}
    {moment : Moment κ} (hstep : Session.Step s moment t) (hfinds : FindsAsRead moment)
    (h : Faithful known moments s) : Faithful known (moments ++ [moment]) t := by
  obtain ⟨i, call, rest, hcall, hnext, hstate, ht, heffect, -⟩ := hstep.obeys h.calls
  obtain ⟨state, event⟩ := moment
  obtain rfl : state = s.shared := hstate
  refine ⟨hstep.calls_obey h.calls, ?_, ?_, lastDecision_step heffect.writes hfinds h.last⟩
  · intro other hother history hrecord happroved
    rw [ht] at hother
    rcases List.mem_or_eq_of_mem_set hother with hold | rfl
    · exact (h.records other hold history hrecord happroved).append _
    · obtain ⟨user, entry, hevent, rfl⟩ := heffect.records history hrecord happroved
      obtain rfl : event = .setStatus .approved user entry := hevent
      refine ⟨_, List.mem_append_right _ List.mem_cons_self, user, entry, rfl, rfl, ?_⟩
      rw [check_writeStatus]
      exact hfinds
  · intro history hhistory happroved
    have hknown : history ∈ s.shared.history →
        history ∈ known ∨ Approved (moments ++ [(s.shared, event)]) history := fun hmem =>
      (h.history history hmem happroved).imp_right fun hpast => hpast.append _
    rcases history_of_writes heffect.writes with hsame | ⟨new, hevent, happend⟩
    · exact hknown (hsame ▸ hhistory)
    · rw [happend] at hhistory
      rcases List.mem_append.mp hhistory with hmem | hmem
      · exact hknown hmem
      · obtain rfl := List.mem_singleton.mp hmem
        have hin := List.mem_of_getElem? hcall
        rw [show event = .record history from hevent] at hnext
        exact .inr ((h.records call hin history hnext happroved).append _)

end Runs

def checkFunctions : CheckFunctions String := ⟨id, id, fun _ => true⟩

/-- A row of registry version 1 with the check `old`. -/
def materialized (status : RuleStatus) : ResolvedRule String where
  tableFqn := "c.s.t"
  check := "old"
  version := 1
  status
  source := "registry"
  registryRuleId := some "r"
  registryVersion := some 1
  appliedRuleId := some "a"
  ruleFingerprint := "old"
  updatedBy := none

/-- The applied rule follows the versions of its registry rule. -/
def renderedAt (version : Nat) (check : String) : Operation String :=
  .materialize ⟨"c.s.t", check, version, "r", "a", none, false, true⟩

def concurrent (status : RuleStatus) (operations : List (Operation String)) : Rule String :=
  ⟨⟨some (materialized status), []⟩, operations.map (Operation.call checkFunctions)⟩

def approveIt : Operation String := .setStatus "m" .approved "b" none none

/-- A row is approved, and then materialized at the next version. -/
def inOrder : List (Moment String) × Rule String :=
  (concurrent .pendingApproval [approveIt, renderedAt 2 "new"]).run [0, 0, 0, 0, 1, 1]

/-- The row is materialized with another check of the same version between the read of an approval and
its write. -/
def unseen : List (Moment String) × Rule String :=
  (concurrent .pendingApproval [approveIt, renderedAt 1 "new"]).run [0, 1, 1, 0, 0, 0]

/-- The row is reset to a draft between the read of a materialization and its write. -/
def undone : List (Moment String) × Rule String :=
  (concurrent .approved [renderedAt 1 "old", .setStatus "m" .draft "b" none none]).run
    [0, 1, 1, 1, 1, 0]

end Dqx.Rules
