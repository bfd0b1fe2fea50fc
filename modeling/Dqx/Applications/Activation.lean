import Dqx.Applications.Pending
import Dqx.Lib.Run
import Dqx.Lib.Trim
import Mathlib.Data.List.Nodup

/-! Applications that are recorded while others are activated. None is lost, no pair of a binding and a
rule has two of them pending, and no applied rule loses its pin, severity override or tags, if each
write finds the rows as its call has read them and no activation meets an applied rule with a pin or a
severity override. -/

namespace Dqx.Applications

open Lib

abbrev Calls := Session Store Event Result

/-- A state that a statement meets, with the event of the statement. -/
abbrev Moment := Store × Event

/-- An application as it is applied. -/
def Application.cleaned (application : Application) : Application :=
  { application with
    rowFilter := cleanRowFilter application.rowFilter
    passThreshold := clampPassThreshold application.passThreshold }

/-- The rows of one applied rule, up to what a re-application may change. -/
structure SameRule (row row' : AppliedRule) : Prop where
  id : row'.id = row.id
  bindingId : row'.bindingId = row.bindingId
  ruleId : row'.ruleId = row.ruleId
  columnMapping : row'.columnMapping = row.columnMapping
  mappingHash : row'.mappingHash = row.mappingHash
  userMetadata : row'.userMetadata = row.userMetadata

theorem SameRule.refl (row : AppliedRule) : SameRule row row := ⟨rfl, rfl, rfl, rfl, rfl, rfl⟩

theorem SameRule.symm {row row' : AppliedRule} (h : SameRule row row') : SameRule row' row :=
  ⟨h.id.symm, h.bindingId.symm, h.ruleId.symm, h.columnMapping.symm, h.mappingHash.symm,
    h.userMetadata.symm⟩

theorem SameRule.trans {a b c : AppliedRule} (h : SameRule a b) (h' : SameRule b c) : SameRule a c :=
  ⟨h'.id.trans h.id, h'.bindingId.trans h.bindingId, h'.ruleId.trans h.ruleId,
    h'.columnMapping.trans h.columnMapping, h'.mappingHash.trans h.mappingHash,
    h'.userMetadata.trans h.userMetadata⟩

/-- What the owner of an applied rule has set of it. -/
structure Keeps (row row' : AppliedRule) : Prop extends SameRule row row' where
  pinnedVersion : row'.pinnedVersion = row.pinnedVersion
  severityOverride : row'.severityOverride = row.severityOverride

theorem Keeps.refl (row : AppliedRule) : Keeps row row := ⟨.refl row, rfl, rfl⟩

theorem Keeps.trans {a b c : AppliedRule} (h : Keeps a b) (h' : Keeps b c) : Keeps a c :=
  ⟨h.toSameRule.trans h'.toSameRule, h'.pinnedVersion.trans h.pinnedVersion,
    h'.severityOverride.trans h.severityOverride⟩

/-! ### Values -/

theorem strip_strip (text : Text) : Actions.strip (Actions.strip text) = Actions.strip text :=
  rdropWhile_dropWhile_idempotent Actions.isSpace text

@[simp] theorem cleanRowFilter_cleanRowFilter (rowFilter : Option Text) :
    cleanRowFilter (cleanRowFilter rowFilter) = cleanRowFilter rowFilter := by
  cases rowFilter with
  | none => rfl
  | some text =>
    by_cases hblank : Actions.strip text = []
    · simp [cleanRowFilter, hblank, Option.filter]
    · simp [cleanRowFilter, hblank, strip_strip, Option.filter]

/-! ### The calls -/

/-- Values as the calls write them. -/
def Event.Made (functions : Functions) : Event → Prop
  | .updatePending _ _ _ application => cleanRowFilter application.rowFilter = application.rowFilter
  | .insertPending _ _ _ application => cleanRowFilter application.rowFilter = application.rowFilter
  | .updateApplied updated => updated.pinnedVersion = none ∧ updated.severityOverride = none
  | .insertApplied row => row.mappingHash = computeMappingHash functions row.columnMapping
  | _ => True

/-- The statement applies `pending`. -/
structure Event.Applies (functions : Functions) (event : Event) (pending : PendingApplication)
    (row : AppliedRule) : Prop where
  event : event = .updateApplied row ∨ event = .insertApplied row
  bindingId : row.bindingId = pending.bindingId
  ruleId : row.ruleId = pending.ruleId
  mappingHash : row.mappingHash = computeMappingHash functions pending.columnMapping
  rowFilter : row.rowFilter = cleanRowFilter pending.rowFilter
  passThreshold : row.passThreshold = clampPassThreshold pending.passThreshold

/-- What a statement does, and what its call knows when it goes on to write an applied rule or to
delete a pending application. -/
structure Effect (functions : Functions) (event : Event) (s s' : Store) (rest : AppCall Result) :
    Prop where
  after : s' = event.after s
  made : event.Made functions
  finds : ∀ updated, rest.nextEvent = some (.updateApplied updated) →
    ∃ existing ∈ s'.applied, SameRule existing updated
  applies : ∀ pending, rest.nextEvent = some (.deletePending pending) →
    (∃ t, event.execute s = .ok t) ∧ ∃ row, event.Applies functions pending row

section Calls

variable {functions : Functions}

/-- A call that obeys, and begins with neither of these writes. -/
def Begins (functions : Functions) (call : AppCall Result) : Prop :=
  (∀ updated, call.nextEvent ≠ some (.updateApplied updated)) ∧
    (∀ pending, call.nextEvent ≠ some (.deletePending pending)) ∧ call.Obeys (Effect functions)

theorem begins_done (result : Result) : Begins functions (.done result) :=
  ⟨fun _ => nofun, fun _ => nofun, trivial⟩

theorem obeys_sql {event : Event} {onError : Error → AppCall Result} {next : Store → AppCall Result}
    (hmade : event.Made functions) (herror : ∀ error, Begins functions (onError error))
    (hnext : ∀ s t, event.execute s = .ok t →
      Effect functions event s t (next s) ∧ (next s).Obeys (Effect functions)) :
    (sql event onError next).Obeys (Effect functions) := by
  intro s
  dsimp only
  cases hexecute : event.execute s with
  | ok t =>
    have hafter : event.after s = t := by rw [Event.after, hexecute]; rfl
    rw [hafter]
    exact hnext s t hexecute
  | error error =>
    have hbegins := herror error
    exact ⟨⟨rfl, hmade, fun updated h => absurd h (hbegins.1 updated),
      fun pending h => absurd h (hbegins.2.1 pending)⟩, hbegins.2.2⟩

/-- The rest of the call may know nothing. -/
theorem effect_of_begins {event : Event} {s t : Store} {rest : AppCall Result}
    (hmade : event.Made functions) (hexecute : event.execute s = .ok t) (h : Begins functions rest) :
    Effect functions event s t rest ∧ rest.Obeys (Effect functions) := by
  refine ⟨⟨?_, hmade, fun updated hnext => absurd hnext (h.1 updated),
    fun pending hnext => absurd hnext (h.2.1 pending)⟩, h.2.2⟩
  rw [Event.after, hexecute]
  rfl

theorem obeys_sql_begins {event : Event} {onError : Error → AppCall Result}
    {next : Store → AppCall Result} (hmade : event.Made functions)
    (herror : ∀ error, Begins functions (onError error)) (hnext : ∀ s, Begins functions (next s)) :
    (sql event onError next).Obeys (Effect functions) :=
  obeys_sql hmade herror fun s _ hexecute => effect_of_begins hmade hexecute (hnext s)

theorem begins_read {onError : Error → AppCall Result} {next : Store → AppCall Result}
    (herror : ∀ error, Begins functions (onError error)) (hnext : ∀ s, Begins functions (next s)) :
    Begins functions (sql .read onError next) :=
  ⟨fun _ => nofun, fun _ => nofun, obeys_sql_begins trivial herror hnext⟩

theorem begins_record (bindingId ruleId : String) (application : Application) (user : String) :
    Begins functions (record bindingId ruleId application user) := by
  apply begins_read fun _ => begins_done _
  intro s
  have hclean := cleanRowFilter_cleanRowFilter application.rowFilter
  split
  · exact ⟨fun _ => nofun, fun _ => nofun,
      obeys_sql_begins hclean (fun _ => begins_done _) fun _ => begins_done _⟩
  · exact ⟨fun _ => nofun, fun _ => nofun,
      obeys_sql_begins hclean (fun _ => begins_done _) fun _ => begins_done _⟩

theorem begins_validateApplicableRule {bindingId ruleId : String} {application : Application}
    {onError : Error → AppCall Result} {next : RegistryRule → AppCall Result}
    (herror : ∀ error, Begins functions (onError error))
    (hnext : ∀ rule, Begins functions (next rule)) : Begins functions
      (validateApplicableRule functions bindingId ruleId application onError next) := by
  apply begins_read herror
  intro s
  split
  · exact herror _
  · apply begins_read herror
    intro s
    split
    · exact herror _
    · split
      · exact herror _
      · split
        · exact herror _
        · split
          · exact herror _
          · exact hnext _

/-- The delete knows that `pending` has been applied. -/
theorem obeys_delete {functions : Functions} {event : Event} {s t : Store}
    {pending : PendingApplication} {row : AppliedRule} {skip : AppCall Result}
    (hmade : event.Made functions) (hexecute : event.execute s = .ok t)
    (happlies : event.Applies functions pending row) (hskip : Begins functions skip) :
    let rest := sql (.deletePending pending) (fun _ => skip) fun _ => skip
    Effect functions event s t rest ∧ rest.Obeys (Effect functions) := by
  refine ⟨⟨?_, hmade, fun _ => nofun, ?_⟩, obeys_sql_begins trivial (fun _ => hskip) fun _ => hskip⟩
  · rw [Event.after, hexecute]
    rfl
  · intro other hother
    obtain rfl : pending = other := by simpa [sql] using hother
    exact ⟨⟨t, hexecute⟩, row, happlies⟩

theorem mem_of_appliedAt {s : Store} {bindingId ruleId mappingHash : String} {existing : AppliedRule}
    (h : s.appliedAt bindingId ruleId mappingHash = some existing) : existing ∈ s.applied ∧
      existing.bindingId = bindingId ∧ existing.ruleId = ruleId ∧ existing.mappingHash = mappingHash := by
  have hkey := List.find?_some h
  simp only [AppliedRule.hasKey, Bool.and_eq_true, decide_eq_true_eq] at hkey
  exact ⟨List.mem_of_find?_eq_some h, hkey.1.1, hkey.1.2, hkey.2⟩

theorem begins_apply_delete {pending : PendingApplication} {user : String} {skip : AppCall Result}
    (hskip : Begins functions skip) :
    Begins functions (applyRule functions pending.bindingId pending.ruleId pending.toApplication user
      none none none (fun _ => skip) fun _ =>
        sql (.deletePending pending) (fun _ => skip) fun _ => skip) := by
  apply begins_validateApplicableRule fun _ => hskip
  intro rule
  refine ⟨fun _ => nofun, fun _ => nofun, obeys_sql trivial (fun _ => hskip) ?_⟩
  intro s t hexecute
  dsimp only
  split
  · rename_i existing hexisting
    obtain ⟨hmem, hbinding, hrule, hhash⟩ := mem_of_appliedAt hexisting
    have ht : t = s := by
      simp only [Event.execute, Event.write] at hexecute
      split at hexecute
      · exact (Except.ok.inj hexecute).symm
      · cases hexecute
    refine ⟨⟨?_, trivial, ?_, fun _ => nofun⟩, ?_⟩
    · rw [Event.after, hexecute]
      rfl
    · intro updated hupdated
      obtain rfl := Event.updateApplied.inj (Option.some.inj hupdated)
      exact ⟨existing, ht ▸ hmem, rfl, rfl, rfl, rfl, rfl, rfl⟩
    · refine obeys_sql ⟨rfl, rfl⟩ (fun _ => hskip) ?_
      intro s t hexecute
      exact obeys_delete ⟨rfl, rfl⟩ hexecute ⟨.inl rfl, hbinding, hrule, hhash, rfl, rfl⟩ hskip
  · refine effect_of_begins trivial hexecute (begins_read (fun _ => hskip) ?_)
    intro s
    refine ⟨fun _ => nofun, fun _ => nofun, obeys_sql rfl (fun _ => hskip) ?_⟩
    intro s t hexecute
    exact obeys_delete rfl hexecute ⟨.inr rfl, rfl, rfl, rfl, rfl, rfl⟩ hskip

theorem begins_activateEach {ruleId approver : String} {listed : List PendingApplication}
    (h : ∀ pending ∈ listed, pending.ruleId = ruleId) :
    Begins functions (activateEach functions ruleId approver listed) := by
  induction listed with
  | nil => exact begins_done _
  | cons pending rest ih =>
    rw [List.forall_mem_cons] at h
    obtain ⟨rfl, hrest⟩ := h
    exact begins_apply_delete (ih hrest)

theorem Operation.begins (operation : Operation) : Begins functions (operation.call functions) := by
  cases operation with
  | record bindingId ruleId application user => exact begins_record bindingId ruleId application user
  | activatePendingApplications ruleId approver =>
    refine begins_read (fun _ => begins_done _) fun s => begins_activateEach ?_
    intro pending hpending
    exact of_decide_eq_true (List.mem_filter.mp hpending).2
  | outage =>
    exact ⟨fun _ => nofun, fun _ => nofun, fun s => effect_of_begins trivial rfl (begins_done _)⟩

end Calls

/-! ### Statements -/

/-- The threshold of a recorded application is one that an applied rule may have. -/
def Application.InRange (application : Application) : Prop :=
  clampPassThreshold application.passThreshold = application.passThreshold

/-- The statement fails, or finds the rows as its call has read them: an application is recorded once
for its pair, in a row that still exists, and the row that is deleted is the one that was listed. An
applied rule that is written has neither a pin nor a severity override. -/
def FindsAsRead (moment : Moment) : Prop :=
  moment.1.available = true → match moment.2 with
    | .updatePending id bindingId ruleId application =>
      (∃ row ∈ moment.1.pending, row.id = id ∧ row.hasKey bindingId ruleId = true) ∧
        application.InRange
    | .insertPending bindingId ruleId _ application =>
      (moment.1.unique = true ∨ ∀ row ∈ moment.1.pending, row.hasKey bindingId ruleId = false) ∧
        application.InRange
    | .deletePending pending => ∀ row ∈ moment.1.pending, row.id = pending.id → row = pending
    | .updateApplied updated => ∀ row ∈ moment.1.applied, row.id = updated.id →
      row.pinnedVersion = none ∧ row.severityOverride = none
    | _ => True

instance : DecidablePred Application.InRange := fun application =>
  inferInstanceAs (Decidable (clampPassThreshold application.passThreshold = application.passThreshold))

instance : DecidablePred FindsAsRead
  | (_, .read) => .isTrue fun _ => trivial
  | (_, .outage) => .isTrue fun _ => trivial
  | (_, .updatePending ..) => inferInstanceAs (Decidable (_ → (∃ _ ∈ _, _ ∧ _) ∧ Application.InRange _))
  | (_, .insertPending ..) =>
    inferInstanceAs (Decidable (_ → (_ ∨ ∀ _ ∈ _, _) ∧ Application.InRange _))
  | (_, .deletePending _) => inferInstanceAs (Decidable (_ → ∀ _ ∈ _, _ → _))
  | (_, .updateApplied _) => inferInstanceAs (Decidable (_ → ∀ _ ∈ _, _ → _ ∧ _))
  | (_, .insertApplied _) => .isTrue fun _ => trivial

/-- What holds of the tables. -/
structure Sound (functions : Functions) (s : Store) : Prop where
  pendingIds : (s.pending.map (·.id)).Nodup
  pendingKeys : (s.pending.map fun row => (row.bindingId, row.ruleId)).Nodup
  pendingBelow : ∀ row ∈ s.pending, row.id < s.nextId
  cleaned : ∀ row ∈ s.pending, row.toApplication.cleaned = row.toApplication
  appliedIds : (s.applied.map (·.id)).Nodup
  appliedBelow : ∀ row ∈ s.applied, row.id < s.nextId
  hashes : ∀ row ∈ s.applied, row.mappingHash = computeMappingHash functions row.columnMapping

section Statements

variable {functions : Functions} {event : Event} {s t : Store}

theorem write_of_execute (h : event.execute s = .ok t) :
    event.write s = .ok t ∧ (s.available = true ∨ event = .outage) := by
  cases event with
  | outage => exact ⟨h, .inr rfl⟩
  | _ =>
    simp only [Event.execute] at h
    split at h
    · exact ⟨h, .inl ‹_›⟩
    · cases h

theorem hasKey_iff {bindingId ruleId : String} {row : PendingApplication} :
    row.hasKey bindingId ruleId = true ↔ row.bindingId = bindingId ∧ row.ruleId = ruleId := by
  simp [PendingApplication.hasKey]

@[simp] theorem PendingApplication.write_id (id : Nat) (application : Application)
    (row : PendingApplication) : (row.write id application).id = row.id := by
  rw [PendingApplication.write]
  split <;> rfl

@[simp] theorem PendingApplication.write_bindingId (id : Nat) (application : Application)
    (row : PendingApplication) : (row.write id application).bindingId = row.bindingId := by
  rw [PendingApplication.write]
  split <;> rfl

@[simp] theorem PendingApplication.write_ruleId (id : Nat) (application : Application)
    (row : PendingApplication) : (row.write id application).ruleId = row.ruleId := by
  rw [PendingApplication.write]
  split <;> rfl

theorem PendingApplication.write_same {id : Nat} {application : Application}
    {row : PendingApplication} (h : row.id = id) :
    (row.write id application).toApplication = application := by
  rw [PendingApplication.write, if_pos h]

theorem PendingApplication.write_other {id : Nat} {application : Application}
    {row : PendingApplication} (h : row.id ≠ id) : row.write id application = row := by
  rw [PendingApplication.write, if_neg h]

@[simp] theorem AppliedRule.write_id (updated row : AppliedRule) :
    (updated.write row).id = row.id := by
  rw [AppliedRule.write]
  split <;> rfl

@[simp] theorem AppliedRule.write_columnMapping (updated row : AppliedRule) :
    (updated.write row).columnMapping = row.columnMapping := by
  rw [AppliedRule.write]
  split <;> rfl

@[simp] theorem AppliedRule.write_mappingHash (updated row : AppliedRule) :
    (updated.write row).mappingHash = row.mappingHash := by
  rw [AppliedRule.write]
  split <;> rfl

theorem cleaned_of_made {application : Application}
    (hclean : cleanRowFilter application.rowFilter = application.rowFilter)
    (hrange : application.InRange) : application.cleaned = application := by
  rw [Application.cleaned, hclean, hrange]

theorem nodup_append_next {ids : List Nat} {next : Nat} (h : ids.Nodup)
    (hbelow : ∀ id ∈ ids, id < next) : (ids ++ [next]).Nodup := by
  refine List.nodup_append.mpr ⟨h, List.nodup_singleton _, ?_⟩
  intro id hid other hother
  have hlt := hbelow id hid
  rw [List.mem_singleton] at hother
  omega

/-- What a statement preserves of the tables. -/
theorem sound_execute (h : Sound functions s) (hmade : event.Made functions)
    (hfinds : FindsAsRead (s, event)) (hexecute : event.execute s = .ok t) : Sound functions t := by
  obtain ⟨hwrite, havailable⟩ := write_of_execute hexecute
  cases event with
  | read =>
    obtain rfl := Except.ok.inj hwrite
    exact h
  | outage =>
    obtain rfl := Except.ok.inj hwrite
    exact ⟨h.pendingIds, h.pendingKeys, h.pendingBelow, h.cleaned, h.appliedIds, h.appliedBelow,
      h.hashes⟩
  | updatePending id bindingId ruleId application =>
    obtain rfl := Except.ok.inj hwrite
    obtain ⟨-, hrange⟩ := hfinds (havailable.resolve_right nofun)
    refine ⟨?_, ?_, ?_, ?_, h.appliedIds, h.appliedBelow, h.hashes⟩
    · simpa [List.map_map, Function.comp_def] using h.pendingIds
    · simpa [List.map_map, Function.comp_def] using h.pendingKeys
    · simpa [List.forall_mem_map] using h.pendingBelow
    · rw [List.forall_mem_map]
      intro row hrow
      by_cases hid : row.id = id
      · rw [PendingApplication.write_same hid]
        exact cleaned_of_made hmade hrange
      · rw [PendingApplication.write_other hid]
        exact h.cleaned row hrow
  | insertPending bindingId ruleId user application =>
    obtain ⟨hunique, hrange⟩ := hfinds (havailable.resolve_right nofun)
    simp only [Event.write] at hwrite
    split at hwrite
    · cases hwrite
    · rename_i hnew
      obtain rfl := Except.ok.inj hwrite
      have hnone : ∀ row ∈ s.pending, row.hasKey bindingId ruleId = false := by
        rcases hunique with hunique | hnone
        · rw [hunique, Bool.true_and, Bool.not_eq_true] at hnew
          simpa using hnew
        · exact hnone
      refine ⟨?_, ?_, ?_, ?_, h.appliedIds, ?_, h.hashes⟩
      · rw [List.map_append]
        exact nodup_append_next h.pendingIds (List.forall_mem_map.mpr h.pendingBelow)
      · rw [List.map_append, List.nodup_append]
        refine ⟨h.pendingKeys, List.nodup_singleton _, ?_⟩
        rintro key hkey other hother rfl
        obtain ⟨row, hrow, rfl⟩ := List.mem_map.mp hkey
        have hfalse := hnone row hrow
        simp only [List.map_cons, List.map_nil, List.mem_singleton, Prod.mk.injEq] at hother
        rw [hasKey_iff.mpr hother] at hfalse
        cases hfalse
      · intro row hrow
        rcases List.mem_append.mp hrow with hrow | hrow
        · exact (h.pendingBelow row hrow).trans (Nat.lt_succ_self _)
        · obtain rfl := List.mem_singleton.mp hrow
          exact Nat.lt_succ_self _
      · intro row hrow
        rcases List.mem_append.mp hrow with hrow | hrow
        · exact h.cleaned row hrow
        · obtain rfl := List.mem_singleton.mp hrow
          exact cleaned_of_made hmade hrange
      · exact fun row hrow => (h.appliedBelow row hrow).trans (Nat.lt_succ_self _)
  | deletePending pending =>
    obtain rfl := Except.ok.inj hwrite
    have hsub : List.Sublist (s.pending.filter fun row => row.id ≠ pending.id) s.pending :=
      List.filter_sublist
    exact ⟨h.pendingIds.sublist (hsub.map _), h.pendingKeys.sublist (hsub.map _),
      fun row hrow => h.pendingBelow row (hsub.subset hrow),
      fun row hrow => h.cleaned row (hsub.subset hrow), h.appliedIds, h.appliedBelow, h.hashes⟩
  | updateApplied updated =>
    obtain rfl := Except.ok.inj hwrite
    refine ⟨h.pendingIds, h.pendingKeys, h.pendingBelow, h.cleaned, ?_, ?_, ?_⟩
    · simpa [List.map_map, Function.comp_def] using h.appliedIds
    · simpa [List.forall_mem_map] using h.appliedBelow
    · simpa [List.forall_mem_map] using h.hashes
  | insertApplied new =>
    simp only [Event.write] at hwrite
    split at hwrite
    · cases hwrite
    · obtain rfl := Except.ok.inj hwrite
      refine ⟨h.pendingIds, h.pendingKeys, ?_, h.cleaned, ?_, ?_, ?_⟩
      · exact fun row hrow => (h.pendingBelow row hrow).trans (Nat.lt_succ_self _)
      · rw [List.map_append]
        exact nodup_append_next h.appliedIds (List.forall_mem_map.mpr h.appliedBelow)
      · intro row hrow
        rcases List.mem_append.mp hrow with hrow | hrow
        · exact (h.appliedBelow row hrow).trans (Nat.lt_succ_self _)
        · obtain rfl := List.mem_singleton.mp hrow
          exact Nat.lt_succ_self _
      · intro row hrow
        rcases List.mem_append.mp hrow with hrow | hrow
        · exact h.hashes row hrow
        · obtain rfl := List.mem_singleton.mp hrow
          exact hmade

/-- Before an update of an applied rule its call knows the rule. -/
def Knows (s : Store) (event : Option Event) : Prop :=
  ∀ updated, event = some (.updateApplied updated) → ∃ existing ∈ s.applied, SameRule existing updated

/-- No statement changes what the owner of an applied rule has set. -/
theorem keeps_execute (h : Sound functions s) (hmade : event.Made functions)
    (hknows : Knows s (some event)) (hfinds : FindsAsRead (s, event))
    (hexecute : event.execute s = .ok t) : ∀ row ∈ s.applied, ∃ row' ∈ t.applied, Keeps row row' := by
  obtain ⟨hwrite, havailable⟩ := write_of_execute hexecute
  have hsame : t.applied = s.applied → ∀ row ∈ s.applied, ∃ row' ∈ t.applied, Keeps row row' :=
    fun heq row hrow => ⟨row, heq ▸ hrow, .refl row⟩
  cases event with
  | read =>
    obtain rfl := Except.ok.inj hwrite
    exact hsame rfl
  | outage =>
    obtain rfl := Except.ok.inj hwrite
    exact hsame rfl
  | updatePending id bindingId ruleId application =>
    obtain rfl := Except.ok.inj hwrite
    exact hsame rfl
  | insertPending bindingId ruleId user application =>
    simp only [Event.write] at hwrite
    split at hwrite
    · cases hwrite
    · obtain rfl := Except.ok.inj hwrite
      exact hsame rfl
  | deletePending pending =>
    obtain rfl := Except.ok.inj hwrite
    exact hsame rfl
  | updateApplied updated =>
    obtain rfl := Except.ok.inj hwrite
    intro row hrow
    refine ⟨updated.write row, List.mem_map_of_mem hrow, ?_⟩
    by_cases hid : row.id = updated.id
    · obtain ⟨hpin, hseverity⟩ := hfinds (havailable.resolve_right nofun) row hrow hid
      obtain ⟨existing, hexisting, hsame⟩ := hknows updated rfl
      obtain rfl : existing = row :=
        List.inj_on_of_nodup_map h.appliedIds hexisting hrow (hsame.id.symm.trans hid.symm)
      obtain ⟨hupin, huseverity⟩ := hmade
      rw [AppliedRule.write, if_pos hid]
      exact ⟨⟨rfl, rfl, rfl, rfl, rfl, hsame.userMetadata⟩, hupin.trans hpin.symm,
        huseverity.trans hseverity.symm⟩
    · rw [AppliedRule.write, if_neg hid]
      exact .refl row
  | insertApplied new =>
    simp only [Event.write] at hwrite
    split at hwrite
    · cases hwrite
    · obtain rfl := Except.ok.inj hwrite
      exact fun row hrow => ⟨row, List.mem_append_left _ hrow, .refl row⟩

end Statements

/-! ### Runs -/

/-- An applied rule with exactly these values. Its groups may come in another order, which their hash
does not tell. -/
structure AppliedRule.Holds (functions : Functions) (row : AppliedRule) (bindingId ruleId : String)
    (application : Application) : Prop where
  bindingId : row.bindingId = bindingId
  ruleId : row.ruleId = ruleId
  columnMapping : computeMappingHash functions row.columnMapping =
    computeMappingHash functions application.columnMapping
  rowFilter : row.rowFilter = application.rowFilter
  passThreshold : row.passThreshold = application.passThreshold

def Event.isApply : Event → Bool
  | .updateApplied _ => true
  | .insertApplied _ => true
  | _ => false

/-- A statement has applied the rule to the binding with exactly these values. -/
def Applied (functions : Functions) (moments : List Moment) (bindingId ruleId : String)
    (application : Application) : Prop :=
  ∃ moment ∈ moments, moment.2.isApply = true ∧ ∃ t, moment.2.execute moment.1 = .ok t ∧
    ∃ row ∈ t.applied, row.Holds functions bindingId ruleId application

/-- The application that a successful record writes for the pair. -/
def recording? (bindingId ruleId : String) (moment : Moment) : Option Application :=
  match moment.2 with
  | .updatePending _ bindingId' ruleId' application
  | .insertPending bindingId' ruleId' _ application =>
    if (moment.2.execute moment.1).isOk ∧ bindingId' = bindingId ∧ ruleId' = ruleId then
      some application
    else none
  | _ => none

/-- What was recorded last for the pair, in a run that begins with the table of `start`. -/
def lastRecorded (start : Store) (moments : List Moment) (bindingId ruleId : String) :
    Option Application :=
  (moments.filterMap (recording? bindingId ruleId)).getLast?.or
    ((start.pendingAt bindingId ruleId).map (·.toApplication))

/-- The application is still pending, or was applied. -/
def Honored (functions : Functions) (s : Store) (moments : List Moment) (bindingId ruleId : String)
    (application : Application) : Prop :=
  (∃ row ∈ s.pending, row.hasKey bindingId ruleId = true ∧ row.toApplication = application) ∨
    Applied functions moments bindingId ruleId application

section Runs

variable {functions : Functions} {start s t : Store} {moments : List Moment} {event : Event}
  {bindingId ruleId : String} {application : Application}

theorem Applied.append (h : Applied functions moments bindingId ruleId application) (moment : Moment) :
    Applied functions (moments ++ [moment]) bindingId ruleId application := by
  obtain ⟨past, hpast, h⟩ := h
  exact ⟨past, List.mem_append_left _ hpast, h⟩

theorem lastRecorded_append_none {moment : Moment} (h : recording? bindingId ruleId moment = none) :
    lastRecorded start (moments ++ [moment]) bindingId ruleId =
      lastRecorded start moments bindingId ruleId := by
  simp [lastRecorded, List.filterMap_append, h]

theorem lastRecorded_append_some {moment : Moment}
    (h : recording? bindingId ruleId moment = some application) :
    lastRecorded start (moments ++ [moment]) bindingId ruleId = some application := by
  simp [lastRecorded, List.filterMap_append, h]

/-- What the statement before a delete has applied. -/
theorem exists_holds_of_applies {pending : PendingApplication} {row : AppliedRule}
    (h : Sound functions s)
    (hmade : event.Made functions) (hknows : Knows s (some event)) (hexecute : event.execute s = .ok t)
    (happlies : event.Applies functions pending row) :
    ∃ row' ∈ t.applied,
      row'.Holds functions pending.bindingId pending.ruleId pending.toApplication.cleaned := by
  obtain ⟨hwrite, -⟩ := write_of_execute hexecute
  obtain ⟨hevent, hbinding, hrule, hhash, hfilter, hthreshold⟩ := happlies
  rcases hevent with rfl | rfl
  · obtain rfl := Except.ok.inj hwrite
    obtain ⟨existing, hexisting, hsame⟩ := hknows row rfl
    refine ⟨row.write existing, List.mem_map_of_mem hexisting, ?_⟩
    rw [AppliedRule.write, if_pos hsame.id.symm]
    have hmapping : computeMappingHash functions existing.columnMapping =
        computeMappingHash functions pending.columnMapping := by
      rw [← h.hashes existing hexisting, ← hhash, hsame.mappingHash]
    exact ⟨hsame.bindingId.symm.trans hbinding, hsame.ruleId.symm.trans hrule, hmapping, hfilter,
      hthreshold⟩
  · simp only [Event.write] at hwrite
    split at hwrite
    · cases hwrite
    · obtain rfl := Except.ok.inj hwrite
      refine ⟨_, List.mem_append_right _ List.mem_cons_self, ?_⟩
      exact ⟨hbinding, hrule, Eq.trans hmade.symm hhash, hfilter, hthreshold⟩

/-- What a statement that is executed preserves: the last application recorded for a pair is still
pending, or was applied. A row is deleted once it has been applied. -/
theorem honored_execute (hsound : Sound functions s) (hfinds : FindsAsRead (s, event))
    (hexecute : event.execute s = .ok t)
    (hdelete : ∀ pending, event = .deletePending pending →
      Applied functions moments pending.bindingId pending.ruleId pending.toApplication.cleaned)
    (h : ∀ application, lastRecorded start moments bindingId ruleId = some application →
      Honored functions s moments bindingId ruleId application)
    (hlast : lastRecorded start (moments ++ [(s, event)]) bindingId ruleId = some application) :
    Honored functions t (moments ++ [(s, event)]) bindingId ruleId application := by
  obtain ⟨hwrite, havailable⟩ := write_of_execute hexecute
  have hok : (event.execute s).isOk = true := by rw [hexecute]; rfl
  have hsame : t.pending = s.pending → recording? bindingId ruleId (s, event) = none →
      Honored functions t (moments ++ [(s, event)]) bindingId ruleId application := by
    intro hpending hnone
    rw [lastRecorded_append_none hnone] at hlast
    rcases h application hlast with hstill | happlied
    · exact .inl (hpending ▸ hstill)
    · exact .inr (happlied.append _)
  cases event with
  | read =>
    obtain rfl := Except.ok.inj hwrite
    exact hsame rfl rfl
  | outage =>
    obtain rfl := Except.ok.inj hwrite
    exact hsame rfl rfl
  | updatePending id bindingId' ruleId' recorded =>
    obtain rfl := Except.ok.inj hwrite
    obtain ⟨⟨row, hrow, hid, hkey⟩, -⟩ := hfinds (havailable.resolve_right nofun)
    rw [hasKey_iff] at hkey
    by_cases hpair : bindingId' = bindingId ∧ ruleId' = ruleId
    · have hrecording : recording? bindingId ruleId
          (s, .updatePending id bindingId' ruleId' recorded) = some recorded := if_pos ⟨hok, hpair⟩
      rw [lastRecorded_append_some hrecording] at hlast
      obtain rfl := Option.some.inj hlast
      refine .inl ⟨_, List.mem_map_of_mem hrow, ?_, PendingApplication.write_same hid⟩
      rw [hasKey_iff, PendingApplication.write_bindingId, PendingApplication.write_ruleId, ← hpair.1,
        ← hpair.2]
      exact hkey
    · have hrecording : recording? bindingId ruleId
          (s, .updatePending id bindingId' ruleId' recorded) = none := if_neg fun h => hpair h.2
      rw [lastRecorded_append_none hrecording] at hlast
      rcases h application hlast with ⟨other, hother, hotherKey, hvalues⟩ | happlied
      · rw [hasKey_iff] at hotherKey
        have hne : other.id ≠ id := by
          rintro hotherId
          obtain rfl := List.inj_on_of_nodup_map hsound.pendingIds hother hrow (hotherId.trans hid.symm)
          exact hpair ⟨hkey.1.symm.trans hotherKey.1, hkey.2.symm.trans hotherKey.2⟩
        refine .inl ⟨_, List.mem_map_of_mem hother, ?_⟩
        rw [PendingApplication.write_other hne, hasKey_iff]
        exact ⟨hotherKey, hvalues⟩
      · exact .inr (happlied.append _)
  | insertPending bindingId' ruleId' user recorded =>
    simp only [Event.write] at hwrite
    split at hwrite
    · cases hwrite
    · obtain rfl := Except.ok.inj hwrite
      by_cases hpair : bindingId' = bindingId ∧ ruleId' = ruleId
      · have hrecording : recording? bindingId ruleId
            (s, .insertPending bindingId' ruleId' user recorded) = some recorded := if_pos ⟨hok, hpair⟩
        rw [lastRecorded_append_some hrecording] at hlast
        obtain rfl := Option.some.inj hlast
        exact .inl ⟨_, List.mem_append_right _ List.mem_cons_self, hasKey_iff.mpr hpair, rfl⟩
      · have hrecording : recording? bindingId ruleId
            (s, .insertPending bindingId' ruleId' user recorded) = none := if_neg fun h => hpair h.2
        rw [lastRecorded_append_none hrecording] at hlast
        rcases h application hlast with ⟨other, hother, hstill⟩ | happlied
        · exact .inl ⟨other, List.mem_append_left _ hother, hstill⟩
        · exact .inr (happlied.append _)
  | deletePending pending =>
    obtain rfl := Except.ok.inj hwrite
    rw [lastRecorded_append_none rfl] at hlast
    rcases h application hlast with ⟨row, hrow, hkey, rfl⟩ | happlied
    · by_cases hid : row.id = pending.id
      · obtain rfl := hfinds (havailable.resolve_right nofun) row hrow hid
        obtain ⟨rfl, rfl⟩ := hasKey_iff.mp hkey
        have happlied := hdelete row rfl
        rw [hsound.cleaned row hrow] at happlied
        exact .inr (happlied.append _)
      · exact .inl ⟨row, List.mem_filter.mpr ⟨hrow, by simpa using hid⟩, hkey, rfl⟩
    · exact .inr (happlied.append _)
  | updateApplied updated =>
    obtain rfl := Except.ok.inj hwrite
    exact hsame rfl rfl
  | insertApplied new =>
    simp only [Event.write] at hwrite
    split at hwrite
    · cases hwrite
    · obtain rfl := Except.ok.inj hwrite
      exact hsame rfl rfl

theorem recording_none_of_error {error : Error} (h : event.execute s = .error error) :
    recording? bindingId ruleId (s, event) = none := by
  have hok : (event.execute s).isOk = false := by rw [h]; rfl
  cases event <;> simp [recording?, hok]

/-- What holds at the end of a run that began with `start`. -/
structure Faithful (functions : Functions) (start : Store) (moments : List Moment) (t : Calls) :
    Prop where
  calls : ∀ call ∈ t.calls, call.Obeys (Effect functions)
  sound : Sound functions t.shared
  knows : ∀ call ∈ t.calls, Knows t.shared call.nextEvent
  applied : ∀ call ∈ t.calls, ∀ pending, call.nextEvent = some (.deletePending pending) →
    Applied functions moments pending.bindingId pending.ruleId pending.toApplication.cleaned
  honored : ∀ bindingId ruleId application,
    lastRecorded start moments bindingId ruleId = some application →
      Honored functions t.shared moments bindingId ruleId application
  kept : ∀ moment ∈ moments, ∀ row ∈ moment.1.applied, ∃ row' ∈ t.shared.applied, Keeps row row'

theorem after_of_execute (h : event.execute s = .ok t) : event.after s = t := by
  rw [Event.after, h]
  rfl

theorem faithful_step {start : Store} {s t : Calls}
    {moment : Moment} (hstep : Session.Step s moment t) (hfinds : FindsAsRead moment)
    (h : Faithful functions start moments s) : Faithful functions start (moments ++ [moment]) t := by
  obtain ⟨i, call, rest, hcall, hnext, hstate, ht, heffect, -⟩ := hstep.obeys h.calls
  obtain ⟨state, event⟩ := moment
  obtain rfl : state = s.shared := hstate
  have hcallKnows : Knows s.shared (some event) := hnext ▸ h.knows call (List.mem_of_getElem? hcall)
  have hcallApplied : ∀ pending, event = .deletePending pending →
      Applied functions moments pending.bindingId pending.ruleId pending.toApplication.cleaned :=
    fun pending hevent => h.applied call (List.mem_of_getElem? hcall) pending (hevent ▸ hnext)
  cases hexecute : event.execute s.shared with
  | error error =>
    have hshared : t.shared = s.shared := by rw [heffect.after, Event.after, hexecute]; rfl
    refine ⟨hstep.calls_obey h.calls, ?_, ?_, ?_, ?_, ?_⟩
    · rw [hshared]
      exact h.sound
    · intro other hother
      rw [ht] at hother
      rcases List.mem_or_eq_of_mem_set hother with hold | rfl
      · rw [hshared]
        exact h.knows other hold
      · exact heffect.finds
    · intro other hother pending hpending
      rw [ht] at hother
      rcases List.mem_or_eq_of_mem_set hother with hold | rfl
      · exact (h.applied other hold pending hpending).append _
      · obtain ⟨⟨u, hu⟩, -⟩ := heffect.applies pending hpending
        rw [hexecute] at hu
        cases hu
    · intro bindingId ruleId application hlast
      rw [lastRecorded_append_none (recording_none_of_error hexecute)] at hlast
      rw [hshared]
      exact (h.honored bindingId ruleId application hlast).imp_right fun happlied => happlied.append _
    · rw [hshared, List.forall_mem_append, List.forall_mem_singleton]
      exact ⟨h.kept, fun row hrow => ⟨row, hrow, .refl row⟩⟩
  | ok u =>
    obtain rfl : t.shared = u := heffect.after.trans (after_of_execute hexecute)
    have hkeeps := keeps_execute h.sound heffect.made hcallKnows hfinds hexecute
    refine ⟨hstep.calls_obey h.calls, sound_execute h.sound heffect.made hfinds hexecute, ?_, ?_, ?_, ?_⟩
    · intro other hother updated hupdated
      rw [ht] at hother
      rcases List.mem_or_eq_of_mem_set hother with hold | rfl
      · obtain ⟨existing, hexisting, hsame⟩ := h.knows other hold updated hupdated
        obtain ⟨row, hrow, hkeep⟩ := hkeeps existing hexisting
        exact ⟨row, hrow, hkeep.toSameRule.symm.trans hsame⟩
      · exact heffect.finds updated hupdated
    · intro other hother pending hpending
      rw [ht] at hother
      rcases List.mem_or_eq_of_mem_set hother with hold | rfl
      · exact (h.applied other hold pending hpending).append _
      · obtain ⟨-, row, happlies⟩ := heffect.applies pending hpending
        refine ⟨_, List.mem_append_right _ List.mem_cons_self, ?_, t.shared, hexecute,
          exists_holds_of_applies h.sound heffect.made hcallKnows hexecute happlies⟩
        rcases happlies.event with hevent | hevent
        · exact hevent ▸ rfl
        · exact hevent ▸ rfl
    · intro bindingId ruleId application hlast
      exact honored_execute h.sound hfinds hexecute hcallApplied (h.honored bindingId ruleId) hlast
    · rw [List.forall_mem_append, List.forall_mem_singleton]
      refine ⟨?_, hkeeps⟩
      intro past hpast row hrow
      obtain ⟨row', hrow', hkeep⟩ := h.kept past hpast row hrow
      obtain ⟨row'', hrow'', hkeep'⟩ := hkeeps row' hrow'
      exact ⟨row'', hrow'', hkeep.trans hkeep'⟩

end Runs

/-- In every run whose statements find the rows as read: what was recorded last for a pair is still
pending or was applied with exactly its values, no pair has two pending applications, and the applied
rules of every moment still have their pin, severity override and tags. -/
theorem applications_kept (functions : Functions) {s t : Calls} {moments : List Moment}
    (hcalls : ∀ call ∈ s.calls, ∃ operation : Operation, call = operation.call functions)
    (hsound : Sound functions s.shared) (path : Path Session.Step s moments t)
    (hfinds : ∀ moment ∈ moments, FindsAsRead moment) :
    (∀ bindingId ruleId application,
      lastRecorded s.shared moments bindingId ruleId = some application →
        Honored functions t.shared moments bindingId ruleId application) ∧
    (t.shared.pending.map fun row => (row.bindingId, row.ruleId)).Nodup ∧
    (∀ moment ∈ moments, ∀ row ∈ moment.1.applied, ∃ row' ∈ t.shared.applied, Keeps row row') := by
  have hbegins : ∀ call ∈ s.calls, Begins functions call := by
    intro call hcall
    obtain ⟨operation, rfl⟩ := hcalls call hcall
    exact operation.begins
  have hstart : Faithful functions s.shared [] s := by
    refine ⟨fun call hcall => (hbegins call hcall).2.2, hsound,
      fun call hcall updated h => absurd h ((hbegins call hcall).1 updated),
      fun call hcall pending h => absurd h ((hbegins call hcall).2.1 pending), ?_,
      fun moment hmoment => absurd hmoment List.not_mem_nil⟩
    intro bindingId ruleId application hlast
    obtain ⟨row, hrow, rfl⟩ := Option.map_eq_some_iff.mp hlast
    exact .inl ⟨row, List.mem_of_find?_eq_some hrow, List.find?_some hrow, rfl⟩
  have hrun := path.trace_invariant
    (P := fun moments t => (∀ moment ∈ moments, FindsAsRead moment) →
      Faithful functions s.shared moments t) (fun _ => hstart) (by
    intro moments s moment t hfaithful hstep hall
    rw [List.forall_mem_append, List.forall_mem_singleton] at hall
    exact faithful_step hstep hall.2 (hfaithful hall.1)) hfinds
  exact ⟨hrun.honored, hrun.sound.pendingKeys, hrun.kept⟩

/-- The hash of the mapping that the examples have. -/
def functions : Functions where
  digest groups := if groups = [[("column", "id")]] then "id" else ""
  isSqlQuerySafe _ := true

def onId (passThreshold : Int) : Application := ⟨[[("column", "id")]], none, some passThreshold⟩

/-- One binding and one rule, without unique constraints. -/
def tables (applied : List AppliedRule) : Store where
  bindings := ["b"]
  rules _ := some ⟨.approved, 1, ["column"]⟩
  autoUpgrade := true
  pending := []
  applied
  nextId := applied.length
  unique := false
  available := true

def recordIt (passThreshold : Int) : Operation := .record "b" "r" (onId passThreshold) "u"

def activateIt : Operation := .activatePendingApplications "r" "approver"

def concurrent (applied : List AppliedRule) (operations : List Operation) : Calls :=
  ⟨tables applied, operations.map (Operation.call functions)⟩

/-- An application is recorded, and then activated after an outage. -/
def inOrder : List Moment × Calls :=
  (concurrent [] [recordIt 90, activateIt, .outage, .outage]).run [0, 0, 1, 2, 1, 3, 1, 1, 1, 1, 1, 1]

theorem applications_kept_inOrder :
    Honored functions inOrder.2.shared inOrder.1 "b" "r" (onId 90) ∧
      (inOrder.2.shared.pending.map fun row => (row.bindingId, row.ruleId)).Nodup := by
  have hcalls : ∀ call ∈ (concurrent [] [recordIt 90, activateIt, .outage, .outage]).calls,
      ∃ operation : Operation, call = operation.call functions := by
    intro call hcall
    obtain ⟨operation, -, rfl⟩ := List.mem_map.mp hcall
    exact ⟨operation, rfl⟩
  obtain ⟨hhonored, hnodup, -⟩ := applications_kept functions hcalls
    ⟨by decide, by decide, fun _ => nofun, fun _ => nofun, by decide, fun _ => nofun, fun _ => nofun⟩
    (Session.path_run _ [0, 0, 1, 2, 1, 3, 1, 1, 1, 1, 1, 1]) (by decide)
  exact ⟨hhonored "b" "r" (onId 90) (by decide), hnodup⟩

/-- The application is recorded again between the list of an activation and its delete. -/
def lost : List Moment × Calls :=
  (concurrent [] [recordIt 90, activateIt, recordIt 80]).run [0, 0, 1, 2, 2, 1, 1, 1, 1, 1, 1]

/-- Two calls record an application for the same pair. -/
def twice : List Moment × Calls := (concurrent [] [recordIt 90, recordIt 80]).run [0, 1, 0, 1]

def pinned : AppliedRule where
  toApplication := onId 90
  id := 0
  bindingId := "b"
  ruleId := "r"
  pinnedVersion := some 1
  severityOverride := some "error"
  userMetadata := []
  mappingHash := "id"
  createdBy := none

/-- The applied rule of a recorded application has a pin and a severity override. -/
def unpinned : List Moment × Calls :=
  (concurrent [pinned] [recordIt 90, activateIt]).run [0, 0, 1, 1, 1, 1, 1, 1]

/-- An application is lost, a pair has two pending applications, and an applied rule loses its pin and
its severity override. -/
theorem application_lost_twice_and_unpinned :
    (Path Session.Step (concurrent [] [recordIt 90, activateIt, recordIt 80]) lost.1 lost.2 ∧
      (∀ call ∈ lost.2.calls, call.result?.any Except.isOk = true) ∧
      lastRecorded (tables []) lost.1 "b" "r" = some (onId 80) ∧
      ¬Honored functions lost.2.shared lost.1 "b" "r" (onId 80)) ∧
    (Path Session.Step (concurrent [] [recordIt 90, recordIt 80]) twice.1 twice.2 ∧
      (∀ call ∈ twice.2.calls, call.result?.any Except.isOk = true) ∧
      ¬(twice.2.shared.pending.map fun row => (row.bindingId, row.ruleId)).Nodup) ∧
    Path Session.Step (concurrent [pinned] [recordIt 90, activateIt]) unpinned.1 unpinned.2 ∧
      (∀ call ∈ unpinned.2.calls, call.result?.any Except.isOk = true) ∧
      unpinned.2.shared.applied.map (fun row => (row.id, row.pinnedVersion, row.severityOverride)) =
        [(pinned.id, none, none)] := by
  refine ⟨⟨Session.path_run _ _, by decide, by decide, ?_⟩, ⟨Session.path_run _ _, by decide, by decide⟩,
    Session.path_run _ _, by decide, by decide⟩
  have happlied : ∀ moment ∈ lost.1, ∀ row ∈ (moment.2.after moment.1).applied,
      row.passThreshold = some 90 := by decide
  rintro (⟨row, hrow, -⟩ | ⟨moment, hmoment, -, t, hexecute, row, hrow, hholds⟩)
  · rw [show lost.2.shared.pending = [] by decide] at hrow
    cases hrow
  · rw [← after_of_execute hexecute] at hrow
    have hthreshold := (happlied moment hmoment row hrow).symm.trans hholds.passThreshold
    exact absurd hthreshold (by decide)

end Dqx.Applications
