import Dqx.Applications.Reconcile

/-! The changes that owners make to the applied rules of a table: one by one, and the full set that the
editor saves. -/

namespace Dqx.Applications

open Lib

section Changes

variable (functions : Functions) (world : World)

/-- `apply_rule` -/
def applyByHand (bindingId ruleId : String) (application : Application) (user : String)
    (pinnedVersion : Option Nat) (severityOverride : Option String)
    (tags : Option (List (String × String))) (tables : Tables) : Except Error AppliedRule × Tables :=
  let (result, store) := alone (applyRule functions bindingId ruleId application user pinnedVersion
    severityOverride tags (fun error => .done (.error error)) fun applied => .done (.ok applied))
    (world.store tables)
  (result, { tables with applied := store.applied, nextId := store.nextId })

/-- The row is an attachment by tags. -/
def AppliedRule.isTagAuto (row : AppliedRule) : Bool :=
  row.userMetadata.lookup "origin" = some "\"tag_auto\"" && row.mappingHash ≠ ""

def notFound (id : Nat) : Error := .runtime s!"Applied rule not found: {id}"

/-- `remove_applied`, with the record of what was attached by tags. -/
def removeApplied (id : Nat) (tables : Tables) : Except Error Unit × Tables :=
  match tables.applied.find? (·.id = id) with
  | none => (.error (notFound id), tables)
  | some existing =>
    let suppressed :=
      if existing.isTagAuto && !tables.suppressed.contains existing.key
        then tables.suppressed ++ [existing.key]
      else tables.suppressed
    (.ok (), { tables with applied := tables.applied.filter (·.id ≠ id), suppressed })

/-- `set_pin` and `set_severity_override` -/
def setApplied (id : Nat) (change : AppliedRule → AppliedRule) (tables : Tables) :
    Except Error Unit × Tables :=
  match tables.applied.find? (·.id = id) with
  | none => (.error (notFound id), tables)
  | some _ => (.ok (), { tables with
      applied := tables.applied.map fun row => if row.id = id then change row else row })

def setPin (id : Nat) (pinnedVersion : Option Nat) : Tables → Except Error Unit × Tables :=
  setApplied id fun row => { row with pinnedVersion }

def setSeverityOverride (id : Nat) (severityOverride : Option String) :
    Tables → Except Error Unit × Tables :=
  setApplied id fun row => { row with severityOverride }

/-- One entry of the set that a table is to end up with. -/
structure DesiredAppliedRule where
  ruleId : String
  application : Application
  pinnedVersion : Option Nat
  severityOverride : Option String
  tags : List (String × String)

def DesiredAppliedRule.mappingHash (entry : DesiredAppliedRule) : String :=
  computeMappingHash functions entry.application.columnMapping

/-- An entry is put in the place of the one of its rule, or at the end. -/
def putEntry (entries : List DesiredAppliedRule) (entry : DesiredAppliedRule) :
    List DesiredAppliedRule :=
  if entries.any (·.ruleId = entry.ruleId) then
    entries.map fun old => if old.ruleId = entry.ruleId then entry else old
  else entries ++ [entry]

def dedupe (desired : List DesiredAppliedRule) : List DesiredAppliedRule := desired.foldl putEntry []

/-- The check of an entry before anything is changed. -/
def validateEntry (entry : DesiredAppliedRule) : Except Error Unit := do
  match world.rule entry.ruleId with
  | none => throw (.runtime s!"Registry rule not found: {entry.ruleId}")
  | some rule =>
    if rule.status ≠ .approved then
      throw (.ruleNotPublished (s!"Registry rule '{entry.ruleId}' is not published " ++
        s!"(status='{rule.status.text}'); only published rules can be applied to a monitored table."))
    validateMappingComplete entry.application.columnMapping (rule.slots.map (·.name))
    validateRowFilter functions entry.application.rowFilter

/-- The row stands for no entry: its rule is not desired, or with other columns. -/
def isSuperseded (entries : List DesiredAppliedRule) (row : AppliedRule) : Bool :=
  (entries.find? (·.ruleId = row.ruleId)).map (·.mappingHash functions) ≠ some row.mappingHash

def removeEach : List AppliedRule → Tables → Except Error Unit × Tables
  | [], tables => (.ok (), tables)
  | row :: rows, tables =>
    match removeApplied row.id tables with
    | (.error error, tables) => (.error error, tables)
    | (.ok (), tables) => removeEach rows tables

def applyEach (bindingId user : String) : List DesiredAppliedRule → Tables →
    Except Error Unit × Tables
  | [], tables => (.ok (), tables)
  | entry :: entries, tables =>
    match applyByHand functions world bindingId entry.ruleId entry.application user
        entry.pinnedVersion entry.severityOverride (some entry.tags) tables with
    | (.error error, tables) => (.error error, tables)
    | (.ok _, tables) => applyEach bindingId user entries tables

def saveAppliedRules (bindingId : String) (desired : List DesiredAppliedRule) (user : String)
    (tables : Tables) : Except Error Unit × Tables :=
  if bindingId ∉ world.tables.map (·.1) then
    (.error (.runtime s!"Monitored table not found: {bindingId}"), tables)
  else
    let entries := dedupe desired
    match entries.forM (validateEntry functions world) with
    | .error error => (.error error, tables)
    | .ok () =>
      let listed := tables.applied.filter (·.bindingId = bindingId)
      match removeEach (listed.filter (isSuperseded functions entries)) tables with
      | (.error error, tables) => (.error error, tables)
      | (.ok (), tables) => applyEach functions world bindingId user entries tables

/-- The changes of the applied rules, each by a call that runs alone. -/
inductive Act where
  | pass (scope : Scope) (user : String)
  | apply (bindingId ruleId : String) (application : Application) (user : String)
      (pinnedVersion : Option Nat) (severityOverride : Option String)
      (tags : Option (List (String × String)))
  | save (bindingId : String) (desired : List DesiredAppliedRule) (user : String)
  | remove (id : Nat)
  | pin (id : Nat) (pinnedVersion : Option Nat)
  | severity (id : Nat) (severityOverride : Option String)

def Act.step (upper : Text → Text) (tables : Tables) : Act → Tables
  | .pass scope user => (reconcile functions upper world scope user tables).2
  | .apply bindingId ruleId application user pinnedVersion severityOverride tags =>
    (applyByHand functions world bindingId ruleId application user pinnedVersion severityOverride
      tags tables).2
  | .save bindingId desired user => (saveAppliedRules functions world bindingId desired user tables).2
  | .remove id => (removeApplied id tables).2
  | .pin id pinnedVersion => (setPin id pinnedVersion tables).2
  | .severity id severityOverride => (setSeverityOverride id severityOverride tables).2

/-- The changes one after another; rules, columns and settings may be others at each. -/
def runActs (upper : Text → Text) (acts : List (World × Act)) (tables : Tables) : Tables :=
  acts.foldl (fun tables act => act.2.step functions act.1 upper tables) tables

/-- The keys under which an owner asks for a row. -/
def Act.asksFor (key : AppliedKey) : Act → Prop
  | .apply bindingId ruleId application _ _ _ _ =>
    (bindingId, ruleId, computeMappingHash functions application.columnMapping) = key
  | .save bindingId desired _ =>
    ∃ entry ∈ desired, (bindingId, entry.ruleId, entry.mappingHash functions) = key
  | _ => False

end Changes

/-! ### What a change does -/

section Removing

variable {functions : Functions} {upper : Text → Text} {world : World}

def Tables.empty : Tables := ⟨[], [], 0⟩

def Tables.keys (tables : Tables) : List AppliedKey := tables.applied.map (·.key)

/-- No two rows share a key or an id, and the next id is free. -/
structure Tables.Sound (tables : Tables) : Prop where
  keys : tables.keys.Nodup
  ids : (tables.applied.map (·.id)).Nodup
  fresh : ∀ row ∈ tables.applied, row.id < tables.nextId

/-- What was suppressed stays so, a row is under a key that had one or under one of `keys`, and sound
tables stay sound. -/
structure Edited (keys : AppliedKey → Prop) (tables tables' : Tables) : Prop where
  suppressed : ∀ key ∈ tables.suppressed, key ∈ tables'.suppressed
  applied : ∀ key ∈ tables'.keys, key ∈ tables.keys ∨ keys key
  sound : tables.Sound → tables'.Sound

theorem Edited.refl (keys : AppliedKey → Prop) (tables : Tables) : Edited keys tables tables :=
  ⟨fun _ => id, fun _ => .inl, id⟩

theorem Edited.trans {keys : AppliedKey → Prop} {a b c : Tables} (h : Edited keys a b)
    (h' : Edited keys b c) : Edited keys a c := by
  refine ⟨fun key hkey => h'.suppressed key (h.suppressed key hkey), fun key hkey => ?_,
    fun hsound => h'.sound (h.sound hsound)⟩
  rcases h'.applied key hkey with hold | hnew
  · exact h.applied key hold
  · exact .inr hnew

theorem Edited.mono {keys keys' : AppliedKey → Prop} {tables tables' : Tables}
    (h : Edited keys tables tables') (hkeys : ∀ key, keys key → keys' key) :
    Edited keys' tables tables' :=
  ⟨h.suppressed, fun key hkey => (h.applied key hkey).imp_right (hkeys key), h.sound⟩

/-- The key is suppressed, and no row has it. -/
def Tables.Gone (tables : Tables) (key : AppliedKey) : Prop :=
  key ∈ tables.suppressed ∧ key ∉ tables.keys

theorem Edited.gone {keys : AppliedKey → Prop} {tables tables' : Tables} {key : AppliedKey}
    (h : Edited keys tables tables') (hkey : ¬keys key) (hgone : tables.Gone key) :
    tables'.Gone key := by
  refine ⟨h.suppressed key hgone.1, fun hmem => ?_⟩
  rcases h.applied key hmem with hold | hnew
  · exact hgone.2 hold
  · exact hkey hnew

/-- The tables with one more row. -/
def Tables.add (tables : Tables) (row : AppliedRule) : Tables :=
  { tables with applied := tables.applied ++ [row], nextId := tables.nextId + 1 }

theorem keys_add (tables : Tables) (row : AppliedRule) :
    (tables.add row).keys = tables.keys ++ [row.key] := List.map_append

/-- A row under a key that is free. -/
theorem edited_add {keys : AppliedKey → Prop} {tables : Tables} {row : AppliedRule}
    (hkey : keys row.key) (hid : row.id = tables.nextId)
    (hfree : ∀ old ∈ tables.applied, old.key ≠ row.key) : Edited keys tables (tables.add row) := by
  refine ⟨fun _ => id, fun key hmem => ?_, fun hsound => ⟨?_, ?_, fun other hother => ?_⟩⟩
  · rw [keys_add, List.mem_append, List.mem_singleton] at hmem
    rcases hmem with hold | rfl
    · exact .inl hold
    · exact .inr hkey
  · rw [keys_add, List.nodup_append]
    refine ⟨hsound.keys, List.nodup_singleton _, fun old hold new hnew => ?_⟩
    obtain ⟨row', hrow', rfl⟩ := List.mem_map.mp hold
    rw [List.mem_singleton.mp hnew]
    exact hfree row' hrow'
  · rw [Tables.add, List.map_append, List.nodup_append]
    refine ⟨hsound.ids, List.nodup_singleton _, fun old hold new hnew => ?_⟩
    obtain ⟨row', hrow', rfl⟩ := List.mem_map.mp hold
    rw [List.mem_singleton.mp hnew]
    exact fun heq => (hsound.fresh row' hrow').ne (heq.trans hid)
  · rcases List.mem_append.mp hother with hold | hnew
    · exact (hsound.fresh other hold).trans (Nat.lt_succ_self _)
    · rw [List.mem_singleton.mp hnew, hid]
      exact Nat.lt_succ_self _

/-- The tables with their rows changed. -/
def Tables.change (tables : Tables) (change : AppliedRule → AppliedRule) : Tables :=
  { tables with applied := tables.applied.map change }

theorem keys_change {tables : Tables} {change : AppliedRule → AppliedRule}
    (hchange : ∀ row, (change row).key = row.key) : (tables.change change).keys = tables.keys := by
  rw [Tables.keys, Tables.keys, Tables.change, List.map_map]
  exact List.map_congr_left fun row _ => hchange row

/-- Rows that change under their keys. -/
theorem edited_change {keys : AppliedKey → Prop} {tables : Tables}
    {change : AppliedRule → AppliedRule} (hkey : ∀ row, (change row).key = row.key)
    (hid : ∀ row, (change row).id = row.id) : Edited keys tables (tables.change change) := by
  have hkeys := @keys_change tables change hkey
  refine ⟨fun _ => id, fun key hmem => .inl (hkeys ▸ hmem), fun hsound => ⟨?_, ?_, fun row hrow => ?_⟩⟩
  · rw [hkeys]
    exact hsound.keys
  · have hids : (tables.change change).applied.map (·.id) = tables.applied.map (·.id) := by
      rw [Tables.change, List.map_map]
      exact List.map_congr_left fun row _ => hid row
    rw [hids]
    exact hsound.ids
  · obtain ⟨old, hold, rfl⟩ := List.mem_map.mp hrow
    rw [hid]
    exact hsound.fresh old hold

/-! ### The changes one by one -/

theorem edited_attach {keys : AppliedKey → Prop} (attachment : Attachment) (user : String)
    {tables : Tables} (hkeys : ∀ key, world.isSuppressed key tables = false → keys key) :
    Edited keys tables (attachAutoMapping functions world attachment user tables).2 := by
  rcases @attachAutoMapping_cases functions world attachment user tables with heq | hrow
  · rw [heq]
    exact .refl keys tables
  · obtain ⟨row, heq, -, hid, -, hfree, hold⟩ := hrow
    rw [heq]
    exact edited_add (hkeys _ hfree) hid hold

theorem isSuppressed_congr {tables tables' : Tables} (h : tables'.suppressed = tables.suppressed)
    (key : AppliedKey) : world.isSuppressed key tables' = world.isSuppressed key tables := by
  rw [World.isSuppressed, World.isSuppressed, h]

theorem edited_attachGroups {keys : AppliedKey → Prop} (bindingId ruleId user : String)
    (groups : List ColumnMappingGroup) (attached : Nat) {tables : Tables}
    (hkeys : ∀ key, world.isSuppressed key tables = false → keys key) : Edited keys tables
      (attachGroups functions world bindingId ruleId user groups attached tables).2 := by
  induction groups generalizing attached tables with
  | nil => exact .refl keys tables
  | cons group groups ih =>
    have hedited := @edited_attach functions world keys ⟨bindingId, ruleId, group⟩ user tables hkeys
    have hgrown := @grown_attach functions world ⟨bindingId, ruleId, group⟩ user tables
    rw [attachGroups]
    dsimp only
    split
    · exact hedited
    · exact hedited.trans (ih _ fun key hfree =>
        hkeys key ((isSuppressed_congr hgrown.suppressed key).symm.trans hfree))

theorem edited_pass {keys : AppliedKey → Prop} (user : String) (units : List PassUnit)
    {tables : Tables} (hkeys : ∀ key, world.isSuppressed key tables = false → keys key) :
    Edited keys tables (pass functions upper world user units tables).2 := by
  induction units generalizing tables with
  | nil => exact .refl keys tables
  | cons unit units ih =>
    have hgrown := @grown_attachGroups functions world unit.bindingId unit.rule.id user
      (unit.groups upper) 0 tables
    exact (edited_attachGroups _ _ _ _ _ hkeys).trans (ih fun key hfree =>
      hkeys key ((isSuppressed_congr hgrown.suppressed key).symm.trans hfree))

theorem edited_reconcile (scope : Scope) (user : String) (tables : Tables) :
    Edited (fun key => world.isSuppressed key tables = false) tables
      (reconcile functions upper world scope user tables).2 := by
  rw [reconcile]
  split
  · exact edited_pass user _ fun _ => id
  · exact .refl _ tables

/-- A statement that the database carries out. -/
theorem alone_ok {ρ : Type} {event : Event} {s t : Store} (h : event.execute s = .ok t)
    (onError : Error → AppCall ρ) (next : Store → AppCall ρ) :
    alone (sql event onError next) s = alone (next s) t := by
  rw [sql, alone, Event.after, h]
  rfl

/-- The checks of an application end in an error or with the rule, whatever comes after them. -/
theorem alone_validate {s : Store} (h : s.available = true) (bindingId ruleId : String)
    (application : Application) :
    (∃ error, ∀ {ρ : Type} (onError : Error → AppCall ρ) next,
      alone (validateApplicableRule functions bindingId ruleId application onError next) s =
        alone (onError error) s) ∨
    ∃ rule, ∀ {ρ : Type} (onError : Error → AppCall ρ) next,
      alone (validateApplicableRule functions bindingId ruleId application onError next) s =
        alone (next rule) s := by
  by_cases hbinding : bindingId ∈ s.bindings
  · cases hrule : s.rules ruleId with
    | none =>
      refine .inl ⟨.runtime s!"Registry rule not found: {ruleId}", fun onError next => ?_⟩
      rw [validateApplicableRule, alone_read h, if_neg (not_not.mpr hbinding), alone_read h, hrule]
    | some rule =>
      by_cases hstatus : rule.status = .approved
      · cases hcomplete : validateMappingComplete application.columnMapping rule.slots with
        | error error =>
          refine .inl ⟨error, fun onError next => ?_⟩
          rw [validateApplicableRule, alone_read h, if_neg (not_not.mpr hbinding), alone_read h, hrule]
          dsimp only
          rw [if_neg (not_not.mpr hstatus), hcomplete]
        | ok =>
          cases hfilter : validateRowFilter functions application.rowFilter with
          | error error =>
            refine .inl ⟨error, fun onError next => ?_⟩
            rw [validateApplicableRule, alone_read h, if_neg (not_not.mpr hbinding), alone_read h,
              hrule]
            dsimp only
            rw [if_neg (not_not.mpr hstatus), hcomplete, hfilter]
          | ok =>
            refine .inr ⟨rule, fun onError next => ?_⟩
            rw [validateApplicableRule, alone_read h, if_neg (not_not.mpr hbinding), alone_read h,
              hrule]
            dsimp only
            rw [if_neg (not_not.mpr hstatus), hcomplete, hfilter]
      · refine .inl ⟨.ruleNotPublished (s!"Registry rule '{ruleId}' is not published " ++
          s!"(status='{rule.status.text}'); only published rules can be applied to a monitored table."),
          fun onError next => ?_⟩
        rw [validateApplicableRule, alone_read h, if_neg (not_not.mpr hbinding), alone_read h, hrule]
        dsimp only
        rw [if_pos hstatus]
  · refine .inl ⟨.runtime s!"Monitored table not found: {bindingId}", fun onError next => ?_⟩
    rw [validateApplicableRule, alone_read h, if_pos hbinding]

theorem alone_resolvePinnedVersion {ρ : Type} {s : Store} (h : s.available = true)
    (pinnedVersion : Option Nat) (currentVersion : Nat) (onError : Error → AppCall ρ)
    (next : Option Nat → AppCall ρ) : ∃ pinnedVersion',
      alone (resolvePinnedVersion pinnedVersion currentVersion onError next) s =
        alone (next pinnedVersion') s := by
  cases pinnedVersion with
  | some version => exact ⟨some version, rfl⟩
  | none =>
    rw [resolvePinnedVersion, alone_read h]
    exact ⟨_, rfl⟩

theorem key_write (updated row : AppliedRule) : (updated.write row).key = row.key := by
  rw [AppliedRule.write]
  split
  · rfl
  · rfl

theorem id_write (updated row : AppliedRule) : (updated.write row).id = row.id := by
  rw [AppliedRule.write]
  split
  · rfl
  · rfl

theorem execute_insertApplied {s : Store} {row : AppliedRule} (h : s.available = true)
    (hfree : ∀ old ∈ s.applied, old.key ≠ row.key) :
    (Event.insertApplied row).execute s = .ok { s with
      applied := s.applied ++ [{ row with id := s.nextId }], nextId := s.nextId + 1 } := by
  have hany : s.applied.any (AppliedRule.hasKey row.bindingId row.ruleId row.mappingHash) = false :=
    List.any_eq_false.mpr fun old hold hkey => hfree old hold (@hasKey_iff_key row.key old |>.mp hkey)
  rw [Event.execute, if_pos h, Event.write, hany, Bool.and_false, if_neg Bool.false_ne_true]
  exact fun heq => by cases heq

/-- The row under the key changes, or there is a new one. -/
def Written (key : AppliedKey) (tables tables' : Tables) : Prop :=
  (∃ existing ∈ tables.applied, existing.key = key ∧
    ∃ updated : AppliedRule, updated.id = existing.id ∧ tables' = tables.change updated.write) ∨
  ∃ row : AppliedRule, row.key = key ∧ row.id = tables.nextId ∧
    (∀ old ∈ tables.applied, old.key ≠ key) ∧ tables' = tables.add row

theorem Written.edited {keys : AppliedKey → Prop} {key : AppliedKey} {tables tables' : Tables}
    (h : Written key tables tables') (hkey : keys key) : Edited keys tables tables' := by
  rcases h with ⟨existing, -, -, updated, -, rfl⟩ | ⟨row, rfl, hid, hfree, rfl⟩
  · exact edited_change (key_write updated) (id_write updated)
  · exact edited_add hkey hid hfree

/-- Applying a rule by hand, after the checks. -/
theorem written_applyByHand {bindingId ruleId : String} {application : Application} {rule : RegistryRule}
    {tables : Tables} (h : ∀ {ρ : Type} (onError : Error → AppCall ρ) next,
      alone (validateApplicableRule functions bindingId ruleId application onError next)
        (world.store tables) = alone (next rule) (world.store tables))
    (user : String) (pinnedVersion : Option Nat) (severityOverride : Option String)
    (tags : Option (List (String × String))) : ∃ applied tables',
      applyByHand functions world bindingId ruleId application user pinnedVersion severityOverride tags
        tables = (.ok applied, tables') ∧
      Written (bindingId, ruleId, computeMappingHash functions application.columnMapping) tables
        tables' := by
  have havailable : (world.store tables).available = true := rfl
  rw [applyByHand, applyRule, h]
  dsimp only
  rw [alone_read havailable]
  cases hexisting : (world.store tables).appliedAt bindingId ruleId
      (computeMappingHash functions application.columnMapping) with
  | some existing =>
    dsimp only
    rw [alone_ok rfl]
    refine ⟨_, _, rfl, .inl ⟨existing, List.mem_of_find?_eq_some hexisting, ?_, _, ?_, rfl⟩⟩
    · exact hasKey_iff_key.mp (List.find?_some hexisting)
    · rfl
  | none =>
    dsimp only
    have hfree : ∀ old ∈ tables.applied,
        old.key ≠ (bindingId, ruleId, computeMappingHash functions application.columnMapping) :=
      appliedAt_eq_none_iff.mp hexisting
    obtain ⟨version, hpin⟩ := alone_resolvePinnedVersion havailable pinnedVersion rule.version _ _
    rw [hpin, alone_ok (execute_insertApplied havailable ?_)]
    · exact ⟨_, _, rfl, .inr ⟨_, rfl, rfl, hfree, rfl⟩⟩
    · exact hfree

theorem edited_applyByHand {keys : AppliedKey → Prop} {bindingId ruleId : String}
    {application : Application}
    (hkeys : keys (bindingId, ruleId, computeMappingHash functions application.columnMapping))
    (user : String) (pinnedVersion : Option Nat) (severityOverride : Option String)
    (tags : Option (List (String × String))) (tables : Tables) :
    Edited keys tables (applyByHand functions world bindingId ruleId application user pinnedVersion
      severityOverride tags tables).2 := by
  have havailable : (world.store tables).available = true := rfl
  rcases @alone_validate functions _ havailable bindingId ruleId application with
    ⟨error, h⟩ | ⟨rule, h⟩
  · rw [applyByHand, applyRule, h]
    exact .refl keys tables
  · obtain ⟨applied, tables', heq, hwritten⟩ :=
      written_applyByHand h user pinnedVersion severityOverride tags
    rw [heq]
    exact hwritten.edited hkeys

theorem edited_removeApplied (keys : AppliedKey → Prop) (id : Nat) (tables : Tables) :
    Edited keys tables (removeApplied id tables).2 := by
  rw [removeApplied]
  split
  · exact .refl keys tables
  · have hrows : List.Sublist (tables.applied.filter (·.id ≠ id)) tables.applied :=
      List.filter_sublist
    have hkeys : List.Sublist ((tables.applied.filter (·.id ≠ id)).map (·.key)) tables.keys :=
      hrows.map _
    refine ⟨fun key hkey => ?_, fun key hkey => .inl (hkeys.subset hkey), fun hsound =>
      ⟨hkeys.nodup hsound.keys, (hrows.map _).nodup hsound.ids,
        fun row hrow => hsound.fresh row (hrows.subset hrow)⟩⟩
    dsimp only
    split
    · exact List.mem_append_left _ hkey
    · exact hkey

/-- What was attached by tags is gone once it is removed. -/
theorem gone_removeApplied {id : Nat} {tables : Tables} {row : AppliedRule}
    (hnodup : tables.keys.Nodup) (hrow : tables.applied.find? (·.id = id) = some row)
    (hauto : row.isTagAuto = true) : (removeApplied id tables).2.Gone row.key := by
  have hid : row.id = id := by simpa using List.find?_some hrow
  rw [removeApplied, hrow]
  refine ⟨?_, fun hkey => ?_⟩
  · dsimp only
    rw [hauto, Bool.true_and]
    split
    · exact List.mem_append_right _ (List.mem_singleton_self _)
    · next hmem => exact by simpa using hmem
  · obtain ⟨other, hother, hsame⟩ := List.mem_map.mp hkey
    obtain ⟨hother, hne⟩ := List.mem_filter.mp hother
    have heq : other = row :=
      List.inj_on_of_nodup_map hnodup hother (List.mem_of_find?_eq_some hrow) hsame
    rw [heq, hid] at hne
    simp at hne

theorem edited_setApplied (keys : AppliedKey → Prop) (id : Nat) {change : AppliedRule → AppliedRule}
    (hkey : ∀ row, (change row).key = row.key) (hid : ∀ row, (change row).id = row.id)
    (tables : Tables) : Edited keys tables (setApplied id change tables).2 := by
  rw [setApplied]
  split
  · exact .refl keys tables
  · refine edited_change (fun row => ?_) fun row => ?_
    · split
      · exact hkey row
      · rfl
    · split
      · exact hid row
      · rfl

theorem edited_removeEach (keys : AppliedKey → Prop) (rows : List AppliedRule) (tables : Tables) :
    Edited keys tables (removeEach rows tables).2 := by
  induction rows generalizing tables with
  | nil => exact .refl keys tables
  | cons row rows ih =>
    have hedited := edited_removeApplied keys row.id tables
    rw [removeEach]
    split
    · next h =>
      rw [h] at hedited
      exact hedited
    · next h =>
      rw [h] at hedited
      exact hedited.trans (ih _)

theorem edited_applyEach {keys : AppliedKey → Prop} {bindingId : String} (user : String)
    {entries : List DesiredAppliedRule}
    (hkeys : ∀ entry ∈ entries, keys (bindingId, entry.ruleId, entry.mappingHash functions))
    (tables : Tables) : Edited keys tables (applyEach functions world bindingId user entries tables).2 := by
  induction entries generalizing tables with
  | nil => exact .refl keys tables
  | cons entry entries ih =>
    have hedited := @edited_applyByHand functions world keys bindingId entry.ruleId entry.application
      (hkeys entry List.mem_cons_self) user entry.pinnedVersion entry.severityOverride
      (some entry.tags) tables
    rw [applyEach]
    split
    · next h =>
      rw [h] at hedited
      exact hedited
    · next h =>
      rw [h] at hedited
      exact hedited.trans (ih (fun other hother => hkeys other (List.mem_cons_of_mem _ hother)) _)

theorem mem_putEntry {entries : List DesiredAppliedRule} {entry other : DesiredAppliedRule}
    (h : other ∈ putEntry entries entry) : other ∈ entries ∨ other = entry := by
  rw [putEntry] at h
  split at h
  · obtain ⟨old, hold, rfl⟩ := List.mem_map.mp h
    split
    · exact .inr rfl
    · exact .inl hold
  · simpa using h

theorem mem_foldl_putEntry {desired entries : List DesiredAppliedRule} {entry : DesiredAppliedRule}
    (h : entry ∈ desired.foldl putEntry entries) : entry ∈ entries ∨ entry ∈ desired := by
  induction desired generalizing entries with
  | nil => exact .inl h
  | cons next desired ih =>
    rcases ih h with hput | hmem
    · rcases mem_putEntry hput with hold | rfl
      · exact .inl hold
      · exact .inr List.mem_cons_self
    · exact .inr (List.mem_cons_of_mem _ hmem)

theorem mem_of_mem_dedupe {desired : List DesiredAppliedRule} {entry : DesiredAppliedRule}
    (h : entry ∈ dedupe desired) : entry ∈ desired :=
  (mem_foldl_putEntry h).resolve_left List.not_mem_nil

theorem edited_saveAppliedRules {keys : AppliedKey → Prop} {bindingId : String} (user : String)
    {desired : List DesiredAppliedRule}
    (hkeys : ∀ entry ∈ desired, keys (bindingId, entry.ruleId, entry.mappingHash functions))
    (tables : Tables) :
    Edited keys tables (saveAppliedRules functions world bindingId desired user tables).2 := by
  rw [saveAppliedRules]
  split
  · exact .refl keys tables
  · dsimp only
    split
    · exact .refl keys tables
    · have hremoved := edited_removeEach keys ((tables.applied.filter (·.bindingId = bindingId)).filter
        (isSuperseded functions (dedupe desired))) tables
      split
      · next h =>
        rw [h] at hremoved
        exact hremoved
      · next h =>
        rw [h] at hremoved
        exact hremoved.trans (edited_applyEach user
          (fun entry hentry => hkeys entry (mem_of_mem_dedupe hentry)) _)

/-! ### Runs -/

theorem edited_step (act : Act) (tables : Tables) :
    Edited (fun key => world.isSuppressed key tables = false ∨ act.asksFor functions key) tables
      (act.step functions world upper tables) := by
  cases act with
  | pass scope user => exact (edited_reconcile scope user tables).mono fun _ => .inl
  | apply bindingId ruleId application user pinnedVersion severityOverride tags =>
    exact edited_applyByHand (.inr rfl) user pinnedVersion severityOverride tags tables
  | save bindingId desired user =>
    exact edited_saveAppliedRules user (fun entry hentry => .inr ⟨entry, hentry, rfl⟩) tables
  | remove id => exact edited_removeApplied _ id tables
  | pin id pinnedVersion =>
    exact @edited_setApplied _ id (fun row => { row with pinnedVersion }) (fun _ => rfl) (fun _ => rfl)
      tables
  | severity id severityOverride =>
    exact @edited_setApplied _ id (fun row => { row with severityOverride }) (fun _ => rfl)
      (fun _ => rfl) tables

theorem sound_runActs {acts : List (World × Act)} {tables : Tables} (h : tables.Sound) :
    (runActs functions upper acts tables).Sound := by
  induction acts generalizing tables with
  | nil => exact h
  | cons act acts ih => exact ih ((edited_step act.2 tables).sound h)

theorem sound_empty : Tables.empty.Sound :=
  ⟨List.nodup_nil, List.nodup_nil, fun _ hrow => absurd hrow List.not_mem_nil⟩

theorem gone_runActs {acts : List (World × Act)} {tables : Tables} {key : AppliedKey}
    (hanswer : ∀ act ∈ acts, act.1.suppressionsAnswer = true)
    (hacts : ∀ act ∈ acts, ¬act.2.asksFor functions key) (h : tables.Gone key) :
    (runActs functions upper acts tables).Gone key := by
  induction acts generalizing tables with
  | nil => exact h
  | cons act acts ih =>
    refine ih (fun other hother => hanswer other (List.mem_cons_of_mem _ hother))
      (fun other hother => hacts other (List.mem_cons_of_mem _ hother))
      ((edited_step act.2 tables).gone (fun hkey => ?_) h)
    rcases hkey with hfree | hasks
    · rw [World.isSuppressed, hanswer act List.mem_cons_self, Bool.true_and] at hfree
      have hmem : tables.suppressed.contains key = true := List.contains_iff_mem.mpr h.1
      exact Bool.false_ne_true (hfree.symm.trans hmem)
    · exact hacts act List.mem_cons_self hasks

def taggedWorld : World where
  rules := [⟨"not-null", .approved, 1, [taggedSlot], [("column", [['p', 'i', 'i']])]⟩]
  ids_nodup := List.nodup_singleton _
  tables := [("binding", "main.sales.orders")]
  readColumns _ := some [taggedColumn]
  tagAutoApply := true
  autoUpgrade := true
  unique := true
  suppressionsAnswer := true

def taggedRow : AppliedRule where
  columnMapping := [[("column", "email")]]
  rowFilter := none
  passThreshold := none
  id := 0
  bindingId := "binding"
  ruleId := "not-null"
  pinnedVersion := none
  severityOverride := none
  userMetadata := tagAuto
  mappingHash := "digest"
  createdBy := some "owner"

def taggedFunctions : Functions := ⟨fun _ => "digest", fun _ => true⟩

def taggedSweep : World × Act := (taggedWorld, .pass .all "owner")

end Removing

end Dqx.Applications
