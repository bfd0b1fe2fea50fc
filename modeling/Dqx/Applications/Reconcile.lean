import Dqx.Applications.TagMapping

/-! The passes that attach tag-mapped rules to monitored tables, and the attachments that an owner has
removed. Each call runs alone. -/

namespace Dqx.Applications

open Lib

/-- The result of a call that runs alone, and the state that it leaves. -/
def alone {σ ε ρ : Type} : Call σ ε ρ → σ → ρ × σ
  | .done result, s => (result, s)
  | .stmt _ write next, s => alone (next s) (write s)

/-- What the passes read of a registry rule. -/
structure TagRule where
  id : String
  status : RuleStatus
  version : Nat
  slots : List RuleSlot
  slotTags : List (String × List Text)

/-- What a pass reads beside the tables that it writes: the rules by their ids, the monitored tables
with their names, the columns of a table unless they cannot be read, and the settings. -/
structure World where
  rules : List TagRule
  ids_nodup : (rules.map (·.id)).Nodup
  tables : List (String × String)
  readColumns : String → Option (List ColumnInfo)
  tagAutoApply : Bool
  autoUpgrade : Bool
  unique : Bool
  /-- The look-up of a removed attachment is answered. -/
  suppressionsAnswer : Bool

abbrev AppliedKey := String × String × String

def AppliedRule.key (row : AppliedRule) : AppliedKey := (row.bindingId, row.ruleId, row.mappingHash)

/-- The rows of `dq_applied_rules`, and the keys of `dq_tag_auto_suppressions`. -/
structure Tables where
  applied : List AppliedRule
  suppressed : List AppliedKey
  nextId : Nat
  deriving DecidableEq

/-- The metadata of an attachment by tags. -/
def tagAuto : List (String × String) := [("origin", "\"tag_auto\"")]

section Passes

variable (functions : Functions) (upper : Text → Text) (world : World)

def TagRule.toRegistryRule (rule : TagRule) : RegistryRule :=
  ⟨rule.status, rule.version, rule.slots.map (·.name)⟩

def World.rule (ruleId : String) : Option TagRule := world.rules.find? (·.id = ruleId)

/-- The database as a call meets it that runs alone. -/
def World.store (tables : Tables) : Store where
  bindings := world.tables.map (·.1)
  rules ruleId := (world.rule ruleId).map (·.toRegistryRule)
  autoUpgrade := world.autoUpgrade
  pending := []
  applied := tables.applied
  nextId := tables.nextId
  unique := world.unique
  available := true

/-- `_validate_applicable_rule` -/
def World.applicable (bindingId ruleId : String) (columnMapping : List ColumnMappingGroup)
    (tables : Tables) : Except Error RegistryRule :=
  (alone (validateApplicableRule functions bindingId ruleId ⟨columnMapping, none, none⟩
    (fun error => .done (.error error)) fun rule => .done (.ok rule)) (world.store tables)).1

/-- What a pass attaches to a table: the rule with one group of its columns. -/
structure Attachment where
  bindingId : String
  ruleId : String
  group : ColumnMappingGroup

def Attachment.key (attachment : Attachment) : AppliedKey :=
  (attachment.bindingId, attachment.ruleId, computeMappingHash functions [attachment.group])

/-- `_is_suppressed` -/
def World.isSuppressed (key : AppliedKey) (tables : Tables) : Bool :=
  world.suppressionsAnswer && tables.suppressed.contains key

def Tables.appliedAt (tables : Tables) (key : AppliedKey) : Option AppliedRule :=
  tables.applied.find? (AppliedRule.hasKey key.1 key.2.1 key.2.2)

def attachAutoMapping (attachment : Attachment) (user : String) (tables : Tables) :
    Except Error (Option AppliedRule) × Tables :=
  match world.applicable functions attachment.bindingId attachment.ruleId [attachment.group] tables with
  | .error error => (.error error, tables)
  | .ok rule =>
    let key := attachment.key functions
    if world.isSuppressed key tables then (.ok none, tables)
    else
      match tables.appliedAt key with
      | some existing => (.ok (some existing), tables)
      | none =>
        let applied : AppliedRule := {
          columnMapping := [attachment.group]
          rowFilter := none
          passThreshold := none
          id := tables.nextId
          bindingId := attachment.bindingId
          ruleId := attachment.ruleId
          pinnedVersion := if world.autoUpgrade then none else some rule.version
          severityOverride := none
          userMetadata := tagAuto
          mappingHash := key.2.2
          createdBy := some user }
        (.ok (some applied),
          { tables with applied := tables.applied ++ [applied], nextId := tables.nextId + 1 })

/-- The groups of a rule on a table, one after another; an error ends them, and they count for none. -/
def attachGroups (bindingId ruleId user : String) : List ColumnMappingGroup → Nat → Tables →
    Nat × Tables
  | [], attached, tables => (attached, tables)
  | group :: groups, attached, tables =>
    let (result, tables) := attachAutoMapping functions world ⟨bindingId, ruleId, group⟩ user tables
    match result with
    | .error _ => (0, tables)
    | .ok _ => attachGroups bindingId ruleId user groups (attached + 1) tables

/-- `_tag_mapped` -/
def TagRule.isTagMapped (rule : TagRule) : Bool :=
  rule.status = .approved && !rule.slotTags.isEmpty

/-- A rule on a table with the columns that were read of it. -/
structure PassUnit where
  rule : TagRule
  bindingId : String
  columns : List ColumnInfo

def PassUnit.groups (unit : PassUnit) : List ColumnMappingGroup :=
  resolve upper unit.rule.slots unit.rule.slotTags unit.columns false

/-- `_attach_group_matches` over the rules and tables of a pass, with the number of attachments. -/
def pass (user : String) : List PassUnit → Tables → Nat × Tables
  | [], tables => (0, tables)
  | unit :: units, tables =>
    let (attached, tables) :=
      attachGroups functions world unit.bindingId unit.rule.id user (unit.groups upper) 0 tables
    let (more, tables) := pass user units tables
    (attached + more, tables)

/-- `_read_columns_safe` -/
def World.readColumnsSafe (tableFqn : String) : List ColumnInfo :=
  (world.readColumns tableFqn).getD []

def World.tagMappedRules : List TagRule := world.rules.filter (·.isTagMapped)

/-- The passes: `reconcile_rule`, `reconcile_table` and `sweep`. -/
inductive Scope where
  | rule (ruleId : String)
  | table (bindingId tableFqn : String)
  | all

/-- The rules and tables of a pass, in its order. -/
def World.units : Scope → List PassUnit
  | .rule ruleId =>
    match (world.rule ruleId).filter (·.isTagMapped) with
    | none => []
    | some rule => world.tables.map fun table => ⟨rule, table.1, world.readColumnsSafe table.2⟩
  | .table bindingId tableFqn =>
    world.tagMappedRules.map fun rule => ⟨rule, bindingId, world.readColumnsSafe tableFqn⟩
  | .all => world.tables.flatMap fun table =>
      world.tagMappedRules.map fun rule => ⟨rule, table.1, world.readColumnsSafe table.2⟩

def reconcile (scope : Scope) (user : String) (tables : Tables) : Nat × Tables :=
  if world.tagAutoApply then pass functions upper world user (world.units scope) tables
  else (0, tables)

end Passes

/-! ### What an attachment does -/

section Attaching

variable {functions : Functions} {upper : Text → Text} {world : World}

/-- The tables with attachments by tags added, none under a key that is suppressed or taken. -/
structure Grown (world : World) (tables tables' : Tables) : Prop where
  suppressed : tables'.suppressed = tables.suppressed
  applied : ∃ new, tables'.applied = tables.applied ++ new ∧
    ∀ row ∈ new, row.userMetadata = tagAuto ∧ world.isSuppressed row.key tables = false ∧
      ∀ old ∈ tables.applied, old.key ≠ row.key

theorem Grown.refl (world : World) (tables : Tables) : Grown world tables tables :=
  ⟨rfl, [], (List.append_nil _).symm, fun _ h => absurd h List.not_mem_nil⟩

theorem Grown.trans {a b c : Tables} (h : Grown world a b) (h' : Grown world b c) :
    Grown world a c := by
  obtain ⟨new, hnew, hrows⟩ := h.applied
  obtain ⟨new', hnew', hrows'⟩ := h'.applied
  refine ⟨h'.suppressed.trans h.suppressed, new ++ new', ?_, fun row hrow => ?_⟩
  · rw [hnew', hnew, List.append_assoc]
  · rcases List.mem_append.mp hrow with hrow | hrow
    · exact hrows row hrow
    · obtain ⟨hauto, hfree, hkeys⟩ := hrows' row hrow
      refine ⟨hauto, ?_, fun old hold => hkeys old ?_⟩
      · rw [World.isSuppressed, ← h.suppressed]
        exact hfree
      · rw [hnew]
        exact List.mem_append_left _ hold

theorem hasKey_iff_key {key : AppliedKey} {row : AppliedRule} :
    row.hasKey key.1 key.2.1 key.2.2 = true ↔ row.key = key := by
  rw [AppliedRule.hasKey, Bool.and_eq_true, Bool.and_eq_true, decide_eq_true_eq, decide_eq_true_eq,
    decide_eq_true_eq, AppliedRule.key, Prod.ext_iff, Prod.ext_iff, and_assoc]

theorem appliedAt_eq_none_iff {key : AppliedKey} {tables : Tables} :
    tables.appliedAt key = none ↔ ∀ row ∈ tables.applied, row.key ≠ key := by
  rw [Tables.appliedAt, List.find?_eq_none]
  exact forall₂_congr fun row _ => not_congr hasKey_iff_key

/-- A statement that reads goes on with what it has read. -/
theorem alone_read {ρ : Type} {s : Store} (h : s.available = true) (onError : Error → AppCall ρ)
    (next : Store → AppCall ρ) : alone (sql .read onError next) s = alone (next s) s := by
  rw [sql, alone, Event.after, Event.execute, if_pos h, Event.write]
  · rfl
  · exact fun heq => by cases heq

theorem store_bindings (tables : Tables) :
    (world.store tables).bindings = world.tables.map (·.1) := rfl

theorem store_rules (tables : Tables) (ruleId : String) :
    (world.store tables).rules ruleId = (world.rule ruleId).map (·.toRegistryRule) := rfl

/-- Whether a rule is applicable is not read from the tables that a pass writes. -/
theorem applicable_eq (bindingId ruleId : String) (groups : List ColumnMappingGroup)
    (tables tables' : Tables) : world.applicable functions bindingId ruleId groups tables =
      world.applicable functions bindingId ruleId groups tables' := by
  rw [World.applicable, World.applicable, validateApplicableRule, alone_read rfl, alone_read rfl,
    store_bindings, store_bindings]
  by_cases hbinding : bindingId ∈ world.tables.map (·.1)
  · rw [if_neg (not_not.mpr hbinding), alone_read rfl, alone_read rfl, store_rules, store_rules]
    cases (world.rule ruleId).map (·.toRegistryRule) with
    | none => rfl
    | some rule =>
      dsimp only
      split
      · rfl
      · split
        · rfl
        · split
          · rfl
          · rfl
  · rw [if_pos hbinding]
    rfl

theorem applicable_eq_ok {bindingId : String} {rule : TagRule} {group : ColumnMappingGroup}
    (hbinding : bindingId ∈ world.tables.map (·.1)) (hrule : world.rule rule.id = some rule)
    (hstatus : rule.status = .approved)
    (hcomplete : validateMappingComplete [group] (rule.slots.map (·.name)) = .ok ())
    (tables : Tables) : world.applicable functions bindingId rule.id [group] tables =
      .ok rule.toRegistryRule := by
  rw [World.applicable, validateApplicableRule, alone_read rfl, store_bindings,
    if_neg (not_not.mpr hbinding), alone_read rfl, store_rules, hrule, Option.map_some]
  dsimp only
  have hmapping : validateMappingComplete [group] rule.toRegistryRule.slots = .ok () := hcomplete
  have happroved : rule.toRegistryRule.status = .approved := hstatus
  rw [if_neg (not_not.mpr happroved), hmapping]
  rfl

/-- What attaching a group does: nothing, or a row under a key that is free. -/
theorem attachAutoMapping_cases (attachment : Attachment) (user : String) (tables : Tables) :
    (attachAutoMapping functions world attachment user tables).2 = tables ∨
      ∃ row, (attachAutoMapping functions world attachment user tables).2 =
          { tables with applied := tables.applied ++ [row], nextId := tables.nextId + 1 } ∧
        row.key = attachment.key functions ∧ row.id = tables.nextId ∧ row.userMetadata = tagAuto ∧
        world.isSuppressed row.key tables = false ∧ ∀ old ∈ tables.applied, old.key ≠ row.key := by
  rw [attachAutoMapping]
  split
  · exact .inl rfl
  · dsimp only
    split
    · exact .inl rfl
    · next hfree =>
      split
      · exact .inl rfl
      · next hnone => exact .inr ⟨_, rfl, rfl, rfl, rfl, Bool.not_eq_true _ |>.mp hfree,
          appliedAt_eq_none_iff.mp hnone⟩

theorem grown_attach (attachment : Attachment) (user : String) (tables : Tables) :
    Grown world tables (attachAutoMapping functions world attachment user tables).2 := by
  rcases @attachAutoMapping_cases functions world attachment user tables with heq | hrow
  · rw [heq]
    exact .refl world tables
  · obtain ⟨row, heq, -, -, hauto, hfree, hkeys⟩ := hrow
    rw [heq]
    refine ⟨rfl, [row], rfl, fun other hother => ?_⟩
    rw [List.mem_singleton.mp hother]
    exact ⟨hauto, hfree, hkeys⟩

/-- An applicable rule is attached without an error. -/
theorem exists_attach_ok {attachment : Attachment} {user : String} {tables : Tables}
    {rule : RegistryRule} (h : world.applicable functions attachment.bindingId attachment.ruleId
      [attachment.group] tables = .ok rule) :
    ∃ result next, attachAutoMapping functions world attachment user tables = (.ok result, next) := by
  rw [attachAutoMapping, h]
  dsimp only
  split
  · exact ⟨_, _, rfl⟩
  · split
    · exact ⟨_, _, rfl⟩
    · exact ⟨_, _, rfl⟩

/-- The key of the attachment is suppressed, or an applied rule has it. -/
def Covered (functions : Functions) (world : World) (attachment : Attachment) (tables : Tables) :
    Prop :=
  world.isSuppressed (attachment.key functions) tables = true ∨
    ∃ row ∈ tables.applied, row.key = attachment.key functions

theorem Covered.grown {attachment : Attachment} {tables tables' : Tables}
    (h : Covered functions world attachment tables) (hgrown : Grown world tables tables') :
    Covered functions world attachment tables' := by
  rcases h with hsuppressed | ⟨row, hrow, hkey⟩
  · left
    rw [World.isSuppressed, hgrown.suppressed]
    exact hsuppressed
  · right
    obtain ⟨new, hnew, -⟩ := hgrown.applied
    refine ⟨row, ?_, hkey⟩
    rw [hnew]
    exact List.mem_append_left _ hrow

/-- Where the rule is applicable, its attachment is covered afterwards; where it is covered, nothing
is attached; otherwise there is an error, whatever the tables hold. -/
theorem covered_attach {attachment : Attachment} {user : String} {tables : Tables} {rule : RegistryRule}
    (h : world.applicable functions attachment.bindingId attachment.ruleId [attachment.group] tables =
      .ok rule) :
    Covered functions world attachment
      (attachAutoMapping functions world attachment user tables).2 := by
  by_cases hcovered : Covered functions world attachment tables
  · exact hcovered.grown (grown_attach attachment user tables)
  · rw [Covered, not_or] at hcovered
    have hnone : tables.appliedAt (attachment.key functions) = none :=
      appliedAt_eq_none_iff.mpr fun row hrow hkey => hcovered.2 ⟨row, hrow, hkey⟩
    rw [attachAutoMapping, h]
    dsimp only
    rw [if_neg hcovered.1, hnone]
    dsimp only
    exact .inr ⟨_, List.mem_append_right _ (List.mem_singleton_self _), rfl⟩

theorem attach_of_covered {attachment : Attachment} {user : String} {tables : Tables}
    {rule : RegistryRule} (h : world.applicable functions attachment.bindingId attachment.ruleId
      [attachment.group] tables = .ok rule) (hcovered : Covered functions world attachment tables) :
    ∃ result, attachAutoMapping functions world attachment user tables = (.ok result, tables) := by
  rw [attachAutoMapping, h]
  dsimp only
  by_cases hsuppressed : world.isSuppressed (attachment.key functions) tables = true
  · exact ⟨none, if_pos hsuppressed⟩
  · rw [if_neg hsuppressed]
    cases hexisting : tables.appliedAt (attachment.key functions) with
    | some existing => exact ⟨some existing, rfl⟩
    | none =>
      obtain ⟨row, hrow, hkey⟩ := hcovered.resolve_left hsuppressed
      exact absurd hkey (appliedAt_eq_none_iff.mp hexisting row hrow)

/-! ### What a pass does -/

theorem grown_attachGroups (bindingId ruleId user : String) (groups : List ColumnMappingGroup)
    (attached : Nat) (tables : Tables) : Grown world tables
      (attachGroups functions world bindingId ruleId user groups attached tables).2 := by
  induction groups generalizing attached tables with
  | nil => exact .refl world tables
  | cons group groups ih =>
    have hgrown := @grown_attach functions world ⟨bindingId, ruleId, group⟩ user tables
    rw [attachGroups]
    dsimp only
    split
    · exact hgrown
    · exact hgrown.trans (ih _ _)

theorem grown_pass (user : String) (units : List PassUnit) (tables : Tables) :
    Grown world tables (pass functions upper world user units tables).2 := by
  induction units generalizing tables with
  | nil => exact .refl world tables
  | cons unit units ih => exact (grown_attachGroups _ _ _ _ _ _).trans (ih _)

/-- The groups of a rule on a table, attached once more later, leave the tables as they are, and are
counted as the first time. -/
theorem attachGroups_again (bindingId ruleId user : String) {groups : List ColumnMappingGroup}
    {attached : Nat} {tables later : Tables} (hlater : Grown world
      (attachGroups functions world bindingId ruleId user groups attached tables).2 later) :
    attachGroups functions world bindingId ruleId user groups attached later =
      ((attachGroups functions world bindingId ruleId user groups attached tables).1, later) := by
  induction groups generalizing attached tables with
  | nil => rfl
  | cons group groups ih =>
    have happlicable := @applicable_eq functions world bindingId ruleId [group] tables later
    cases hrule : world.applicable functions bindingId ruleId [group] tables with
    | error error =>
      rw [hrule] at happlicable
      have herror (t : Tables)
          (h : world.applicable functions bindingId ruleId [group] t = .error error) :
          attachGroups functions world bindingId ruleId user (group :: groups) attached t = (0, t) := by
        rw [attachGroups, attachAutoMapping, h]
      rw [herror tables hrule, herror later happlicable.symm]
    | ok rule =>
      rw [hrule] at happlicable
      have hcovered := @covered_attach functions world ⟨bindingId, ruleId, group⟩ user tables rule hrule
      -- the first attachment went through, so the rest of the groups followed it
      obtain ⟨result, next, hattach⟩ :=
        @exists_attach_ok functions world ⟨bindingId, ruleId, group⟩ user tables rule hrule
      have hfirst : attachGroups functions world bindingId ruleId user (group :: groups) attached
          tables = attachGroups functions world bindingId ruleId user groups (attached + 1) next := by
        rw [attachGroups, hattach]
      rw [hfirst] at hlater ⊢
      rw [hattach] at hcovered
      have hgrown := @grown_attachGroups functions world bindingId ruleId user groups (attached + 1) next
      obtain ⟨result', hagain⟩ := @attach_of_covered functions world ⟨bindingId, ruleId, group⟩ user
        later rule happlicable.symm (hcovered.grown (hgrown.trans hlater))
      rw [attachGroups, hagain]
      exact ih hlater

theorem pass_again (user : String) {units : List PassUnit} {tables later : Tables}
    (hlater : Grown world (pass functions upper world user units tables).2 later) :
    pass functions upper world user units later =
      ((pass functions upper world user units tables).1, later) := by
  induction units generalizing tables with
  | nil => rfl
  | cons unit units ih =>
    have hrest := ih hlater
    have hfirst := @attachGroups_again functions world unit.bindingId unit.rule.id user
      (unit.groups upper) 0 tables later ((grown_pass user units _).trans hlater)
    rw [pass, hfirst]
    dsimp only
    rw [hrest]
    rfl

/-- Where the rule is applicable with each of the groups, all of them are covered afterwards. -/
theorem covered_attachGroups {bindingId ruleId : String} (user : String)
    {groups : List ColumnMappingGroup} (attached : Nat) (tables : Tables)
    (h : ∀ group ∈ groups, ∃ rule, ∀ t,
      world.applicable functions bindingId ruleId [group] t = .ok rule) :
    ∀ group ∈ groups, Covered functions world ⟨bindingId, ruleId, group⟩
      (attachGroups functions world bindingId ruleId user groups attached tables).2 := by
  induction groups generalizing attached tables with
  | nil => exact fun _ hgroup => absurd hgroup List.not_mem_nil
  | cons group groups ih =>
    obtain ⟨⟨rule, hrule⟩, hrest⟩ := List.forall_mem_cons.mp h
    have hcovered := @covered_attach functions world ⟨bindingId, ruleId, group⟩ user tables rule
      (hrule tables)
    obtain ⟨result, next, hattach⟩ :=
      @exists_attach_ok functions world ⟨bindingId, ruleId, group⟩ user tables rule (hrule tables)
    rw [attachGroups, hattach]
    rw [hattach] at hcovered
    exact List.forall_mem_cons.mpr
      ⟨hcovered.grown (grown_attachGroups _ _ _ _ _ _), ih (attached + 1) next hrest⟩

theorem covered_pass {user : String} {units : List PassUnit} {tables : Tables} {unit : PassUnit}
    (hunit : unit ∈ units) (h : ∀ group ∈ unit.groups upper, ∃ rule, ∀ t,
      world.applicable functions unit.bindingId unit.rule.id [group] t = .ok rule) :
    ∀ group ∈ unit.groups upper, Covered functions world ⟨unit.bindingId, unit.rule.id, group⟩
      (pass functions upper world user units tables).2 := by
  induction units generalizing tables with
  | nil => cases hunit
  | cons first units ih =>
    rcases List.mem_cons.mp hunit with rfl | hunit
    · intro group hgroup
      exact (covered_attachGroups user 0 tables h group hgroup).grown (grown_pass user units _)
    · exact ih hunit

/-- The groups that are resolved have the slots as their keys. -/
theorem validate_of_mem_groups {unit : PassUnit} {group : ColumnMappingGroup}
    (h : group ∈ unit.groups upper) :
    validateMappingComplete [group] (unit.rule.slots.map (·.name)) = .ok () := by
  have hkeys := keys_of_mem_resolve h
  have hmissing : (unit.rule.slots.map (·.name)).filter
      (fun slot => !(group.map (·.1)).contains slot) = [] := by
    rw [List.filter_eq_nil_iff]
    intro slot hslot
    simpa using (hkeys slot).mpr hslot
  have hextra : (group.map (·.1)).filter
      (fun key => !(unit.rule.slots.map (·.name)).contains key) = [] := by
    rw [List.filter_eq_nil_iff]
    intro key hkey
    simpa using (hkeys key).mp hkey
  rw [validateMappingComplete]
  simp only [hmissing, hextra, List.find?_cons, ne_eq, not_true_eq_false, decide_false,
    Bool.or_false, List.find?_nil]

/-- The rules of a pass are published rules of the registry. -/
theorem rule_of_mem_units {scope : Scope} {unit : PassUnit} (h : unit ∈ world.units scope) :
    world.rule unit.rule.id = some unit.rule ∧ unit.rule.status = .approved := by
  have hmapped {rule : TagRule} (hrule : rule ∈ world.rules) (htagged : rule.isTagMapped = true) :
      world.rule rule.id = some rule ∧ rule.status = .approved := by
    rw [TagRule.isTagMapped, Bool.and_eq_true, decide_eq_true_eq] at htagged
    refine ⟨?_, htagged.1⟩
    obtain ⟨found, hfound⟩ : ∃ found, world.rule rule.id = some found := by
      rw [World.rule, ← Option.isSome_iff_exists, List.find?_isSome]
      exact ⟨rule, hrule, decide_eq_true rfl⟩
    have hid : found.id = rule.id := by simpa using List.find?_some hfound
    rw [hfound, List.inj_on_of_nodup_map world.ids_nodup (List.mem_of_find?_eq_some hfound) hrule hid]
  have htagMapped {rule : TagRule} (hrule : rule ∈ world.tagMappedRules) :
      world.rule rule.id = some rule ∧ rule.status = .approved :=
    hmapped (List.mem_filter.mp hrule).1 (List.mem_filter.mp hrule).2
  cases scope with
  | rule ruleId =>
    rw [World.units] at h
    cases hfound : (world.rule ruleId).filter (·.isTagMapped) with
    | none =>
      rw [hfound] at h
      cases h
    | some rule =>
      rw [hfound] at h
      obtain ⟨table, -, rfl⟩ := List.mem_map.mp h
      obtain ⟨hrule, htagged⟩ := Option.filter_eq_some_iff.mp hfound
      exact hmapped (List.mem_of_find?_eq_some hrule) htagged
  | table bindingId tableFqn =>
    obtain ⟨rule, hrule, rfl⟩ := List.mem_map.mp h
    exact htagMapped hrule
  | all =>
    obtain ⟨table, -, hunit⟩ := List.mem_flatMap.mp h
    obtain ⟨rule, hrule, rfl⟩ := List.mem_map.mp hunit
    exact htagMapped hrule

end Attaching

end Dqx.Applications
