import Dqx.Checks.Expansion

/-! The serialization of rules. The dictionary of a rule holds the arguments that a call of its check
function is bound to; the rule it deserializes to is bound to the same. -/

namespace Dqx.Checks

open Lib Value

/-- `ChecksSerializer.serialize`. -/
def serialize (rules : List DQRule) : Except CheckError (List Check) := rules.mapM DQRule.toDict

theorem lookup_setArgument (arguments : List (String × Value)) (name : String) (value : Value)
    (key : String) : (setArgument arguments name value).lookup key =
      if key = name then some value else arguments.lookup key := by
  rw [setArgument]
  split
  · rename_i hany
    by_cases hkey : key = name
    · subst hkey
      rw [if_pos rfl]
      induction arguments with
      | nil => simp at hany
      | cons entry rest ih =>
        obtain ⟨k, old⟩ := entry
        by_cases hk : k = key
        · simp [hk]
        · have hne : (key == k) = false := beq_false_of_ne (Ne.symm hk)
          have hrest : (rest.any fun entry => decide (entry.1 = key)) = true := by simpa [hk] using hany
          simpa [List.lookup_cons, hk, hne] using ih hrest
    · rw [if_neg hkey]
      clear hany
      induction arguments with
      | nil => rfl
      | cons entry rest ih =>
        obtain ⟨k, old⟩ := entry
        have hne : (key == name) = false := beq_false_of_ne hkey
        rw [List.map_cons, List.lookup_cons, List.lookup_cons, ih]
        by_cases hk : k = name
        · simp [hk, hne]
        · simp [hk]
  · rename_i hany
    rw [List.lookup_append]
    by_cases hkey : key = name
    · subst hkey
      have hnone : arguments.lookup key = none := by
        rw [List.lookup_eq_none_iff]
        intro entry hentry
        have hne : ¬entry.1 = key := fun heq => hany (List.any_eq_true.mpr ⟨entry, hentry, by simpa using heq⟩)
        simpa using Ne.symm hne
      simp [hnone]
    · have hne : (key == name) = false := beq_false_of_ne hkey
      simp [hkey, List.lookup_cons, hne]

theorem lookup_setWhen (condition : Bool) (arguments : List (String × Value)) (name : String)
    (value : Option Value) (key : String) : (setWhen condition arguments name value).lookup key =
      if key = name ∧ condition = true ∧ value.isSome then value else arguments.lookup key := by
  cases value with
  | none => simp [setWhen]
  | some value =>
    cases condition with
    | true => simp [setWhen, lookup_setArgument]
    | false => simp [setWhen]

namespace DQRule

/-- The value that a call of the check function gets under a name. -/
def callValue (rule : DQRule) (name : String) : Option Value :=
  if name = "column" then rule.column
  else if name = "columns" then rule.columns.map .list
  else if name = "row_filter" ∧ rule.filterText.isSome then rule.filterText.map .str
  else rule.checkFuncKwargs.lookup name

/-- A required column or list of columns is given, and is the first parameter. -/
structure WellPlaced (rule : DQRule) : Prop where
  column : rule.func.isOptionalArgument "column" = some false →
    rule.column.isSome ∧ rule.func.params.head?.map Param.name = some "column"
  columns : rule.func.isOptionalArgument "columns" = some false →
    (∃ items, rule.columns = some items ∧ items ≠ []) ∧
      rule.func.params.head?.map Param.name = some "columns"

end DQRule

namespace DQRule

theorem lookup_buildKwargs {rule : DQRule} (hcolumn : rule.checkFuncKwargs.lookup "column" = none)
    (hcolumns : rule.checkFuncKwargs.lookup "columns" = none) (name : String) :
    rule.buildKwargs.lookup name =
      if name = "column" then
        if rule.func.isOptionalArgument "column" = some true then rule.column else none
      else if name = "columns" then
        if rule.func.isOptionalArgument "columns" = some true then rule.columns.map .list else none
      else if name = "row_filter" ∧ rule.func.hasParam "row_filter" ∧ rule.filterText.isSome then
        rule.filterText.map .str
      else rule.checkFuncKwargs.lookup name := by
  rw [buildKwargs, lookup_setWhen, lookup_setWhen, lookup_setWhen]
  by_cases h₁ : name = "column"
  · subst h₁
    cases rule.column <;> simp [hcolumn]
  · by_cases h₂ : name = "columns"
    · subst h₂
      cases rule.columns <;> simp [hcolumns]
    · by_cases h₃ : name = "row_filter"
      · subst h₃
        simp
      · simp [h₁, h₂, h₃]

end DQRule

theorem CheckFunction.hasParam_iff {func : CheckFunction} {name : String} :
    func.hasParam name = true ↔ func.isOptionalArgument name = some true ∨
      func.isOptionalArgument name = some false := by
  rw [hasParam, isOptionalArgument, List.any_eq_true, ← List.find?_isSome]
  cases func.params.find? fun param => decide (param.name = name) with
  | none => simp
  | some param => cases hrequired : param.required <;> simp [hrequired]

namespace DQRule

/-- The positional arguments of a rule whose required column or columns come first. -/
theorem WellPlaced.buildArgs {rule : DQRule} (h : rule.WellPlaced) :
    ∃ args, rule.buildArgs = .ok args ∧ args.length ≤ rule.func.params.length ∧
      ∀ name, ((rule.func.params.map Param.name).zip args).lookup name =
        if name = "column" ∧ rule.func.isOptionalArgument "column" = some false then rule.column
        else if name = "columns" ∧ rule.func.isOptionalArgument "columns" = some false then
          rule.columns.map .list
        else none := by
  have hsingle : ∀ (first : Param) (rest : List Param) (value : Value) (name : String),
      (((first :: rest).map Param.name).zip [value]).lookup name =
        if name = first.name then some value else none := by
    intro first rest value name
    by_cases hname : name = first.name
    · simp [hname]
    · have hne : (name == first.name) = false := beq_false_of_ne hname
      simp [hname, List.lookup_cons, hne]
  rw [DQRule.buildArgs, columnArgs, columnsArgs]
  by_cases hcolumn : rule.func.isOptionalArgument "column" = some false
  · obtain ⟨hsome, hhead⟩ := h.column hcolumn
    obtain ⟨c, hc⟩ := Option.isSome_iff_exists.mp hsome
    have hcolumns : rule.func.isOptionalArgument "columns" ≠ some false := fun hrequired => by
      have hhead' := (h.columns hrequired).2
      rw [hhead] at hhead'
      exact absurd hhead' (by simp)
    rw [if_pos hcolumn, if_neg hcolumns, hc]
    cases hparams : rule.func.params with
    | nil => simp [hparams] at hhead
    | cons first rest =>
      have hfirst : first.name = "column" := by simpa [hparams] using hhead
      refine ⟨[c], rfl, by simp, fun name => ?_⟩
      rw [hsingle, hfirst]
      simp [hcolumn, hcolumns]
  · rw [if_neg hcolumn]
    by_cases hcolumns : rule.func.isOptionalArgument "columns" = some false
    · obtain ⟨⟨items, hitems, hne⟩, hhead⟩ := h.columns hcolumns
      rw [if_pos hcolumns, hitems]
      cases hparams : rule.func.params with
      | nil => simp [hparams] at hhead
      | cons first rest =>
        have hfirst : first.name = "columns" := by simpa [hparams] using hhead
        cases items with
        | nil => exact absurd rfl hne
        | cons item items =>
          refine ⟨[.list (item :: items)], rfl, by simp, fun name => ?_⟩
          rw [hsingle, hfirst]
          simp [hcolumn, hcolumns]
    · rw [if_neg hcolumns]
      refine ⟨[], rfl, Nat.zero_le _, fun name => ?_⟩
      simp [hcolumn, hcolumns]

/-- A call binds every parameter to its value. -/
theorem WellPlaced.boundArguments {rule : DQRule} (h : rule.WellPlaced)
    (hown : ownArguments rule.checkFuncKwargs = rule.checkFuncKwargs)
    (hparams : ∀ entry ∈ rule.checkFuncKwargs, rule.func.hasParam entry.1 = true) :
    rule.boundArguments = .ok (rule.func.params.filterMap fun param =>
      (rule.callValue param.name).map fun value => (param.name, value)) := by
  have hcolumn : rule.checkFuncKwargs.lookup "column" = none := by
    rw [← hown, lookup_ownArguments]
    simp
  have hcolumns : rule.checkFuncKwargs.lookup "columns" = none := by
    rw [← hown, lookup_ownArguments]
    simp
  obtain ⟨args, hargs, hlength, hlookup⟩ := h.buildArgs
  have hkwargs := lookup_buildKwargs hcolumn hcolumns
  -- a keyword is a parameter, and no positional argument is bound to it
  have hkeyword : ¬(rule.buildKwargs.any fun entry => !rule.func.hasParam entry.1 ||
      (((rule.func.params.map Param.name).zip args).lookup entry.1).isSome) := by
    rw [List.any_eq_true]
    rintro ⟨⟨name, value⟩, hentry, hbad⟩
    have hfound : (rule.buildKwargs.lookup name).isSome := by
      rw [List.lookup_isSome_iff]
      exact ⟨_, hentry, by simp⟩
    rw [hkwargs] at hfound
    dsimp only at hbad
    rw [hlookup, Bool.or_eq_true, Bool.not_eq_true', ← Bool.not_eq_true,
      CheckFunction.hasParam_iff] at hbad
    by_cases h₁ : name = "column"
    · subst h₁
      rw [if_pos rfl] at hfound
      split at hfound
      · rename_i hoptional
        simp [hoptional] at hbad
      · simp at hfound
    · by_cases h₂ : name = "columns"
      · subst h₂
        rw [if_neg h₁, if_pos rfl] at hfound
        split at hfound
        · rename_i hoptional
          simp [hoptional] at hbad
        · simp at hfound
      · rw [if_neg h₁, if_neg h₂] at hfound
        simp only [h₁, h₂, false_and, if_false, Option.isSome_none, Bool.false_eq_true, or_false]
          at hbad
        apply hbad
        rw [← CheckFunction.hasParam_iff]
        split at hfound
        · rename_i hfilter
          rw [hfilter.1]
          exact hfilter.2.1
        · obtain ⟨own, hmem, hname⟩ := List.lookup_isSome_iff.mp hfound
          obtain rfl : name = own.1 := by simpa using hname
          exact hparams own hmem
  rw [DQRule.boundArguments, hargs]
  show rule.func.bindPartial args rule.buildKwargs = _
  rw [CheckFunction.bindPartial]
  dsimp only
  rw [if_neg (Nat.not_lt.mpr hlength), if_neg hkeyword]
  congr 1
  apply List.filterMap_congr
  intro param hparam
  rw [List.lookup_append, hlookup, hkwargs, callValue]
  have hhas : rule.func.hasParam param.name = true :=
    List.any_eq_true.mpr ⟨param, hparam, by simp⟩
  congr 1
  by_cases h₁ : param.name = "column"
  · rw [h₁, CheckFunction.hasParam_iff] at hhas
    rcases hhas with hoptional | hrequired
    · simp [h₁, hoptional]
    · simp [h₁, hrequired]
  · by_cases h₂ : param.name = "columns"
    · rw [h₂, CheckFunction.hasParam_iff] at hhas
      rcases hhas with hoptional | hrequired
      · simp [h₂, hoptional]
      · simp [h₂, hrequired]
    · by_cases h₃ : param.name = "row_filter"
      · rw [h₃] at hhas
        simp [h₃, hhas]
      · simp [h₁, h₂, h₃]

/-- A single positional argument is bound to the first parameter. -/
theorem head_of_lookup_zip {params : List Param} {args : List Value} {name : String}
    (hlength : args.length ≤ 1) (h : (((params.map Param.name).zip args).lookup name).isSome) :
    params.head?.map Param.name = some name := by
  match params, args with
  | [], _ => simp at h
  | _ :: _, [] => simp at h
  | first :: rest, [value] =>
    by_cases hname : name = first.name
    · simp [hname]
    · have hne : (name == first.name) = false := beq_false_of_ne hname
      simp [List.lookup_cons, hne] at h
  | _, _ :: _ :: _ => simp at hlength

/-- A rule whose call binds all required parameters has its required column or columns in the first
place. -/
theorem wellPlaced_of_bound {rule : DQRule} {bound : List (String × Value)}
    (hbound : rule.boundArguments = .ok bound)
    (hone : ¬(rule.column.isSome ∧ rule.columns.isSome))
    (hown : ownArguments rule.checkFuncKwargs = rule.checkFuncKwargs)
    (hrequired : ∀ name, rule.func.isOptionalArgument name = some false →
      (bound.lookup name).isSome) : rule.WellPlaced := by
  have hcolumnKwargs : rule.checkFuncKwargs.lookup "column" = none := by
    rw [← hown, lookup_ownArguments]
    simp
  have hcolumnsKwargs : rule.checkFuncKwargs.lookup "columns" = none := by
    rw [← hown, lookup_ownArguments]
    simp
  have hkwargs := lookup_buildKwargs hcolumnKwargs hcolumnsKwargs
  obtain ⟨args, hargs, hbind⟩ := bind_eq_ok.mp hbound
  have hboundEq : bound = rule.func.params.filterMap fun param =>
      (((rule.func.params.map Param.name).zip args ++ rule.buildKwargs).lookup param.name).map
        fun value => (param.name, value) := by
    rw [CheckFunction.bindPartial] at hbind
    dsimp only at hbind
    split at hbind
    · cases hbind
    · split at hbind
      · cases hbind
      · exact (Except.ok.inj hbind).symm
  -- a required column or list of columns can only be bound by position
  have hposition : ∀ name, name = "column" ∨ name = "columns" →
      rule.func.isOptionalArgument name = some false →
      (((rule.func.params.map Param.name).zip args).lookup name).isSome := by
    intro name hname hoptional
    have hsome := hrequired name hoptional
    rw [hboundEq, lookup_filterMap rule.func.params Param.name fun key =>
      ((rule.func.params.map Param.name).zip args ++ rule.buildKwargs).lookup key] at hsome
    split at hsome
    · rw [List.lookup_append, hkwargs] at hsome
      rcases hname with rfl | rfl
      · simpa [hoptional] using hsome
      · simpa [hoptional] using hsome
    · simp at hsome
  obtain ⟨columns, hcolumns, rfl⟩ := map_eq_ok.mp hargs
  have hcolumnsLength : columns.length ≤ 1 ∧ (columns ≠ [] →
      rule.func.isOptionalArgument "columns" = some false ∧
        ∃ items, rule.columns = some items ∧ items ≠ []) := by
    rw [columnsArgs] at hcolumns
    split at hcolumns
    · rename_i hoptional
      split at hcolumns
      · cases hcolumns
        exact ⟨Nat.zero_le _, fun hne => absurd rfl hne⟩
      · cases hcolumns
      · rename_i items hne hitems
        cases hcolumns
        exact ⟨Nat.le_refl _, fun _ => ⟨hoptional, items, hitems, hne⟩⟩
    · cases hcolumns
      exact ⟨Nat.zero_le _, fun hne => absurd rfl hne⟩
  have hcolumnArgs : rule.columnArgs = [] ∨ (rule.func.isOptionalArgument "column" = some false ∧
      rule.column.isSome ∧ rule.columnArgs.length = 1) := by
    rw [columnArgs]
    split
    · rename_i hoptional
      cases rule.column with
      | none => exact .inl rfl
      | some c => exact .inr ⟨hoptional, rfl, rfl⟩
    · exact .inl rfl
  have hlength : (rule.columnArgs ++ columns).length ≤ 1 := by
    rw [List.length_append]
    rcases hcolumnArgs with hnil | ⟨-, hsome, hlength⟩
    · rw [hnil]
      simpa using hcolumnsLength.1
    · have hnil : columns = [] := by
        by_contra hne
        obtain ⟨-, items, hitems, -⟩ := hcolumnsLength.2 hne
        exact hone ⟨hsome, hitems ▸ rfl⟩
      rw [hnil, hlength]
      exact Nat.le_refl 1
  have hhead := fun name hname hoptional =>
    head_of_lookup_zip hlength (hposition name hname hoptional)
  have hnotBoth : rule.func.isOptionalArgument "column" = some false →
      rule.func.isOptionalArgument "columns" ≠ some false := by
    intro hcolumn hcolumns
    have hboth := (hhead "column" (.inl rfl) hcolumn).symm.trans (hhead "columns" (.inr rfl) hcolumns)
    exact absurd hboth (by simp)
  constructor
  · intro hoptional
    refine ⟨?_, hhead "column" (.inl rfl) hoptional⟩
    have hnil : columns = [] := by
      by_contra hne
      exact hnotBoth hoptional (hcolumnsLength.2 hne).1
    rcases hcolumnArgs with hempty | ⟨-, hsome, -⟩
    · have hfound := hposition "column" (.inl rfl) hoptional
      rw [hempty, hnil] at hfound
      simp at hfound
    · exact hsome
  · intro hoptional
    refine ⟨?_, hhead "columns" (.inr rfl) hoptional⟩
    rcases hcolumnArgs with hempty | ⟨hcolumn, -, -⟩
    · have hne : columns ≠ [] := by
        rintro rfl
        have hfound := hposition "columns" (.inr rfl) hoptional
        rw [hempty] at hfound
        simp at hfound
      exact (hcolumnsLength.2 hne).2
    · exact absurd hoptional (hnotBoth hcolumn)

end DQRule

/-- What holds of a rule that was deserialized. -/
structure Made (env : Environment) (rule : DQRule) : Prop where
  oneOf : ¬(rule.column.isSome ∧ rule.columns.isSome)
  own : ownArguments rule.checkFuncKwargs = rule.checkFuncKwargs
  column : ∀ value, rule.column = some value → (∃ s, value = .str s) ∨ ∃ c, value = .column c
  columns : ∀ items, rule.columns = some items → ∀ item ∈ items,
    (∃ s, item = .str s) ∨ ∃ c, item = .column c
  criticality : rule.criticality ∈ ["warn", "error"]
  parses : (rule.messageExpr.any fun text => !env.parses text) = false

theorem coerceColumn_cases {column column' : Option Value} (h : coerceColumn column = .ok column') :
    ∀ value, column' = some value → (∃ s, value = .str s) ∨ ∃ c, value = .column c := by
  rintro value rfl
  match column with
  | none => cases h
  | some .null => cases h
  | some (.str s) =>
    cases h
    exact .inl ⟨s, rfl⟩
  | some (.column c) =>
    cases h
    exact .inr ⟨c, rfl⟩

theorem coerceColumnItem_cases {items items' : List Value}
    (h : items.mapM coerceColumnItem = .ok items') :
    ∀ item ∈ items', (∃ s, item = .str s) ∨ ∃ c, item = .column c := by
  intro item' hitem'
  obtain ⟨item, -, hitem⟩ := exists_of_forall₂_right (mapM_eq_ok_iff_forall₂.mp h) hitem'
  cases item with
  | str s =>
    cases hitem
    exact .inl ⟨s, rfl⟩
  | column c =>
    cases hitem
    exact .inr ⟨c, rfl⟩
  | _ => cases hitem

theorem coerceColumns_cases {columns : Option Value} {columns' : Option (List Value)}
    (h : coerceColumns columns = .ok columns') :
    ∀ items, columns' = some items → ∀ item ∈ items,
      (∃ s, item = .str s) ∨ ∃ c, item = .column c := by
  rintro items rfl
  have hitems : ∀ source : List Value,
      (source.mapM coerceColumnItem).map some = .ok (some items) → ∀ item ∈ items,
        (∃ s, item = .str s) ∨ ∃ c, item = .column c := by
    intro source hsource
    obtain ⟨_, hmade, heq⟩ := map_eq_ok.mp hsource
    cases heq
    exact coerceColumnItem_cases hmade
  match columns with
  | none => cases h
  | some .null => cases h
  | some (.list source) => exact hitems source h
  | some (.tuple source) => exact hitems source h
  | some (.set source) => exact hitems source h

theorem ownArguments_ownArguments {α : Type} (arguments : List (String × α)) :
    ownArguments (ownArguments arguments) = ownArguments arguments := by
  rw [ownArguments, ownArguments, List.filter_filter]
  simp

theorem made_of_makeRule {env : Environment} {check : Check} {spec : CheckSpec}
    {ruleType : RuleType} {column columns : Option Value} {rule : DQRule}
    (hspec : validateCheck env check = .ok spec)
    (h : makeRule env spec ruleType column columns (ownArguments spec.arguments) = .ok rule) :
    Made env rule := by
  obtain ⟨column', columns', bound, conditionName, hcolumn, hcolumns, hvalid, rfl, hbound, -,
    hparses⟩ := makeRule_eq_ok_iff.mp h
  obtain ⟨_, _, _, -, -, hfields, -, -, hspecEq⟩ := validateCheck_eq_ok_iff.mp hspec
  exact {
    oneOf := fun hboth => hvalid (.inr hboth)
    own := ownArguments_ownArguments _
    column := coerceColumn_cases hcolumn
    columns := coerceColumns_cases hcolumns
    criticality := by
      by_contra hne
      rw [hspecEq] at hne
      exact hfields (.inr hne)
    parses := hparses }

theorem deserializeChecks_made {env : Environment} {checks : List Check} {rules : List DQRule}
    (h : deserializeChecks env checks = .ok rules) : ∀ rule ∈ rules, Made env rule := by
  obtain ⟨groups, rfl, hgroups⟩ := deserializeChecks_eq_ok_iff.mp h
  intro rule hrule
  obtain ⟨group, hgroup, hmem⟩ := List.mem_flatten.mp hrule
  obtain ⟨check, -, spec, hspec, hmade⟩ := exists_of_forall₂_right hgroups hgroup
  obtain ⟨_, -, hrules⟩ := bind_eq_ok.mp hmade
  dsimp only at hrules
  split at hrules
  · obtain ⟨item, -, hitem⟩ := exists_of_forall₂_right (mapM_eq_ok_iff_forall₂.mp hrules) hmem
    obtain ⟨_, -, hrule⟩ := bind_eq_ok.mp hitem
    exact made_of_makeRule hspec hrule
  · obtain ⟨made, hrule, rfl⟩ := map_eq_ok.mp hrules
    obtain rfl := List.mem_singleton.mp hmem
    exact made_of_makeRule hspec hrule

/-- A rule whose dictionary is a valid check: its function is resolved under its own name, takes the
normalized arguments, and names its condition for them. -/
def Serializable (env : Environment) (rule : DQRule) : Prop :=
  ∀ bound fullArgs, rule.boundArguments = .ok bound →
    mapValuesM (normalizeBoundArgs false) bound = .ok fullArgs →
    env.resolveCheckFunction rule.func.name = some rule.func ∧
    validateFuncArgs rule.func fullArgs = true ∧
    ∃ conditionName, rule.func.condition fullArgs = .ok conditionName ∧
      (rule.name = "" → conditionName = "")

/-- The rule that the dictionary of a rule deserializes to, from the arguments the dictionary holds. -/
def serializedRule (rule : DQRule) (fullArgs : List (String × Value)) : DQRule where
  func := rule.func
  name := rule.name
  criticality := rule.criticality
  column := fullArgs.lookup "column"
  columns := match fullArgs.lookup "columns" with
    | some (.list items) => some items
    | _ => none
  filter := rule.filterText
  checkFuncKwargs := ownArguments fullArgs
  userMetadata := rule.userMetadata.filter fun entries => !entries.isEmpty
  messageExpr := rule.messageExpr

theorem normalize_column {value normal : Value}
    (hvalue : (∃ s, value = .str s) ∨ ∃ c, value = .column c)
    (h : normalizeBoundArgs false value = .ok normal) : ∃ s, normal = .str s := by
  rcases hvalue with ⟨s, rfl⟩ | ⟨c, rfl⟩
  · cases h
    exact ⟨s, rfl⟩
  · cases h
    exact ⟨c.name, rfl⟩

theorem normalize_columns {items : List Value} {normal : Value}
    (hitems : ∀ item ∈ items, (∃ s, item = .str s) ∨ ∃ c, item = .column c)
    (h : normalizeBoundArgs false (.list items) = .ok normal) :
    ∃ names : List String, normal = .list (names.map .str) := by
  rw [normalizeBoundArgs, normalizeItems_eq] at h
  obtain ⟨normals, hnormals, rfl⟩ := map_eq_ok.mp h
  have hnames : ∀ normal ∈ normals, ∃ s, normal = Value.str s := by
    intro normal hnormal
    obtain ⟨item, hitem, hsame⟩ := exists_of_forall₂_right (mapM_eq_ok_iff_forall₂.mp hnormals) hnormal
    exact normalize_column (hitems item hitem) hsame
  obtain ⟨names, hmap⟩ : ∃ names : List String, normals = names.map .str := by
    clear h hnormals
    induction normals with
    | nil => exact ⟨[], rfl⟩
    | cons normal rest ih =>
      rw [List.forall_mem_cons] at hnames
      obtain ⟨⟨s, rfl⟩, hrest⟩ := hnames
      obtain ⟨names, rfl⟩ := ih hrest
      exact ⟨s :: names, rfl⟩
  exact ⟨names, congrArg Value.list hmap⟩

/-- The keyword arguments of a rule that can be called are parameters. -/
theorem hasParam_of_bound {rule : DQRule} {bound : List (String × Value)}
    (hbound : rule.boundArguments = .ok bound)
    (hown : ownArguments rule.checkFuncKwargs = rule.checkFuncKwargs) :
    ∀ entry ∈ rule.checkFuncKwargs, rule.func.hasParam entry.1 = true := by
  intro entry hentry
  have hcolumn : rule.checkFuncKwargs.lookup "column" = none := by
    rw [← hown, lookup_ownArguments]
    simp
  have hcolumns : rule.checkFuncKwargs.lookup "columns" = none := by
    rw [← hown, lookup_ownArguments]
    simp
  obtain ⟨args, -, hbind⟩ := bind_eq_ok.mp hbound
  have hkeywords : ¬(rule.buildKwargs.any fun entry => !rule.func.hasParam entry.1 ||
      (((rule.func.params.map Param.name).zip args).lookup entry.1).isSome) := by
    intro hany
    rw [CheckFunction.bindPartial] at hbind
    dsimp only at hbind
    rw [if_pos hany] at hbind
    split at hbind <;> cases hbind
  have hfound : (rule.checkFuncKwargs.lookup entry.1).isSome :=
    List.lookup_isSome_iff.mpr ⟨entry, hentry, by simp⟩
  have hne : entry.1 ≠ "column" ∧ entry.1 ≠ "columns" := by
    constructor
    · intro heq
      rw [heq, hcolumn] at hfound
      exact Bool.false_ne_true hfound
    · intro heq
      rw [heq, hcolumns] at hfound
      exact Bool.false_ne_true hfound
  have hkeyword : (rule.buildKwargs.lookup entry.1).isSome := by
    rw [DQRule.lookup_buildKwargs hcolumn hcolumns, if_neg hne.1, if_neg hne.2]
    split
    · rename_i hfilter
      rw [Option.isSome_map]
      exact hfilter.2.2
    · exact hfound
  obtain ⟨keyword, hmem, hname⟩ := List.lookup_isSome_iff.mp hkeyword
  by_contra hparam
  apply hkeywords
  refine List.any_eq_true.mpr ⟨keyword, hmem, ?_⟩
  obtain hname : entry.1 = keyword.1 := by simpa using hname
  have hnot : rule.func.hasParam keyword.1 = false := by
    rw [← hname]
    exact Bool.eq_false_of_not_eq_true hparam
  show (!rule.func.hasParam keyword.1 || _) = true
  rw [hnot]
  rfl

/-- Where all required parameters are bound, the normalized arguments hold for each parameter the
normal form of its value. -/
theorem Made.fullArgs_eq {env : Environment} {rule : DQRule} {bound fullArgs : List (String × Value)}
    (hmade : Made env rule) (hbound : rule.boundArguments = .ok bound)
    (hfull : mapValuesM (normalizeBoundArgs false) bound = .ok fullArgs)
    (hvalid : validateFuncArgs rule.func fullArgs = true) :
    rule.WellPlaced ∧ fullArgs = rule.func.params.filterMap fun param =>
      ((rule.callValue param.name).map (resultOf (normalizeBoundArgs false))).map
        fun value => (param.name, value) := by
  have hmap := mapValuesM_eq_map hfull
  have hrequired : ∀ name, rule.func.isOptionalArgument name = some false →
      (bound.lookup name).isSome := by
    intro name hoptional
    rw [CheckFunction.isOptionalArgument] at hoptional
    obtain ⟨param, hparam, hreq⟩ := Option.map_eq_some_iff.mp hoptional
    obtain rfl : param.name = name := by simpa using List.find?_some hparam
    have hmem := List.mem_of_find?_eq_some hparam
    rw [validateFuncArgs] at hvalid
    split at hvalid
    · exact absurd hvalid Bool.false_ne_true
    · rw [Bool.and_eq_true] at hvalid
      have hany := List.all_eq_true.mp hvalid.2 param hmem
      have hreq : param.required = true := by simpa using hreq
      rw [hreq, hmap] at hany
      have hsome : ∃ entry ∈ bound, entry.1 = param.name := by simpa using hany
      obtain ⟨entry, hentry, hname⟩ := hsome
      exact List.lookup_isSome_iff.mpr ⟨entry, hentry, by simp [hname]⟩
  have hplaced := DQRule.wellPlaced_of_bound hbound hmade.oneOf hmade.own hrequired
  refine ⟨hplaced, ?_⟩
  have hcall := hplaced.boundArguments hmade.own (hasParam_of_bound hbound hmade.own)
  obtain rfl := Except.ok.inj (hbound.symm.trans hcall)
  rw [hmap, List.map_filterMap]
  apply List.filterMap_congr
  intro param _
  cases rule.callValue param.name <;> rfl

theorem lookup_params {func : CheckFunction} {f : String → Option Value} (name : String) :
    (func.params.filterMap fun param =>
      (f param.name).map fun value => (param.name, value)).lookup name =
        if func.hasParam name then f name else none := by
  rw [lookup_filterMap func.params Param.name f]
  rfl

/-- The dictionary of a rule has the normal forms of the values that its call is given. -/
structure DictionaryOf (rule : DQRule) (fullArgs : List (String × Value)) : Prop where
  wellPlaced : rule.WellPlaced
  params : fullArgs = rule.func.params.filterMap fun param =>
    (fullArgs.lookup param.name).map fun value => (param.name, value)
  absent : ∀ name, rule.func.hasParam name = false ∨ rule.callValue name = none →
    fullArgs.lookup name = none
  present : ∀ name value, rule.func.hasParam name = true → rule.callValue name = some value →
    ∃ normal, normalizeBoundArgs false value = .ok normal ∧ fullArgs.lookup name = some normal

theorem Made.dictionaryOf {env : Environment} {rule : DQRule} {bound fullArgs : List (String × Value)}
    (hmade : Made env rule) (hbound : rule.boundArguments = .ok bound)
    (hfull : mapValuesM (normalizeBoundArgs false) bound = .ok fullArgs)
    (hvalid : validateFuncArgs rule.func fullArgs = true) : DictionaryOf rule fullArgs := by
  obtain ⟨hplaced, hargs⟩ := hmade.fullArgs_eq hbound hfull hvalid
  have hlookup : ∀ name, fullArgs.lookup name = if rule.func.hasParam name then
      (rule.callValue name).map (resultOf (normalizeBoundArgs false)) else none := by
    intro name
    rw [hargs]
    exact lookup_params (f := fun name =>
      (rule.callValue name).map (resultOf (normalizeBoundArgs false))) name
  refine ⟨hplaced, ?_, ?_, ?_⟩
  · refine hargs.trans (List.filterMap_congr fun param hparam => ?_)
    have hhas : rule.func.hasParam param.name = true :=
      List.any_eq_true.mpr ⟨param, hparam, by simp⟩
    rw [hlookup, if_pos hhas]
  · rintro name (hparam | hvalue)
    · rw [hlookup, if_neg (by simp [hparam])]
    · rw [hlookup, hvalue]
      split <;> rfl
  · intro name value hparam hvalue
    have hcall := hplaced.boundArguments hmade.own (hasParam_of_bound hbound hmade.own)
    obtain rfl := Except.ok.inj (hbound.symm.trans hcall)
    have hboundLookup : (rule.func.params.filterMap fun param =>
        (rule.callValue param.name).map fun value => (param.name, value)).lookup name =
          if rule.func.hasParam name then rule.callValue name else none := lookup_params name
    rw [if_pos hparam, hvalue] at hboundLookup
    have hnormals : Entries (fun value normal => normalizeBoundArgs false value = .ok normal) _
        fullArgs := mapValuesM_eq_ok_iff_forall₂.mp hfull
    rcases hnormals.lookup name with ⟨hnone, -⟩ | ⟨_, normal, hfound, hnormal, hsame⟩
    · rw [hboundLookup] at hnone
      cases hnone
    · obtain rfl := Option.some.inj (hboundLookup.symm.trans hfound)
      exact ⟨normal, hsame, hnormal⟩

namespace DictionaryOf

variable {env : Environment} {rule : DQRule} {fullArgs : List (String × Value)}

theorem column (h : DictionaryOf rule fullArgs) (hmade : Made env rule) :
    fullArgs.lookup "column" = none ∨
      rule.column.isSome ∧ ∃ s, fullArgs.lookup "column" = some (.str s) := by
  cases hparam : rule.func.hasParam "column" with
  | false => exact .inl (h.absent "column" (.inl hparam))
  | true =>
    cases hcolumn : rule.column with
    | none => exact .inl (h.absent "column" (.inr hcolumn))
    | some value =>
      obtain ⟨normal, hnormal, hlookup⟩ := h.present "column" value hparam hcolumn
      obtain ⟨s, rfl⟩ := normalize_column (hmade.column value hcolumn) hnormal
      exact .inr ⟨rfl, s, hlookup⟩

theorem columns (h : DictionaryOf rule fullArgs) (hmade : Made env rule) :
    fullArgs.lookup "columns" = none ∨ rule.columns.isSome ∧
      ∃ names : List String, fullArgs.lookup "columns" = some (.list (names.map .str)) := by
  cases hparam : rule.func.hasParam "columns" with
  | false => exact .inl (h.absent "columns" (.inl hparam))
  | true =>
    cases hcolumns : rule.columns with
    | none => exact .inl (h.absent "columns" (.inr (congrArg (Option.map Value.list) hcolumns)))
    | some items =>
      obtain ⟨normal, hnormal, hlookup⟩ := h.present "columns" (.list items) hparam
        (congrArg (Option.map Value.list) hcolumns)
      obtain ⟨names, rfl⟩ := normalize_columns (hmade.columns items hcolumns) hnormal
      exact .inr ⟨rfl, names, hlookup⟩

theorem serializedColumns (h : DictionaryOf rule fullArgs) (hmade : Made env rule) :
    (serializedRule rule fullArgs).columns.map Value.list = fullArgs.lookup "columns" := by
  rw [serializedRule]
  dsimp only
  rcases h.columns hmade with hnone | ⟨-, names, hnames⟩
  · rw [hnone]
    rfl
  · rw [hnames]
    rfl

theorem filterText_filterText (rule : DQRule) (fullArgs : List (String × Value)) :
    (serializedRule rule fullArgs).filterText = rule.filterText := by
  show (rule.filter.filter _).filter _ = rule.filter.filter _
  rw [Option.filter_filter]
  congr 1
  funext text
  exact Bool.and_self _

theorem callValue_serialized (h : DictionaryOf rule fullArgs) (hmade : Made env rule) {name : String}
    (hparam : rule.func.hasParam name = true) :
    (serializedRule rule fullArgs).callValue name = fullArgs.lookup name := by
  rw [DQRule.callValue, filterText_filterText]
  split
  · rename_i hname
    rw [hname]
    rfl
  · rename_i hcolumn
    split
    · rename_i hname
      rw [hname, h.serializedColumns hmade]
    · rename_i hcolumns
      split
      · rename_i hfilter
        obtain ⟨rfl, hsome⟩ := hfilter
        obtain ⟨text, htext⟩ := Option.isSome_iff_exists.mp hsome
        have hvalue : rule.callValue "row_filter" = some (.str text) := by
          simp [DQRule.callValue, htext]
        obtain ⟨normal, hnormal, hlookup⟩ := h.present "row_filter" (.str text) hparam hvalue
        cases hnormal
        rw [hlookup, htext]
        rfl
      · show (ownArguments fullArgs).lookup name = _
        rw [lookup_ownArguments, if_pos ⟨hcolumn, hcolumns⟩]

theorem wellPlaced_serialized (h : DictionaryOf rule fullArgs) :
    (serializedRule rule fullArgs).WellPlaced := by
  constructor
  · intro hoptional
    obtain ⟨hsome, hhead⟩ := h.wellPlaced.column hoptional
    obtain ⟨value, hvalue⟩ := Option.isSome_iff_exists.mp hsome
    obtain ⟨normal, -, hlookup⟩ := h.present "column" value
      (CheckFunction.hasParam_iff.mpr (.inr hoptional)) hvalue
    exact ⟨Option.isSome_iff_exists.mpr ⟨normal, hlookup⟩, hhead⟩
  · intro hoptional
    obtain ⟨⟨items, hitems, hne⟩, hhead⟩ := h.wellPlaced.columns hoptional
    obtain ⟨normal, hnormal, hlookup⟩ := h.present "columns" (.list items)
      (CheckFunction.hasParam_iff.mpr (.inr hoptional)) (congrArg (Option.map Value.list) hitems)
    rw [normalizeBoundArgs, normalizeItems_eq] at hnormal
    obtain ⟨normals, hnormals, rfl⟩ := map_eq_ok.mp hnormal
    refine ⟨⟨normals, ?_, ?_⟩, hhead⟩
    · rw [serializedRule]
      dsimp only
      rw [hlookup]
    · rintro rfl
      cases mapM_eq_ok_iff_forall₂.mp hnormals
      exact hne rfl

/-- The rule deserialized from the dictionary is bound to the arguments in it. -/
theorem boundArguments_serialized (h : DictionaryOf rule fullArgs) (hmade : Made env rule) :
    (serializedRule rule fullArgs).boundArguments = .ok fullArgs := by
  have hparams : ∀ entry ∈ (serializedRule rule fullArgs).checkFuncKwargs,
      (serializedRule rule fullArgs).func.hasParam entry.1 = true := by
    intro entry hentry
    have hmem : entry ∈ fullArgs := (List.mem_filter.mp hentry).1
    rw [h.params, List.mem_filterMap] at hmem
    obtain ⟨param, hparam, hvalue⟩ := hmem
    obtain ⟨_, -, rfl⟩ := Option.map_eq_some_iff.mp hvalue
    exact List.any_eq_true.mpr ⟨param, hparam, by simp⟩
  rw [h.wellPlaced_serialized.boundArguments (ownArguments_ownArguments fullArgs) hparams]
  congr 1
  refine Eq.trans (List.filterMap_congr fun param hparam => ?_) h.params.symm
  rw [h.callValue_serialized hmade (List.any_eq_true.mpr ⟨param, hparam, by simp⟩)]

theorem coerceColumn (h : DictionaryOf rule fullArgs) (hmade : Made env rule) :
    coerceColumn (fullArgs.lookup "column") = .ok (fullArgs.lookup "column") := by
  rcases h.column hmade with hnone | ⟨-, s, hs⟩
  · rw [hnone]
    rfl
  · rw [hs]
    rfl

theorem coerceColumns (h : DictionaryOf rule fullArgs) (hmade : Made env rule) :
    coerceColumns (fullArgs.lookup "columns") = .ok (serializedRule rule fullArgs).columns := by
  rw [serializedRule]
  dsimp only
  rcases h.columns hmade with hnone | ⟨-, names, hnames⟩
  · rw [hnone]
    rfl
  · have hitems : (names.map Value.str).mapM coerceColumnItem = .ok (names.map .str) := by
      apply mapM_fixed
      intro item hitem
      obtain ⟨name, -, rfl⟩ := List.mem_map.mp hitem
      rfl
    rw [hnames]
    show ((names.map Value.str).mapM coerceColumnItem).map some = _
    rw [hitems]
    rfl

theorem assertOneOf (h : DictionaryOf rule fullArgs) (hmade : Made env rule) :
    assertOneOf (fullArgs.lookup "column") (fullArgs.lookup "columns") = .ok () := by
  rcases h.column hmade with hnone | ⟨hcolumn, s, hs⟩
  · rw [hnone]
    rfl
  · have hnone : fullArgs.lookup "columns" = none := by
      rcases h.columns hmade with hnone | ⟨hcolumns, -⟩
      · exact hnone
      · exact absurd ⟨hcolumn, hcolumns⟩ hmade.oneOf
    rw [hs, hnone]
    show (if decide (s ≠ "") = true then _ else _) = _
    split <;> rfl

end DictionaryOf

theorem metadataEntries_metadataValue (rule : DQRule) :
    metadataEntries (metadataValue rule) =
      .ok (rule.userMetadata.filter fun entries => !entries.isEmpty) := by
  rw [metadataValue]
  cases rule.userMetadata with
  | none => rfl
  | some entries =>
    cases entries with
    | nil => rfl
    | cons entry entries =>
      show (stringEntries (.dict (keyed (entry :: entries)))).map some = _
      rw [stringEntries_eq_ok_iff.mpr rfl]
      rfl

/-- A serializable rule with a fingerprint comes back from its dictionary with the same one. -/
theorem serialized_ruleFingerprint {env : Environment} {rule : DQRule} {fingerprint : String}
    (hmade : Made env rule) (hserializable : Serializable env rule)
    (h : rule.ruleFingerprint env = .ok fingerprint) : ∃ check rule',
      rule.toDict = .ok check ∧ deserializeChecks env [check] = .ok [rule'] ∧
      rule'.ruleFingerprint env = .ok fingerprint := by
  obtain ⟨bound, fullArgs, documents, hbound, hfull, hdocuments, hmetadata, rfl⟩ :=
    of_ruleFingerprint_eq_ok h
  obtain ⟨hresolve, hvalid, conditionName, hcondition, hname⟩ := hserializable bound fullArgs hbound hfull
  have hdict := hmade.dictionaryOf hbound hfull hvalid
  have hbound' := hdict.boundArguments_serialized hmade
  have hmetadata' : ∀ entries, (serializedRule rule fullArgs).userMetadata = some entries →
      ∃ normals, mapValuesM (normalizeBoundArgs true) entries = .ok normals :=
    fun entries hentries => hmetadata entries (Option.filter_eq_some_iff.mp hentries).1
  have hfull' : mapValuesM (normalizeBoundArgs false) fullArgs = .ok fullArgs := by
    apply mapValuesM_fixed
    intro entry hentry
    obtain ⟨source, -, -, hsource⟩ :=
      exists_of_forall₂_right (mapValuesM_eq_ok_iff_forall₂.mp hfull) hentry
    exact normalize_normalized hsource
  let spec : CheckSpec := {
    name := some rule.name, criticality := rule.criticality, func := rule.func,
    functionName := rule.func.name, arguments := fullArgs, forEachColumn := none,
    filter := rule.filterText,
    userMetadata := rule.userMetadata.filter fun entries => !entries.isEmpty,
    messageExpr := rule.messageExpr }
  have hspec : validateCheck env (ruleCheck rule fullArgs (metadataValue rule)) = .ok spec := by
    refine validateCheck_eq_ok_iff.mpr ⟨fullArgs, _, rule.func, stringEntries_eq_ok_iff.mpr rfl,
      metadataEntries_metadataValue rule, ?_, hresolve, ?_, rfl⟩
    · rintro (hempty | hcriticality)
      · exact Bool.false_ne_true hempty
      · exact hcriticality hmade.criticality
    · show ([fullArgs].all _) = true
      rw [List.all_cons, hvalid]
      rfl
  refine ⟨_, serializedRule rule fullArgs, toDict_eq hbound hfull, deserializeChecks_single hspec ?_,
    ?_⟩
  · have hmake : makeRule env spec ((env.checkFuncRegistry spec.functionName).getD .row)
        (fullArgs.lookup "column") (fullArgs.lookup "columns") (ownArguments fullArgs) =
          .ok (serializedRule rule fullArgs) := by
      refine makeRule_eq_ok_iff.mpr ⟨_, _, fullArgs, conditionName, hdict.coerceColumn hmade,
        hdict.coerceColumns hmade, ?_, ?_, hbound', hcondition, hmade.parses⟩
      · rintro (hregistered | ⟨hcolumn, hcolumns⟩)
        · cases hregistry : env.checkFuncRegistry rule.func.name with
          | none => simp [spec, hregistry] at hregistered
          | some ruleType => simp [spec, hregistry] at hregistered
        · rcases hdict.column hmade with hnone | ⟨hcolumnGiven, -⟩
          · rw [hnone] at hcolumn
            exact Bool.false_ne_true hcolumn
          · rw [← Option.isSome_map (f := Value.list), hdict.serializedColumns hmade] at hcolumns
            rcases hdict.columns hmade with hnone | ⟨hcolumnsGiven, -⟩
            · rw [hnone] at hcolumns
              exact Bool.false_ne_true hcolumns
            · exact hmade.oneOf ⟨hcolumnGiven, hcolumnsGiven⟩
      · rw [serializedRule, ruleName]
        by_cases hempty : rule.name = ""
        · simp [spec, hempty, hname hempty]
        · simp [spec, hempty]
    show specRules env spec = _
    rw [specRules, hdict.assertOneOf hmade]
    show (makeRule env spec _ (fullArgs.lookup "column") (fullArgs.lookup "columns")
      (ownArguments fullArgs)).map _ = _
    rw [hmake]
    rfl
  · rw [ruleFingerprint_eq hbound' hfull' hdocuments hmetadata']
    show Except.ok (env.sha256 (ruleDocument _ documents)) = _
    rw [ruleDocument, DictionaryOf.filterText_filterText]
    rfl

theorem serialized_fingerprints {env : Environment} {rules : List DQRule} {fingerprints : List String}
    (hmade : ∀ rule ∈ rules, Made env rule) (hserializable : ∀ rule ∈ rules, Serializable env rule)
    (h : rules.mapM (DQRule.ruleFingerprint env) = .ok fingerprints) : ∃ checks rules',
      serialize rules = .ok checks ∧ deserializeChecks env checks = .ok rules' ∧
      rules'.mapM (DQRule.ruleFingerprint env) = .ok fingerprints := by
  induction rules generalizing fingerprints with
  | nil => exact ⟨[], [], rfl, rfl, h⟩
  | cons rule rest ih =>
    rw [List.forall_mem_cons] at hmade hserializable
    obtain ⟨fingerprint, others, hfingerprint, hothers, rfl⟩ := mapM_cons_eq_ok.mp h
    obtain ⟨check, rule', hcheck, hrule', hsame⟩ :=
      serialized_ruleFingerprint hmade.1 hserializable.1 hfingerprint
    obtain ⟨checks, rules', hchecks, hrules', hsames⟩ := ih hmade.2 hserializable.2 hothers
    exact ⟨check :: checks, [rule'] ++ rules', mapM_cons_eq_ok.mpr ⟨_, _, hcheck, hchecks, rfl⟩,
      deserializeChecks_append hrule' hrules', mapM_cons_eq_ok.mpr ⟨_, _, hsame, hsames, rfl⟩⟩

/-- The check functions are found under their own names. -/
def OwnNames (env : Environment) : Prop :=
  ∀ name func, env.resolveCheckFunction name = some func →
    env.resolveCheckFunction func.name = some func

theorem deserializeChecks_resolved {env : Environment} {checks : List Check} {rules : List DQRule}
    (hnames : OwnNames env) (h : deserializeChecks env checks = .ok rules) :
    ∀ rule ∈ rules, env.resolveCheckFunction rule.func.name = some rule.func := by
  obtain ⟨groups, rfl, hgroups⟩ := deserializeChecks_eq_ok_iff.mp h
  intro rule hrule
  obtain ⟨group, hgroup, hmem⟩ := List.mem_flatten.mp hrule
  obtain ⟨check, -, spec, hspec, hrules⟩ := exists_of_forall₂_right hgroups hgroup
  obtain ⟨_, _, func, -, -, -, hfunc, -, rfl⟩ := validateCheck_eq_ok_iff.mp hspec
  obtain ⟨_, _, _, _, hmade⟩ := specRules_made hrules rule hmem
  obtain ⟨_, _, _, _, -, -, -, rfl, -⟩ := makeRule_eq_ok_iff.mp hmade
  exact hnames _ func hfunc

/-- A rule that has a name and whose dictionary deserializes is serializable. -/
theorem serializable_of_deserialized {env : Environment} {rule : DQRule} {check : Check}
    {rules' : List DQRule} (hresolve : env.resolveCheckFunction rule.func.name = some rule.func)
    (hmade : Made env rule) (hname : rule.name ≠ "") (hcheck : rule.toDict = .ok check)
    (h : deserializeChecks env [check] = .ok rules') : Serializable env rule := by
  intro bound fullArgs hbound hfull
  obtain rfl := Except.ok.inj ((toDict_eq hbound hfull).symm.trans hcheck)
  obtain ⟨spec, hspec, hrules⟩ := deserializeChecks_singleton.mp h
  obtain ⟨arguments, _, func, harguments, -, -, hfunc, hvalid, rfl⟩ := validateCheck_eq_ok_iff.mp hspec
  obtain rfl := Option.some.inj (hresolve.symm.trans hfunc)
  obtain rfl : fullArgs = arguments :=
    Except.ok.inj ((stringEntries_eq_ok_iff.mpr rfl).symm.trans harguments)
  have hvalid : validateFuncArgs rule.func fullArgs = true := by
    have hall : ([fullArgs].all (validateFuncArgs rule.func)) = true := hvalid
    rwa [List.all_cons, List.all_nil, Bool.and_true] at hall
  refine ⟨hresolve, hvalid, ?_⟩
  have hdict := hmade.dictionaryOf hbound hfull hvalid
  obtain ⟨_, -, hmake⟩ := bind_eq_ok.mp hrules
  obtain ⟨rule', hrule', -⟩ := map_eq_ok.mp hmake
  obtain ⟨column, columns, bound', conditionName, hcolumn, hcolumns, -, rfl, hbound', hcondition,
    -⟩ := makeRule_eq_ok_iff.mp hrule'
  obtain rfl := Except.ok.inj ((hdict.coerceColumn hmade).symm.trans hcolumn)
  obtain rfl := Except.ok.inj ((hdict.coerceColumns hmade).symm.trans hcolumns)
  have hsame : bound' = fullArgs := by
    apply Except.ok.inj (hbound'.symm.trans _)
    exact hdict.boundArguments_serialized hmade
  exact ⟨conditionName, hsame ▸ hcondition, fun hempty => absurd hempty hname⟩

end Dqx.Checks
