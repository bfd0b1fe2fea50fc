import Dqx.Checks.Deserialize
import Dqx.Lib.Entries
import Mathlib.Data.List.Flatten

/-! Checks that make the same rules: the same checks in another order, the columns of a check for
each column in another order, and the single-column checks of such a check. -/

namespace Dqx.Checks

open Lib Value

/-- Permuted checks deserialize to permuted rules. -/
theorem deserializeChecks_perm {env : Environment} {checks checks' : List Check}
    {rules : List DQRule} (hperm : checks'.Perm checks)
    (h : deserializeChecks env checks = .ok rules) :
    ∃ rules', deserializeChecks env checks' = .ok rules' ∧ rules'.Perm rules := by
  obtain ⟨groups, rfl, hgroups⟩ := deserializeChecks_eq_ok_iff.mp h
  obtain ⟨groups', hgroups', hpermGroups⟩ := List.perm_comp_forall₂ hperm hgroups
  exact ⟨groups'.flatten, deserializeChecks_eq_ok_iff.mpr ⟨groups', rfl, hgroups'⟩,
    hpermGroups.flatten⟩

/-- Some checks make the rules of a check, in some order. -/
def MakeRulesOf (env : Environment) (check : Check) (checks : List Check) : Prop :=
  ∀ rules, deserializeChecks env [check] = .ok rules →
    ∃ rules', deserializeChecks env checks = .ok rules' ∧ rules'.Perm rules

theorem deserializeChecks_append {env : Environment} {checks checks' : List Check}
    {rules rules' : List DQRule} (h : deserializeChecks env checks = .ok rules)
    (h' : deserializeChecks env checks' = .ok rules') :
    deserializeChecks env (checks ++ checks') = .ok (rules ++ rules') := by
  obtain ⟨groups, rfl, hgroups⟩ := deserializeChecks_eq_ok_iff.mp h
  obtain ⟨groups', rfl, hgroups'⟩ := deserializeChecks_eq_ok_iff.mp h'
  exact deserializeChecks_eq_ok_iff.mpr
    ⟨groups ++ groups', List.flatten_append.symm, List.rel_append hgroups hgroups'⟩

/-- Checks can be replaced, each by checks that make its rules. -/
theorem deserializeChecks_replaced {env : Environment} {checks : List Check}
    {groups : List (List Check)} {rules : List DQRule}
    (hgroups : List.Forall₂ (MakeRulesOf env) checks groups)
    (h : deserializeChecks env checks = .ok rules) :
    ∃ rules', deserializeChecks env groups.flatten = .ok rules' ∧ rules'.Perm rules := by
  obtain ⟨made, rfl, hmade⟩ := deserializeChecks_eq_ok_iff.mp h
  clear h
  induction hgroups generalizing made with
  | nil =>
    cases hmade
    exact ⟨[], rfl, .refl _⟩
  | cons hgroup _ ih =>
    cases hmade with
    | cons hcheck hrest =>
      obtain ⟨spec, hspec, hrules⟩ := hcheck
      obtain ⟨rules', hrules', hperm⟩ := hgroup _ (deserializeChecks_single hspec hrules)
      obtain ⟨others, hothers, hpermOthers⟩ := ih _ hrest
      exact ⟨rules' ++ others, deserializeChecks_append hrules' hothers, hperm.append hpermOthers⟩

theorem makeRulesOf_self (env : Environment) (check : Check) : MakeRulesOf env check [check] :=
  fun rules h => ⟨rules, h, .refl _⟩

/-- The columns of a check for each column in another order. -/
def ColumnsPermuted (check check' : Check) : Prop :=
  ∃ columns', Option.Rel List.Perm columns' check.check.forEachColumn ∧
    check' = { check with check := { check.check with forEachColumn := columns' } }

theorem specRules_columns_perm {env : Environment} {spec : CheckSpec} {items items' : List Value}
    {rules : List DQRule} (hitems : spec.forEachColumn = some items) (hperm : items'.Perm items)
    (h : specRules env spec = .ok rules) :
    ∃ rules', specRules env { spec with forEachColumn := some items' } = .ok rules' ∧
      rules'.Perm rules := by
  obtain ⟨_, hone, hrules⟩ := bind_eq_ok.mp h
  rw [hitems] at hrules
  obtain ⟨rules', hrules', hpermRules⟩ := mapM_perm hperm hrules
  refine ⟨rules', ?_, hpermRules⟩
  rw [specRules, hone]
  exact hrules'

theorem validateCheck_columns_perm {env : Environment} {check : Check} {spec : CheckSpec}
    {items items' : List Value} (hitems : check.check.forEachColumn = some items)
    (hperm : items'.Perm items) (h : validateCheck env check = .ok spec) :
    validateCheck env { check with check := { check.check with forEachColumn := some items' } } =
      .ok { spec with forEachColumn := some items' } := by
  obtain ⟨arguments, userMetadata, func, harguments, hmetadata, hfields, hfunc, hvalid, rfl⟩ :=
    validateCheck_eq_ok_iff.mp h
  rw [hitems] at hfields hvalid
  refine validateCheck_eq_ok_iff.mpr
    ⟨arguments, userMetadata, func, harguments, hmetadata, ?_, hfunc, ?_, rfl⟩
  · rintro (hempty | hcriticality)
    · obtain rfl : items' = [] := List.isEmpty_iff.mp hempty
      obtain rfl : items = [] := hperm.nil_eq.symm
      exact hfields (.inl rfl)
    · exact hfields (.inr hcriticality)
  · have hall : (effectiveArguments func arguments (some items')).Perm
        (effectiveArguments func arguments (some items)) := hperm.map _
    rw [validateCheckFunctionArguments, List.all_eq_true] at hvalid ⊢
    exact fun effective heffective => hvalid effective (hall.subset heffective)

theorem makeRulesOf_columnsPermuted {env : Environment} {check check' : Check}
    (h : ColumnsPermuted check check') : MakeRulesOf env check [check'] := by
  obtain ⟨columns', hrel, rfl⟩ := h
  intro rules hrules
  cases hcolumns : check.check.forEachColumn with
  | none =>
    rw [hcolumns] at hrel
    cases hrel
    refine ⟨rules, ?_, .refl _⟩
    rw [← hcolumns]
    exact hrules
  | some items =>
    rw [hcolumns] at hrel
    cases hrel with
    | @some items' _ hperm =>
      obtain ⟨spec, hspec, hgroup⟩ := deserializeChecks_singleton.mp hrules
      have hspecColumns : spec.forEachColumn = some items := by
        obtain ⟨_, _, _, -, -, -, -, -, rfl⟩ := validateCheck_eq_ok_iff.mp hspec
        exact hcolumns
      obtain ⟨rules', hrules', hpermRules⟩ := specRules_columns_perm hspecColumns hperm hgroup
      exact ⟨rules', deserializeChecks_single (validateCheck_columns_perm hcolumns hperm hspec)
        hrules', hpermRules⟩

/-- The argument under which a check takes an element of `for_each_column`. -/
def columnField : Value → String
  | .list _ => "columns"
  | .tuple _ => "columns"
  | .set _ => "columns"
  | _ => "column"

/-- The arguments of a check other than its column or columns. -/
def ownArguments {α : Type} (arguments : List (String × α)) : List (String × α) :=
  arguments.filter fun (name, _) => name ≠ "column" ∧ name ≠ "columns"

/-- The check of a single element of `for_each_column`. -/
def singleColumnCheck (check : Check) (arguments : List (String × Value)) (item : Value) : Check :=
  { check with check := { check.check with
      arguments := some (.dict (keyed (ownArguments arguments ++ [(columnField item, item)])))
      forEachColumn := none } }

/-- A check for each column as the list of its single-column checks. -/
def Expanded (check : Check) (checks : List Check) : Prop :=
  ∃ arguments items, argumentEntries check.check.arguments = .ok arguments ∧
    check.check.forEachColumn = some items ∧ checks = items.map (singleColumnCheck check arguments)

/-- A check for each column whose single-column checks are valid: its function takes each element as
`column`, or as `columns` where it is a group, no element is a column expression, whose truth value
is asked for when it is an argument, and the function is not registered under another type. -/
def Expandable (env : Environment) (check : Check) : Prop :=
  ∀ func arguments items, env.resolveCheckFunction check.check.function = some func →
    argumentEntries check.check.arguments = .ok arguments →
    check.check.forEachColumn = some items → ∀ item ∈ items,
      (∃ b, truthy item = .ok b) ∧
      validateFuncArgs func (ownArguments arguments ++ [(columnField item, item)]) = true ∧
      ¬(env.checkFuncRegistry func.name).any
        (· ≠ (env.checkFuncRegistry check.check.function).getD .row)

theorem ownArguments_single (arguments : List (String × Value)) (item : Value) :
    ownArguments (ownArguments arguments ++ [(columnField item, item)]) =
      ownArguments arguments := by
  have hfield : columnField item = "column" ∨ columnField item = "columns" := by
    cases item <;> simp [columnField]
  rw [ownArguments, List.filter_append, ownArguments, List.filter_filter]
  have hnone : ([(columnField item, item)].filter fun entry =>
      decide (entry.1 ≠ "column" ∧ entry.1 ≠ "columns")) = [] := by
    rcases hfield with h | h <;> simp [h]
  rw [hnone, List.append_nil]
  simp

theorem lookup_ownArguments {α : Type} (arguments : List (String × α)) (name : String) :
    (ownArguments arguments).lookup name =
      if name ≠ "column" ∧ name ≠ "columns" then arguments.lookup name else none := by
  have hfilter := @lookup_filter_key _ _ _ _ arguments
    (fun name => decide (name ≠ "column" ∧ name ≠ "columns")) name
  simpa only [decide_eq_true_eq, ownArguments] using hfilter

/-- The fields of an element, and the arguments of its single-column check. -/
theorem forEachFields_cases {item : Value} {column columns : Option Value}
    (h : forEachFields item = .ok (column, columns)) :
    (columnField item = "column" ∧ column = some item ∧ columns = none) ∨
      (columnField item = "columns" ∧ column = none ∧
        coerceColumns (some item) = coerceColumns columns) := by
  cases item with
  | null => cases h
  | list items =>
    cases h
    exact .inr ⟨rfl, rfl, rfl⟩
  | tuple items =>
    cases h
    exact .inr ⟨rfl, rfl, rfl⟩
  | set items =>
    cases h
    exact .inr ⟨rfl, rfl, rfl⟩
  | _ =>
    cases h
    exact .inl ⟨rfl, rfl, rfl⟩

theorem lookup_single (arguments : List (String × Value)) (item : Value) (name : String)
    (hname : name = "column" ∨ name = "columns") :
    (ownArguments arguments ++ [(columnField item, item)]).lookup name =
      if name = columnField item then some item else none := by
  have hown : (ownArguments arguments).lookup name = none := by
    rw [lookup_ownArguments, if_neg]
    rintro ⟨hcolumn, hcolumns⟩
    exact hname.elim hcolumn hcolumns
  rw [List.lookup_append, hown, Option.none_or]
  by_cases hfield : name = columnField item
  · simp [hfield]
  · simp [hfield]

/-- The rule of a single-column check is the rule of the element. -/
theorem specRules_single {env : Environment} {spec : CheckSpec} {item : Value} {rule : DQRule}
    {column columns : Option Value} (hfields : forEachFields item = .ok (column, columns))
    (hrule : makeRule env spec ((env.checkFuncRegistry spec.func.name).getD .row) column columns
      (ownArguments spec.arguments) = .ok rule)
    (htruthy : ∃ b, truthy item = .ok b)
    (hregistered : ¬(env.checkFuncRegistry spec.func.name).any
      (· ≠ (env.checkFuncRegistry spec.functionName).getD .row)) :
    specRules env { spec with
      arguments := ownArguments spec.arguments ++ [(columnField item, item)]
      forEachColumn := none } = .ok [rule] := by
  obtain ⟨column', columns', bound, conditionName, hcolumn, hcolumns, hvalid, hmade, hbound,
    hcondition, hparses⟩ := makeRule_eq_ok_iff.mp hrule
  let single : CheckSpec := { spec with
    arguments := ownArguments spec.arguments ++ [(columnField item, item)]
    forEachColumn := none }
  have hmake : ∀ columns'', coerceColumns columns'' = coerceColumns columns →
      makeRule env single ((env.checkFuncRegistry spec.functionName).getD .row) column columns''
        (ownArguments spec.arguments) = .ok rule := by
    intro columns'' hsame
    refine makeRule_eq_ok_iff.mpr ⟨column', columns', bound, conditionName, hcolumn,
      hsame.trans hcolumns, ?_, hmade, hbound, hcondition, hparses⟩
    rintro (hregistry | hboth)
    · exact hregistered hregistry
    · exact hvalid (.inr hboth)
  have hown : ownArguments single.arguments = ownArguments spec.arguments :=
    ownArguments_single spec.arguments item
  have hlookup : ∀ name, name = "column" ∨ name = "columns" → single.arguments.lookup name =
      if name = columnField item then some item else none := lookup_single spec.arguments item
  -- what the arguments give as column and columns, and that only one of them is given
  obtain ⟨columns'', hlookupColumn, hlookupColumns, hone, hsame⟩ : ∃ columns'',
      single.arguments.lookup "column" = column ∧ single.arguments.lookup "columns" = columns'' ∧
      assertOneOf column columns'' = .ok () ∧ coerceColumns columns'' = coerceColumns columns := by
    rcases forEachFields_cases hfields with ⟨hfield, rfl, rfl⟩ | ⟨hfield, rfl, hsame⟩
    · refine ⟨none, ?_, ?_, ?_, rfl⟩
      · exact (hlookup "column" (.inl rfl)).trans (if_pos hfield.symm)
      · exact (hlookup "columns" (.inr rfl)).trans (if_neg (hfield ▸ by decide))
      · obtain ⟨b, hb⟩ := htruthy
        show (truthy item >>= fun given => if given then _ else _) = _
        rw [hb]
        cases b <;> rfl
    · refine ⟨some item, ?_, ?_, rfl, hsame⟩
      · exact (hlookup "column" (.inl rfl)).trans (if_neg (hfield ▸ by decide))
      · exact (hlookup "columns" (.inr rfl)).trans (if_pos hfield.symm)
  show specRules env single = _
  rw [specRules, hlookupColumn, hlookupColumns, hone]
  show (makeRule env single _ column columns'' (ownArguments single.arguments)).map _ = _
  rw [hown, hmake columns'' hsame]
  rfl

theorem validateCheck_single {env : Environment} {check : Check} {spec : CheckSpec} {item : Value}
    (hspec : validateCheck env check = .ok spec)
    (hsingle : validateFuncArgs spec.func
      (ownArguments spec.arguments ++ [(columnField item, item)]) = true) :
    validateCheck env (singleColumnCheck check spec.arguments item) = .ok { spec with
      arguments := ownArguments spec.arguments ++ [(columnField item, item)]
      forEachColumn := none } := by
  obtain ⟨arguments, userMetadata, func, -, hmetadata, hfields, hfunc, -, rfl⟩ :=
    validateCheck_eq_ok_iff.mp hspec
  refine validateCheck_eq_ok_iff.mpr ⟨_, userMetadata, func, stringEntries_eq_ok_iff.mpr rfl,
    hmetadata, ?_, hfunc, ?_, rfl⟩
  · rintro (hempty | hcriticality)
    · exact Bool.false_ne_true hempty
    · exact hfields (.inr hcriticality)
  · rw [validateCheckFunctionArguments]
    show ([_].all _) = true
    rw [List.all_cons, hsingle]
    rfl

/-- The single-column checks of an expandable check make its rules. -/
theorem makeRulesOf_expanded {env : Environment} {check : Check} {checks : List Check}
    (hexpand : Expandable env check) (h : Expanded check checks) :
    MakeRulesOf env check checks := by
  obtain ⟨arguments, items, harguments, hitems, rfl⟩ := h
  intro rules hrules
  obtain ⟨spec, hspec, hgroup⟩ := deserializeChecks_singleton.mp hrules
  obtain ⟨arguments', userMetadata, func, harguments', hmetadata, hfields, hfunc, hvalid, rfl⟩ :=
    validateCheck_eq_ok_iff.mp hspec
  obtain rfl : arguments = arguments' := Except.ok.inj (harguments.symm.trans harguments')
  refine ⟨rules, ?_, .refl _⟩
  obtain ⟨_, -, hmade⟩ := bind_eq_ok.mp hgroup
  dsimp only at hmade
  rw [hitems] at hmade
  have hforall := mapM_eq_ok_iff_forall₂.mp hmade
  have hflatten : rules = (rules.map fun rule => [rule]).flatten :=
    (List.flatMap_singleton' rules).symm
  refine deserializeChecks_eq_ok_iff.mpr ⟨_, hflatten, ?_⟩
  rw [List.forall₂_map_left_iff, List.forall₂_map_right_iff]
  refine List.Forall₂.imp ?_ ((List.forall₂_and_left items rules).mpr ⟨fun _ hitem => hitem, hforall⟩)
  rintro item rule ⟨hitem, hrule⟩
  obtain ⟨⟨column, columns⟩, hfields, hrule⟩ := bind_eq_ok.mp hrule
  obtain ⟨htruthy, hsingle, hregistered⟩ := hexpand func arguments items hfunc harguments hitems item
    hitem
  exact ⟨_, validateCheck_single hspec hsingle, specRules_single hfields hrule htruthy hregistered⟩

/-- The single-column checks of a check for each column, and any other check as it is. -/
def expansion (check : Check) : List Check :=
  match argumentEntries check.check.arguments, check.check.forEachColumn with
  | .ok arguments, some items => items.map (singleColumnCheck check arguments)
  | _, _ => [check]

theorem expansion_cases (check : Check) : expansion check = [check] ∨ Expanded check (expansion check) := by
  cases harguments : argumentEntries check.check.arguments with
  | error e => exact .inl (by simp [expansion, harguments])
  | ok arguments =>
    cases hitems : check.check.forEachColumn with
    | none => exact .inl (by simp [expansion, harguments, hitems])
    | some items =>
      refine .inr ⟨arguments, items, harguments, hitems, ?_⟩
      simp [expansion, harguments, hitems]

/-- A check whose single-column checks deserialize is expandable. -/
theorem expandable_of_expansion {env : Environment} {check : Check}
    (h : ∀ single ∈ expansion check, ∃ rules, deserializeChecks env [single] = .ok rules) :
    Expandable env check := by
  intro func arguments items hfunc harguments hitems item hitem
  obtain ⟨rules, hrules⟩ := h (singleColumnCheck check arguments item) (by
    rw [expansion, harguments, hitems]
    exact List.mem_map_of_mem hitem)
  obtain ⟨spec, hspec, hmade⟩ := deserializeChecks_singleton.mp hrules
  obtain ⟨arguments', _, func', harguments', -, -, hfunc', hvalid, rfl⟩ :=
    validateCheck_eq_ok_iff.mp hspec
  obtain rfl := Option.some.inj (hfunc.symm.trans hfunc')
  obtain rfl : ownArguments arguments ++ [(columnField item, item)] = arguments' :=
    Except.ok.inj ((stringEntries_eq_ok_iff.mpr rfl).symm.trans harguments')
  obtain ⟨_, hone, hmake⟩ := bind_eq_ok.mp hmade
  obtain ⟨rule, hrule, -⟩ := map_eq_ok.mp hmake
  obtain ⟨_, _, _, _, -, -, hregistered, -⟩ := makeRule_eq_ok_iff.mp hrule
  refine ⟨?_, ?_, fun hany => hregistered (.inl hany)⟩
  · dsimp only at hone
    by_cases hfield : columnField item = "column"
    · rw [lookup_single _ _ _ (.inl rfl), if_pos hfield.symm] at hone
      obtain ⟨b, hb, -⟩ := bind_eq_ok.mp hone
      exact ⟨b, hb⟩
    · cases item with
      | list items => exact ⟨_, rfl⟩
      | tuple items => exact ⟨_, rfl⟩
      | set items => exact ⟨_, rfl⟩
      | _ => exact absurd rfl hfield
  · have hall : ([ownArguments arguments ++ [(columnField item, item)]].all
        (validateFuncArgs func)) = true := hvalid
    rwa [List.all_cons, List.all_nil, Bool.and_true] at hall

end Dqx.Checks
