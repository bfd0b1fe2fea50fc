import Dqx.Checks.DataFrameConverter
import Dqx.Checks.Deserialize
import Dqx.Lib.Entries

/-! Rules and the rules read back for them. When the stored form of the arguments keeps their
fingerprints, so does that of the rule. -/

namespace Dqx.Checks

open Lib Value

/-- The stored form of dictionary entries: their normal forms, and their documents. -/
theorem entries_documents {entries entries' : List (String × Value)}
    (h : Entries ReadBack entries entries') :
    ∃ normals docs, mapValuesM (normalizeBoundArgs true) entries = .ok normals ∧
      mapValuesM (dumps false) normals = .ok docs ∧
      Entries (fun j value' => denormalizeValue (Json.loads j) = .ok value') docs entries' := by
  induction h with
  | nil => exact ⟨[], [], rfl, rfl, .nil⟩
  | @cons entry entry' entries entries' hentry _ ih =>
    obtain ⟨hkey, normal, j, hnormal, hj, hread⟩ := hentry
    obtain ⟨normals, docs, hnormals, hdocs, hreads⟩ := ih
    exact ⟨(entry.1, normal) :: normals, (entry.1, j) :: docs,
      mapValuesM_cons_eq_ok.mpr ⟨_, _, hnormal, hnormals, rfl⟩,
      mapValuesM_cons_eq_ok.mpr ⟨_, _, hj, hdocs, rfl⟩, .cons ⟨hkey, hread⟩ hreads⟩

/-- A dictionary is read back entry by entry, unless it reads as a decimal. -/
theorem denormalizeValue_dict {docs : List (String × Json)} {entries' : List (String × Value)}
    (h : Entries (fun j value' => denormalizeValue (Json.loads j) = .ok value') docs entries')
    (hkeys : entries'.map Prod.fst ≠ ["__decimal__"]) :
    denormalizeValue (.dict (docs.map fun field => (Key.str field.1, field.2.loads))) =
      .ok (.dict (keyed entries')) := by
  have hmarked : Json.markedItem docs = none := by
    by_contra hne
    obtain ⟨item, hitem⟩ := Option.ne_none_iff_exists'.mp hne
    apply hkeys
    rw [← h.keys_eq, Json.eq_of_markedItem hitem]
    rfl
  have hread : mapValuesM denormalizeValue
      (docs.map fun field => (Key.str field.1, field.2.loads)) = .ok (keyed entries') := by
    rw [mapValuesM_eq_ok_iff_forall₂, keyed, List.forall₂_map_left_iff, List.forall₂_map_right_iff]
    exact h.imp fun _ _ h => ⟨congrArg Key.str h.1, h.2⟩
  rw [denormalizeValue, Json.markedDecimal_loads, hmarked, Option.map_none]
  show (denormalizeEntries _).map Value.dict = _
  rw [denormalizeEntries_eq, hread]
  rfl

theorem dumpsMap_keyed {normals : List (String × Value)} {docs : List (String × Json)}
    (h : mapValuesM (dumps false) normals = .ok docs) :
    dumpsMap (.dict (keyed normals)) =
      .ok (docs.map fun field => (field.1, MapValue.document field.2)) := by
  rw [dumpsMap, stringEntries_eq_ok_iff.mpr rfl]
  show mapValuesM (fun item => (dumps false item).map MapValue.document) normals = _
  rw [mapValuesM_eq_ok_iff_forall₂] at h ⊢
  rw [List.forall₂_map_right_iff]
  exact h.imp fun _ _ h => ⟨h.1, by rw [h.2]; rfl⟩

/-- The rules of a check and of the check read back for it: the same in all that counts for the
fingerprint, with the arguments read back. -/
structure RuleReadBack (rule rule' : DQRule) : Prop where
  func : rule'.func = rule.func
  name : rule'.name = rule.name
  criticality : rule'.criticality = rule.criticality
  filter : rule'.filter = rule.filter
  messageExpr : rule'.messageExpr = rule.messageExpr
  column : Option.Rel ReadBack rule.column rule'.column
  columns : Option.Rel (fun items items' => ReadBack (.list items) (.list items') ∧
    (items = [] ↔ items' = [])) rule.columns rule'.columns
  kwargs : Entries ReadBack rule.checkFuncKwargs rule'.checkFuncKwargs
  metadata : ∀ entries, rule.userMetadata = some entries →
    ∃ normals, mapValuesM (normalizeBoundArgs true) entries = .ok normals
  metadata' : ∀ entries, rule'.userMetadata = some entries →
    ∃ normals, mapValuesM (normalizeBoundArgs true) entries = .ok normals

theorem entries_setArgument {r : Value → Value → Prop} {xs ys : List (String × Value)}
    {x y : Value} (h : Entries r xs ys) (name : String) (hxy : r x y) :
    Entries r (setArgument xs name x) (setArgument ys name y) := by
  rw [Checks.setArgument, Checks.setArgument, h.any_key fun key => key = name]
  split
  · rw [Entries, List.forall₂_map_left_iff, List.forall₂_map_right_iff]
    apply List.Forall₂.imp _ h
    rintro ⟨key, a⟩ ⟨key', b⟩ ⟨hkey, hab⟩
    obtain rfl : key = key' := hkey
    by_cases hname : key = name
    · simpa [hname] using hxy
    · simpa [hname] using hab
  · exact h.append (.cons ⟨rfl, hxy⟩ .nil)

theorem entries_setWhen {r : Value → Value → Prop} {xs ys : List (String × Value)}
    {x y : Option Value} (h : Entries r xs ys) (condition : Bool) (name : String)
    (hxy : Option.Rel r x y) :
    Entries r (setWhen condition xs name x) (setWhen condition ys name y) := by
  cases hxy with
  | none => exact h
  | some hxy =>
    cases condition with
    | true => exact entries_setArgument h name hxy
    | false => exact h

/-- Related arguments are bound to the same parameters. -/
theorem CheckFunction.bindPartial_related {func : CheckFunction} {args args' : List Value}
    {kwargs kwargs' : List (String × Value)} {r : Value → Value → Prop}
    {bound : List (String × Value)} (hargs : List.Forall₂ r args args')
    (hkwargs : Entries r kwargs kwargs') (h : func.bindPartial args kwargs = .ok bound) :
    ∃ bound', func.bindPartial args' kwargs' = .ok bound' ∧ Entries r bound bound' := by
  have hpositional := Entries.zip (func.params.map Param.name) hargs
  have htwice : (kwargs.any fun entry => !func.hasParam entry.1 ||
        (((func.params.map Param.name).zip args).lookup entry.1).isSome) =
      kwargs'.any fun entry => !func.hasParam entry.1 ||
        (((func.params.map Param.name).zip args').lookup entry.1).isSome := by
    rw [hkwargs.any_key fun key => !func.hasParam key ||
      (((func.params.map Param.name).zip args).lookup key).isSome]
    congr 1
    funext entry
    rcases hpositional.lookup entry.1 with ⟨hx, hy⟩ | ⟨x, y, hx, hy, -⟩ <;> rw [hx, hy]
    rfl
  rw [CheckFunction.bindPartial] at h ⊢
  simp only [hargs.length_eq, htwice] at h ⊢
  split at h
  · cases h
  · rename_i hlength
    split at h
    · cases h
    · rename_i hany
      rw [if_neg hlength, if_neg hany]
      obtain rfl := Except.ok.inj h
      exact ⟨_, rfl, (hpositional.append hkwargs).filterMap_lookup func.params Param.name⟩

namespace RuleReadBack

variable {rule rule' : DQRule}

theorem filterText (h : RuleReadBack rule rule') : rule'.filterText = rule.filterText := by
  rw [DQRule.filterText, DQRule.filterText, h.filter]

theorem columnsValue (h : RuleReadBack rule rule') :
    Option.Rel ReadBack (rule.columns.map Value.list) (rule'.columns.map Value.list) := by
  have hcolumns := h.columns
  revert hcolumns
  cases rule.columns <;> cases rule'.columns <;> rintro (⟨hread, -⟩ | _)
  · exact .none
  · exact .some hread

theorem buildKwargs (h : RuleReadBack rule rule') :
    Entries ReadBack rule.buildKwargs rule'.buildKwargs := by
  have hfilter : Option.Rel ReadBack (rule.filterText.map Value.str) (rule'.filterText.map Value.str) := by
    rw [h.filterText]
    cases rule.filterText with
    | none => exact .none
    | some text => exact .some (readBack_str text)
  rw [DQRule.buildKwargs, DQRule.buildKwargs, h.func]
  exact entries_setWhen (entries_setWhen (entries_setWhen h.kwargs _ _ h.column) _ _ h.columnsValue)
    _ _ hfilter

theorem columnArgs (h : RuleReadBack rule rule') :
    List.Forall₂ ReadBack rule.columnArgs rule'.columnArgs := by
  rw [DQRule.columnArgs, DQRule.columnArgs, h.func]
  split
  · have hcolumn := h.column
    revert hcolumn
    cases rule.column <;> cases rule'.column <;> rintro (hread | _)
    · exact .nil
    · exact .cons hread .nil
  · exact .nil

theorem buildArgs (h : RuleReadBack rule rule') {args : List Value}
    (hargs : rule.buildArgs = .ok args) :
    ∃ args', rule'.buildArgs = .ok args' ∧ List.Forall₂ ReadBack args args' := by
  obtain ⟨columns, hcolumns, rfl⟩ := map_eq_ok.mp hargs
  have hrelated : ∃ columns', rule'.columnsArgs = .ok columns' ∧
      List.Forall₂ ReadBack columns columns' := by
    rw [DQRule.columnsArgs] at hcolumns ⊢
    rw [h.func]
    split at hcolumns
    · rename_i hrequired
      rw [if_pos hrequired]
      have hrel := h.columns
      revert hrel hcolumns
      cases rule.columns with
      | none =>
        cases rule'.columns <;> rintro hcolumns (_ | _)
        cases hcolumns
        exact ⟨[], rfl, .nil⟩
      | some items =>
        cases rule'.columns with
        | none => rintro - (_ | _)
        | some items' =>
          rintro hcolumns (⟨hread, hempty⟩ | _)
          cases items with
          | nil => cases hcolumns
          | cons item items =>
            cases items' with
            | nil => exact absurd (hempty.mpr rfl) (by simp)
            | cons item' items' =>
              cases hcolumns
              exact ⟨_, rfl, .cons hread .nil⟩
    · rename_i hrequired
      rw [if_neg hrequired]
      cases hcolumns
      exact ⟨[], rfl, .nil⟩
  obtain ⟨columns', hcolumns', hforall⟩ := hrelated
  refine ⟨rule'.columnArgs ++ columns', ?_, List.rel_append h.columnArgs hforall⟩
  rw [DQRule.buildArgs, hcolumns']
  rfl

/-- The bound arguments of the rule read back are those of the rule, read back. -/
theorem boundArguments (h : RuleReadBack rule rule') {bound : List (String × Value)}
    (hbound : rule.boundArguments = .ok bound) :
    ∃ bound', rule'.boundArguments = .ok bound' ∧ Entries ReadBack bound bound' := by
  obtain ⟨args, hargs, hbound⟩ := bind_eq_ok.mp hbound
  obtain ⟨args', hargs', hrelated⟩ := h.buildArgs hargs
  obtain ⟨bound', hbound', hentries⟩ :=
    CheckFunction.bindPartial_related hrelated h.buildKwargs hbound
  refine ⟨bound', ?_, hentries⟩
  rw [DQRule.boundArguments, hargs', h.func]
  exact hbound'

end RuleReadBack

theorem survives_documents {bound bound' : List (String × Value)}
    (h : Entries ReadBack bound bound') (hsurvive : ∀ entry ∈ bound, Survives entry.2) :
    ∃ fullArgs fullArgs' documents,
      mapValuesM (normalizeBoundArgs false) bound = .ok fullArgs ∧
      mapValuesM (normalizeBoundArgs false) bound' = .ok fullArgs' ∧
      mapValuesM (dumps true) fullArgs = .ok documents ∧
      mapValuesM (dumps true) fullArgs' = .ok documents := by
  induction h with
  | nil => exact ⟨[], [], [], rfl, rfl, rfl, rfl⟩
  | @cons entry entry' bound bound' hentry _ ih =>
    obtain ⟨hkey, hread⟩ := hentry
    rw [List.forall_mem_cons] at hsurvive
    obtain ⟨normal, normal', j, hnormal, hnormal', hj, hj'⟩ := hsurvive.1.dumps_eq hread
    obtain ⟨fullArgs, fullArgs', documents, hfull, hfull', hdocuments, hdocuments'⟩ :=
      ih hsurvive.2
    exact ⟨(entry.1, normal) :: fullArgs, (entry'.1, normal') :: fullArgs',
      (entry.1, j) :: documents, mapValuesM_cons_eq_ok.mpr ⟨_, _, hnormal, hfull, rfl⟩,
      mapValuesM_cons_eq_ok.mpr ⟨_, _, hnormal', hfull', rfl⟩,
      mapValuesM_cons_eq_ok.mpr ⟨_, _, hj, hdocuments, rfl⟩,
      mapValuesM_cons_eq_ok.mpr ⟨_, _, hj', hdocuments', by rw [hkey]⟩⟩

/-- A rule whose arguments survive and the rule read back for it have one fingerprint. -/
theorem RuleReadBack.ruleFingerprint {env : Environment} {rule rule' : DQRule}
    {bound : List (String × Value)} (h : RuleReadBack rule rule')
    (hbound : rule.boundArguments = .ok bound) (hsurvive : ∀ entry ∈ bound, Survives entry.2) :
    ∃ fingerprint, rule.ruleFingerprint env = .ok fingerprint ∧
      rule'.ruleFingerprint env = .ok fingerprint := by
  obtain ⟨bound', hbound', hentries⟩ := h.boundArguments hbound
  obtain ⟨fullArgs, fullArgs', documents, hfull, hfull', hdocuments, hdocuments'⟩ :=
    survives_documents hentries hsurvive
  have hsame : ruleDocument rule' documents = ruleDocument rule documents := by
    rw [ruleDocument, ruleDocument, h.name, h.criticality, h.func, h.filterText]
  refine ⟨_, ruleFingerprint_eq hbound hfull hdocuments h.metadata, ?_⟩
  rw [ruleFingerprint_eq hbound' hfull' hdocuments' h.metadata', hsame]

/-- A column expression is read back as its name. -/
theorem readBack_column {c : ColumnExpr} {value' : Value} (h : ReadBack (.column c) value') :
    value' = .str c.name := by
  obtain ⟨normal, j, hnormal, hj, hread⟩ := h
  rw [normalizeBoundArgs] at hnormal
  split at hnormal
  · cases hnormal
  · cases hnormal
    cases hj
    cases hread
    rfl

/-- What is read back has a truth value, and is false where the value was. -/
theorem truthy_readBack {value value' : Value} (h : ReadBack value value') :
    (∃ b, truthy value' = .ok b) ∧ (truthy value = .ok false → truthy value' = .ok false) := by
  constructor
  · obtain ⟨normal, j, -, -, hread⟩ := h
    cases j with
    | null => cases hread; exact ⟨_, rfl⟩
    | bool b => cases hread; exact ⟨_, rfl⟩
    | int n => cases hread; exact ⟨_, rfl⟩
    | float f => cases hread; exact ⟨_, rfl⟩
    | str s => cases hread; exact ⟨_, rfl⟩
    | arr items =>
      obtain ⟨items', -, rfl⟩ := map_eq_ok.mp hread
      exact ⟨_, rfl⟩
    | obj fields =>
      rw [Json.loads, denormalizeValue] at hread
      split at hread
      · obtain ⟨d, -, rfl⟩ := map_eq_ok.mp hread
        exact ⟨_, rfl⟩
      · obtain ⟨entries, -, rfl⟩ := map_eq_ok.mp hread
        exact ⟨_, rfl⟩
  · intro hfalse
    have hself : ReadBack value value → truthy value' = .ok false := fun hself => by
      rw [h.unique hself]
      exact hfalse
    cases value with
    | null => exact hself ⟨.null, .null, rfl, rfl, rfl⟩
    | bool b => exact hself ⟨.bool b, .bool b, rfl, rfl, rfl⟩
    | int n => exact hself ⟨.int n, .int n, rfl, rfl, rfl⟩
    | float f => exact hself ⟨.float f, .float f, rfl, rfl, rfl⟩
    | str s => exact hself (readBack_str s)
    | decimal d => exact hself (readBack_decimal d)
    | list items =>
      obtain rfl : items = [] := by simpa [truthy] using hfalse
      exact hself ⟨.list [], .arr [], rfl, rfl, rfl⟩
    | tuple items =>
      obtain rfl : items = [] := by simpa [truthy] using hfalse
      have hempty : ReadBack (.tuple []) (.list []) := ⟨.list [], .arr [], rfl, rfl, rfl⟩
      rw [h.unique hempty]
      rfl
    | set items =>
      obtain rfl : items = [] := by simpa [truthy] using hfalse
      have hempty : ReadBack (.set []) (.list []) := ⟨.list [], .arr [], rfl, rfl, rfl⟩
      rw [h.unique hempty]
      rfl
    | dict entries =>
      obtain rfl : entries = [] := by simpa [truthy] using hfalse
      exact hself ⟨.dict [], .obj [], rfl, rfl, rfl⟩
    | date text => cases hfalse
    | column c => cases hfalse
    | structType s => cases hfalse
    | enum value => cases hfalse
    | object typeName => cases hfalse

theorem givenTruthy_readBack {value value' : Option Value} (h : Option.Rel ReadBack value value') :
    (∃ b, givenTruthy value' = .ok b) ∧
      (givenTruthy value = .ok false → givenTruthy value' = .ok false) := by
  cases h with
  | none => exact ⟨⟨false, rfl⟩, id⟩
  | some h => exact truthy_readBack h

theorem assertOneOf_readBack {column column' columns columns' : Option Value}
    (hcolumn : Option.Rel ReadBack column column') (hcolumns : Option.Rel ReadBack columns columns')
    (h : assertOneOf column columns = .ok ()) : assertOneOf column' columns' = .ok () := by
  obtain ⟨given, hgiven, h⟩ := bind_eq_ok.mp h
  obtain ⟨⟨given', hgiven'⟩, hfalse⟩ := givenTruthy_readBack hcolumn
  rw [assertOneOf, hgiven']
  cases given with
  | false =>
    obtain rfl : given' = false := by
      rw [hfalse hgiven] at hgiven'
      exact (Except.ok.inj hgiven').symm
    rfl
  | true =>
    obtain ⟨both, hboth, h⟩ := bind_eq_ok.mp h
    cases both with
    | true => cases h
    | false =>
      cases given' with
      | false => rfl
      | true =>
        show (givenTruthy columns' >>= fun given => if given then .error .assertion else .ok ()) = _
        rw [(givenTruthy_readBack hcolumns).2 hboth]
        rfl

theorem coerceColumn_readBack {column column' : Option Value} {coerced : Option Value}
    (h : Option.Rel ReadBack column column') (hcoerced : coerceColumn column = .ok coerced) :
    ∃ coerced', coerceColumn column' = .ok coerced' ∧ Option.Rel ReadBack coerced coerced' := by
  cases h with
  | none =>
    cases hcoerced
    exact ⟨none, rfl, .none⟩
  | @some value value' hread =>
    cases value with
    | null =>
      cases hcoerced
      rw [hread.unique ⟨.null, .null, rfl, rfl, rfl⟩]
      exact ⟨none, rfl, .none⟩
    | str s =>
      cases hcoerced
      rw [hread.unique (readBack_str s)]
      exact ⟨_, rfl, .some (readBack_str s)⟩
    | column c =>
      cases hcoerced
      have hname := readBack_column hread
      rw [hname] at hread ⊢
      exact ⟨_, rfl, .some hread⟩
    | _ => cases hcoerced

theorem mapM_coerceColumnItem {items coerced : List Value}
    (h : items.mapM coerceColumnItem = .ok coerced) :
    coerced = items ∧ ∀ item ∈ items, ∀ item', ReadBack item item' → ∃ s, item' = .str s := by
  induction items generalizing coerced with
  | nil =>
    cases h
    exact ⟨rfl, by simp⟩
  | cons item items ih =>
    obtain ⟨c, cs, hc, hcs, rfl⟩ := mapM_cons_eq_ok.mp h
    obtain ⟨rfl, hitems⟩ := ih hcs
    cases item with
    | str s =>
      cases hc
      exact ⟨rfl, List.forall_mem_cons.mpr ⟨fun _ h => ⟨s, h.unique (readBack_str s)⟩, hitems⟩⟩
    | column e =>
      cases hc
      exact ⟨rfl, List.forall_mem_cons.mpr ⟨fun _ h => ⟨e.name, readBack_column h⟩, hitems⟩⟩
    | _ => cases hc

/-- The relation between columns of a rule and those read back. -/
abbrev ReadBackColumns (items items' : List Value) : Prop :=
  ReadBack (.list items) (.list items') ∧ (items = [] ↔ items' = [])

theorem coerceColumns_items {items coerced : List Value} {value' : Value}
    (hread : ReadBack (.list items) value') (hcoerced : items.mapM coerceColumnItem = .ok coerced) :
    ∃ items', coerceColumns (some value') = .ok (some items') ∧ ReadBackColumns coerced items' := by
  obtain ⟨rfl, hstrings⟩ := mapM_coerceColumnItem hcoerced
  obtain ⟨items', rfl, hforall⟩ := hread.list
  have hitems' : items'.mapM coerceColumnItem = .ok items' := by
    apply mapM_fixed
    intro item' hitem'
    obtain ⟨item, hitem, hread⟩ := exists_of_forall₂_right hforall hitem'
    obtain ⟨s, rfl⟩ := hstrings item hitem item' hread
    rfl
  refine ⟨items', ?_, hread, ?_⟩
  · rw [coerceColumns, hitems']
    rfl
  · rw [← List.length_eq_zero_iff, ← List.length_eq_zero_iff, hforall.length_eq]

theorem coerceColumns_readBack {columns columns' : Option Value} {coerced : Option (List Value)}
    (h : Option.Rel ReadBack columns columns')
    (hset : ∀ items, columns = some (.set items) →
      normalizeBoundArgs true (.set items) = normalizeBoundArgs true (.list items))
    (hcoerced : coerceColumns columns = .ok coerced) :
    ∃ coerced', coerceColumns columns' = .ok coerced' ∧ Option.Rel ReadBackColumns coerced coerced' := by
  cases h with
  | none =>
    cases hcoerced
    exact ⟨none, rfl, .none⟩
  | @some value value' hread =>
    -- a tuple is stored as the list of its items, a set when its items are listed in order
    have hitems : ∀ items, normalizeBoundArgs true value = normalizeBoundArgs true (.list items) →
        (items.mapM coerceColumnItem).map some = .ok coerced →
        ∃ coerced', coerceColumns (some value') = .ok coerced' ∧
          Option.Rel ReadBackColumns coerced coerced' := by
      intro items hnormal hmap
      obtain ⟨result, hresult, rfl⟩ := map_eq_ok.mp hmap
      have hlist : ReadBack (.list items) value' := by
        simpa only [ReadBack, hnormal] using hread
      obtain ⟨items', hitems', hrelated⟩ := coerceColumns_items hlist hresult
      exact ⟨some items', hitems', .some hrelated⟩
    cases value with
    | null =>
      cases hcoerced
      rw [hread.unique ⟨.null, .null, rfl, rfl, rfl⟩]
      exact ⟨none, rfl, .none⟩
    | list items => exact hitems items rfl hcoerced
    | tuple items => exact hitems items rfl hcoerced
    | set items => exact hitems items (hset items rfl) hcoerced
    | _ => cases hcoerced

/-- A column of a check for each column, and its name. -/
def NamedColumn (item item' : Value) : Prop :=
  ∃ name, normalizeBoundArgs true item = .ok (.str name) ∧ item' = .str name

/-- A specification and the one of the check read back for it. -/
structure SpecReadBack (spec spec' : CheckSpec) : Prop where
  func : spec'.func = spec.func
  functionName : spec'.functionName = spec.functionName
  criticality : spec'.criticality = spec.criticality
  filter : spec'.filter = spec.filter
  messageExpr : spec'.messageExpr = spec.messageExpr
  arguments : Entries ReadBack spec.arguments spec'.arguments
  listed : spec.forEachColumn = none → ∀ items, spec.arguments.lookup "columns" = some (.set items) →
    normalizeBoundArgs true (.set items) = normalizeBoundArgs true (.list items)
  forEachColumn : Option.Rel (List.Forall₂ NamedColumn) spec.forEachColumn spec'.forEachColumn
  metadata : ∀ entries, spec.userMetadata = some entries →
    ∃ normals, mapValuesM (normalizeBoundArgs true) entries = .ok normals
  metadata' : ∀ entries, spec'.userMetadata = some entries →
    ∃ normals, mapValuesM (normalizeBoundArgs true) entries = .ok normals

/-- The rule made of the fields read back is the rule read back, when its condition keeps the
name. -/
theorem makeRule_readBack {env : Environment} {spec spec' : CheckSpec} {ruleType : RuleType}
    {column column' columns columns' : Option Value} {kwargs kwargs' : List (String × Value)}
    {rule : DQRule} (hspec : SpecReadBack spec spec')
    (hcolumn : Option.Rel ReadBack column column')
    (hcolumns : ∀ coerced, coerceColumns columns = .ok coerced →
      ∃ coerced', coerceColumns columns' = .ok coerced' ∧ Option.Rel ReadBackColumns coerced coerced')
    (hkwargs : Entries ReadBack kwargs kwargs')
    (hcondition : ∀ bound bound', rule.boundArguments = .ok bound →
      Entries ReadBack bound bound' → ∃ conditionName, rule.func.condition bound' = .ok conditionName ∧
        ruleName (spec'.name.getD "") conditionName = rule.name)
    (hrule : makeRule env spec ruleType column columns kwargs = .ok rule) :
    ∃ rule', makeRule env spec' ruleType column' columns' kwargs' = .ok rule' ∧
      RuleReadBack rule rule' := by
  obtain ⟨coerced, coercedColumns, bound, conditionName, hcoerced, hcoercedColumns, hvalid, hfields,
    hbound, -, hparses⟩ := makeRule_eq_ok_iff.mp hrule
  obtain ⟨coerced', hcoerced', hrel⟩ := coerceColumn_readBack hcolumn hcoerced
  obtain ⟨coercedColumns', hcoercedColumns', hrelColumns⟩ := hcolumns _ hcoercedColumns
  let rule' : DQRule := {
    func := spec'.func, name := rule.name, criticality := spec'.criticality, column := coerced',
    columns := coercedColumns', filter := spec'.filter, checkFuncKwargs := kwargs',
    userMetadata := spec'.userMetadata, messageExpr := spec'.messageExpr }
  have hread : RuleReadBack rule rule' := by
    subst hfields
    exact {
      func := hspec.func, name := rfl, criticality := hspec.criticality, filter := hspec.filter,
      messageExpr := hspec.messageExpr, column := hrel, columns := hrelColumns, kwargs := hkwargs,
      metadata := hspec.metadata, metadata' := hspec.metadata' }
  obtain ⟨bound', hbound', hentries⟩ := hread.boundArguments hbound
  obtain ⟨name', hname', hsame⟩ := hcondition bound bound' hbound hentries
  refine ⟨rule', makeRule_eq_ok_iff.mpr ⟨coerced', coercedColumns', bound', name', hcoerced',
    hcoercedColumns', ?_, ?_, hbound', ?_, ?_⟩, hread⟩
  · rw [hspec.func]
    rintro (hregistry | ⟨hone, htwo⟩)
    · exact hvalid (.inl hregistry)
    · refine hvalid (.inr ⟨?_, ?_⟩)
      · cases hrel with
        | none => cases hone
        | some _ => rfl
      · cases hrelColumns with
        | none => cases htwo
        | some _ => rfl
  · rw [hsame]
  · rw [← hname', ← hread.func]
  · rw [hspec.messageExpr]
    exact hparses

theorem NamedColumn.readBack {item item' : Value} (h : NamedColumn item item') :
    ReadBack item item' := by
  obtain ⟨name, hname, rfl⟩ := h
  exact ⟨.str name, .str name, hname, rfl, rfl⟩

/-- A named column is a column of its own, not a list of columns. -/
theorem NamedColumn.forEachFields {item item' : Value} {column columns : Option Value}
    (h : NamedColumn item item') (hfields : forEachFields item = .ok (column, columns)) :
    column = some item ∧ columns = none ∧ forEachFields item' = .ok (some item', none) := by
  obtain ⟨name, hname, rfl⟩ := h
  cases item with
  | null => cases hname
  | list items =>
    obtain ⟨_, -, heq⟩ := map_eq_ok.mp hname
    cases heq
  | tuple items =>
    obtain ⟨_, -, heq⟩ := map_eq_ok.mp hname
    cases heq
  | set items =>
    obtain ⟨_, -, hsorted⟩ := bind_eq_ok.mp hname
    obtain ⟨_, -, heq⟩ := map_eq_ok.mp hsorted
    cases heq
  | _ =>
    cases hfields
    exact ⟨rfl, rfl, rfl⟩

theorem lookup_readBack {entries entries' : List (String × Value)} (h : Entries ReadBack entries entries')
    (name : String) : Option.Rel ReadBack (entries.lookup name) (entries'.lookup name) := by
  rcases h.lookup name with ⟨hx, hy⟩ | ⟨x, y, hx, hy, hread⟩
  · rw [hx, hy]
    exact .none
  · rw [hx, hy]
    exact .some hread

/-- The rules of a specification are read back one by one. -/
theorem specRules_readBack {env : Environment} {spec spec' : CheckSpec} {rules : List DQRule}
    (hspec : SpecReadBack spec spec')
    (hcondition : ∀ rule ∈ rules, ∀ bound bound', rule.boundArguments = .ok bound →
      Entries ReadBack bound bound' → ∃ conditionName, rule.func.condition bound' = .ok conditionName ∧
        ruleName (spec'.name.getD "") conditionName = rule.name)
    (hrules : specRules env spec = .ok rules) :
    ∃ rules', specRules env spec' = .ok rules' ∧ List.Forall₂ RuleReadBack rules rules' := by
  obtain ⟨_, hone, hrules⟩ := bind_eq_ok.mp hrules
  have hread := fun name => lookup_readBack hspec.arguments name
  have hone' : assertOneOf (spec'.arguments.lookup "column") (spec'.arguments.lookup "columns") =
      .ok () := assertOneOf_readBack (hread _) (hread _) hone
  have hkwargs := hspec.arguments.filter_key fun name => name ≠ "column" ∧ name ≠ "columns"
  rw [specRules, hone']
  dsimp only [Bind.bind, Except.bind] at hrules ⊢
  rw [hspec.func, hspec.functionName]
  have hforEach := hspec.forEachColumn
  have hlisted := hspec.listed
  revert hforEach hlisted hrules
  cases spec.forEachColumn with
  | none =>
    cases spec'.forEachColumn <;> rintro hrules (_ | _) hlisted
    obtain ⟨rule, hrule, rfl⟩ := map_eq_ok.mp hrules
    obtain ⟨rule', hrule', hruleRead⟩ := makeRule_readBack hspec (hread _)
      (fun coerced => coerceColumns_readBack (hread _) (hlisted rfl)) hkwargs
      (hcondition rule List.mem_cons_self) hrule
    refine ⟨[rule'], ?_, .cons hruleRead .nil⟩
    dsimp only
    rw [hrule']
    rfl
  | some items =>
    cases spec'.forEachColumn with
    | none => rintro - (_ | _)
    | some items' =>
      rintro hrules (hitems | _) -
      dsimp only at hrules ⊢
      apply mapM_related hitems hrules
      rintro item item' rule hrule hmem hnamed
      obtain ⟨⟨column, columns⟩, hfields, hmake⟩ := bind_eq_ok.mp hrule
      obtain ⟨rfl, rfl, hfields'⟩ := hnamed.forEachFields hfields
      rw [hfields']
      apply makeRule_readBack hspec (.some hnamed.readBack) _ hkwargs (hcondition rule hmem) hmake
      rintro coerced hcoerced
      cases hcoerced
      exact ⟨none, rfl, .none⟩

end Dqx.Checks
