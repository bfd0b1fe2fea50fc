import Dqx.Checks.ReadBack
import Dqx.Checks.TableStorage

/-! The round trip of checks through a table. A check that can be stored is read back as a check whose
rules have the fingerprints of the rules of the check. -/

namespace Dqx.Checks

open Lib Value

/-- The map in which the documents of a dictionary are stored. -/
def storedMap (docs : List (String × Json)) : StringMap :=
  docs.map fun field => (field.1, .document field.2)

theorem loads_storedMap (docs : List (String × Json)) :
    ((storedMap docs).map fun entry => (Key.str entry.1, entry.2.safeJsonLoad)) =
      docs.map fun field => (Key.str field.1, field.2.loads) := by
  rw [storedMap, List.map_map]
  rfl

/-- An optional dictionary, its normal form, and the map in which it is stored. -/
structure StoredAs (value normal : Option Value) (stored : Option StringMap) : Prop where
  normalized : value.mapM (normalizeBoundArgs true) = .ok normal
  fixed : normal.mapM (normalizeBoundArgs true) = .ok normal
  dumped : dumpsOptionalMap normal = .ok stored

theorem dumpsOptionalMap_dict (entries : List (Key × Value)) :
    dumpsOptionalMap (some (.dict entries)) = (dumpsMap (.dict entries)).map some := rfl

/-- A dictionary whose entries can be read back is stored entry by entry. -/
theorem StoredAs.ofEntries {entries entries' : List (String × Value)}
    (hread : Entries ReadBack entries entries') (hkeys : entries'.map Prod.fst ≠ ["__decimal__"]) :
    ∃ normals docs, mapValuesM (normalizeBoundArgs true) entries = .ok normals ∧
      StoredAs (some (.dict (keyed entries))) (some (.dict (keyed normals))) (some (storedMap docs)) ∧
      denormalizeValue (.dict ((storedMap docs).map fun entry =>
        (Key.str entry.1, entry.2.safeJsonLoad))) = .ok (.dict (keyed entries')) := by
  obtain ⟨normals, docs, hnormals, hdocs, hreads⟩ := entries_documents hread
  refine ⟨normals, docs, hnormals, ⟨?_, ?_, ?_⟩, ?_⟩
  · exact mapM_some (normalize_keyed hnormals)
  · exact mapM_some (mapValuesM_normalized hnormals true)
  · rw [dumpsOptionalMap_dict, dumpsMap_keyed hdocs]
    rfl
  · rw [loads_storedMap]
    exact denormalizeValue_dict hreads hkeys

/-- The arguments of a check are stored, and read back entry by entry. -/
theorem arguments_stored {arguments : Option Value} {entries entries' : List (String × Value)}
    (h : argumentEntries arguments = .ok entries) (hread : Entries ReadBack entries entries')
    (hkeys : entries'.map Prod.fst ≠ ["__decimal__"]) :
    ∃ normals normal stored, mapValuesM (normalizeBoundArgs true) entries = .ok normals ∧
      StoredAs arguments normal stored ∧
      (∀ documents, mapValuesM (dumps true) normals = .ok documents →
        ∃ canonical, dumps true (normal.getD .null) = .ok canonical) ∧
      denormalizeValue (.dict ((stored.getD []).map fun entry =>
        (Key.str entry.1, entry.2.safeJsonLoad))) = .ok (.dict (keyed entries')) := by
  rcases argumentEntries_eq_ok h with ⟨rfl, rfl⟩ | rfl
  · cases hread
    exact ⟨[], none, none, rfl, ⟨rfl, rfl, rfl⟩, fun _ _ => ⟨.null, rfl⟩, rfl⟩
  · obtain ⟨normals, docs, hnormals, hstored, hback⟩ := StoredAs.ofEntries hread hkeys
    exact ⟨normals, _, _, hnormals, hstored, fun _ hdocuments => ⟨_, dumps_keyed hdocuments⟩, hback⟩

/-- The metadata of a check is stored, and what is read back for it can be normalized. -/
theorem metadata_stored {metadata : Option Value} {entries : Option (List (String × Value))}
    (h : metadataEntries metadata = .ok entries)
    (hread : ∀ items, entries = some items → items.map Prod.fst ≠ ["__decimal__"] ∧
      ∀ item ∈ items, ∃ value', ReadBack item.2 value') :
    (∀ items, entries = some items →
      ∃ normals, mapValuesM (normalizeBoundArgs true) items = .ok normals) ∧
    ∃ normal stored metadata' entries', StoredAs metadata normal stored ∧
      (stored.map fun map => Value.dict (map.map fun entry =>
        (Key.str entry.1, entry.2.safeJsonLoad))).mapM denormalizeValue = .ok metadata' ∧
      metadataEntries metadata' = .ok entries' ∧
      ∀ items, entries' = some items →
        ∃ normals, mapValuesM (normalizeBoundArgs true) items = .ok normals := by
  rcases metadataEntries_eq_ok h with ⟨hnone, rfl⟩ | ⟨items, rfl, rfl⟩
  · refine ⟨fun items hitems => absurd hitems (by simp), metadata, none, none, none, ?_, rfl, rfl,
      fun items hitems => absurd hitems (by simp)⟩
    rcases hnone with rfl | rfl <;> exact ⟨rfl, rfl, rfl⟩
  · obtain ⟨hkeys, hvalues⟩ := hread items rfl
    obtain ⟨items', hitems'⟩ := Entries.exists_of_forall hvalues
    obtain ⟨normals, docs, hnormals, hstored, hback⟩ :=
      StoredAs.ofEntries hitems' (hitems'.keys_eq ▸ hkeys)
    refine ⟨fun _ heq => ?_, _, _, _, some items', hstored, mapM_some hback, ?_, fun _ heq => ?_⟩
    · cases heq
      exact ⟨normals, hnormals⟩
    · show (stringEntries (.dict (keyed items'))).map some = _
      rw [stringEntries_eq_ok_iff.mpr rfl]
      rfl
    · cases heq
      apply mapM_ok_of_forall
      intro entry hentry
      obtain ⟨source, -, -, normal, j, -, -, hloads⟩ := exists_of_forall₂_right hitems' hentry
      obtain ⟨normal', hnormal'⟩ := normalize_denormalized hloads true
      exact ⟨(entry.1, normal'), map_eq_ok.mpr ⟨normal', hnormal', rfl⟩⟩

theorem namedColumns {columns : List Value}
    (h : ∀ item ∈ columns, ∃ name, normalizeBoundArgs true item = .ok (.str name)) :
    ∃ names : List String, normalizeItems true columns = .ok (names.map .str) ∧
      List.Forall₂ NamedColumn columns (names.map .str) := by
  rw [normalizeItems_eq]
  induction columns with
  | nil => exact ⟨[], rfl, .nil⟩
  | cons item columns ih =>
    obtain ⟨name, hname⟩ := h item List.mem_cons_self
    obtain ⟨names, hnames, hnamed⟩ := ih fun i hi => h i (List.mem_cons_of_mem _ hi)
    exact ⟨name :: names, mapM_cons_eq_ok.mpr ⟨_, _, hname, hnames, rfl⟩,
      .cons ⟨name, hname, rfl⟩ hnamed⟩

theorem normalizeItems_names (names : List String) :
    normalizeItems true (names.map .str) = .ok (names.map .str) := by
  rw [normalizeItems_eq]
  apply mapM_fixed
  intro item hitem
  obtain ⟨name, -, rfl⟩ := List.mem_map.mp hitem
  rfl

theorem denormalizeItems_names (names : List String) :
    denormalizeItems (names.map .str) = .ok (names.map .str) := by
  rw [denormalizeItems_eq]
  apply mapM_fixed
  intro item hitem
  obtain ⟨name, -, rfl⟩ := List.mem_map.mp hitem
  rfl

/-- Names can be sorted, and written. -/
theorem fingerprintColumns_names (names : List String) :
    ∃ columns canonical, fingerprintColumns (some (names.map .str)) = .ok columns ∧
      dumps true columns = .ok canonical := by
  cases names with
  | nil => exact ⟨.null, .null, rfl, rfl⟩
  | cons name rest =>
    let keyed := ((name :: rest).map Value.str).map fun column => (columnKey column, column)
    have hall : (keyed.all fun entry => entry.1.2.isSome) = true := by
      simp [keyed, columnKey, Function.comp_def]
    let ordered := keyed.insertionSort fun a b => a.1.2.getD "" ≤ b.1.2.getD ""
    have hsorted : sortedColumns ((name :: rest).map Value.str) = .ok (ordered.map Prod.snd) :=
      if_pos hall
    obtain ⟨js, hjs⟩ : ∃ js, (ordered.map Prod.snd).mapM (dumps true) = .ok js := by
      apply mapM_ok_of_forall
      intro column hcolumn
      obtain ⟨entry, hentry, rfl⟩ := List.mem_map.mp hcolumn
      have hmem : entry ∈ keyed := (List.perm_insertionSort _ keyed).subset hentry
      obtain ⟨source, hsource, rfl⟩ := List.mem_map.mp hmem
      obtain ⟨s, -, rfl⟩ := List.mem_map.mp hsource
      exact ⟨.str s, rfl⟩
    refine ⟨.list (ordered.map Prod.snd), .arr js, ?_, ?_⟩
    · show (sortedColumns ((name :: rest).map Value.str)).map Value.list = _
      rw [hsorted]
      rfl
    · rw [dumps, dumpsItems_eq, hjs]
      rfl

/-- The fingerprint stored for a check for each column can be computed. -/
theorem computeRuleFingerprint_ok {env : Environment} {check : Check} {canonicalArguments : Json}
    {names : List String}
    (hnormal : normalizeCheck check = .ok check)
    (hcolumns : check.check.forEachColumn = some (names.map .str))
    (harguments : dumps true (check.check.arguments.getD .null) = .ok canonicalArguments) :
    ∃ fingerprint, computeRuleFingerprint env check = .ok fingerprint := by
  obtain ⟨forEachColumn, canonicalColumns, hfingerprint, hwritten⟩ := fingerprintColumns_names names
  rw [computeRuleFingerprint, hnormal]
  dsimp only [Bind.bind, Except.bind]
  rw [hcolumns, hfingerprint]
  have hfields : mapValuesM (dumps true) [
      ("name", optionalText check.name),
      ("criticality", .str (check.criticality.getD "error")),
      ("function", .str check.check.function),
      ("arguments", check.check.arguments.getD .null),
      ("filter", optionalText check.filter),
      ("for_each_column", forEachColumn)] = .ok [
      ("name", optionalJson check.name),
      ("criticality", .str (check.criticality.getD "error")),
      ("function", .str check.check.function),
      ("arguments", canonicalArguments),
      ("filter", optionalJson check.filter),
      ("for_each_column", canonicalColumns)] := by
    rw [mapValuesM_eq_ok_iff_forall₂]
    exact .cons ⟨rfl, dumps_optionalText _⟩ (.cons ⟨rfl, rfl⟩ (.cons ⟨rfl, rfl⟩
      (.cons ⟨rfl, harguments⟩ (.cons ⟨rfl, dumps_optionalText _⟩ (.cons ⟨rfl, hwritten⟩ .nil)))))
  exact ⟨_, congrArg (fun result => result >>= fun canonical => Except.ok (env.sha256 canonical))
    (dumps_keyed hfields)⟩

/-- Arguments under the same names are valid alike, when their values are accepted. -/
theorem validateFuncArgs_entries {func : CheckFunction} {r : Value → Value → Prop}
    {arguments arguments' : List (String × Value)} (h : Entries r arguments arguments')
    (haccepts : ∀ entry ∈ arguments', func.accepts entry.1 entry.2 = true)
    (hvalid : validateFuncArgs func arguments = true) : validateFuncArgs func arguments' = true := by
  have hempty : arguments'.isEmpty = arguments.isEmpty := by
    cases h <;> rfl
  have hnames : ∀ entry ∈ arguments', func.hasParam entry.1 = true → (func.hasParam entry.1 &&
      func.accepts entry.1 entry.2) = true := fun entry hentry hname => by
    rw [hname, haccepts entry hentry]
    rfl
  rw [validateFuncArgs] at hvalid ⊢
  rw [hempty]
  split at hvalid
  · cases hvalid
  · rename_i hcount
    rw [if_neg hcount]
    rw [Bool.and_eq_true] at hvalid ⊢
    refine ⟨List.all_eq_true.mpr fun entry hentry => hnames entry hentry ?_, ?_⟩
    · obtain ⟨source, hsource, hkey, -⟩ := exists_of_forall₂_right h hentry
      have hboth := List.all_eq_true.mp hvalid.1 source hsource
      rw [Bool.and_eq_true] at hboth
      exact hkey ▸ hboth.1
    · have hrequired := hvalid.2
      rw [List.all_eq_true] at hrequired ⊢
      intro param hparam
      rw [← hrequired param hparam]
      exact congrArg _ (h.any_key fun key => key = param.name).symm

theorem effectiveArguments_related {func : CheckFunction}
    {arguments arguments' : List (String × Value)} {columns columns' : Option (List Value)}
    (h : Entries ReadBack arguments arguments')
    (hcolumns : Option.Rel (List.Forall₂ NamedColumn) columns columns') :
    List.Forall₂ (Entries ReadBack) (effectiveArguments func arguments columns)
      (effectiveArguments func arguments' columns') := by
  cases hcolumns with
  | none => exact .cons h .nil
  | some hitems =>
    rw [effectiveArguments, effectiveArguments, List.forall₂_map_left_iff,
      List.forall₂_map_right_iff]
    exact hitems.imp fun _ _ hnamed => entries_setArgument h _ hnamed.readBack

/-- The name under which the rules of a check are stored. -/
def storedName (check : Check) (rule : DQRule) : String :=
  if check.check.forEachColumn.isSome then check.name.getD "" else rule.name

/-- A check that a table can hold: each of its columns is one column, its arguments and metadata can
be read back, a set of columns is listed in the order in which it is stored, the arguments that its
rules bind keep their documents, and its function treats what is read back as it treats what was
given. -/
structure Storable (env : Environment) (check : Check) : Prop where
  forEachColumn : ∀ columns, check.check.forEachColumn = some columns → ∀ item ∈ columns,
    ∃ name, normalizeBoundArgs true item = .ok (.str name)
  arguments : ∀ entries, argumentEntries check.check.arguments = .ok entries →
    entries.map Prod.fst ≠ ["__decimal__"] ∧ ∀ entry ∈ entries, ∃ value', ReadBack entry.2 value'
  columns : ∀ entries items, argumentEntries check.check.arguments = .ok entries →
    check.check.forEachColumn = none → entries.lookup "columns" = some (.set items) →
    normalizeBoundArgs true (.set items) = normalizeBoundArgs true (.list items)
  sortable : ∀ entries normals, check.check.forEachColumn.isSome →
    argumentEntries check.check.arguments = .ok entries →
    mapValuesM (normalizeBoundArgs true) entries = .ok normals →
    ∃ documents, mapValuesM (dumps true) normals = .ok documents
  userMetadata : ∀ entries, metadataEntries check.userMetadata = .ok (some entries) →
    entries.map Prod.fst ≠ ["__decimal__"] ∧ ∀ entry ∈ entries, ∃ value', ReadBack entry.2 value'
  accepts : ∀ func entries, env.resolveCheckFunction check.check.function = some func →
    argumentEntries check.check.arguments = .ok entries →
    ∀ arguments ∈ effectiveArguments func entries check.check.forEachColumn, ∀ entry ∈ arguments,
      ∀ value', ReadBack entry.2 value' → func.accepts entry.1 value' = true
  survives : ∀ rules, deserializeChecks env [check] = .ok rules → ∀ rule ∈ rules,
    ∀ bound, rule.boundArguments = .ok bound → ∀ entry ∈ bound, Survives entry.2
  condition : ∀ rules, deserializeChecks env [check] = .ok rules → ∀ rule ∈ rules,
    ∀ bound bound', rule.boundArguments = .ok bound → Entries ReadBack bound bound' →
      ∃ conditionName, rule.func.condition bound' = .ok conditionName ∧
        (storedName check rule = "" → conditionName = rule.name)

/-- The normal form of a check. -/
def normalForm (check : Check) (arguments : Option Value) (forEachColumn : Option (List Value))
    (userMetadata : Option Value) : Check :=
  { check with check := { check.check with arguments, forEachColumn }, userMetadata }

theorem normalizeCheck_eq {check : Check} {arguments : Option Value}
    {forEachColumn : Option (List Value)} {userMetadata : Option Value}
    (harguments : check.check.arguments.mapM (normalizeBoundArgs true) = .ok arguments)
    (hcolumns : check.check.forEachColumn.mapM (normalizeItems true) = .ok forEachColumn)
    (hmetadata : check.userMetadata.mapM (normalizeBoundArgs true) = .ok userMetadata) :
    normalizeCheck check = .ok (normalForm check arguments forEachColumn userMetadata) := by
  rw [normalizeCheck, harguments, hcolumns, hmetadata]
  rfl

theorem denormalizeCheck_eq {check : Check} {arguments : Option Value}
    {forEachColumn : Option (List Value)} {userMetadata : Option Value}
    (harguments : check.check.arguments.mapM denormalizeValue = .ok arguments)
    (hcolumns : check.check.forEachColumn.mapM denormalizeItems = .ok forEachColumn)
    (hmetadata : check.userMetadata.mapM denormalizeValue = .ok userMetadata) :
    denormalizeCheck check = .ok (normalForm check arguments forEachColumn userMetadata) := by
  rw [denormalizeCheck, harguments, hcolumns, hmetadata]
  rfl

/-- The columns of a check: their names, and these as they are stored and read back. -/
theorem forEachColumn_stored {columns : Option (List Value)}
    (hnonempty : ¬columns.any List.isEmpty)
    (h : ∀ items, columns = some items → ∀ item ∈ items,
      ∃ name, normalizeBoundArgs true item = .ok (.str name)) :
    ∃ names : Option (List String), columns.mapM (normalizeItems true) = .ok (names.map (·.map .str)) ∧
      Option.Rel (List.Forall₂ NamedColumn) columns (names.map (·.map .str)) ∧
      names ≠ some [] ∧ names.isSome = columns.isSome := by
  cases columns with
  | none => exact ⟨none, rfl, .none, by simp, rfl⟩
  | some items =>
    obtain ⟨names, hnames, hnamed⟩ := namedColumns (h items rfl)
    refine ⟨some names, mapM_some hnames, .some hnamed, ?_, rfl⟩
    rintro ⟨⟩
    cases hnamed
    exact hnonempty rfl

/-- The check read back for `check`, from the parts that are read back. -/
def checkReadBack (check : Check) (name : Option String) (arguments : List (String × Value))
    (names : Option (List String)) (userMetadata : Option Value) : Check where
  name
  criticality := check.criticality.getD "error"
  check := {
    function := check.check.function
    arguments := some (.dict (keyed arguments))
    forEachColumn := names.map (·.map .str) }
  filter := check.filter
  userMetadata
  messageExpr := check.messageExpr

/-- The check read back is valid, and its specification is that of the check, read back. -/
theorem validateCheck_readBack {env : Environment} {check : Check} {spec : CheckSpec}
    {arguments' : List (String × Value)} {names : Option (List String)}
    {metadata' : Option Value} {entries' : Option (List (String × Value))}
    (h : Storable env check) (hspec : validateCheck env check = .ok spec) (name : Option String)
    (harguments : Entries ReadBack spec.arguments arguments')
    (hcolumns : Option.Rel (List.Forall₂ NamedColumn) check.check.forEachColumn
      (names.map (·.map .str)))
    (hmetadata : metadataEntries metadata' = .ok entries')
    (hnormal : ∀ entries, spec.userMetadata = some entries →
      ∃ normals, mapValuesM (normalizeBoundArgs true) entries = .ok normals)
    (hnormal' : ∀ entries, entries' = some entries →
      ∃ normals, mapValuesM (normalizeBoundArgs true) entries = .ok normals) :
    ∃ spec', validateCheck env (checkReadBack check name arguments' names metadata') = .ok spec' ∧
      SpecReadBack spec spec' ∧ spec'.name = name := by
  obtain ⟨arguments, userMetadata, func, hentries, -, hfields, hfunc, hvalid, rfl⟩ :=
    validateCheck_eq_ok_iff.mp hspec
  have hrelated : List.Forall₂ (Entries ReadBack)
      (effectiveArguments func arguments check.check.forEachColumn)
      (effectiveArguments func arguments' (names.map (·.map .str))) :=
    effectiveArguments_related harguments hcolumns
  have hvalid' : validateCheckFunctionArguments func arguments' (names.map (·.map .str)) = true := by
    rw [validateCheckFunctionArguments, List.all_eq_true] at hvalid ⊢
    intro effective' heffective'
    obtain ⟨effective, heffective, hentry⟩ := exists_of_forall₂_right hrelated heffective'
    apply validateFuncArgs_entries hentry _ (hvalid effective heffective)
    intro entry' hentry'
    obtain ⟨entry, hmem, hkey, hread⟩ := exists_of_forall₂_right hentry hentry'
    exact hkey ▸ h.accepts func arguments hfunc hentries effective heffective entry hmem _ hread
  have hfields' : ¬((names.map (·.map Value.str)).any List.isEmpty ∨
      check.criticality.getD "error" ∉ ["warn", "error"]) := by
    have hany : (names.map (·.map Value.str)).any List.isEmpty =
        check.check.forEachColumn.any List.isEmpty := by
      generalize names.map (·.map Value.str) = columns', check.check.forEachColumn = columns
        at hcolumns
      cases hcolumns with
      | none => rfl
      | some hitems => cases hitems <;> rfl
    rw [hany]
    exact hfields
  refine ⟨_, validateCheck_eq_ok_iff.mpr ⟨arguments', entries', func,
    stringEntries_eq_ok_iff.mpr rfl, hmetadata, hfields', hfunc, hvalid', rfl⟩, ?_, rfl⟩
  exact {
    func := rfl, functionName := rfl, criticality := rfl, filter := rfl, messageExpr := rfl,
    arguments := harguments, listed := fun hnone items => h.columns arguments items hentries hnone,
    forEachColumn := hcolumns, metadata := hnormal, metadata' := hnormal' }

/-- The name stored for a check is the one under which its rules are stored. -/
theorem storedName_getD {env : Environment} {check : Check} {spec : CheckSpec}
    {rules : List DQRule} {names : Option (List String)}
    (hspec : validateCheck env check = .ok spec) (hrules : specRules env spec = .ok rules)
    (hnames : names.isSome = check.check.forEachColumn.isSome) :
    ∃ name : Option String, (∀ rule ∈ rules, name.getD "" = storedName check rule) ∧
      (names.isSome → name = check.name) ∧
      (names = none → ∃ rule, rules = [rule] ∧ name = some rule.name) := by
  obtain ⟨_, _, _, -, -, -, -, -, rfl⟩ := validateCheck_eq_ok_iff.mp hspec
  cases names with
  | some names =>
    refine ⟨check.name, fun rule _ => ?_, fun _ => rfl, by simp⟩
    rw [storedName, ← hnames]
    rfl
  | none =>
    have hnone : check.check.forEachColumn = none :=
      Option.not_isSome_iff_eq_none.mp (hnames ▸ Bool.false_ne_true)
    obtain ⟨_, -, hrule⟩ := bind_eq_ok.mp hrules
    dsimp only at hrule
    rw [hnone] at hrule
    obtain ⟨rule, -, rfl⟩ := map_eq_ok.mp hrule
    refine ⟨some rule.name, List.forall_mem_singleton.mpr ?_, by simp, fun _ => ⟨rule, rfl, rfl⟩⟩
    rw [storedName, hnone]
    rfl

/-- The fingerprint stored for a check: that of its only rule, when it has no columns of its own. -/
theorem resolveNameAndFingerprint_ok {env : Environment} {check : Check} {rules : List DQRule}
    {arguments : Option Value} {names : Option (List String)} {userMetadata : Option Value}
    {name : Option String} (hrules : deserializeChecks env [check] = .ok rules)
    (hnames : names ≠ some []) (hname : names.isSome → name = check.name)
    (hnone : names = none → ∃ rule fingerprint, rules = [rule] ∧ name = some rule.name ∧
      rule.ruleFingerprint env = .ok fingerprint)
    (hsome : ∀ columns, names = some columns → ∃ fingerprint, computeRuleFingerprint env
      (normalForm check arguments (some (columns.map .str)) userMetadata) = .ok fingerprint) :
    ∃ fingerprint, resolveNameAndFingerprint env check
        (normalForm check arguments (names.map (·.map .str)) userMetadata) = .ok (name, fingerprint) ∧
      (names = none → ∃ rule, rules = [rule] ∧ rule.ruleFingerprint env = .ok fingerprint) := by
  cases names with
  | none =>
    obtain ⟨rule, fingerprint, rfl, rfl, hfingerprint⟩ := hnone rfl
    refine ⟨fingerprint, ?_, fun _ => ⟨rule, rfl, hfingerprint⟩⟩
    rw [resolveNameAndFingerprint]
    show (deserializeChecks env [check] >>= _) = _
    rw [hrules]
    show (rule.ruleFingerprint env).map _ = _
    rw [hfingerprint]
    rfl
  | some names =>
    obtain ⟨fingerprint, hfingerprint⟩ := hsome names rfl
    refine ⟨fingerprint, ?_, by simp⟩
    have hany : ((normalForm check arguments (some (names.map .str)) userMetadata).check.forEachColumn.any
        fun columns => !columns.isEmpty) = true := by
      cases names with
      | nil => exact absurd rfl hnames
      | cons name rest => rfl
    obtain rfl := hname rfl
    show resolveNameAndFingerprint env check
      (normalForm check arguments (some (names.map .str)) userMetadata) = _
    rw [resolveNameAndFingerprint, if_pos hany]
    rw [hfingerprint]
    rfl

/-- The row of a check, from its parts. -/
def storedRow (check : Check) (name : Option String) (names : Option (List String))
    (arguments userMetadata : Option StringMap) (runConfigName ruleSetFingerprint : String)
    (createdAt : Nat) (ruleFingerprint : String) : CheckRow where
  name
  criticality := check.criticality.getD "error"
  function := check.check.function
  forEachColumn := names.getD []
  arguments := some (arguments.getD [])
  filter := check.filter
  runConfigName := some runConfigName
  userMetadata
  messageExpr := check.messageExpr
  createdAt := some createdAt
  ruleFingerprint := some ruleFingerprint
  ruleSetFingerprint := some ruleSetFingerprint

theorem rowToCheck_storedRow {check : Check} {name : Option String} {names : Option (List String)}
    {arguments userMetadata : Option StringMap} {runConfigName ruleSetFingerprint : String}
    {createdAt : Nat} {ruleFingerprint : String} {arguments' : List (String × Value)}
    {metadata' : Option Value} (hnames : names ≠ some [])
    (harguments : denormalizeValue (.dict ((arguments.getD []).map fun entry =>
      (Key.str entry.1, entry.2.safeJsonLoad))) = .ok (.dict (keyed arguments')))
    (hmetadata : (userMetadata.map fun map => Value.dict (map.map fun entry =>
      (Key.str entry.1, entry.2.safeJsonLoad))).mapM denormalizeValue = .ok metadata') :
    denormalizeCheck (rowToCheck (storedRow check name names arguments userMetadata runConfigName
      ruleSetFingerprint createdAt ruleFingerprint)) =
        .ok (checkReadBack check name arguments' names metadata') := by
  have hcolumns : (if (names.getD []).isEmpty then none else some ((names.getD []).map Value.str)) =
      names.map (·.map Value.str) := by
    cases names with
    | none => rfl
    | some names =>
      cases names with
      | nil => exact absurd rfl hnames
      | cons name rest => rfl
  have hread : (names.map (·.map Value.str)).mapM denormalizeItems =
      .ok (names.map (·.map Value.str)) := by
    cases names with
    | none => rfl
    | some names => exact mapM_some (denormalizeItems_names names)
  exact denormalizeCheck_eq (mapM_some harguments)
    ((congrArg (Option.mapM denormalizeItems) hcolumns).trans hread) hmetadata

theorem arrayElement_names (other : Value → String) (names : Option (List String)) :
    ((names.map (·.map Value.str)).getD []).map (arrayElement other) = names.getD [] := by
  cases names with
  | none => rfl
  | some names =>
    show (names.map Value.str).map (arrayElement other) = names
    rw [List.map_map]
    exact List.map_id names

/-- A check that a table can hold is stored, and what is read back has the rules of the check, read
back. -/
theorem check_readBack {env : Environment} {check : Check} {spec : CheckSpec}
    {rules : List DQRule} (h : Storable env check) (hspec : validateCheck env check = .ok spec)
    (hrules : specRules env spec = .ok rules) (other : Value → String)
    (runConfigName ruleSetFingerprint : String) (createdAt : Nat) :
    ∃ row check' spec' rules',
      toRow env other runConfigName ruleSetFingerprint createdAt check = .ok row ∧
      denormalizeCheck (rowToCheck row) = .ok check' ∧ validateCheck env check' = .ok spec' ∧
      specRules env spec' = .ok rules' ∧ List.Forall₂ RuleReadBack rules rules' ∧
      (row.forEachColumn = [] → ∃ rule fingerprint, rules = [rule] ∧
        rule.ruleFingerprint env = .ok fingerprint ∧ row.ruleFingerprint = some fingerprint) := by
  have hdeserialize := deserializeChecks_single hspec hrules
  obtain ⟨arguments, userMetadata, func, hentries, hmetadata, hfields, -, -, hspecEq⟩ :=
    validateCheck_eq_ok_iff.mp hspec
  have hspecArguments : spec.arguments = arguments := by rw [hspecEq]
  have hspecMetadata : spec.userMetadata = userMetadata := by rw [hspecEq]
  have hspecName : spec.name = check.name := by rw [hspecEq]
  -- the parts of the check, as they are stored and read back
  obtain ⟨hkeys, hvalues⟩ := h.arguments arguments hentries
  obtain ⟨arguments', hread⟩ := Entries.exists_of_forall hvalues
  obtain ⟨normals, normalArguments, storedArguments, hnormals, hstored, hcanonical, hback⟩ :=
    arguments_stored hentries hread (hread.keys_eq ▸ hkeys)
  obtain ⟨hnormal, normalMetadata, storedMetadata, metadata', entries', hstoredMetadata, hmetadataBack,
    hmetadata', hnormal'⟩ := metadata_stored hmetadata fun items hitems =>
      h.userMetadata items (hitems ▸ hmetadata)
  obtain ⟨names, hcolumns, hnamed, hnames, hisSome⟩ :=
    forEachColumn_stored (fun hany => hfields (.inl hany)) h.forEachColumn
  obtain ⟨name, hstoredName, hname, hsingle⟩ := storedName_getD hspec hrules hisSome
  -- the check read back, and its rules
  obtain ⟨spec', hspec', hspecBack, hspecName'⟩ := validateCheck_readBack h hspec name
    (hspecArguments ▸ hread) hnamed hmetadata' (hspecMetadata ▸ hnormal) hnormal'
  have hcondition : ∀ rule ∈ rules, ∀ bound bound', rule.boundArguments = .ok bound →
      Entries ReadBack bound bound' → ∃ conditionName,
        rule.func.condition bound' = .ok conditionName ∧
          ruleName (spec'.name.getD "") conditionName = rule.name := by
    intro rule hrule bound bound' hbound hread
    obtain ⟨conditionName, hconditionName, hsame⟩ :=
      h.condition rules hdeserialize rule hrule bound bound' hbound hread
    refine ⟨conditionName, hconditionName, ?_⟩
    rw [hspecName', hstoredName rule hrule, ruleName]
    split
    · rename_i hempty
      exact hsame hempty
    · rename_i hne
      rw [storedName] at hne ⊢
      split
      · rename_i hforEach
        rw [if_pos hforEach, ← hspecName] at hne
        rw [← hspecName]
        exact (specRules_name hrules hne rule hrule).symm
      · rfl
  obtain ⟨rules', hrules', hrelated⟩ := specRules_readBack hspecBack hcondition hrules
  -- the fingerprint of the row
  have hnone : names = none → ∃ rule fingerprint, rules = [rule] ∧ name = some rule.name ∧
      rule.ruleFingerprint env = .ok fingerprint := by
    intro hnone
    obtain ⟨rule, rfl, hruleName⟩ := hsingle hnone
    obtain ⟨rule', -, hread⟩ := exists_of_forall₂_left hrelated List.mem_cons_self
    obtain ⟨bound, hbound⟩ := specRules_bound hrules rule List.mem_cons_self
    obtain ⟨fingerprint, hfingerprint, -⟩ := hread.ruleFingerprint hbound
      (h.survives _ hdeserialize rule List.mem_cons_self bound hbound)
    exact ⟨rule, fingerprint, rfl, hruleName, hfingerprint⟩
  have hsome : ∀ columns, names = some columns → ∃ fingerprint, computeRuleFingerprint env
      (normalForm check normalArguments (some (columns.map .str)) normalMetadata) =
        .ok fingerprint := by
    intro columns hsome
    obtain ⟨documents, hdocuments⟩ :=
      h.sortable arguments normals (hisSome ▸ hsome ▸ rfl) hentries hnormals
    obtain ⟨_, hwritten⟩ := hcanonical documents hdocuments
    refine computeRuleFingerprint_ok (normalizeCheck_eq hstored.fixed ?_ hstoredMetadata.fixed) rfl
      hwritten
    exact mapM_some (normalizeItems_names columns)
  obtain ⟨fingerprint, hresolve, hfingerprint⟩ :=
    resolveNameAndFingerprint_ok hdeserialize hnames hname hnone hsome
  refine ⟨storedRow check name names storedArguments storedMetadata runConfigName ruleSetFingerprint
    createdAt fingerprint, _, spec', rules', ?_, rowToCheck_storedRow hnames hback hmetadataBack,
    hspec', hrules', hrelated, ?_⟩
  · rw [toRow, normalizeCheck_eq hstored.normalized hcolumns hstoredMetadata.normalized]
    show (dumpsOptionalMap normalArguments >>= _) = _
    rw [hstored.dumped]
    show (resolveNameAndFingerprint env check (normalForm check normalArguments
      (names.map (·.map .str)) normalMetadata) >>= _) = _
    rw [hresolve]
    show (dumpsOptionalMap normalMetadata >>= _) = _
    rw [hstoredMetadata.dumped]
    exact congrArg (fun columns => Except.ok { storedRow check name names storedArguments
      storedMetadata runConfigName ruleSetFingerprint createdAt fingerprint with
        forEachColumn := columns }) (arrayElement_names other names)
  · intro hempty
    have hnone : names = none := by
      cases names with
      | none => rfl
      | some columns => exact absurd (congrArg some hempty) hnames
    obtain ⟨rule, hrule, hsame⟩ := hfingerprint hnone
    exact ⟨rule, fingerprint, hrule, hsame, rfl⟩

/-- The rows of a rule set are the ones loaded from a table that holds nothing else. -/
theorem fromDataframe_toDataframe {env : Environment} {other : Value → String}
    {order : Arrangement (fun _ : CheckRow => ()) LaterFirst}
    {runConfigName ruleSetFingerprint : String} {createdAt : Nat} {checks : List Check}
    {rows : List CheckRow}
    (h : toDataframe env other runConfigName ruleSetFingerprint createdAt checks = .ok rows) :
    fromDataframe order ⟨true, rows⟩ runConfigName none =
      rows.mapM fun row => denormalizeCheck (rowToCheck row) := by
  have hcolumns := (toDataframe_columns h).2
  have hselect : selectRows order ⟨true, rows⟩ runConfigName none = rows := by
    cases rows with
    | nil =>
      have hempty : order.run ([] : List CheckRow) = [] := (order.perm []).eq_nil
      simp [selectRows, hempty]
    | cons row rest =>
      have hrepresents : Represents runConfigName (some ⟨true, row :: rest⟩)
          [(ruleSetFingerprint, createdAt, row :: rest)] := {
        rows := by simpa [rowsFor] using fun r hr => (hcolumns r hr).1
        versioned := fun _ => ⟨_, rfl, rfl⟩
        nonempty := by simp
        columns := by simpa using hcolumns
        keys := by simp
        times := List.pairwise_singleton _ _ }
      exact hrepresents.selectRows_none
  rw [fromDataframe, hselect]

/-- The round trip of checks: the rules of the checks loaded from their rows have, in some order, the
fingerprints of the rules of the checks, and a row of a check without columns of its own carries the
fingerprint of the rule that is loaded from it. -/
def RoundTrips (env : Environment) (other : Value → String)
    (order : Arrangement (fun _ : CheckRow => ()) LaterFirst)
    (runConfigName ruleSetFingerprint : String) (createdAt : Nat) (checks : List Check) : Prop :=
  ∃ rows loaded rules rules' fingerprints fingerprints',
    toDataframe env other runConfigName ruleSetFingerprint createdAt checks = .ok rows ∧
    fromDataframe order ⟨true, rows⟩ runConfigName none = .ok loaded ∧
    deserializeChecks env checks = .ok rules ∧ deserializeChecks env loaded = .ok rules' ∧
    rules.mapM (DQRule.ruleFingerprint env) = .ok fingerprints ∧
    rules'.mapM (DQRule.ruleFingerprint env) = .ok fingerprints' ∧
    fingerprints'.Perm fingerprints ∧
    ∀ row ∈ rows, row.forEachColumn = [] → ∃ check rule fingerprint,
      denormalizeCheck (rowToCheck row) = .ok check ∧
      deserializeChecks env [check] = .ok [rule] ∧
      rule.ruleFingerprint env = .ok fingerprint ∧ row.ruleFingerprint = some fingerprint

/-- What the round trip of one check gives. -/
structure CheckRoundTrip (env : Environment) (row : CheckRow) (rules : List DQRule)
    (check' : Check) (rules' : List DQRule) (fingerprints : List String) : Prop where
  loaded : denormalizeCheck (rowToCheck row) = .ok check'
  deserialized : ∃ spec, validateCheck env check' = .ok spec ∧ specRules env spec = .ok rules'
  original : rules.mapM (DQRule.ruleFingerprint env) = .ok fingerprints
  same : rules'.mapM (DQRule.ruleFingerprint env) = .ok fingerprints
  single : row.forEachColumn = [] → ∃ rule fingerprint, rules' = [rule] ∧
    rule.ruleFingerprint env = .ok fingerprint ∧ row.ruleFingerprint = some fingerprint

/-- The rules read back for a check that a table can hold have the fingerprints of its rules. -/
theorem rules_fingerprints {env : Environment} {rules rules' : List DQRule}
    (h : List.Forall₂ RuleReadBack rules rules')
    (hsurvive : ∀ rule ∈ rules, ∃ bound, rule.boundArguments = .ok bound ∧
      ∀ entry ∈ bound, Survives entry.2) :
    ∃ fingerprints, rules.mapM (DQRule.ruleFingerprint env) = .ok fingerprints ∧
      rules'.mapM (DQRule.ruleFingerprint env) = .ok fingerprints := by
  induction h with
  | nil => exact ⟨[], rfl, rfl⟩
  | cons hrule _ ih =>
    rw [List.forall_mem_cons] at hsurvive
    obtain ⟨⟨bound, hbound, hvalues⟩, hrest⟩ := hsurvive
    obtain ⟨fingerprint, hfingerprint, hsame⟩ := hrule.ruleFingerprint hbound hvalues
    obtain ⟨fingerprints, hfingerprints, hsames⟩ := ih hrest
    exact ⟨fingerprint :: fingerprints,
      mapM_cons_eq_ok.mpr ⟨_, _, hfingerprint, hfingerprints, rfl⟩,
      mapM_cons_eq_ok.mpr ⟨_, _, hsame, hsames, rfl⟩⟩

theorem check_roundTrips {env : Environment} {check : Check} {spec : CheckSpec}
    {rules : List DQRule} (h : Storable env check) (hspec : validateCheck env check = .ok spec)
    (hrules : specRules env spec = .ok rules) (other : Value → String)
    (runConfigName ruleSetFingerprint : String) (createdAt : Nat) :
    ∃ row loaded rules' fingerprints,
      toRow env other runConfigName ruleSetFingerprint createdAt check = .ok row ∧
      CheckRoundTrip env row rules loaded rules' fingerprints := by
  obtain ⟨row, loaded, spec', rules', hrow, hloaded, hspec', hrules', hrelated, hsingle⟩ :=
    check_readBack h hspec hrules other runConfigName ruleSetFingerprint createdAt
  have hsurvive : ∀ rule ∈ rules, ∃ bound, rule.boundArguments = .ok bound ∧
      ∀ entry ∈ bound, Survives entry.2 := by
    intro rule hrule
    obtain ⟨bound, hbound⟩ := specRules_bound hrules rule hrule
    exact ⟨bound, hbound, h.survives rules (deserializeChecks_single hspec hrules) rule hrule bound
      hbound⟩
  obtain ⟨fingerprints, horiginal, hsame⟩ := rules_fingerprints hrelated hsurvive
  refine ⟨row, loaded, rules', fingerprints, hrow, hloaded, ⟨spec', hspec', hrules'⟩, horiginal,
    hsame, fun hempty => ?_⟩
  obtain ⟨rule, fingerprint, rfl, hfingerprint, hstored⟩ := hsingle hempty
  obtain ⟨f, rest, hf, hnil, rfl⟩ := mapM_cons_eq_ok.mp horiginal
  obtain rfl : f = fingerprint := Except.ok.inj (hf.symm.trans hfingerprint)
  cases hrelated with
  | cons _ hrest =>
    cases hrest
    obtain ⟨f', _, hf', -, hfs⟩ := mapM_cons_eq_ok.mp hsame
    obtain ⟨rfl, -⟩ := List.cons.inj hfs
    exact ⟨_, f, rfl, hf', hstored⟩

/-- Checks that a table can hold come back from it as rules with the same fingerprints. -/
theorem roundTrips_of_storable {env : Environment} {checks : List Check} {rules : List DQRule}
    (hstorable : ∀ check ∈ checks, Storable env check)
    (hrules : deserializeChecks env checks = .ok rules) (other : Value → String)
    (order : Arrangement (fun _ : CheckRow => ()) LaterFirst)
    (runConfigName ruleSetFingerprint : String) (createdAt : Nat) :
    RoundTrips env other order runConfigName ruleSetFingerprint createdAt checks := by
  obtain ⟨groups, rfl, hgroups⟩ := deserializeChecks_eq_ok_iff.mp hrules
  -- the checks one by one, along the list
  obtain ⟨specs, rows, loaded, groups', fingerprints, hspecs, hrows, hloaded, hgroups', horiginal,
      hsame, hsingle⟩ : ∃ specs rows loaded groups' fingerprints,
      checks.mapM (validateCheck env) = .ok specs ∧
      checks.mapM (toRow env other runConfigName ruleSetFingerprint createdAt) = .ok rows ∧
      (rows.mapM fun row => denormalizeCheck (rowToCheck row)) = .ok loaded ∧
      List.Forall₂ (fun check group => ∃ spec, validateCheck env check = .ok spec ∧
        specRules env spec = .ok group) loaded groups' ∧
      groups.flatten.mapM (DQRule.ruleFingerprint env) = .ok fingerprints ∧
      groups'.flatten.mapM (DQRule.ruleFingerprint env) = .ok fingerprints ∧
      ∀ row ∈ rows, row.forEachColumn = [] → ∃ check rule fingerprint,
        denormalizeCheck (rowToCheck row) = .ok check ∧
        deserializeChecks env [check] = .ok [rule] ∧
        rule.ruleFingerprint env = .ok fingerprint ∧ row.ruleFingerprint = some fingerprint := by
    clear hrules
    induction hgroups with
    | nil => exact ⟨[], [], [], [], [], rfl, rfl, rfl, .nil, rfl, rfl, by simp⟩
    | cons hcheck _ ih =>
      rw [List.forall_mem_cons] at hstorable
      obtain ⟨spec, hspec, hgroup⟩ := hcheck
      obtain ⟨row, loadedCheck, rules', fingerprints, hrow, hone⟩ := check_roundTrips hstorable.1
        hspec hgroup other runConfigName ruleSetFingerprint createdAt
      obtain ⟨spec', hspec', hrules'⟩ := hone.deserialized
      obtain ⟨specs, rows, loaded, groups', rest, hspecs, hrows, hloaded, hgroups', horiginal, hsame,
        hsingle⟩ := ih hstorable.2
      refine ⟨spec :: specs, row :: rows, loadedCheck :: loaded, rules' :: groups',
        fingerprints ++ rest, mapM_cons_eq_ok.mpr ⟨_, _, hspec, hspecs, rfl⟩,
        mapM_cons_eq_ok.mpr ⟨_, _, hrow, hrows, rfl⟩,
        mapM_cons_eq_ok.mpr ⟨_, _, hone.loaded, hloaded, rfl⟩,
        .cons ⟨spec', hspec', hrules'⟩ hgroups', mapM_append_eq_ok hone.original horiginal,
        mapM_append_eq_ok hone.same hsame, List.forall_mem_cons.mpr ⟨fun hempty => ?_, hsingle⟩⟩
      obtain ⟨rule, fingerprint, rfl, hfingerprint, hstored⟩ := hone.single hempty
      exact ⟨loadedCheck, rule, fingerprint, hone.loaded, deserializeChecks_single hspec' hrules',
        hfingerprint, hstored⟩
  have hdataframe : toDataframe env other runConfigName ruleSetFingerprint createdAt checks =
      .ok rows := by
    rw [toDataframe, hspecs]
    exact hrows
  exact ⟨rows, loaded, groups.flatten, groups'.flatten, fingerprints, fingerprints, hdataframe,
    (fromDataframe_toDataframe hdataframe).trans hloaded, hrules,
    deserializeChecks_eq_ok_iff.mpr ⟨groups', rfl, hgroups'⟩, horiginal, hsame, .refl _, hsingle⟩

/-- A check function of a column and a limit. -/
def isNotLessThan : CheckFunction where
  name := "is_not_less_than"
  params := [⟨"column", true⟩, ⟨"limit", true⟩]
  accepts _ _ := true
  condition bound := match bound with
    | (_, .str name) :: _ => .ok (name ++ "_less_than_limit")
    | _ => .error .typeError

/-- A check function of a list of columns. -/
def isUnique : CheckFunction where
  name := "is_unique"
  params := [⟨"columns", true⟩]
  accepts _ value := match value with
    | .list _ => true
    | _ => false
  condition _ := .ok "is_not_unique"

def builtins : Environment where
  resolveCheckFunction name :=
    if name = "is_not_less_than" then some isNotLessThan
    else if name = "is_unique" then some isUnique
    else none
  checkFuncRegistry name := some (if name = "is_unique" then .dataset else .row)
  parses _ := true
  sha256 := nameHash

def notLessThan (limit : Decimal) : Check where
  check := {
    function := "is_not_less_than"
    arguments := some (.dict [(.str "column", .str "a"), (.str "limit", .decimal limit)]) }

def notLessThanRule (limit : Decimal) : DQRule where
  func := isNotLessThan
  name := "a_less_than_limit"
  criticality := "error"
  column := some (.str "a")
  columns := none
  filter := none
  checkFuncKwargs := [("limit", .decimal limit)]
  userMetadata := none
  messageExpr := none

theorem deserializeChecks_notLessThan (limit : Decimal) :
    deserializeChecks builtins [notLessThan limit] = .ok [notLessThanRule limit] := by
  rfl

theorem notLessThans_deserialize :
    deserializeChecks builtins
        [notLessThan (.finite false 150 (-2)), notLessThan (.nan true false 0)] =
      .ok [notLessThanRule (.finite false 150 (-2)), notLessThanRule (.nan true false 0)] := by
  rfl

theorem notLessThan_storable (limit : Decimal) :
    Storable builtins (notLessThan limit) where
  forEachColumn columns hcolumns := by cases hcolumns
  arguments entries hentries := by
    cases hentries
    refine ⟨by simp, List.forall_mem_cons.mpr ⟨⟨_, readBack_str "a"⟩, ?_⟩⟩
    exact List.forall_mem_singleton.mpr ⟨_, readBack_decimal limit⟩
  columns entries items hentries _ hlookup := by
    cases hentries
    cases hlookup
  sortable entries normals hcolumns := by cases hcolumns
  userMetadata entries hentries := by cases hentries
  accepts func entries hfunc _ _ _ _ _ _ _ := by
    cases hfunc
    rfl
  survives rules hrules rule hrule bound hbound := by
    obtain rfl := Except.ok.inj (hrules.symm.trans (deserializeChecks_notLessThan limit))
    obtain rfl := List.mem_singleton.mp hrule
    cases hbound
    refine List.forall_mem_cons.mpr ⟨survives_str "a", ?_⟩
    exact List.forall_mem_singleton.mpr (survives_decimal limit)
  condition rules hrules rule hrule bound bound' hbound hread := by
    obtain rfl := Except.ok.inj (hrules.symm.trans (deserializeChecks_notLessThan limit))
    obtain rfl := List.mem_singleton.mp hrule
    cases hbound
    cases hread with
    | @cons _ entry _ rest hentry hrest =>
      obtain ⟨key, value⟩ := entry
      obtain rfl : value = .str "a" := hentry.2.unique (readBack_str "a")
      exact ⟨_, rfl, fun _ => rfl⟩

/-- A limit of any precision comes back from the table. -/
theorem roundTrips_notLessThan :
    RoundTrips builtins (fun _ => "") versionOrder "default" "v1" 1
      [notLessThan (.finite false 150 (-2)), notLessThan (.nan true false 0)] :=
  roundTrips_of_storable
    (by simp [notLessThan_storable]) notLessThans_deserialize _ _ _ _ _

/-- A check for each of some keys, with a key of two columns. -/
def uniqueKeys : Check where
  check := {
    function := "is_unique"
    forEachColumn := some [.list [.str "a", .str "b"]] }

/-- The key of two columns is stored as one text: what is loaded is no longer a valid check. -/
theorem uniqueKeys_not_roundTrips :
    ¬∀ (env : Environment) (other : Value → String)
      (order : Arrangement (fun _ : CheckRow => ()) LaterFirst)
      (runConfigName ruleSetFingerprint : String) (createdAt : Nat) (checks : List Check),
      (∃ specs, checks.mapM (validateCheck env) = .ok specs) →
      (∃ rules, deserializeChecks env checks = .ok rules) →
      RoundTrips env other order runConfigName ruleSetFingerprint createdAt checks := by
  intro h
  obtain ⟨rows, loaded, _, rules', _, _, hrows, hloaded, -, hrules', -⟩ :=
    h builtins (fun _ => "[a, b]") versionOrder "default" "v1" 1 [uniqueKeys] ⟨_, rfl⟩ ⟨_, rfl⟩
  rw [fromDataframe_toDataframe hrows] at hloaded
  cases hrows
  cases hloaded
  cases hrules'

end Dqx.Checks
