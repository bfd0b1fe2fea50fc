import Dqx.Checks.Rule
import Dqx.Checks.Stored

/-! What deserialization makes of checks, step by step, and what is hashed for the rules that it
makes. -/

namespace Dqx.Checks

open Lib Value

/-- The entries of a dictionary with string keys. -/
def keyed {α : Type} (entries : List (String × α)) : List (Key × α) :=
  entries.map fun entry => (Key.str entry.1, entry.2)

theorem stringEntries_eq_ok_iff {value : Value} {entries : List (String × Value)} :
    stringEntries value = .ok entries ↔ value = .dict (keyed entries) := by
  constructor
  · intro h
    cases value with
    | dict items =>
      rw [stringEntries, mapM_eq_ok_iff_forall₂] at h
      congr 1
      rw [keyed]
      induction h with
      | nil => rfl
      | @cons item entry items entries hitem _ ih =>
        obtain ⟨key, value⟩ := item
        cases key with
        | str s =>
          cases hitem
          rw [List.map_cons, ← ih]
        | int n => cases hitem
        | bool b => cases hitem
        | null => cases hitem
        | other text => cases hitem
    | _ => cases h
  · rintro rfl
    rw [stringEntries, keyed, mapM_eq_ok_iff_forall₂, List.forall₂_map_left_iff, List.forall₂_same]
    exact fun entry _ => rfl

theorem mapM_some {α : Type} {f : α → Except CheckError α} {value result : α}
    (h : f value = .ok result) : (some value).mapM f = .ok (some result) := by
  show (f value >>= fun r => pure (some r)) = _
  rw [h]
  rfl

theorem argumentEntries_eq_ok {arguments : Option Value} {entries : List (String × Value)}
    (h : argumentEntries arguments = .ok entries) :
    arguments = none ∧ entries = [] ∨ arguments = some (.dict (keyed entries)) := by
  cases arguments with
  | none =>
    cases h
    exact .inl ⟨rfl, rfl⟩
  | some value => exact .inr (congrArg some (stringEntries_eq_ok_iff.mp h))

theorem metadataEntries_eq_ok {metadata : Option Value} {entries : Option (List (String × Value))}
    (h : metadataEntries metadata = .ok entries) :
    (metadata = none ∨ metadata = some .null) ∧ entries = none ∨
      ∃ items, metadata = some (.dict (keyed items)) ∧ entries = some items := by
  cases metadata with
  | none =>
    cases h
    exact .inl ⟨.inl rfl, rfl⟩
  | some value =>
    by_cases hnull : value = .null
    · subst hnull
      cases h
      exact .inl ⟨.inr rfl, rfl⟩
    · have hentries : (stringEntries value).map some = .ok entries := by
        cases value <;> first | exact h | exact absurd rfl hnull
      obtain ⟨items, hitems, rfl⟩ := map_eq_ok.mp hentries
      exact .inr ⟨items, congrArg some (stringEntries_eq_ok_iff.mp hitems), rfl⟩

theorem validateCheck_eq_ok_iff {env : Environment} {check : Check} {spec : CheckSpec} :
    validateCheck env check = .ok spec ↔ ∃ arguments userMetadata func,
      argumentEntries check.check.arguments = .ok arguments ∧
      metadataEntries check.userMetadata = .ok userMetadata ∧
      ¬(check.check.forEachColumn.any List.isEmpty ∨
        check.criticality.getD "error" ∉ ["warn", "error"]) ∧
      env.resolveCheckFunction check.check.function = some func ∧
      validateCheckFunctionArguments func arguments check.check.forEachColumn = true ∧
      spec = {
        name := check.name, criticality := check.criticality.getD "error", func,
        functionName := check.check.function, arguments,
        forEachColumn := check.check.forEachColumn, filter := check.filter, userMetadata,
        messageExpr := check.messageExpr } := by
  constructor
  · intro h
    obtain ⟨arguments, harguments, h⟩ := bind_eq_ok.mp h
    obtain ⟨userMetadata, hmetadata, h⟩ := bind_eq_ok.mp h
    dsimp only at h
    split at h
    · cases h
    · rename_i hfields
      split at h
      · cases h
      · rename_i func hfunc
        split at h
        · rename_i hvalid
          exact ⟨arguments, userMetadata, func, harguments, hmetadata, hfields, hfunc, hvalid,
            (Except.ok.inj h).symm⟩
        · cases h
  · rintro ⟨arguments, userMetadata, func, harguments, hmetadata, hfields, hfunc, hvalid, rfl⟩
    rw [validateCheck, harguments, hmetadata]
    dsimp only [Bind.bind, Except.bind]
    rw [if_neg hfields, hfunc]
    dsimp only
    rw [if_pos hvalid]

/-- The name that a rule has when the stored name is `stored` and its condition `conditionName`. -/
def ruleName (stored conditionName : String) : String :=
  if stored = "" then conditionName else stored

theorem makeRule_eq_ok_iff {env : Environment} {spec : CheckSpec} {ruleType : RuleType}
    {column columns : Option Value} {kwargs : List (String × Value)} {rule : DQRule} :
    makeRule env spec ruleType column columns kwargs = .ok rule ↔
      ∃ column' columns' bound conditionName, coerceColumn column = .ok column' ∧
        coerceColumns columns = .ok columns' ∧
        ¬((env.checkFuncRegistry spec.func.name).any (· ≠ ruleType) ∨
          column'.isSome ∧ columns'.isSome) ∧
        rule = {
          func := spec.func, name := ruleName (spec.name.getD "") conditionName,
          criticality := spec.criticality, column := column', columns := columns',
          filter := spec.filter, checkFuncKwargs := kwargs, userMetadata := spec.userMetadata,
          messageExpr := spec.messageExpr } ∧
        rule.boundArguments = .ok bound ∧ spec.func.condition bound = .ok conditionName ∧
        (spec.messageExpr.any fun text => !env.parses text) = false := by
  constructor
  · intro h
    obtain ⟨column', hcolumn, h⟩ := bind_eq_ok.mp h
    obtain ⟨columns', hcolumns, h⟩ := bind_eq_ok.mp h
    dsimp only at h
    split at h
    · cases h
    · rename_i hvalid
      obtain ⟨bound, hbound, h⟩ := bind_eq_ok.mp h
      obtain ⟨conditionName, hcondition, h⟩ := bind_eq_ok.mp h
      split at h
      · cases h
      · rename_i hparses
        cases h
        exact ⟨column', columns', bound, conditionName, hcolumn, hcolumns, hvalid, rfl, hbound,
          hcondition, by simpa using hparses⟩
  · rintro ⟨column', columns', bound, conditionName, hcolumn, hcolumns, hvalid, rfl, hbound,
      hcondition, hparses⟩
    rw [makeRule, hcolumn, hcolumns]
    dsimp only [Bind.bind, Except.bind]
    rw [if_neg hvalid]
    have hbound' : DQRule.boundArguments {
        func := spec.func, name := spec.name.getD "", criticality := spec.criticality,
        column := column', columns := columns', filter := spec.filter, checkFuncKwargs := kwargs,
        userMetadata := spec.userMetadata, messageExpr := spec.messageExpr } = .ok bound := hbound
    rw [hbound']
    dsimp only
    rw [hcondition]
    dsimp only
    rw [if_neg (by simpa using hparses)]
    rfl

theorem specRules_made {env : Environment} {spec : CheckSpec} {rules : List DQRule}
    (h : specRules env spec = .ok rules) : ∀ rule ∈ rules, ∃ ruleType column columns kwargs,
      makeRule env spec ruleType column columns kwargs = .ok rule := by
  obtain ⟨_, -, h⟩ := bind_eq_ok.mp h
  dsimp only at h
  split at h
  · intro rule hrule
    obtain ⟨item, -, hitem⟩ := exists_of_forall₂_right (mapM_eq_ok_iff_forall₂.mp h) hrule
    obtain ⟨_, -, hmade⟩ := bind_eq_ok.mp hitem
    exact ⟨_, _, _, _, hmade⟩
  · obtain ⟨rule, hrule, rfl⟩ := map_eq_ok.mp h
    exact List.forall_mem_singleton.mpr ⟨_, _, _, _, hrule⟩

theorem specRules_name {env : Environment} {spec : CheckSpec} {rules : List DQRule}
    (h : specRules env spec = .ok rules) (hname : spec.name.getD "" ≠ "") :
    ∀ rule ∈ rules, rule.name = spec.name.getD "" := by
  intro rule hrule
  obtain ⟨_, _, _, _, hmade⟩ := specRules_made h rule hrule
  obtain ⟨_, _, _, _, -, -, -, rfl, -⟩ := makeRule_eq_ok_iff.mp hmade
  exact if_neg hname

theorem specRules_bound {env : Environment} {spec : CheckSpec} {rules : List DQRule}
    (h : specRules env spec = .ok rules) :
    ∀ rule ∈ rules, ∃ bound, rule.boundArguments = .ok bound := by
  intro rule hrule
  obtain ⟨_, _, _, _, hmade⟩ := specRules_made h rule hrule
  obtain ⟨_, _, bound, _, -, -, -, -, hbound, -⟩ := makeRule_eq_ok_iff.mp hmade
  exact ⟨bound, hbound⟩

theorem deserializeChecks_eq_ok_iff {env : Environment} {checks : List Check}
    {rules : List DQRule} :
    deserializeChecks env checks = .ok rules ↔ ∃ groups, rules = groups.flatten ∧
      List.Forall₂ (fun check group => ∃ spec, validateCheck env check = .ok spec ∧
        specRules env spec = .ok group) checks groups := by
  constructor
  · intro hrules
    obtain ⟨specs, hspecs, hrest⟩ := bind_eq_ok.mp hrules
    obtain ⟨groups, hgroups, rfl⟩ := map_eq_ok.mp hrest
    refine ⟨groups, rfl, ?_⟩
    rw [mapM_eq_ok_iff_forall₂] at hspecs hgroups
    clear hrules hrest
    induction hspecs generalizing groups with
    | nil =>
      cases hgroups
      exact .nil
    | cons hspec _ ih =>
      cases hgroups with
      | cons hgroup hgroups => exact .cons ⟨_, hspec, hgroup⟩ (ih _ hgroups)
  · rintro ⟨groups, rfl, h⟩
    obtain ⟨specs, hspecs, hgroups⟩ : ∃ specs, checks.mapM (validateCheck env) = .ok specs ∧
        specs.mapM (specRules env) = .ok groups := by
      induction h with
      | nil => exact ⟨[], rfl, rfl⟩
      | cons hcheck _ ih =>
        obtain ⟨spec, hspec, hgroup⟩ := hcheck
        obtain ⟨specs, hspecs, hgroups⟩ := ih
        exact ⟨spec :: specs, mapM_cons_eq_ok.mpr ⟨_, _, hspec, hspecs, rfl⟩,
          mapM_cons_eq_ok.mpr ⟨_, _, hgroup, hgroups, rfl⟩⟩
    rw [deserializeChecks, hspecs]
    show (specs.mapM (specRules env)).map List.flatten = _
    rw [hgroups]
    rfl

theorem deserializeChecks_singleton {env : Environment} {check : Check} {rules : List DQRule} :
    deserializeChecks env [check] = .ok rules ↔ ∃ spec, validateCheck env check = .ok spec ∧
      specRules env spec = .ok rules := by
  rw [deserializeChecks_eq_ok_iff]
  constructor
  · rintro ⟨groups, rfl, hgroups⟩
    cases hgroups with
    | cons hcheck hrest =>
      cases hrest
      simpa using hcheck
  · intro hcheck
    exact ⟨[rules], by simp, .cons hcheck .nil⟩

theorem deserializeChecks_single {env : Environment} {check : Check} {spec : CheckSpec}
    {rules : List DQRule} (hspec : validateCheck env check = .ok spec)
    (hrules : specRules env spec = .ok rules) : deserializeChecks env [check] = .ok rules :=
  deserializeChecks_singleton.mpr ⟨spec, hspec, hrules⟩

theorem mapValuesM_keyed {α β : Type} {f : α → Except CheckError β} {entries : List (String × α)}
    {results : List (String × β)} (h : mapValuesM f entries = .ok results) :
    mapValuesM f (keyed entries) = .ok (keyed results) := by
  rw [mapValuesM_eq_ok_iff_forall₂] at h ⊢
  rw [keyed, keyed, List.forall₂_map_left_iff, List.forall₂_map_right_iff]
  exact h.imp fun _ _ h => ⟨congrArg Key.str h.1, h.2⟩

theorem mapValuesM_of_keyed {α β : Type} {f : α → Except CheckError β}
    {entries : List (String × α)} {results : List (Key × β)}
    (h : mapValuesM f (keyed entries) = .ok results) :
    ∃ results', results = keyed results' ∧ mapValuesM f entries = .ok results' := by
  induction entries generalizing results with
  | nil =>
    cases h
    exact ⟨[], rfl, rfl⟩
  | cons entry entries ih =>
    obtain ⟨result, others, hresult, hothers, rfl⟩ := mapValuesM_cons_eq_ok.mp h
    obtain ⟨others', rfl, hothers'⟩ := ih hothers
    exact ⟨(entry.1, result) :: others', rfl,
      mapValuesM_cons_eq_ok.mpr ⟨_, _, hresult, hothers', rfl⟩⟩

/-- A dictionary with string keys is written with its entries sorted. -/
theorem dumps_keyed {entries : List (String × Value)} {fields : List (String × Json)}
    (h : mapValuesM (dumps true) entries = .ok fields) :
    dumps true (.dict (keyed entries)) = .ok (.obj (sortByKey (· ≤ ·) fields)) :=
  dumps_dict_eq_ok_iff.mpr ⟨keyed fields, keyed (sortByKey (· ≤ ·) fields), _, mapValuesM_keyed h,
    sortFields_str fields, textFields_str _, rfl⟩

def optionalJson : Option String → Json
  | none => .null
  | some s => .str s

theorem dumps_optionalText (text : Option String) :
    dumps true (optionalText text) = .ok (optionalJson text) := by
  cases text <;> rfl

/-- What is hashed for a rule, from the documents of its bound arguments. -/
def ruleDocument (rule : DQRule) (arguments : List (String × Json)) : Json :=
  .obj (sortByKey (· ≤ ·) [
    ("name", .str rule.name),
    ("criticality", .str rule.criticality),
    ("function", .str rule.func.name),
    ("arguments", .obj (sortByKey (· ≤ ·) arguments)),
    ("filter", optionalJson rule.filterText),
    ("for_each_column", .null)])

theorem mapValuesM_normalized {entries normals : List (String × Value)} {simpleOnly : Bool}
    (h : mapValuesM (normalizeBoundArgs simpleOnly) entries = .ok normals) (simpleOnly' : Bool) :
    normalizeBoundArgs simpleOnly' (.dict (keyed normals)) = .ok (.dict (keyed normals)) := by
  have hall : mapValuesM (normalizeBoundArgs simpleOnly') normals = .ok normals := by
    apply mapValuesM_fixed
    intro entry hentry
    obtain ⟨source, -, -, hsource⟩ :=
      exists_of_forall₂_right (mapValuesM_eq_ok_iff_forall₂.mp h) hentry
    exact normalize_normalized hsource
  rw [normalizeBoundArgs, normalizeEntries_eq, mapValuesM_keyed hall]
  rfl

theorem normalize_keyed {entries normals : List (String × Value)} {simpleOnly : Bool}
    (h : mapValuesM (normalizeBoundArgs simpleOnly) entries = .ok normals) :
    normalizeBoundArgs simpleOnly (.dict (keyed entries)) = .ok (.dict (keyed normals)) := by
  rw [normalizeBoundArgs, normalizeEntries_eq, mapValuesM_keyed h]
  rfl

/-- The dictionary of a rule, with its normalized arguments. -/
def ruleCheck (rule : DQRule) (fullArgs : List (String × Value)) (userMetadata : Option Value) :
    Check where
  name := rule.name
  criticality := rule.criticality
  check := { function := rule.func.name, arguments := some (.dict (keyed fullArgs)) }
  filter := rule.filterText
  userMetadata
  messageExpr := rule.messageExpr

def metadataValue (rule : DQRule) : Option Value :=
  rule.userMetadata.bind fun entries => if entries.isEmpty then none else some (.dict (keyed entries))

theorem toDict_eq {rule : DQRule} {bound fullArgs : List (String × Value)}
    (hbound : rule.boundArguments = .ok bound)
    (hfull : mapValuesM (normalizeBoundArgs false) bound = .ok fullArgs) :
    rule.toDict = .ok (ruleCheck rule fullArgs (metadataValue rule)) := by
  rw [DQRule.toDict, hbound]
  show (mapValuesM (normalizeBoundArgs false) bound >>= _) = _
  rw [hfull]
  rfl

theorem normalizeCheck_ruleCheck {rule : DQRule} {bound fullArgs : List (String × Value)}
    {userMetadata userMetadata' : Option Value}
    (hfull : mapValuesM (normalizeBoundArgs false) bound = .ok fullArgs)
    (hmetadata : userMetadata.mapM (normalizeBoundArgs true) = .ok userMetadata') :
    normalizeCheck (ruleCheck rule fullArgs userMetadata) =
      .ok (ruleCheck rule fullArgs userMetadata') := by
  have harguments : (some (Value.dict (keyed fullArgs))).mapM (normalizeBoundArgs true) =
      .ok (some (.dict (keyed fullArgs))) := by
    show (normalizeBoundArgs true (.dict (keyed fullArgs)) >>= fun value => pure (some value)) = _
    rw [mapValuesM_normalized hfull]
    rfl
  rw [normalizeCheck]
  show ((some (Value.dict (keyed fullArgs))).mapM (normalizeBoundArgs true) >>= _) = _
  rw [harguments]
  show (userMetadata.mapM (normalizeBoundArgs true) >>= _) = _
  rw [hmetadata]
  rfl

theorem metadataValue_normalized {rule : DQRule}
    (hmetadata : ∀ entries, rule.userMetadata = some entries →
      ∃ normals, mapValuesM (normalizeBoundArgs true) entries = .ok normals) :
    ∃ normal, (metadataValue rule).mapM (normalizeBoundArgs true) = .ok normal := by
  rw [metadataValue]
  cases hentries : rule.userMetadata with
  | none => exact ⟨none, rfl⟩
  | some entries =>
    obtain ⟨normals, hnormals⟩ := hmetadata entries hentries
    show ∃ normal, (if entries.isEmpty then none else some (Value.dict (keyed entries))).mapM
      (normalizeBoundArgs true) = .ok normal
    split
    · exact ⟨none, rfl⟩
    · refine ⟨some (.dict (keyed normals)), ?_⟩
      show (normalizeBoundArgs true (.dict (keyed entries)) >>= fun value => pure (some value)) = _
      rw [normalize_keyed hnormals]
      rfl

/-- The fingerprint of a rule is the hash of its document. -/
theorem ruleFingerprint_eq {env : Environment} {rule : DQRule}
    {bound fullArgs : List (String × Value)} {documents : List (String × Json)}
    (hbound : rule.boundArguments = .ok bound)
    (hfull : mapValuesM (normalizeBoundArgs false) bound = .ok fullArgs)
    (hdocuments : mapValuesM (dumps true) fullArgs = .ok documents)
    (hmetadata : ∀ entries, rule.userMetadata = some entries →
      ∃ normals, mapValuesM (normalizeBoundArgs true) entries = .ok normals) :
    rule.ruleFingerprint env = .ok (env.sha256 (ruleDocument rule documents)) := by
  obtain ⟨userMetadata, hnormal⟩ := metadataValue_normalized hmetadata
  have hfields : mapValuesM (dumps true) [
      ("name", Value.str rule.name),
      ("criticality", .str rule.criticality),
      ("function", .str rule.func.name),
      ("arguments", .dict (keyed fullArgs)),
      ("filter", optionalText rule.filterText),
      ("for_each_column", .null)] = .ok [
      ("name", .str rule.name),
      ("criticality", .str rule.criticality),
      ("function", .str rule.func.name),
      ("arguments", .obj (sortByKey (· ≤ ·) documents)),
      ("filter", optionalJson rule.filterText),
      ("for_each_column", .null)] := by
    rw [mapValuesM_eq_ok_iff_forall₂]
    exact .cons ⟨rfl, rfl⟩ (.cons ⟨rfl, rfl⟩ (.cons ⟨rfl, rfl⟩ (.cons ⟨rfl, dumps_keyed hdocuments⟩
      (.cons ⟨rfl, dumps_optionalText _⟩ (.cons ⟨rfl, rfl⟩ .nil)))))
  rw [DQRule.ruleFingerprint, toDict_eq hbound hfull]
  show computeRuleFingerprint env (ruleCheck rule fullArgs (metadataValue rule)) = _
  rw [computeRuleFingerprint, normalizeCheck_ruleCheck hfull hnormal]
  exact congrArg (fun result => result >>= fun canonical => Except.ok (env.sha256 canonical))
    (dumps_keyed hfields)

/-- Where a rule has a fingerprint, it comes from these documents. -/
theorem of_ruleFingerprint_eq_ok {env : Environment} {rule : DQRule} {fingerprint : String}
    (h : rule.ruleFingerprint env = .ok fingerprint) : ∃ bound fullArgs documents,
      rule.boundArguments = .ok bound ∧
      mapValuesM (normalizeBoundArgs false) bound = .ok fullArgs ∧
      mapValuesM (dumps true) fullArgs = .ok documents ∧
      (∀ entries, rule.userMetadata = some entries →
        ∃ normals, mapValuesM (normalizeBoundArgs true) entries = .ok normals) ∧
      fingerprint = env.sha256 (ruleDocument rule documents) := by
  obtain ⟨check, hcheck, hfingerprint⟩ := bind_eq_ok.mp h
  obtain ⟨bound, hbound, hrest⟩ := bind_eq_ok.mp hcheck
  obtain ⟨fullArgs, hfull, -⟩ := bind_eq_ok.mp hrest
  obtain rfl := Except.ok.inj ((toDict_eq hbound hfull).symm.trans hcheck)
  obtain ⟨normal, hnormal, hdump⟩ := bind_eq_ok.mp hfingerprint
  have hmetadata : ∀ entries, rule.userMetadata = some entries →
      ∃ normals, mapValuesM (normalizeBoundArgs true) entries = .ok normals := by
    intro entries hentries
    obtain ⟨_, -, hrest⟩ := bind_eq_ok.mp hnormal
    obtain ⟨_, -, hrest⟩ := bind_eq_ok.mp hrest
    obtain ⟨_, hnormals, -⟩ := bind_eq_ok.mp hrest
    cases entries with
    | nil => exact ⟨[], rfl⟩
    | cons entry entries =>
      have hvalue : (ruleCheck rule fullArgs (metadataValue rule)).userMetadata =
          some (.dict (keyed (entry :: entries))) := by
        show metadataValue rule = _
        rw [metadataValue, hentries]
        rfl
      rw [hvalue] at hnormals
      obtain ⟨_, hdict, -⟩ := bind_eq_ok.mp hnormals
      rw [normalizeBoundArgs, normalizeEntries_eq] at hdict
      obtain ⟨results, hresults, -⟩ := map_eq_ok.mp hdict
      obtain ⟨normals, -, hnormals⟩ := mapValuesM_of_keyed hresults
      exact ⟨normals, hnormals⟩
  obtain ⟨userMetadata, huserMetadata⟩ := metadataValue_normalized hmetadata
  obtain rfl := Except.ok.inj ((normalizeCheck_ruleCheck hfull huserMetadata).symm.trans hnormal)
  obtain ⟨_, -, hdump⟩ := bind_eq_ok.mp hdump
  obtain ⟨canonical, hcanonical, -⟩ := bind_eq_ok.mp hdump
  obtain ⟨fields, -, -, hfields, -⟩ := dumps_dict_eq_ok_iff.mp hcanonical
  -- the fourth field holds the arguments
  obtain ⟨_, _, -, hfields, -⟩ := mapValuesM_cons_eq_ok.mp hfields
  obtain ⟨_, _, -, hfields, -⟩ := mapValuesM_cons_eq_ok.mp hfields
  obtain ⟨_, _, -, hfields, -⟩ := mapValuesM_cons_eq_ok.mp hfields
  obtain ⟨_, _, harguments, -, -⟩ := mapValuesM_cons_eq_ok.mp hfields
  obtain ⟨fields, -, -, harguments, -⟩ := dumps_dict_eq_ok_iff.mp harguments
  obtain ⟨documents, -, hdocuments⟩ := mapValuesM_of_keyed harguments
  refine ⟨bound, fullArgs, documents, hbound, hfull, hdocuments, hmetadata, ?_⟩
  exact Except.ok.inj (h.symm.trans (ruleFingerprint_eq hbound hfull hdocuments hmetadata))

end Dqx.Checks
