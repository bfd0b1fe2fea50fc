import Dqx.Catalog.Save

/-! What the rules catalog keeps of a submission. -/

namespace Dqx.Catalog

open Lib Lib.Sql Checks Rules

/-! ### What a submission is for -/

/-- The same function, and the same arguments of these names, up to the case of letters. -/
def SameCheck (names : String → Bool) (a b : Fields) : Prop :=
  ∃ d e, definitionOf a = .ok d ∧ definitionOf b = .ok e ∧ Definition.SameOn names d e

/-- The options that the identity leaves out on purpose. -/
def options : List String := ["trim_strings", "name", "weight", "criticality"]

/-- A check of the table that was not rejected. -/
def Existing (rows : List CatalogRow) (tableFqn : Text) (stored : Fields) : Prop :=
  ∃ row ∈ rows, row.tableFqn = tableFqn ∧ row.status ≠ .rejected ∧ row.check = some stored

/-- A JSON object with a function and arguments in it. -/
def IsCheck (check : Fields) : Prop :=
  (Json.obj check).Valid ∧ ∃ d, definitionOf check = .ok d

/-- The submission passes validation, and so did what is stored. -/
structure Accepted (host : Host) (request : Request) (rows : List CatalogRow) : Prop where
  source : validSources.contains request.source = true
  fqn : SqlUtils.validateFqn request.tableFqn = true
  submitted : ∀ check ∈ request.normalized, IsCheck check
  safe : ∀ check ∈ request.normalized, validateSqlCheck host.unicode check = .ok ()
  fingerprinted : ∀ check ∈ request.normalized, ∃ text, host.computeRuleFingerprint check = .ok text
  stored : ∀ stored, Existing rows request.tableFqn stored → IsCheck stored

/-- A draft of the submission. -/
structure IsDraft (request : Request) (row : CatalogRow) : Prop where
  tableFqn : row.tableFqn = request.tableFqn
  version : row.version = 1
  status : row.status = .draft
  source : row.source = request.source
  createdBy : row.createdBy = request.userEmail

/-- What a save does to the catalog: it adds drafts of submitted checks, in their order. No check
with an identity of its own is left out, and none that is stored already is added. -/
structure Saved (request : Request) (rows : List CatalogRow)
    (outcome : Except SaveError (List RuleCatalogEntry) × List CatalogRow)
    (created : List CatalogRow) : Prop where
  appended : outcome.2 = rows ++ created
  drafts : ∀ row ∈ created, IsDraft request row
  submitted : (created.map (·.check)).Sublist (request.normalized.map some)
  kept : ∀ check ∈ request.normalized,
    (∀ stored, Existing rows request.tableFqn stored →
      ¬SameCheck identityArgs.contains check stored) → some check ∈ created.map (·.check)
  once : request.normalized.Pairwise (fun a b => ¬SameCheck identityArgs.contains a b) →
    (created.map (·.check)).Nodup
  skipped : ∀ check ∈ request.normalized, ∀ stored, Existing rows request.tableFqn stored →
    SameCheck (fun name => !options.contains name) check stored →
      some check ∉ created.map (·.check)
  result : outcome.1 = if created.isEmpty then .error .allExist else .ok (created.map rowToEntry)

/-! ### Signatures -/

theorem valid_of_lookup {fields : Fields} {key : String} {value : Json}
    (h : (Json.obj fields).Valid) (hlookup : fields.lookup key = some value) : value.Valid :=
  (Json.valid_obj.mp h).2 (key, value) (mem_of_lookup hlookup)

theorem valid_innerOf {check inner : Fields} (h : (Json.obj check).Valid)
    (hinner : innerOf check = .ok inner) : (Json.obj inner).Valid := by
  unfold innerOf at hinner
  split at hinner
  · rwa [← Except.ok.inj hinner]
  · next hlookup =>
    rw [← Except.ok.inj hinner]
    exact valid_of_lookup h hlookup
  · cases hinner

theorem valid_argumentsOf {inner arguments : Fields} (h : (Json.obj inner).Valid)
    (harguments : argumentsOf inner = .ok arguments) : (Json.obj arguments).Valid := by
  unfold argumentsOf at harguments
  split at harguments
  · rw [← Except.ok.inj harguments]
    exact Json.valid_obj.mpr ⟨List.nodup_nil, nofun⟩
  · next hlookup =>
    rw [← Except.ok.inj harguments]
    exact valid_of_lookup h hlookup
  · cases harguments

theorem valid_definitionOf {check : Fields} {d : Definition} (h : (Json.obj check).Valid)
    (hd : definitionOf check = .ok d) : d.Valid := by
  obtain ⟨inner, hinner, hrest⟩ := bind_eq_ok.mp hd
  obtain ⟨arguments, harguments, hok⟩ := bind_eq_ok.mp hrest
  have hvalid := valid_innerOf h hinner
  rw [← Except.ok.inj hok]
  refine ⟨?_, valid_argumentsOf hvalid harguments⟩
  cases hfunction : inner.lookup "function" with
  | none => trivial
  | some function => exact valid_of_lookup hvalid hfunction

/-- The signature of a check. -/
def signatureOf (check : Fields) : Text := resultOf checkSignature check

theorem IsCheck.checkSignature {check : Fields} (h : IsCheck check) :
    checkSignature check = .ok (signatureOf check) := by
  obtain ⟨-, d, hd⟩ := h
  have hsignature : Catalog.checkSignature check = .ok d.signature := by
    rw [Catalog.checkSignature, hd]
    rfl
  rw [signatureOf, resultOf_eq hsignature, hsignature]

theorem signatureOf_eq_iff {a b : Fields} (ha : IsCheck a) (hb : IsCheck b) :
    signatureOf a = signatureOf b ↔ SameCheck identityArgs.contains a b := by
  obtain ⟨hvalidA, d, hd⟩ := ha
  obtain ⟨hvalidB, e, he⟩ := hb
  have hsignature : ∀ {check : Fields} {d : Definition}, definitionOf check = .ok d →
      signatureOf check = d.signature := by
    intro check d hd
    exact resultOf_eq (by rw [Catalog.checkSignature, hd]; rfl)
  rw [hsignature hd, hsignature he,
    Definition.signature_eq_iff (valid_definitionOf hvalidA hd) (valid_definitionOf hvalidB he)]
  constructor
  · exact fun h => ⟨d, e, hd, he, h⟩
  · rintro ⟨d', e', hd', he', h⟩
    obtain rfl : d = d' := Except.ok.inj (hd.symm.trans hd')
    obtain rfl : e = e' := Except.ok.inj (he.symm.trans he')
    exact h

theorem SameCheck.mono {names names' : String → Bool} {a b : Fields} (h : SameCheck names a b)
    (hsub : ∀ name, names' name = true → names name = true) : SameCheck names' a b := by
  obtain ⟨d, e, hd, he, hsame⟩ := h
  exact ⟨d, e, hd, he, hsame.mono hsub⟩

theorem not_option {name : String} (h : identityArgs.contains name = true) :
    (!options.contains name) = true := by
  have hall : ∀ n ∈ identityArgs, (!options.contains n) = true := by decide
  exact hall name (List.contains_iff_mem.mp h)

/-! ### Duplicates -/

/-- The checks that count as existing. -/
def existingChecks (rows : List CatalogRow) (tableFqn : Text) (excluded : List Text) : List Fields :=
  ((listRulesForTable rows tableFqn none).filter fun entry =>
    !excluded.contains entry.ruleId && entry.status ≠ .rejected).flatMap (·.checks)

theorem mem_existingChecks {rows : List CatalogRow} {tableFqn : Text} {stored : Fields} :
    stored ∈ existingChecks rows tableFqn [] ↔ Existing rows tableFqn stored := by
  simp [existingChecks, listRulesForTable, Existing, rowToEntry, and_assoc]

theorem mapM_checkSignature {checks : List Fields} (h : ∀ check ∈ checks, IsCheck check) :
    checks.mapM checkSignature = .ok (checks.map signatureOf) :=
  mapM_eq_map fun check hcheck => (h check hcheck).checkSignature

theorem sign_eq {checks : List Fields} (h : ∀ check ∈ checks, IsCheck check) :
    sign checks = .ok (checks.map fun check => (check, signatureOf check)) :=
  mapM_eq_map fun check hcheck => by rw [(h check hcheck).checkSignature]; rfl

theorem filter_signed (checks : List Fields) (p : Text → Bool) :
    ((checks.map fun check => (check, signatureOf check)).filter fun signed => p signed.2).map
      Prod.fst = checks.filter fun check => p (signatureOf check) := by
  rw [List.filter_map, List.map_map]
  exact List.map_id _

variable {host : Host} {request : Request} {rows : List CatalogRow}

/-- Whether a check has the signature of an existing one. -/
def isDuplicate (rows : List CatalogRow) (tableFqn : Text) (check : Fields) : Bool :=
  ((existingChecks rows tableFqn []).map signatureOf).contains (signatureOf check)

theorem Accepted.isDuplicate_iff (h : Accepted host request rows) {check : Fields}
    (hcheck : check ∈ request.normalized) : isDuplicate rows request.tableFqn check = true ↔
      ∃ stored, Existing rows request.tableFqn stored ∧
        SameCheck identityArgs.contains check stored := by
  rw [isDuplicate, List.contains_iff_mem, List.mem_map]
  constructor
  · rintro ⟨stored, hstored, heq⟩
    have hexisting := mem_existingChecks.mp hstored
    exact ⟨stored, hexisting,
      (signatureOf_eq_iff (h.submitted check hcheck) (h.stored stored hexisting)).mp heq.symm⟩
  · rintro ⟨stored, hexisting, hsame⟩
    exact ⟨stored, mem_existingChecks.mpr hexisting,
      ((signatureOf_eq_iff (h.submitted check hcheck) (h.stored stored hexisting)).mpr hsame).symm⟩

theorem Accepted.findDuplicates (h : Accepted host request rows) :
    findDuplicates rows request.tableFqn request.normalized [] =
      .ok (request.normalized.filter (isDuplicate rows request.tableFqn)) := by
  have hexisting : existingSignatures rows request.tableFqn [] =
      .ok ((existingChecks rows request.tableFqn []).map signatureOf) :=
    mapM_checkSignature fun stored hstored => h.stored stored (mem_existingChecks.mp hstored)
  rw [Catalog.findDuplicates, hexisting, sign_eq h.submitted]
  exact congrArg Except.ok (filter_signed request.normalized
    ((existingChecks rows request.tableFqn []).map signatureOf).contains)

/-- A signature is among those of the duplicates where it is that of an existing check. -/
theorem contains_duplicates {checks : List Fields} {check : Fields} (hcheck : check ∈ checks)
    (tableFqn : Text) :
    ((checks.filter (isDuplicate rows tableFqn)).map signatureOf).contains (signatureOf check) =
      isDuplicate rows tableFqn check := by
  rw [Bool.eq_iff_iff, List.contains_iff_mem, List.mem_map]
  constructor
  · rintro ⟨duplicate, hduplicate, heq⟩
    have hduplicate := (List.mem_filter.mp hduplicate).2
    rwa [isDuplicate, heq] at hduplicate
  · exact fun h => ⟨check, List.mem_filter.mpr ⟨hcheck, h⟩, rfl⟩

/-- The submitted checks that are not duplicates. -/
def newChecks (request : Request) (rows : List CatalogRow) : List Fields :=
  request.normalized.filter fun check => !isDuplicate rows request.tableFqn check

theorem Accepted.nonDuplicates (h : Accepted host request rows) :
    nonDuplicates rows request.tableFqn request.normalized = .ok (newChecks request rows) := by
  have hduplicates : (request.normalized.filter (isDuplicate rows request.tableFqn)).mapM
      checkSignature = .ok _ :=
    mapM_checkSignature fun check hcheck => h.submitted check (List.mem_of_mem_filter hcheck)
  rw [Catalog.nonDuplicates, h.findDuplicates]
  simp only [bind, Except.bind, hduplicates, sign_eq h.submitted]
  rw [filter_signed request.normalized fun signature => !List.contains _ signature]
  refine congrArg Except.ok (List.filter_congr fun check hcheck => ?_)
  rw [contains_duplicates hcheck]

theorem Accepted.prepare (h : Accepted host request rows) :
    prepare host request rows =
      if (newChecks request rows).isEmpty then .error .allExist
      else .ok (newChecks request rows) := by
  have hsafe : request.normalized.forM (validateSqlCheck host.unicode) = .ok () :=
    forM_eq_ok h.safe
  rw [Catalog.prepare, h.source, h.fqn]
  simp only [Bool.not_true, Bool.false_eq_true, if_false, bind, Except.bind, hsafe, h.nonDuplicates]

/-! ### Rows -/

/-- Where every check has a fingerprint, every check becomes a row. -/
theorem insertChecks_eq (newId : Nat → Text) {checks : List Fields}
    (h : ∀ check ∈ checks, ∃ text, host.computeRuleFingerprint check = .ok text) (k : Nat)
    (rows : List CatalogRow) : ∃ created,
      insertChecks host newId request k checks rows =
        (.ok (created.map rowToEntry), rows ++ created) ∧
      created.map (·.check) = checks.map some ∧ ∀ row ∈ created, IsDraft request row := by
  induction checks generalizing k rows with
  | nil => exact ⟨[], by simp [insertChecks], rfl, nofun⟩
  | cons check rest ih =>
    obtain ⟨text, htext⟩ := h check List.mem_cons_self
    obtain ⟨created, hcreated, hchecks, hdrafts⟩ :=
      ih (fun c hc => h c (List.mem_cons_of_mem _ hc)) (k + 1)
        (rows ++ [newRow request (newId k) check text])
    refine ⟨newRow request (newId k) check text :: created, ?_, ?_, ?_⟩
    · rw [insertChecks, htext]
      dsimp only
      rw [hcreated, List.append_assoc]
      rfl
    · rw [List.map_cons, hchecks, List.map_cons]
      rfl
    · exact List.forall_mem_cons.mpr ⟨⟨rfl, rfl, rfl, rfl, rfl⟩, hdrafts⟩

theorem mem_newChecks {check : Fields} : check ∈ newChecks request rows ↔
    check ∈ request.normalized ∧ isDuplicate rows request.tableFqn check = false := by
  rw [newChecks, List.mem_filter, Bool.not_eq_true']

/-- What an accepted submission leaves, in terms of the checks that are not duplicates. -/
theorem Accepted.save_eq (h : Accepted host request rows) (newId : Nat → Text) : ∃ created,
    save host newId request rows =
      (if created.isEmpty then .error .allExist else .ok (created.map rowToEntry), rows ++ created) ∧
    created.map (·.check) = (newChecks request rows).map some ∧
    ∀ row ∈ created, IsDraft request row := by
  rw [save, h.prepare]
  by_cases hempty : (newChecks request rows).isEmpty = true
  · refine ⟨[], ?_, ?_, nofun⟩
    · rw [if_pos hempty]
      simp
    · rw [List.isEmpty_iff.mp hempty]
      rfl
  · obtain ⟨created, hcreated, hchecks, hdrafts⟩ := @insertChecks_eq host request newId _
      (fun check hcheck => h.fingerprinted check (mem_newChecks.mp hcheck).1) 0 rows
    refine ⟨created, ?_, hchecks, hdrafts⟩
    have hne : created.isEmpty = false := by
      rw [← List.isEmpty_map (f := (·.check)), hchecks, List.isEmpty_map]
      simpa using hempty
    rw [if_neg hempty, hne]
    exact hcreated

theorem SameCheck.refl {check : Fields} (h : IsCheck check) (names : String → Bool) :
    SameCheck names check check := by
  obtain ⟨-, d, hd⟩ := h
  exact ⟨d, d, hd, hd, rfl, fun _ _ => rfl⟩

theorem Accepted.saved (h : Accepted host request rows) (newId : Nat → Text) :
    ∃ created, Saved request rows (save host newId request rows) created := by
  obtain ⟨created, heq, hchecks, hdrafts⟩ := h.save_eq newId
  refine ⟨created, ?_⟩
  rw [heq]
  have hsublist : (created.map (·.check)).Sublist (request.normalized.map some) := by
    rw [hchecks]
    exact List.filter_sublist.map some
  refine ⟨rfl, hdrafts, hsublist, ?_, ?_, ?_, rfl⟩
  · intro check hcheck hnew
    rw [hchecks]
    refine List.mem_map_of_mem (mem_newChecks.mpr ⟨hcheck, ?_⟩)
    rw [Bool.eq_false_iff, Ne, h.isDuplicate_iff hcheck]
    exact fun ⟨stored, hexisting, hsame⟩ => hnew stored hexisting hsame
  · intro hdistinct
    refine List.Nodup.sublist hsublist (List.Nodup.map (Option.some_injective _) ?_)
    refine hdistinct.imp_of_mem fun {a b} ha _ hdiffers => ?_
    rintro rfl
    exact hdiffers (SameCheck.refl (h.submitted a ha) _)
  · intro check hcheck stored hexisting hsame hmem
    rw [hchecks] at hmem
    obtain ⟨new, hnew, heq⟩ := List.mem_map.mp hmem
    obtain rfl := Option.some.inj heq
    have hduplicate := (h.isDuplicate_iff hcheck).mpr
      ⟨stored, hexisting, hsame.mono fun name => not_option⟩
    rw [(mem_newChecks.mp hnew).2] at hduplicate
    cases hduplicate

/-! ### The same submission twice -/

theorem existing_append {created : List CatalogRow} {tableFqn : Text} {stored : Fields} :
    Existing (rows ++ created) tableFqn stored ↔
      Existing rows tableFqn stored ∨ Existing created tableFqn stored := by
  simp only [Existing, List.mem_append, or_and_right, exists_or]

variable {created : List CatalogRow}

theorem Saved.existing_created {outcome : Except SaveError (List RuleCatalogEntry) × List CatalogRow}
    (h : Saved request rows outcome created) {check : Fields} :
    Existing created request.tableFqn check ↔ some check ∈ created.map (·.check) := by
  rw [List.mem_map]
  constructor
  · rintro ⟨row, hrow, -, -, hcheck⟩
    exact ⟨row, hrow, hcheck⟩
  · rintro ⟨row, hrow, hcheck⟩
    have hdraft := h.drafts row hrow
    exact ⟨row, hrow, hdraft.tableFqn, by rw [hdraft.status]; decide, hcheck⟩

/-- After a save, the same submission is accepted again. -/
theorem Accepted.again (h : Accepted host request rows)
    {outcome : Except SaveError (List RuleCatalogEntry) × List CatalogRow}
    (hsaved : Saved request rows outcome created) {again : Request}
    (htable : again.tableFqn = request.tableFqn) (hchecks : again.checks = request.checks)
    (hsource : validSources.contains again.source = true) :
    Accepted host again (rows ++ created) := by
  have hnormalized : again.normalized = request.normalized := by
    rw [Request.normalized, hchecks, Request.normalized]
  refine ⟨hsource, htable ▸ h.fqn, hnormalized ▸ h.submitted, hnormalized ▸ h.safe,
    hnormalized ▸ h.fingerprinted, ?_⟩
  intro stored hexisting
  rw [htable, existing_append] at hexisting
  rcases hexisting with hexisting | hexisting
  · exact h.stored stored hexisting
  · have hmem := hsaved.submitted.subset (hsaved.existing_created.mp hexisting)
    exact h.submitted stored (by simpa using hmem)

/-- Whatever the submission holds is in the catalog after it was saved. -/
theorem Accepted.all_duplicates (h : Accepted host request rows)
    {outcome : Except SaveError (List RuleCatalogEntry) × List CatalogRow}
    (hsaved : Saved request rows outcome created) {again : Request}
    (htable : again.tableFqn = request.tableFqn) (hchecks : again.checks = request.checks)
    (hagain : Accepted host again (rows ++ created)) :
    newChecks again (rows ++ created) = [] := by
  have hnormalized : again.normalized = request.normalized := by
    rw [Request.normalized, hchecks, Request.normalized]
  refine List.eq_nil_iff_forall_not_mem.mpr fun check hmem => ?_
  obtain ⟨hcheck, hnew⟩ := mem_newChecks.mp hmem
  rw [Bool.eq_false_iff, Ne, hagain.isDuplicate_iff hcheck, htable] at hnew
  rw [hnormalized] at hcheck
  apply hnew
  by_cases hkept : ∀ stored, Existing rows request.tableFqn stored →
      ¬SameCheck identityArgs.contains check stored
  · have hcreated := hsaved.existing_created.mpr (hsaved.kept check hcheck hkept)
    exact ⟨check, existing_append.mpr (.inr hcreated), SameCheck.refl (h.submitted check hcheck) _⟩
  · push Not at hkept
    obtain ⟨stored, hexisting, hsame⟩ := hkept
    exact ⟨stored, existing_append.mpr (.inl hexisting), hsame⟩

/-- A save of an accepted submission adds the drafts that it is for, and the same submission, by
whoever and from wherever, adds nothing after it. -/
theorem save_saved (h : Accepted host request rows) (newId : Nat → Text) :
    ∃ created, Saved request rows (save host newId request rows) created ∧
      ∀ (newId' : Nat → Text) (again : Request), again.tableFqn = request.tableFqn →
        again.checks = request.checks →
        save host newId' again (rows ++ created) =
          (.error (if validSources.contains again.source then .allExist
            else .invalidSource again.source), rows ++ created) := by
  obtain ⟨created, hsaved⟩ := h.saved newId
  refine ⟨created, hsaved, fun newId' again htable hchecks => ?_⟩
  by_cases hsource : validSources.contains again.source = true
  · have hagain := h.again hsaved htable hchecks hsource
    rw [save, hagain.prepare, h.all_duplicates hsaved htable hchecks hagain, if_pos hsource]
    rfl
  · rw [save, prepare, if_neg hsource, if_pos (by simpa using hsource)]

def asciiHost : Host := ⟨⟨Char.isAlphanum, fun c => [c]⟩, fun _ => .ok []⟩

/-- The column `a` takes one value only. -/
def isInList (allowed : String) : Fields :=
  [("check", .obj [("function", .str "is_in_list"),
    ("arguments", .obj [("column", .str "a"), ("allowed", .arr [.str allowed])])])]

def submission (allowed : String) : Request where
  tableFqn := "c.s.t".toList
  checks := [isInList allowed]
  userEmail := "u".toList
  source := "ui".toList

def storedRow (allowed : String) : CatalogRow where
  ruleId := "r".toList
  tableFqn := "c.s.t".toList
  check := some (isInList allowed)
  version := 1
  status := .approved
  source := "ui".toList
  ruleFingerprint := []
  createdBy := "u".toList
  updatedBy := "u".toList

theorem isCheck_isInList (allowed : String) : IsCheck (isInList allowed) := by
  refine ⟨?_, _, rfl⟩
  simp [isInList, Json.Valid, Json.ValidFields, Json.ValidItems]

theorem normalized_submission (allowed : String) :
    (submission allowed).normalized = [isInList allowed] := rfl

theorem existing_storedRow {allowed : String} {tableFqn : Text} {stored : Fields}
    (h : Existing [storedRow allowed] tableFqn stored) : stored = isInList allowed := by
  obtain ⟨row, hrow, -, -, hcheck⟩ := h
  rw [List.mem_singleton.mp hrow] at hcheck
  exact (Option.some.inj hcheck).symm

theorem accepted_submission (allowed stored : String) :
    Accepted asciiHost (submission allowed) [storedRow stored] where
  source := (by decide : validSources.contains "ui".toList = true)
  fqn := (by decide : SqlUtils.validateFqn "c.s.t".toList = true)
  submitted check hcheck := by
    rw [List.mem_singleton.mp hcheck]
    exact isCheck_isInList allowed
  safe check hcheck := by
    rw [List.mem_singleton.mp hcheck]
    rfl
  fingerprinted _ _ := ⟨[], rfl⟩
  stored check hcheck := by
    rw [existing_storedRow hcheck]
    exact isCheck_isInList stored

theorem save_saved_other_value :
    ∃ created, Saved (submission "y") [storedRow "x"]
      (save asciiHost (fun _ => "n".toList) (submission "y") [storedRow "x"]) created ∧
      ∀ (newId' : Nat → Text) (again : Request), again.tableFqn = (submission "y").tableFqn →
        again.checks = (submission "y").checks →
        save asciiHost newId' again ([storedRow "x"] ++ created) =
          (.error (if validSources.contains again.source then .allExist
            else .invalidSource again.source), [storedRow "x"] ++ created) :=
  save_saved (accepted_submission "y" "x") _

/-- Arguments that change the verdict of a check. -/
def verdictArgs : List String :=
  ["column", "columns", "expression", "query", "allowed", "forbidden", "limit", "min_limit",
    "max_limit", "regex", "date_format", "timestamp_format"]

/-- The values of one of these arguments are different. -/
def DifferentVerdict (a b : Fields) : Prop :=
  ∃ d e name, definitionOf a = .ok d ∧ definitionOf b = .ok e ∧ name ∈ verdictArgs ∧
    d.arguments.lookup name ≠ e.arguments.lookup name

/-- A check is dropped where only the case of a letter in a value tells it from a stored one. -/
theorem not_all_different_checks_saved :
    ¬∀ (host : Host) (newId : Nat → Text) (request : Request) (rows : List CatalogRow),
      Accepted host request rows → ∀ check ∈ request.normalized,
        (∀ stored, Existing rows request.tableFqn stored → DifferentVerdict check stored) →
        ∃ row ∈ (save host newId request rows).2, row.check = some check := by
  intro hall
  have haccepted := accepted_submission "X" "x"
  have hdifferent : isInList "X" ≠ isInList "x" := by simp [isInList]
  obtain ⟨created, hsaved⟩ := haccepted.saved fun _ => []
  obtain ⟨row, hrow, hcheck⟩ := hall asciiHost (fun _ => []) _ _ haccepted (isInList "X")
    List.mem_cons_self fun stored hexisting => by
      rw [existing_storedRow hexisting]
      exact ⟨_, _, "allowed", rfl, rfl, by decide, by simp [List.lookup_cons]⟩
  rw [hsaved.appended] at hrow
  rcases List.mem_append.mp hrow with hold | hnew
  · rw [List.mem_singleton.mp hold] at hcheck
    exact hdifferent (Option.some.inj hcheck).symm
  · have hsame : SameCheck (fun name => !options.contains name) (isInList "X") (isInList "x") := by
      refine ⟨_, _, rfl, rfl, rfl, fun name _ => ?_⟩
      simp only [List.lookup_cons]
      split
      · rfl
      split <;> rfl
    have hexisting : Existing [storedRow "x"] (submission "X").tableFqn (isInList "x") :=
      ⟨storedRow "x", List.mem_cons_self, rfl, by decide, rfl⟩
    exact hsaved.skipped _ List.mem_cons_self _ hexisting hsame
      (hcheck ▸ List.mem_map_of_mem hnew)

end Dqx.Catalog
