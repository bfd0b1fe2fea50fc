import Dqx.Checks.Rule
import Dqx.Lib.Rank

/-! `DataFrameConverter`: the rows under which checks are stored in a table, and the checks that are
read back from rows. -/

namespace Dqx.Checks

open Lib

/-- A value of a `MAP<STRING, STRING>` column: NULL, a text that is a JSON document, or any other
text. -/
inductive MapValue where
  | null
  | document (j : Json)
  | plain (s : String)

def MapValue.safeJsonLoad : MapValue → Value
  | .null => .null
  | .document j => j.loads
  | .plain s => .str s

abbrev StringMap := List (String × MapValue)

structure CheckRow where
  name : Option String
  criticality : String
  function : String
  forEachColumn : List String
  arguments : Option StringMap
  filter : Option String
  runConfigName : Option String
  userMetadata : Option StringMap
  messageExpr : Option String
  createdAt : Option Nat
  ruleFingerprint : Option String
  ruleSetFingerprint : Option String

/-- An element of an `ARRAY<STRING>` column: a string stays as it is, anything else is converted by
`other`. -/
def arrayElement (other : Value → String) : Value → String
  | .str s => s
  | value => other value

/-- `{k: json.dumps(v)}`. -/
def dumpsMap (value : Value) : Except CheckError StringMap := do
  let entries ← stringEntries value
  mapValuesM (fun item => (Value.dumps false item).map .document) entries

def dumpsOptionalMap : Option Value → Except CheckError (Option StringMap)
  | none => .ok none
  | some .null => .ok none
  | some value => (dumpsMap value).map some

/-- The name and the fingerprint to store for a check. -/
def resolveNameAndFingerprint (env : Environment) (original normalized : Check) :
    Except CheckError (Option String × String) :=
  if normalized.check.forEachColumn.any fun columns => !columns.isEmpty then
    (computeRuleFingerprint env normalized).map fun fingerprint => (normalized.name, fingerprint)
  else do
    let rules ← deserializeChecks env [original]
    match rules with
    | rule :: _ => (rule.ruleFingerprint env).map fun fingerprint => (some rule.name, fingerprint)
    | [] => .error .typeError

/-- The row of one check. -/
def toRow (env : Environment) (other : Value → String) (runConfigName ruleSetFingerprint : String)
    (createdAt : Nat) (original : Check) : Except CheckError CheckRow := do
  let check ← normalizeCheck original
  let arguments ← dumpsOptionalMap check.check.arguments
  let (name, ruleFingerprint) ← resolveNameAndFingerprint env original check
  let userMetadata ← dumpsOptionalMap check.userMetadata
  .ok {
    name
    criticality := check.criticality.getD "error"
    function := check.check.function
    forEachColumn := (check.check.forEachColumn.getD []).map (arrayElement other)
    arguments := some (arguments.getD [])
    filter := check.filter
    runConfigName := some runConfigName
    userMetadata
    messageExpr := check.messageExpr
    createdAt := some createdAt
    ruleFingerprint := some ruleFingerprint
    ruleSetFingerprint := some ruleSetFingerprint }

/-- `to_dataframe`: the checks are validated before any row is made. -/
def toDataframe (env : Environment) (other : Value → String)
    (runConfigName ruleSetFingerprint : String) (createdAt : Nat) (checks : List Check) :
    Except CheckError (List CheckRow) := do
  let _ ← checks.mapM (validateCheck env)
  checks.mapM (toRow env other runConfigName ruleSetFingerprint createdAt)

/-- `_row_to_check_dict`. Its keys are those of a check, so the projection to these keeps all. -/
def rowToCheck (row : CheckRow) : Check where
  name := row.name
  criticality := row.criticality
  check := {
    function := row.function
    arguments := some (.dict ((row.arguments.getD []).map fun (key, value) =>
      (.str key, value.safeJsonLoad)))
    forEachColumn := if row.forEachColumn.isEmpty then none else some (row.forEachColumn.map .str) }
  filter := row.filter
  userMetadata := row.userMetadata.map fun entries =>
    .dict (entries.map fun (key, value) => (.str key, value.safeJsonLoad))
  messageExpr := row.messageExpr

/-- `denormalize_value` on the dictionary of a check. -/
def denormalizeCheck (check : Check) : Except CheckError Check := do
  let arguments ← check.check.arguments.mapM Value.denormalizeValue
  let forEachColumn ← check.check.forEachColumn.mapM Value.denormalizeItems
  let userMetadata ← check.userMetadata.mapM Value.denormalizeValue
  .ok { check with check := { check.check with arguments, forEachColumn }, userMetadata }

/-- `orderBy(created_at desc nulls last, rule_set_fingerprint desc nulls last)`. -/
def LaterFirst (a b : CheckRow) : Prop :=
  DescNullsLast a.createdAt b.createdAt ∧
    (a.createdAt = b.createdAt → DescNullsLast a.ruleSetFingerprint b.ruleSetFingerprint)

instance : DecidableRel LaterFirst := fun a b =>
  inferInstanceAs (Decidable (DescNullsLast a.createdAt b.createdAt ∧
    (a.createdAt = b.createdAt → DescNullsLast a.ruleSetFingerprint b.ruleSetFingerprint)))

theorem LaterFirst.trans (a b c : CheckRow) (hab : LaterFirst a b) (hbc : LaterFirst b c) :
    LaterFirst a c := by
  refine ⟨DescNullsLast.trans _ _ _ hab.1 hbc.1, fun hac => ?_⟩
  have hba : DescNullsLast b.createdAt a.createdAt := hac ▸ hbc.1
  have heq : a.createdAt = b.createdAt := DescNullsLast.antisymm _ _ hab.1 hba
  exact DescNullsLast.trans _ _ _ (hab.2 heq) (hbc.2 (heq.symm.trans hac))

theorem LaterFirst.total (a b : CheckRow) : LaterFirst a b ∨ LaterFirst b a := by
  by_cases heq : a.createdAt = b.createdAt
  · have hself : ∀ x : Option Nat, DescNullsLast x x := fun x =>
      (DescNullsLast.total x x).elim id id
    rcases DescNullsLast.total a.ruleSetFingerprint b.ruleSetFingerprint with h | h
    · exact .inl ⟨heq ▸ hself _, fun _ => h⟩
    · exact .inr ⟨heq ▸ hself _, fun _ => h⟩
  · rcases DescNullsLast.total a.createdAt b.createdAt with h | h
    · exact .inl ⟨h, fun h' => absurd h' heq⟩
    · exact .inr ⟨h, fun h' => absurd h'.symm heq⟩

/-- The rows sorted by version. -/
def versionOrder : Arrangement (fun _ : CheckRow => ()) LaterFirst :=
  .ofSort _ _ LaterFirst.trans LaterFirst.total

/-- A table of checks. One made before versions were kept has no columns for them. -/
structure ChecksTable where
  versioned : Bool
  rows : List CheckRow

/-- The rows that `from_dataframe` collects: those of the given version, or of the latest one; all
where that version is NULL. -/
def selectRows (order : Arrangement (fun _ : CheckRow => ()) LaterFirst) (table : ChecksTable)
    (runConfigName : String) (ruleSetFingerprint : Option String) : List CheckRow :=
  let rows := table.rows.filter fun row => row.runConfigName = some runConfigName
  if table.versioned then
    match ruleSetFingerprint.filter (· ≠ "") with
    | some fingerprint => rows.filter fun row => row.ruleSetFingerprint = some fingerprint
    | none =>
      match (order.run rows).head? with
      | none => []
      | some latest =>
        match latest.ruleSetFingerprint with
        | some fingerprint => rows.filter fun row => row.ruleSetFingerprint = some fingerprint
        | none => rows
  else rows

def fromDataframe (order : Arrangement (fun _ : CheckRow => ()) LaterFirst) (table : ChecksTable)
    (runConfigName : String) (ruleSetFingerprint : Option String) :
    Except CheckError (List Check) :=
  (selectRows order table runConfigName ruleSetFingerprint).mapM fun row =>
    denormalizeCheck (rowToCheck row)

end Dqx.Checks
