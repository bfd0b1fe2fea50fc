import Dqx.Actions.Evaluator
import Dqx.Catalog.Signature
import Dqx.Rules.Resolved
import Dqx.Utils.SqlText

/-! `RulesCatalogService.save`: each submitted check that is not in the catalog yet becomes a row. -/

namespace Dqx.Catalog

open Lib Lib.Sql Checks Rules Actions

/-- A row of `dq_resolved_rules`. The column of the check may hold no object. -/
structure CatalogRow where
  ruleId : Text
  tableFqn : Text
  check : Option Fields
  version : Nat
  status : RuleStatus
  source : Text
  ruleFingerprint : Text
  createdBy : Text
  updatedBy : Text

structure RuleCatalogEntry where
  tableFqn : Text
  checks : List Fields
  version : Nat
  status : RuleStatus
  source : Text
  createdBy : Text
  updatedBy : Text
  ruleId : Text

/-- `_row_to_entry` -/
def rowToEntry (row : CatalogRow) : RuleCatalogEntry where
  tableFqn := row.tableFqn
  checks := row.check.toList
  version := row.version
  status := row.status
  source := row.source
  createdBy := row.createdBy
  updatedBy := row.updatedBy
  ruleId := row.ruleId

/-- What `save` is called with. -/
structure Request where
  tableFqn : Text
  checks : List Fields
  userEmail : Text
  source : Text

/-- What Python knows of characters, and the hash of a check. -/
structure Host where
  unicode : Utils.Unicode
  computeRuleFingerprint : Fields → Except SaveError Text

def validSources : List Text :=
  ["ui".toList, "sql".toList, "profiler".toList, "import".toList, "ai".toList, "registry".toList]

/-! ### The weight of a check -/

/-- `str(weight)`, where the weight is a number. -/
def weightText : Json → Option String
  | .int n => some (toString n)
  | .float f => some f.text
  | .bool b => some (if b then "True" else "False")
  | _ => none

/-- The metadata with texts for values. -/
def labels : Option Json → Fields
  | some (.obj metadata) => metadata.filter fun (_, value) => match value with
    | .str _ => true
    | _ => false
  | _ => []

def setDefault (key : String) (value : Json) (fields : Fields) : Fields :=
  if (fields.lookup key).isSome then fields else fields ++ [(key, value)]

def normalizeWeight (check : Fields) : Fields :=
  match check.lookup "weight" with
  | none => check
  | some weight =>
    let rest := check.filter fun (key, _) => key ≠ "weight"
    match weightText weight with
    | none => rest
    | some text => Services.dictSet "user_metadata"
        (.obj (setDefault "weight" (.str text) (labels (rest.lookup "user_metadata")))) rest

/-! ### The safety of queries -/

def truthy : Json → Bool
  | .null => false
  | .bool b => b
  | .int n => n ≠ 0
  | .float f => match f.exact with
    | .finite _ 0 _ => false
    | _ => true
  | .str s => s ≠ ""
  | .arr items => !items.isEmpty
  | .obj fields => !fields.isEmpty

/-- `value or {}`, of which a field is read. -/
def dictOrEmpty : Option Json → Except SaveError Fields
  | none => .ok []
  | some (.obj fields) => .ok fields
  | some value => if truthy value then .error .attribute else .ok []

def validateQuery (unicode : Utils.Unicode) : Option Json → Except SaveError Unit
  | none => .ok ()
  | some (.str query) =>
    if query = "" || Utils.isSqlQuerySafe unicode query.toList then .ok ()
    else .error .unsafeSqlQuery
  | some value => if truthy value then .error .type else .ok ()

def isSqlQuery (inner : Fields) : Bool :=
  match inner.lookup "function" with
  | some (.str function) => function = "sql_query"
  | _ => false

def validateSqlCheck (unicode : Utils.Unicode) (check : Fields) : Except SaveError Unit := do
  let inner ← dictOrEmpty (check.lookup "check")
  if isSqlQuery inner then
    let arguments ← dictOrEmpty (inner.lookup "arguments")
    validateQuery unicode (arguments.lookup "query")
  else .ok ()

/-! ### Saving -/

section Save

variable (host : Host) (newId : Nat → Text) (request : Request) (rows : List CatalogRow)

def listRulesForTable (tableFqn : Text) (status : Option RuleStatus) : List RuleCatalogEntry :=
  (rows.filter fun row => row.tableFqn = tableFqn && status.all (row.status = ·)).map rowToEntry

/-- The signatures of the checks of a table that count as existing. -/
def existingSignatures (tableFqn : Text) (excluded : List Text) : Except SaveError (List Text) :=
  let existing := (listRulesForTable rows tableFqn none).filter fun entry =>
    !excluded.contains entry.ruleId && entry.status ≠ .rejected
  (existing.flatMap (·.checks)).mapM checkSignature

/-- Each check with its signature. -/
def sign (checks : List Fields) : Except SaveError (List (Fields × Text)) :=
  checks.mapM fun check => (checkSignature check).map fun signature => (check, signature)

def findDuplicates (tableFqn : Text) (checks : List Fields) (excluded : List Text) :
    Except SaveError (List Fields) := do
  let existing ← existingSignatures rows tableFqn excluded
  let signed ← sign checks
  .ok ((signed.filter fun (_, signature) => existing.contains signature).map Prod.fst)

/-- The checks that are not duplicates. -/
def nonDuplicates (tableFqn : Text) (checks : List Fields) : Except SaveError (List Fields) := do
  let duplicates ← findDuplicates rows tableFqn checks []
  let dupSigs ← duplicates.mapM checkSignature
  let signed ← sign checks
  .ok ((signed.filter fun (_, signature) => !dupSigs.contains signature).map Prod.fst)

def Request.normalized : List Fields := request.checks.map normalizeWeight

/-- What `save` does before its first statement. -/
def prepare : Except SaveError (List Fields) :=
  if !validSources.contains request.source then .error (.invalidSource request.source)
  else if !SqlUtils.validateFqn request.tableFqn then .error (.invalidFqn request.tableFqn)
  else do
    request.normalized.forM (validateSqlCheck host.unicode)
    let checks ← nonDuplicates rows request.tableFqn request.normalized
    if checks.isEmpty then .error .allExist else .ok checks

def newRow (ruleId : Text) (check : Fields) (ruleFingerprint : Text) : CatalogRow where
  ruleId
  tableFqn := request.tableFqn
  check := some check
  version := 1
  status := .draft
  source := request.source
  ruleFingerprint
  createdBy := request.userEmail
  updatedBy := request.userEmail

/-- One statement for each check. Where a check has no fingerprint, the rows before it stay. -/
def insertChecks (k : Nat) : List Fields → List CatalogRow →
    Except SaveError (List RuleCatalogEntry) × List CatalogRow
  | [], rows => (.ok [], rows)
  | check :: rest, rows =>
    match host.computeRuleFingerprint check with
    | .error e => (.error e, rows)
    | .ok fingerprint =>
      let row := newRow request (newId k) check fingerprint
      let (result, rows') := insertChecks (k + 1) rest (rows ++ [row])
      (result.map (rowToEntry row :: ·), rows')

def save : Except SaveError (List RuleCatalogEntry) × List CatalogRow :=
  match prepare host request rows with
  | .error e => (.error e, rows)
  | .ok checks => insertChecks host newId request 0 checks rows

end Save

end Dqx.Catalog
