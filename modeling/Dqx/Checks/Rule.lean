import Dqx.Checks.Value

/-! Check definitions, the rules that they deserialize to, and the fingerprints of rules. What a
check function accepts and what condition it builds are its own: a `CheckFunction` stands for one. -/

namespace Dqx.Checks

open Lib

structure CheckBlock where
  function : String
  arguments : Option Value := none
  forEachColumn : Option (List Value) := none

/-- The dictionary of a check. A field is `none` where the dictionary has no such key. -/
structure Check where
  name : Option String := none
  criticality : Option String := none
  check : CheckBlock
  filter : Option String := none
  userMetadata : Option Value := none
  messageExpr : Option String := none

inductive RuleType where
  | row
  | dataset
  deriving DecidableEq

structure Param where
  name : String
  required : Bool
  deriving DecidableEq

/-- A check function: its `__name__`, its parameters in order, the values each of them takes, and
the name of the condition that a call with the bound arguments builds. -/
structure CheckFunction where
  name : String
  params : List Param
  accepts : String → Value → Bool
  condition : List (String × Value) → Except CheckError String

namespace CheckFunction

def hasParam (func : CheckFunction) (name : String) : Bool :=
  func.params.any fun param => param.name = name

/-- `_is_optional_argument`: none for a parameter the function does not have. -/
def isOptionalArgument (func : CheckFunction) (name : String) : Option Bool :=
  (func.params.find? fun param => param.name = name).map fun param => !param.required

/-- `sig.bind_partial`: the arguments under the names of the parameters, in their order. -/
def bindPartial (func : CheckFunction) (args : List Value) (kwargs : List (String × Value)) :
    Except CheckError (List (String × Value)) :=
  let positional := (func.params.map Param.name).zip args
  if func.params.length < args.length then .error .typeError
  else if kwargs.any fun (name, _) => !func.hasParam name || (positional.lookup name).isSome then
    .error .typeError
  else .ok (func.params.filterMap fun param =>
    ((positional ++ kwargs).lookup param.name).map fun value => (param.name, value))

end CheckFunction

/-- What surrounds the checks: the functions they name, the register of rule types, the parser of
expressions, and the hash of the text of a document. -/
structure Environment where
  resolveCheckFunction : String → Option CheckFunction
  checkFuncRegistry : String → Option RuleType
  parses : String → Bool
  sha256 : Json → String

/-- A check that passed validation. -/
structure CheckSpec where
  name : Option String
  criticality : String
  func : CheckFunction
  functionName : String
  arguments : List (String × Value)
  forEachColumn : Option (List Value)
  filter : Option String
  userMetadata : Option (List (String × Value))
  messageExpr : Option String

/-- `dict[str, Any]`. -/
def stringEntries : Value → Except CheckError (List (String × Value))
  | .dict entries => entries.mapM fun
    | (.str key, value) => .ok (key, value)
    | _ => .error .invalidCheck
  | _ => .error .invalidCheck

def argumentEntries : Option Value → Except CheckError (List (String × Value))
  | none => .ok []
  | some value => stringEntries value

def metadataEntries : Option Value → Except CheckError (Option (List (String × Value)))
  | none => .ok none
  | some .null => .ok none
  | some value => (stringEntries value).map some

/-- The dictionary with `name` set to `value`. -/
def setArgument (arguments : List (String × Value)) (name : String) (value : Value) :
    List (String × Value) :=
  if arguments.any fun (key, _) => key = name then
    arguments.map fun (key, old) => if key = name then (key, value) else (key, old)
  else arguments ++ [(name, value)]

/-- The dictionary with `name` set to the value, where one is given and the condition holds. -/
def setWhen (condition : Bool) (arguments : List (String × Value)) (name : String) :
    Option Value → List (String × Value)
  | some value => if condition then setArgument arguments name value else arguments
  | none => arguments

def validateFuncArgs (func : CheckFunction) (arguments : List (String × Value)) : Bool :=
  if arguments.isEmpty && !func.params.isEmpty then false
  else
    (arguments.all fun (name, value) => func.hasParam name && func.accepts name value) &&
    func.params.all fun param => !param.required || arguments.any fun (name, _) => name = param.name

/-- The arguments to validate: those given, or these with each of the columns in its turn. -/
def effectiveArguments (func : CheckFunction) (arguments : List (String × Value)) :
    Option (List Value) → List (List (String × Value))
  | none => [arguments]
  | some columns => columns.map fun column =>
    setArgument arguments (if func.hasParam "columns" then "columns" else "column") column

def validateCheckFunctionArguments (func : CheckFunction) (arguments : List (String × Value))
    (forEachColumn : Option (List Value)) : Bool :=
  (effectiveArguments func arguments forEachColumn).all (validateFuncArgs func)

/-- `CheckSpec.validate_check`. -/
def validateCheck (env : Environment) (check : Check) : Except CheckError CheckSpec := do
  let arguments ← argumentEntries check.check.arguments
  let userMetadata ← metadataEntries check.userMetadata
  let criticality := check.criticality.getD "error"
  if check.check.forEachColumn.any List.isEmpty ∨ criticality ∉ ["warn", "error"] then
    .error .invalidCheck
  else
    match env.resolveCheckFunction check.check.function with
    | none => .error .invalidCheck
    | some func =>
      if validateCheckFunctionArguments func arguments check.check.forEachColumn then
        .ok { name := check.name, criticality, func, functionName := check.check.function, arguments,
              forEachColumn := check.check.forEachColumn, filter := check.filter, userMetadata,
              messageExpr := check.messageExpr }
      else .error .invalidCheck

/-- A rule. `column` and `columns` are as the constructor has coerced them. -/
structure DQRule where
  func : CheckFunction
  name : String
  criticality : String
  column : Option Value
  columns : Option (List Value)
  filter : Option String
  checkFuncKwargs : List (String × Value)
  userMetadata : Option (List (String × Value))
  messageExpr : Option String

namespace DQRule

/-- A filter is in force when it is given and not empty. -/
def filterText (rule : DQRule) : Option String := rule.filter.filter fun text => text ≠ ""

def columnArgs (rule : DQRule) : List Value :=
  if rule.func.isOptionalArgument "column" = some false then rule.column.toList else []

def columnsArgs (rule : DQRule) : Except CheckError (List Value) :=
  if rule.func.isOptionalArgument "columns" = some false then
    match rule.columns with
    | none => .ok []
    | some [] => .error .invalidCheck
    | some columns => .ok [.list columns]
  else .ok []

def buildArgs (rule : DQRule) : Except CheckError (List Value) :=
  rule.columnsArgs.map fun columns => rule.columnArgs ++ columns

def buildKwargs (rule : DQRule) : List (String × Value) :=
  let takes := fun name => rule.func.isOptionalArgument name == some true
  let kwargs := setWhen (takes "column") rule.checkFuncKwargs "column" rule.column
  let kwargs := setWhen (takes "columns") kwargs "columns" (rule.columns.map .list)
  setWhen (rule.func.hasParam "row_filter") kwargs "row_filter" (rule.filterText.map .str)

def boundArguments (rule : DQRule) : Except CheckError (List (String × Value)) := do
  let args ← rule.buildArgs
  rule.func.bindPartial args rule.buildKwargs

/-- `to_dict`. -/
def toDict (rule : DQRule) : Except CheckError Check := do
  let bound ← rule.boundArguments
  let fullArgs ← mapValuesM (Value.normalizeBoundArgs false) bound
  .ok {
    name := rule.name
    criticality := rule.criticality
    check := {
      function := rule.func.name
      arguments := some (.dict (fullArgs.map fun (name, value) => (.str name, value))) }
    filter := rule.filterText
    userMetadata := rule.userMetadata.bind fun entries =>
      if entries.isEmpty then none
      else some (.dict (entries.map fun (key, value) => (.str key, value)))
    messageExpr := rule.messageExpr }

end DQRule

/-- A field of the model that takes a string or a column expression. -/
def coerceColumn : Option Value → Except CheckError (Option Value)
  | none => .ok none
  | some .null => .ok none
  | some (.str s) => .ok (some (.str s))
  | some (.column c) => .ok (some (.column c))
  | some _ => .error .invalidCheck

def coerceColumnItem : Value → Except CheckError Value
  | .str s => .ok (.str s)
  | .column c => .ok (.column c)
  | _ => .error .invalidCheck

/-- A field of the model that takes a list of them; a tuple or a set becomes one. -/
def coerceColumns : Option Value → Except CheckError (Option (List Value))
  | none => .ok none
  | some .null => .ok none
  | some (.list items) => (items.mapM coerceColumnItem).map some
  | some (.tuple items) => (items.mapM coerceColumnItem).map some
  | some (.set items) => (items.mapM coerceColumnItem).map some
  | some _ => .error .invalidCheck

/-- The construction of a rule from the fields of a specification, with its column or columns. -/
def makeRule (env : Environment) (spec : CheckSpec) (ruleType : RuleType)
    (column columns : Option Value) (kwargs : List (String × Value)) : Except CheckError DQRule := do
  let column ← coerceColumn column
  let columns ← coerceColumns columns
  let rule : DQRule :=
    { func := spec.func, name := spec.name.getD "", criticality := spec.criticality, column,
      columns, filter := spec.filter, checkFuncKwargs := kwargs, userMetadata := spec.userMetadata,
      messageExpr := spec.messageExpr }
  if (env.checkFuncRegistry spec.func.name).any (· ≠ ruleType) ∨ column.isSome ∧ columns.isSome then
    .error .invalidCheck
  else do
    let bound ← rule.boundArguments
    let conditionName ← spec.func.condition bound
    if spec.messageExpr.any fun text => !env.parses text then .error .invalidParameter
    else .ok { rule with name := if rule.name = "" then conditionName else rule.name }

/-- The truth value of an object; a column expression has none. -/
def truthy : Value → Except CheckError Bool
  | .null => .ok false
  | .bool b => .ok b
  | .int n => .ok (n ≠ 0)
  | .float f => .ok (match f.exact with | .finite _ 0 _ => false | _ => true)
  | .decimal d => .ok (match d with | .finite _ 0 _ => false | _ => true)
  | .str s => .ok (s ≠ "")
  | .column _ => .error .typeError
  | .list items => .ok !items.isEmpty
  | .tuple items => .ok !items.isEmpty
  | .set items => .ok !items.isEmpty
  | .dict entries => .ok !entries.isEmpty
  | _ => .ok true

def givenTruthy : Option Value → Except CheckError Bool
  | none => .ok false
  | some value => truthy value

/-- `assert not (column and columns)`. -/
def assertOneOf (column columns : Option Value) : Except CheckError Unit := do
  let columnGiven ← givenTruthy column
  if columnGiven then
    let columnsGiven ← givenTruthy columns
    if columnsGiven then .error .assertion else .ok ()
  else .ok ()

/-- The column or columns of one of the rules for each column. -/
def forEachFields : Value → Except CheckError (Option Value × Option Value)
  | .null => .error .invalidCheck
  | .list items => .ok (none, some (.list items))
  | .tuple items => .ok (none, some (.list items))
  | .set items => .ok (none, some (.list items))
  | value => .ok (some value, none)

/-- The rules of a valid check. -/
def specRules (env : Environment) (spec : CheckSpec) : Except CheckError (List DQRule) := do
  let column := spec.arguments.lookup "column"
  let columns := spec.arguments.lookup "columns"
  assertOneOf column columns
  let kwargs := spec.arguments.filter fun (name, _) => name ≠ "column" ∧ name ≠ "columns"
  match spec.forEachColumn with
  | some forEach =>
    let ruleType := (env.checkFuncRegistry spec.func.name).getD .row
    forEach.mapM fun item => do
      let (column, columns) ← forEachFields item
      makeRule env spec ruleType column columns kwargs
  | none =>
    let ruleType := (env.checkFuncRegistry spec.functionName).getD .row
    (makeRule env spec ruleType column columns kwargs).map fun rule => [rule]

/-- `deserialize_checks`. -/
def deserializeChecks (env : Environment) (checks : List Check) :
    Except CheckError (List DQRule) := do
  let specs ← checks.mapM (validateCheck env)
  (specs.mapM (specRules env)).map List.flatten

/-- `ChecksNormalizer.normalize` on one check. -/
def normalizeCheck (check : Check) : Except CheckError Check := do
  let arguments ← check.check.arguments.mapM (Value.normalizeBoundArgs true)
  let forEachColumn ← check.check.forEachColumn.mapM (Value.normalizeItems true)
  let userMetadata ← check.userMetadata.mapM (Value.normalizeBoundArgs true)
  .ok { check with check := { check.check with arguments, forEachColumn }, userMetadata }

/-- Python's order of strings and of lists of strings; none between the two. -/
def columnKey : Value → Option (List String) × Option String
  | .str s => (none, some s)
  | .list items => (items.mapM fun | .str s => some s | _ => none, none)
  | _ => (none, none)

/-- `sorted(for_each_column)`. -/
def sortedColumns (columns : List Value) : Except CheckError (List Value) :=
  let keyed := columns.map fun column => (columnKey column, column)
  if keyed.all fun (key, _) => key.2.isSome then
    .ok ((keyed.insertionSort fun a b => a.1.2.getD "" ≤ b.1.2.getD "").map Prod.snd)
  else if keyed.all fun (key, _) => key.1.isSome then
    .ok ((keyed.insertionSort fun a b => ¬ b.1.1.getD [] < a.1.1.getD []).map Prod.snd)
  else if columns.length ≤ 1 then .ok columns
  else .error .typeError

def optionalText : Option String → Value
  | none => .null
  | some s => .str s

def fingerprintColumns : Option (List Value) → Except CheckError Value
  | none => .ok .null
  | some [] => .ok .null
  | some columns => (sortedColumns columns).map .list

/-- `compute_rule_fingerprint`. -/
def computeRuleFingerprint (env : Environment) (check : Check) : Except CheckError String := do
  let check ← normalizeCheck check
  let forEachColumn ← fingerprintColumns check.check.forEachColumn
  let canonical ← Value.dumps true (.dict [
    (.str "name", optionalText check.name),
    (.str "criticality", .str (check.criticality.getD "error")),
    (.str "function", .str check.check.function),
    (.str "arguments", check.check.arguments.getD .null),
    (.str "filter", optionalText check.filter),
    (.str "for_each_column", forEachColumn)])
  .ok (env.sha256 canonical)

def DQRule.ruleFingerprint (env : Environment) (rule : DQRule) : Except CheckError String := do
  let check ← rule.toDict
  computeRuleFingerprint env check

/-- `compute_rule_set_fingerprint`: the order of the rules does not count. -/
def computeRuleSetFingerprint (env : Environment) (rules : List DQRule) :
    Except CheckError String := do
  let fingerprints ← rules.mapM (DQRule.ruleFingerprint env)
  let combined := Json.arr ((fingerprints.insertionSort (· ≤ ·)).map .str)
  .ok (env.sha256 combined)

def computeRuleSetFingerprintByMetadata (env : Environment) (checks : List Check) :
    Except CheckError String := do
  let rules ← deserializeChecks env checks
  computeRuleSetFingerprint env rules

end Dqx.Checks
