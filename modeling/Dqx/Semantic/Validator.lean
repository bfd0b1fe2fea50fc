import Dqx.Lib.FirstSeen
import Dqx.Semantic.Value
import Mathlib.Data.List.Nodup

/-! The semantic validation of a rule set: rules that repeat an earlier one, and rules with the
function and columns of an earlier one that have other arguments. -/

namespace Dqx.Semantic

open Lib Checks PyValue

/-- A rule dictionary. -/
structure RuleDict where
  value : PyValue
  distinct : value.DistinctKeys

/-- The block that holds the definition of a rule, in the nested form or the flat one. -/
def innerBlock : PyValue → Option (List (Key × PyValue))
  | .dict entries =>
    match find (.str "check") entries with
    | none => some entries
    | some (.dict inner) => some inner
    | some _ => none
  | _ => none

/-- A field of the block. -/
def inBlock (name : String) (check : PyValue) : Option PyValue :=
  (innerBlock check).bind (find (.str name))

/-- The function, where there is one to speak of. -/
def getFunction (check : PyValue) : Option PyValue :=
  (inBlock "function" check).filter truthy

def getArguments (check : PyValue) : List (Key × PyValue) :=
  match inBlock "arguments" check with
  | some (.dict arguments) => arguments
  | _ => []

def getForEachColumn (check : PyValue) : PyValue :=
  (inBlock "for_each_column" check).getD .null

def getCriticality : PyValue → PyValue
  | .dict entries => (find (.str "criticality") entries).getD (.str "error")
  | _ => .str "error"

/-- The filter of a rule; the one at its top level comes before the one in its block. -/
def getFilter (check : PyValue) : PyValue :=
  match check with
  | .dict entries =>
    match find (.str "filter") entries with
    | none | some .null => (inBlock "filter" check).getD .null
    | some filter => filter
  | _ => .null

def sortedColumns (columns : List PyValue) : Except CheckError (List PyValue) := do
  let keyed ← columns.mapM fun item => item.jsonText.map fun text => (text, item)
  return (sortByKey (· ≤ ·) keyed).map Prod.snd

def normalizeColumns : PyValue → Except CheckError PyValue
  | .list columns => (sortedColumns columns).map .list
  | value => .ok value

def normalizeArguments (arguments : List (Key × PyValue)) :
    Except CheckError (List (Key × PyValue)) :=
  arguments.mapM fun (key, value) =>
    if keyAtom key = .str "columns" then (normalizeColumns value).map (key, ·)
    else .ok (key, value)

/-- What a rule checks and on which columns. -/
def identity (check : PyValue) : Except CheckError PyValue := do
  let forEachColumn ← normalizeColumns (getForEachColumn check)
  let arguments ← normalizeArguments (getArguments check)
  return .dict [(.str "arguments", .dict arguments), (.str "for_each_column", forEachColumn)]

structure FullKey where
  function : PyValue
  identityKey : String
  criticality : PyValue
  filter : PyValue

def FullKey.same (a b : FullKey) : Bool :=
  eq a.function b.function && a.identityKey = b.identityKey && eq a.criticality b.criticality &&
    eq a.filter b.filter

def fullKey (check : PyValue) : Except CheckError (Option FullKey) :=
  match getFunction check with
  | none => .ok none
  | some function => do
    let identity ← identity check
    let identityKey ← identity.jsonText
    return some {
      function
      identityKey
      criticality := makeHashable (getCriticality check)
      filter := makeHashable (getFilter check) }

structure ConflictKey where
  function : PyValue
  column : PyValue

def ConflictKey.same (a b : ConflictKey) : Bool :=
  eq a.function b.function && eq a.column b.column

/-- `a or b` -/
def orElse (a b : Option PyValue) : Option PyValue :=
  if a.any truthy then a else b

/-- The column or columns that a rule names, where it names any. -/
def getColumn (arguments : List (Key × PyValue)) : Option PyValue :=
  (orElse (orElse (find (.str "col_name") arguments) (find (.str "column") arguments))
    (find (.str "columns") arguments)).filter truthy

def conflictKey (check : PyValue) : Except CheckError (Option ConflictKey) :=
  match getFunction check, getColumn (getArguments check) with
  | some function, some column => do
    let column ← normalizeColumns column
    return some { function, column := makeHashable column }
  | _, _ => .ok none

inductive Issue where
  | duplicate (function : PyValue) (first later : Nat)
  | conflict (key : ConflictKey) (first later : Nat × List (Key × PyValue))

/-- The key of a rule for the detection of duplicates. A rule that raises a `TypeError` has none, and
a function that is not hashable raises it when the key is looked up. -/
def duplicateKey (check : PyValue) : Option FullKey :=
  match fullKey check with
  | .ok (some key) => if key.function.hashable then some key else none
  | _ => none

def detectDuplicates (checks : List RuleDict) : List Issue :=
  FirstSeen.scan FullKey.same (fun _ _ => false)
    (fun key first later => .duplicate key.function first later)
    (checks.zipIdx.map fun (check, idx) => (duplicateKey check.value).map (·, idx))

/-- The key of a rule for the detection of conflicts, and the arguments to compare. -/
def conflictEntry (check : PyValue) : Option (ConflictKey × List (Key × PyValue)) :=
  match conflictKey check, normalizeArguments (getArguments check) with
  | .ok (some key), .ok arguments => if key.function.hashable then some (key, arguments) else none
  | _, _ => none

def detectConflicts (checks : List RuleDict) : List Issue :=
  FirstSeen.scan ConflictKey.same (fun first later => eq (.dict later.2) (.dict first.2)) .conflict
    (checks.zipIdx.map fun (check, idx) =>
      (conflictEntry check.value).map fun (key, arguments) => (key, idx, arguments))

def validateRuleset (checks : List RuleDict) : List Issue :=
  detectDuplicates checks ++ detectConflicts checks

end Dqx.Semantic
