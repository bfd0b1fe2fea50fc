import Dqx.Materializer.Substitution
import Dqx.SqlUtils.Comments
import Dqx.Utils.SqlText

/-! The rule of the registry that a check of the profiler becomes, with the columns that bind it to
the profiled table. -/

namespace Dqx.Profiling

open Lib.Sql (Text)
open Materializer

/-- A value that is no text and no collection. `object` is any that JSON does not have. -/
inductive Scalar (ν : Type) where
  | none
  | bool (b : Bool)
  | number (n : ν)
  | object (text : Text)
  deriving DecidableEq

abbrev Argument (ν : Type) := Value (Scalar ν)

/-- A dictionary of Python. -/
abbrev Dict (ν : Type) := List (Text × Argument ν)

/-! ### Check functions -/

inductive ParamKind where
  | column | columns | boolean | number | list | string | refTable | refColumns
  deriving DecidableEq

structure CheckFunctionParam where
  name : Text
  kind : ParamKind

/-- A check function by its signature: the names of its parameters are different identifiers. -/
structure CheckFunctionDef where
  name : Text
  params : List CheckFunctionParam
  distinct : (params.map CheckFunctionParam.name).Nodup
  identifiers : ∀ param ∈ params, '\x7b' ∉ param.name ∧ '\x7d' ∉ param.name

/-- The slot of a parameter that takes columns. -/
def CheckFunctionParam.slot? (param : CheckFunctionParam) : Option RuleSlot :=
  match param.kind with
  | .column => some ⟨param.name, .one⟩
  | .columns => some ⟨param.name, .many⟩
  | _ => none

namespace CheckFunctionDef

/-- The slots of `derive_slots_and_parameters`. -/
def slots (cfd : CheckFunctionDef) : List RuleSlot := cfd.params.filterMap CheckFunctionParam.slot?

/-- The other parameters. -/
def otherParams (cfd : CheckFunctionDef) : List CheckFunctionParam :=
  cfd.params.filter fun param => param.slot?.isNone

theorem slots_sublist (cfd : CheckFunctionDef) :
    (cfd.slots.map RuleSlot.name).Sublist (cfd.params.map CheckFunctionParam.name) := by
  rw [slots]
  generalize cfd.params = params
  induction params with
  | nil => exact .slnil
  | cons param params ih =>
    rw [List.filterMap_cons]
    cases hslot : param.slot? with
    | none => exact ih.cons _
    | some slot =>
      have hname : slot.name = param.name := by
        unfold CheckFunctionParam.slot? at hslot
        split at hslot <;> cases hslot <;> rfl
      rw [List.map_cons, List.map_cons, hname]
      exact ih.cons_cons _

theorem slots_distinct (cfd : CheckFunctionDef) : (cfd.slots.map RuleSlot.name).Nodup :=
  cfd.distinct.sublist cfd.slots_sublist

end CheckFunctionDef

section Build

variable {ν : Type}

/-! ### The parts of a check -/

/-- `_extract_check` -/
def extractCheck (check : Dict ν) : Option (Text × Dict ν) :=
  let inner := match check.lookup "check".toList with
    | some (.dict inner) => inner
    | _ => check
  match inner.lookup "function".toList, (inner.lookup "arguments".toList).getD (.dict []) with
  | some (.str function), .dict arguments =>
    if function.isEmpty then none else some (function, arguments)
  | _, _ => none

/-- A text that is not empty. -/
def columnText : Argument ν → Option Text
  | .str text => if text.isEmpty then none else some text
  | _ => none

def mappingValue (slot : RuleSlot) : Option (Argument ν) → Option Text
  | some (.list items) =>
    if slot.cardinality = .many ∧ items ≠ [] then
      (items.mapM columnText).map [','].intercalate
    else none
  | some value => columnText value
  | none => none

def sqlArgumentKeys : List Text := ["query".toList, "expression".toList, "sql_query".toList]

def sqlArgumentsSafe (unicode : Utils.Unicode) (function : Text) (arguments : Dict ν) : Bool :=
  if function ≠ "sql_query".toList ∧ function ≠ "sql_expression".toList then true
  else sqlArgumentKeys.all fun key => match arguments.lookup key with
    | some (.str value) =>
      value.isEmpty || Utils.isSqlQuerySafe unicode (SqlUtils.stripSqlLineComments value)
    | _ => true

/-- The value as a parameter of the registry can hold it. -/
def frozen : Argument ν → Option (Argument ν)
  | .str text => some (.str text)
  | .scalar (.bool b) => some (.scalar (.bool b))
  | .scalar (.number n) => some (.scalar (.number n))
  | .list items => if items.all (fun | .str _ => true | _ => false) then some (.list items) else none
  | _ => none

/-- `_freeze_parameter` -/
def freezeParameter (param : CheckFunctionParam) (raw : Option (Argument ν)) :
    RuleParameter (Scalar ν) :=
  ⟨param.name, raw.bind frozen⟩

/-! ### The candidate -/

structure ProfilingRuleCandidate (ν : Type) where
  function : Text
  definition : RuleDefinition (Scalar ν)
  mapping : List (Text × Text)

def functionDef (functions : List CheckFunctionDef) (function : Text) : Option CheckFunctionDef :=
  functions.find? fun cfd => cfd.name = function

/-- Each slot stands for itself in the arguments; the other arguments are values of parameters. -/
def definitionFor (cfd : CheckFunctionDef) (arguments : Dict ν) : RuleDefinition (Scalar ν) where
  slots := cfd.slots
  arguments := cfd.slots.map fun slot => (slot.name, .str slot.placeholder)
  parameters := cfd.otherParams.map fun param => freezeParameter param (arguments.lookup param.name)
  filter := none
  distinct := cfd.slots_distinct

def mappingFor (cfd : CheckFunctionDef) (arguments : Dict ν) : Option (List (Text × Text)) :=
  cfd.slots.mapM fun slot =>
    (mappingValue slot (arguments.lookup slot.name)).map fun columns => (slot.name, columns)

def buildProfilingRule (unicode : Utils.Unicode) (functions : List CheckFunctionDef)
    (check : Dict ν) : Option (ProfilingRuleCandidate ν) := do
  let (function, arguments) ← extractCheck check
  let cfd ← functionDef functions function
  if !sqlArgumentsSafe unicode function arguments then none else
  let mapping ← mappingFor cfd arguments
  if mapping.isEmpty then none else
  some ⟨function, definitionFor cfd arguments, mapping⟩

/-- The arguments that the materializer renders for the columns of the candidate. -/
def ProfilingRuleCandidate.render (candidate : ProfilingRuleCandidate ν) : Option (Dict ν) :=
  substituteArguments candidate.definition.arguments (fun name => candidate.mapping.lookup name)
    candidate.definition.slots candidate.definition.parameters candidate.definition.filter

end Build

end Dqx.Profiling
