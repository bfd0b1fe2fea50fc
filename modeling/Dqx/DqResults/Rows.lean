import Dqx.Lib.SqlLexer
import Dqx.Lib.Tally
import Mathlib.Algebra.Field.Rat
import Mathlib.Data.List.Sort
import Mathlib.Order.WithBot

/-! The check-result rows of runs, the facets that select some of them, and the groups that a
breakdown shows. A run without a date stands before all others. -/

namespace Dqx.DqResults

open Lib Lib.Sql

variable {τ : Type}

/-- A check's outcome in one run, with its attribution as of the run. -/
structure CheckResultRow (τ : Type) where
  tableFqn : Text
  runId : Option Text
  runDate : WithBot τ
  checkName : Text
  failed : Int
  total : Option Int
  severity : Option Text := none
  dimension : Option Text := none
  columns : List Text := []
  ruleId : Option Text := none
  runMode : Option Text := none
  ruleName : Option Text := none
  checkGranularity : Text := "row".toList
  criticality : Option Text := none
  passThreshold : Option Int := none
  deriving DecidableEq

/-- The active filters: one of the values of each facet that has any. -/
structure ResultFacets where
  dimensions : List Text := []
  severities : List Text := []
  rules : List Text := []
  columns : List Text := []
  tables : List Text := []
  catalogs : List Text := []
  schemas : List Text := []
  outcomes : List Text := []

/-- The catalog in backticks that a name begins with, from behind its first backtick. -/
def quotedCatalog : Text → Option Text
  | [] => none
  | ['`'] => some []
  | c :: d :: rest =>
    if c = '`' then if d = '`' then (quotedCatalog rest).map ('`' :: ·) else some []
    else (quotedCatalog (d :: rest)).map (c :: ·)
  | [_] => none

def catalogOf (fqn : Text) : Text :=
  let plain := fqn.takeWhile (· ≠ '.')
  match fqn with
  | '`' :: rest => (quotedCatalog rest).getD plain
  | _ => plain

def schemaOf (fqn : Text) : Text :=
  match fqn.splitOn '.' with
  | catalog :: schema :: _ => catalog ++ '.' :: schema
  | _ => []

/-- The identity of a rule: the id that the run carried, else the name of the check. -/
def ruleKey (row : CheckResultRow τ) : Text :=
  match row.ruleId with
  | some id => if id.isEmpty then row.checkName else id
  | none => row.checkName

def outcome (row : CheckResultRow τ) : Text :=
  if 0 < row.failed then "failed".toList else "passed".toList

/-- Whether a facet is not active, or some of its values fit. -/
def facetAllows (values : List Text) (fits : Text → Bool) : Bool := values.isEmpty || values.any fits

def rowMatchesFacets (row : CheckResultRow τ) (facets : ResultFacets) : Bool :=
  facetAllows facets.tables (row.tableFqn = ·) &&
    facetAllows facets.catalogs (catalogOf row.tableFqn = ·) &&
    facetAllows facets.schemas (schemaOf row.tableFqn = ·) &&
    facetAllows facets.dimensions (row.dimension = some ·) &&
    facetAllows facets.severities (row.severity = some ·) &&
    facetAllows facets.rules (fun rule => row.checkName = rule || row.ruleId = some rule) &&
    facetAllows facets.columns (row.columns.contains ·) &&
    facetAllows facets.outcomes (outcome row = ·)

/-! ### Breaches -/

inductive Breach where
  | warn
  | error
  deriving DecidableEq, Repr

abbrev ThresholdResolver (τ : Type) := CheckResultRow τ → Int

def breachCriticality (row : CheckResultRow τ) (threshold : Int) : Option Breach :=
  match row.total with
  | none => none
  | some total =>
    if total = 0 ∨ threshold * total ≤ (total - row.failed) * 100 then none
    else
      let criticality := (row.criticality.getD []).map Char.toLower
      if criticality = "warn".toList ∨ criticality = "warning".toList then some .warn
      else some .error

def worseCriticality (a b : Option Breach) : Option Breach :=
  if a = some .error ∨ b = some .error then some .error
  else if a = some .warn ∨ b = some .warn then some .warn
  else none

/-! ### Groups -/

/-- What a group gathers. The scores are summed, and counted, for each rule in each run of a
table. -/
structure GroupAcc (τ : Type) where
  failed : Int := 0
  total : Option Int := none
  ruleKeys : List Text := []
  checkRows : Nat := 0
  ruleCheckScores : List ((Text × Option Text × Text) × (ℚ × Nat)) := []
  breachCriticality : Option Breach := none
  passThreshold : Option Int := none
  thresholdRunDate : Option (WithBot τ) := none

def checkScore (row : CheckResultRow τ) (total : Int) : ℚ :=
  if row.checkGranularity = "dataset".toList then if 0 < row.failed then 0 else 1
  else 1 - (row.failed : ℚ) / (total : ℚ)

/-- The scores of the rules with one more check. -/
def addScore (row : CheckResultRow τ) (scores : List ((Text × Option Text × Text) × (ℚ × Nat))) :
    List ((Text × Option Text × Text) × (ℚ × Nat)) :=
  match row.total with
  | none => scores
  | some total =>
    if 0 < total then alter (row.tableFqn, row.runId, ruleKey row)
      (fun found =>
        let (sum, count) := found.getD (0, 0)
        (sum + checkScore row total, count + 1)) scores
    else scores

section Add

variable [LinearOrder τ]

def GroupAcc.add (resolve : Option (ThresholdResolver τ)) (acc : GroupAcc τ)
    (row : CheckResultRow τ) : GroupAcc τ :=
  let newer := acc.thresholdRunDate.all (· < row.runDate)
  { failed := acc.failed + row.failed
    total := match row.total with
      | none => acc.total
      | some total => some (acc.total.getD 0 + total)
    ruleKeys := acc.ruleKeys.insert (ruleKey row)
    checkRows := acc.checkRows + 1
    ruleCheckScores := addScore row acc.ruleCheckScores
    breachCriticality := match resolve with
      | none => acc.breachCriticality
      | some threshold =>
        worseCriticality acc.breachCriticality (Dqx.DqResults.breachCriticality row (threshold row))
    -- The newest run decides, also where it has no threshold.
    passThreshold := if newer then row.passThreshold else acc.passThreshold
    thresholdRunDate := if newer then some row.runDate else acc.thresholdRunDate }

/-- The mean over the rules of the mean over the checks of each. -/
def GroupAcc.passRate (acc : GroupAcc τ) : Option ℚ :=
  if acc.ruleCheckScores.isEmpty then none
  else
    let perRule := acc.ruleCheckScores.map fun entry => entry.2.1 / (entry.2.2 : ℚ)
    some (perRule.sum / (perRule.length : ℚ))

structure GroupRowOut where
  label : Option Text
  passRate : Option ℚ
  failedTests : Int
  ruleCount : Nat
  checkCount : Option Nat
  totalTests : Option Int
  breachCriticality : Option Breach
  passThreshold : Option Int
  ruleId : Option Text := none
  bindingId : Option Text := none
  deriving DecidableEq

variable {κ : Type} [DecidableEq κ]

/-- The groups of the rows by a key, in the order in which the keys are first seen. -/
def groupBy (resolve : Option (ThresholdResolver τ)) (key : CheckResultRow τ → κ)
    (rows : List (CheckResultRow τ)) : List (κ × GroupAcc τ) :=
  tally (fun acc row => (acc.getD {}).add resolve row) (rows.map fun row => (key row, row))

def groupRow (withCheckCount : Bool) (label : Option Text) (acc : GroupAcc τ) : GroupRowOut where
  label := label
  passRate := acc.passRate
  failedTests := acc.failed
  ruleCount := acc.ruleKeys.length
  checkCount := if withCheckCount then some acc.checkRows else none
  totalTests := acc.total
  breachCriticality := acc.breachCriticality
  passThreshold := acc.passThreshold

/-- The groups with the most failed tests first. -/
def groupRows (rows : List (CheckResultRow τ)) (keyOf : CheckResultRow τ → Option Text)
    (withCheckCount : Bool) (resolve : Option (ThresholdResolver τ)) : List GroupRowOut :=
  let groups := groupBy resolve keyOf rows
  (groups.map fun (label, acc) => groupRow withCheckCount label acc).insertionSort
    fun a b => b.failedTests ≤ a.failedTests

/-- The display name of each rule: that of its newest run. -/
def newestNames (rows : List (CheckResultRow τ)) : List (Text × WithBot τ × Text) :=
  tally (fun found row =>
    let name := match row.ruleName with
      | some name => if name.isEmpty then row.checkName else name
      | none => row.checkName
    match found with
    | none => (row.runDate, name)
    | some (date, shown) => if date < row.runDate then (row.runDate, name) else (date, shown))
    (rows.map fun row => (ruleKey row, row))

def identityIds (rows : List (CheckResultRow τ)) : List (Text × Text) :=
  tally (fun _ id => id) (rows.filterMap fun row => row.ruleId.map (ruleKey row, ·))

/-- A group of a rule under its display name, with the id of the rule if it has one. -/
def labelled (rows : List (CheckResultRow τ)) (group : GroupRowOut) : GroupRowOut :=
  match group.label with
  | none => group
  | some key =>
    { group with
      ruleId := (identityIds rows).lookup key
      label := ((newestNames rows).lookup key).map Prod.snd }

def byRuleRows (rows : List (CheckResultRow τ)) (resolve : Option (ThresholdResolver τ)) :
    List GroupRowOut :=
  (groupRows rows (fun row => some (ruleKey row)) true resolve).map (labelled rows)

/-- A check of several columns counts for each of them. -/
def byColumnRows (rows : List (CheckResultRow τ)) (resolve : Option (ThresholdResolver τ)) :
    List GroupRowOut :=
  groupRows (rows.flatMap fun row => row.columns.map fun column => { row with columns := [column] })
    (fun row => row.columns.head?) false resolve

end Add

end Dqx.DqResults
