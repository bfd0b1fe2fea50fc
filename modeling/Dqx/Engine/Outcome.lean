import Dqx.Engine.Pass
import Dqx.Lib.Entries
import Mathlib.Data.List.TakeWhile

/-! What `apply_checks` does when its checks keep the rows: every row of the input comes out once, with
the entries that each check, on its own, has for it. -/

namespace Dqx.Engine

open Lib Lib.Sql Lib.Tabular

variable {V : Type}

namespace Reports

variable {D : DataFrame V} {body : Body V} {report : Report V}

theorem outcome_congr (h : Reports D body report) {r r' : Row V} (hagree : Agree D.columns r r') :
    report.outcome r = report.outcome r' := by
  cases h with
  | row h => exact Column.eval_eq_of_resolves h hagree
  | aggregate h => exact DatasetAggregate.report_congr h hagree
  | custom h => exact h.outcome_congr hagree

theorem info_spec (h : Reports D body report) : ∀ i ∈ report.info,
    (∀ {r r'}, Agree D.columns r r' → i.2 r = i.2 r') ∧ i.1 ∈ report.added ∧ i.1 ≠ [] := by
  cases h with
  | row h => exact fun i hi => absurd hi (Option.not_mem_none i)
  | aggregate h => exact fun i hi => absurd hi (Option.not_mem_none i)
  | custom h => exact fun i hi => ⟨h.info_congr i hi, h.info_added i hi⟩

end Reports

namespace DQRuleManager

variable {session : Session V} {settings : Settings} {manager : DQRuleManager V}
  {outcome : Row V → Option Text}

theorem entry_congr (houtcome : manager.isSkipped session = false →
      ∀ {r r'}, Agree manager.df.columns r r' → outcome r = outcome r')
    {r r' : Row V} (hagree : Agree manager.df.columns r r') :
    manager.entry session settings outcome r = manager.entry session settings outcome r' := by
  cases hskip : manager.isSkipped session with
  | true => rw [entry, entry, if_pos hskip, if_pos hskip]
  | false =>
    obtain ⟨filter, hfilter, hfilterResolves⟩ := filterExpr_of_not_isSkipped hskip
    have hfilterEval := Column.eval_eq_of_resolves hfilterResolves hagree
    have hmessage : manager.messageOf session outcome r = manager.messageOf session outcome r' := by
      rw [messageOf, messageOf, houtcome hskip hagree]
      cases hmessage : manager.check.messageExpr with
      | none => rfl
      | some message =>
        obtain ⟨custom, hcustom, hcustomResolves⟩ := messageExpr_of_not_isSkipped hskip hmessage
        simp only [hcustom, Option.bind_some, Column.eval_eq_of_resolves hcustomResolves hagree]
    rw [entry, entry, hmessage, houtcome hskip hagree, inFilter, inFilter, hfilter, Option.any_some,
      Option.any_some, hfilterEval]

end DQRuleManager

namespace DQEngineCore

variable (session : Session V) (engine : DQEngineCore) (ruleSetFingerprint : Text) (D : DataFrame V)

/-- The manager of a check on the input itself. -/
def inputManager (check : DQRule V) : DQRuleManager V :=
  engine.buildManager ruleSetFingerprint D check D D

/-- What a check says of the rows of the input. -/
def said (report : DQRule V → Report V) (check : DQRule V) : Said V where
  entry := (engine.inputManager ruleSetFingerprint D check).entry session engine.settings
    (report check).outcome
  info := if (engine.inputManager ruleSetFingerprint D check).isSkipped session then none
    else (report check).info

/-- Checks that keep the rows and that mind their own columns: the names of the temporary columns are
new, and no check reads what another one adds. -/
structure Sound (checks : List (DQRule V)) (report : DQRule V → Report V) : Prop where
  nodup : (D.columns ++ engine.resultColumnNames).Nodup
  keeps : ∀ c ∈ checks, c.keepsInputRows = true
  ids : ∀ c ∈ checks, ∀ c' ∈ checks, c.id = c'.id → c = c'
  reports : ∀ c ∈ checks, (engine.inputManager ruleSetFingerprint D c).isSkipped session = false →
    Reports D (engine.inputManager ruleSetFingerprint D c).body (report c)
  added_nodup : ∀ c ∈ checks, (report c).added.Nodup
  added_fresh : ∀ c ∈ checks, ∀ n ∈ (report c).added, n ∉ D.columns ++ engine.resultColumnNames
  added_disjoint : checks.Pairwise fun c c' => (report c).added.Disjoint (report c').added
  isolated : ∀ c ∈ checks, ∀ e ∈ (engine.preselectOriginalColumns D c).expressions session,
    ∀ n ∈ e.reads, n ∉ engine.resultColumnNames ∧ ∀ c' ∈ checks, n ∉ (report c').added

variable {session engine ruleSetFingerprint D} {checks : List (DQRule V)}
  {report : DQRule V → Report V}

namespace Sound

variable (sound : engine.Sound session ruleSetFingerprint D checks report)

include sound

theorem disjoint {c c' : DQRule V} (hc : c ∈ checks) (hc' : c' ∈ checks) (hne : c ≠ c') :
    (report c).added.Disjoint (report c').added := by
  have : Std.Symm fun c c' => (report c).added.Disjoint (report c').added := ⟨fun _ _ h => h.symm⟩
  exact sound.added_disjoint.forall hc hc' hne

/-- The managers made in advance are those of the dataset-level checks that are not skipped. -/
theorem mem_inputManagers {cs : List (DQRule V)} (hcs : ∀ c ∈ cs, c ∈ checks)
    {entry : Nat × DQRuleManager V} :
    entry ∈ engine.inputManagers session ruleSetFingerprint D cs ↔
      ∃ c ∈ cs, c.isDataset = true ∧
        (engine.inputManager ruleSetFingerprint D c).isSkipped session = false ∧
        (c.id, engine.inputManager ruleSetFingerprint D c) = entry := by
  have hall : cs.takeWhile DQRule.keepsInputRows = cs :=
    List.takeWhile_eq_self_iff.mpr fun c hc => sound.keeps c (hcs c hc)
  simp only [inputManagers, hall, List.mem_filter, List.mem_map, DQRuleManager.isEmpty_skipMessage,
    Bool.not_eq_true']
  constructor
  · rintro ⟨⟨c, ⟨hc, hdataset⟩, rfl⟩, hskip⟩
    exact ⟨c, hc, hdataset, hskip, rfl⟩
  · rintro ⟨c, hc, hdataset, hskip, rfl⟩
    exact ⟨⟨c, ⟨hc, hdataset⟩, rfl⟩, hskip⟩

theorem lookup_inputManagers {cs : List (DQRule V)} (hcs : ∀ c ∈ cs, c ∈ checks) {c : DQRule V}
    (hc : c ∈ cs) :
    (engine.inputManagers session ruleSetFingerprint D cs).lookup c.id =
      if c.isDataset && !(engine.inputManager ruleSetFingerprint D c).isSkipped session then
        some (engine.inputManager ruleSetFingerprint D c)
      else none := by
  cases hlookup : (engine.inputManagers session ruleSetFingerprint D cs).lookup c.id with
  | some manager =>
    obtain ⟨c', hc', hdataset, hskip, heq⟩ :=
      (sound.mem_inputManagers hcs).mp (mem_of_lookup hlookup)
    obtain ⟨hid, rfl⟩ := Prod.mk.inj heq
    obtain rfl := sound.ids c' (hcs c' hc') c (hcs c hc) hid
    rw [hdataset, hskip]
    rfl
  | none =>
    rw [if_neg]
    intro hboth
    rw [Bool.and_eq_true, Bool.not_eq_true'] at hboth
    have hin := (sound.mem_inputManagers hcs).mpr ⟨c, hc, hboth.1, hboth.2, rfl⟩
    have hne := List.lookup_eq_none_iff.mp hlookup _ hin
    simp at hne

/-- The shared aggregates are those of the aggregate checks that are not skipped. -/
theorem mem_sharedAggregates {cs : List (DQRule V)} (hcs : ∀ c ∈ cs, c ∈ checks)
    {aggregate : DatasetAggregate V} :
    aggregate ∈ sharedAggregates session (engine.inputManagers session ruleSetFingerprint D cs) ↔
      ∃ c ∈ cs, (engine.inputManager ruleSetFingerprint D c).datasetAggregate session =
        some aggregate := by
  rw [sharedAggregates, List.mem_filterMap]
  constructor
  · rintro ⟨id, hid, hfound⟩
    obtain ⟨entry, hentry, rfl⟩ := List.mem_map.mp (List.mem_dedup.mp hid)
    obtain ⟨c, hc, hdataset, hskip, rfl⟩ := (sound.mem_inputManagers hcs).mp hentry
    dsimp only at hfound
    rw [sound.lookup_inputManagers hcs hc, hdataset, hskip] at hfound
    exact ⟨c, hc, hfound⟩
  · rintro ⟨c, hc, hfound⟩
    obtain ⟨hdataset, hskip, -⟩ := DQRuleManager.datasetAggregate_eq_some.mp hfound
    have hin := (sound.mem_inputManagers hcs).mpr ⟨c, hc, hdataset, hskip, rfl⟩
    refine ⟨c.id, List.mem_dedup.mpr (List.mem_map_of_mem hin), ?_⟩
    have hdataset' : c.isDataset = true := hdataset
    rw [sound.lookup_inputManagers hcs hc, hdataset', hskip]
    exact hfound

/-- What is known of the aggregate of a check. -/
theorem fits {c : DQRule V} (hc : c ∈ checks) {a : DatasetAggregate V}
    (h : (engine.inputManager ruleSetFingerprint D c).datasetAggregate session = some a) :
    ∃ condition metric, a.Fits D condition metric ∧ report c = a.report condition metric ∧
      (engine.inputManager ruleSetFingerprint D c).body = .dataset condition (.aggregate a) none := by
  obtain ⟨-, hskip, condition, info, hbody⟩ := DQRuleManager.datasetAggregate_eq_some.mp h
  have hreports := sound.reports c hc hskip
  rw [hbody] at hreports
  generalize hreport : report c = r at hreports
  cases hreports with
  | aggregate hfits => exact ⟨condition, _, hfits, rfl, hbody⟩

/-- No two checks share the name of a metric. -/
theorem nodup_metrics {cs : List (DQRule V)} (hcs : ∀ c ∈ cs, c ∈ checks) :
    ((sharedAggregates session (engine.inputManagers session ruleSetFingerprint D cs)).map
      (·.metricCol)).Nodup := by
  rw [sharedAggregates, List.Nodup, List.pairwise_map, List.pairwise_filterMap]
  refine (List.nodup_dedup _).imp_of_mem fun {id id'} hid hid' hne a ha a' ha' heq => ?_
  obtain ⟨entry, hentry, rfl⟩ := List.mem_map.mp (List.mem_dedup.mp hid)
  obtain ⟨entry', hentry', rfl⟩ := List.mem_map.mp (List.mem_dedup.mp hid')
  obtain ⟨c, hc, hdataset, hskip, rfl⟩ := (sound.mem_inputManagers hcs).mp hentry
  obtain ⟨c', hc', hdataset', hskip', rfl⟩ := (sound.mem_inputManagers hcs).mp hentry'
  dsimp only at ha ha' hne
  rw [sound.lookup_inputManagers hcs hc, hdataset, hskip] at ha
  rw [sound.lookup_inputManagers hcs hc', hdataset', hskip'] at ha'
  obtain ⟨_, _, -, hreport, -⟩ := sound.fits (hcs c hc) ha
  obtain ⟨_, _, -, hreport', -⟩ := sound.fits (hcs c' hc') ha'
  have hdisjoint := sound.disjoint (hcs c hc) (hcs c' hc') fun h => hne (congrArg DQRule.id h)
  rw [hreport, hreport'] at hdisjoint
  exact hdisjoint List.mem_cons_self (heq ▸ List.mem_cons_self)

end Sound

end DQEngineCore

/-! ### Checks on a table of numbers -/

namespace Sample

def amount : Text := ['a']

def region : Text := ['r']

def total : Text := ['t']

def tooLow : Text := ['l']

def missing : Text := ['z']

def session : Session Int where
  expr text := some (.col text)
  truth
    | .value v => some (v ≠ 0)
    | _ => none
  string
    | .value v => some (if v < 0 then ['-'] else [])
    | _ => none
  currentTimestamp := 7
  unicode := Utils.noTables
  listRepr := List.flatten
  number n := List.replicate n '1'
  isDltPipeline := false
  isSpace c := c = ' '

def engine : DQEngineCore where
  errors := ['e']
  warnings := ['w']
  info := ['i']
  settings := ⟨[], none, ['1'], false⟩
  hasObserver := true

def df : DataFrame Int where
  columns := [amount, region]
  rows := [fun n => .value (if n = amount then 5 else 1), fun n => .value (if n = amount then -2 else 1)]

def number : Cell Int → Int
  | .value v => v
  | _ => 0

/-- The total of all amounts, and whether it is too low. -/
def totalAmount : DatasetAggregate Int where
  metricCol := total
  returnType := .ok ()
  buildExpression := .ok ⟨[amount], fun rows => .value (rows.map fun r => number (r amount)).sum⟩
  conditionCol := tooLow
  conditionResult := (Column.col total).map fun cell => .value (if number cell < 10 then 1 else 0)

def negative : Expr Int (Option Text) :=
  (Column.col amount).map fun cell => if number cell < 0 then some ['n'] else none

def low : Expr Int (Option Text) :=
  (Column.col tooLow).map fun cell => if cell.elements.isEmpty then some ['l'] else none

/-- A check of every row, by its condition. -/
def rowRule (id : Nat) (criticality column fingerprint : Text) (condition : Expr Int (Option Text)) :
    DQRule Int where
  id := id
  isDataset := false
  rowPreserving := false
  needsOriginalColumns := false
  checkFunc := ['f']
  name := fingerprint
  criticality := criticality
  columns := some [.text column]
  filter := none
  rowFilter := none
  messageExpr := none
  expression := none
  userMetadata := none
  ruleFingerprint := fingerprint
  body _ := .row condition
  isDataset_body _ := rfl

def notNegative : DQRule Int := rowRule 1 error amount ['1'] negative

def noColumn : DQRule Int := rowRule 3 warn missing ['3'] ((Column.col missing).map fun _ => none)

def notTooLow : DQRule Int :=
  { notNegative with
    id := 2
    isDataset := true
    rowPreserving := true
    criticality := warn
    columns := none
    ruleFingerprint := ['2']
    body := fun _ => .dataset low (.aggregate totalAmount) none
    isDataset_body := fun _ => rfl }

def checks : List (DQRule Int) := [notNegative, notTooLow, noColumn]

def report (check : DQRule Int) : Report Int :=
  if check.id = 2 then totalAmount.report low (.value 3) else ⟨[], negative.eval, none⟩

theorem forall_checks {p : DQRule Int → Prop} (h₁ : p notNegative) (h₂ : p notTooLow)
    (h₃ : p noColumn) : ∀ c ∈ checks, p c := by
  intro c hc
  simp only [checks, List.mem_cons, List.not_mem_nil, or_false] at hc
  rcases hc with rfl | rfl | rfl
  · exact h₁
  · exact h₂
  · exact h₃

theorem fits : totalAmount.Fits df low (.value 3) := ⟨rfl, rfl, by decide, by decide⟩

theorem sound : engine.Sound session ['s'] df checks report where
  nodup := by decide
  keeps := forall_checks rfl rfl rfl
  ids := by
    refine forall_checks (forall_checks ?_ ?_ ?_) (forall_checks ?_ ?_ ?_) (forall_checks ?_ ?_ ?_)
    all_goals first | exact fun _ => rfl | exact fun h => absurd h (by decide)
  reports := by
    refine forall_checks (fun _ => .row ?_) (fun _ => .aggregate fits) fun h => ?_
    · decide
    · exact absurd h (by decide)
  added_nodup := forall_checks (by decide) (by decide) (by decide)
  added_fresh := forall_checks (by decide) (by decide) (by decide)
  added_disjoint := by
    simp only [checks, List.pairwise_cons, List.disjoint_left]
    decide
  isolated := by
    refine forall_checks ?_ ?_ ?_
    all_goals decide

end Sample

end Dqx.Engine
