import Dqx.Checks.RoundTrip
import Dqx.Checks.Serialize

/-! What the fingerprint of a rule set does not depend on: the order of the checks, the order of the
columns of a check for each column, whether such a check is expanded, and whether the rules were
serialized and deserialized. -/

namespace Dqx.Checks

open Lib Value

/-- A sorted list does not depend on the order of what was sorted. -/
theorem insertionSort_eq_of_perm {xs ys : List String} (h : xs.Perm ys) :
    xs.insertionSort (· ≤ ·) = ys.insertionSort (· ≤ ·) := by
  have hperm : (xs.insertionSort (· ≤ ·)).Perm (ys.insertionSort (· ≤ ·)) :=
    ((List.perm_insertionSort _ xs).trans h).trans (List.perm_insertionSort _ ys).symm
  exact hperm.eq_of_pairwise (fun _ _ _ _ hab hba => le_antisymm hab hba)
    (List.pairwise_insertionSort (· ≤ ·) xs) (List.pairwise_insertionSort (· ≤ ·) ys)

theorem computeRuleSetFingerprint_eq {env : Environment} {rules rules' : List DQRule}
    {fingerprints fingerprints' : List String} {fingerprint : String}
    (h : rules.mapM (DQRule.ruleFingerprint env) = .ok fingerprints)
    (h' : rules'.mapM (DQRule.ruleFingerprint env) = .ok fingerprints')
    (hperm : fingerprints'.Perm fingerprints)
    (hfingerprint : computeRuleSetFingerprint env rules = .ok fingerprint) :
    computeRuleSetFingerprint env rules' = .ok fingerprint := by
  rw [computeRuleSetFingerprint, h] at hfingerprint
  rw [computeRuleSetFingerprint, h', ← hfingerprint]
  show Except.ok _ = Except.ok _
  rw [insertionSort_eq_of_perm hperm]

theorem computeRuleSetFingerprint_perm {env : Environment} {rules rules' : List DQRule}
    {fingerprint : String} (hperm : rules'.Perm rules)
    (h : computeRuleSetFingerprint env rules = .ok fingerprint) :
    computeRuleSetFingerprint env rules' = .ok fingerprint := by
  obtain ⟨fingerprints, hfingerprints, -⟩ := bind_eq_ok.mp h
  obtain ⟨fingerprints', hfingerprints', hperm'⟩ := mapM_perm hperm hfingerprints
  exact computeRuleSetFingerprint_eq hfingerprints hfingerprints' hperm' h

theorem computeRuleSetFingerprintByMetadata_perm {env : Environment} {checks checks' : List Check}
    {rules rules' : List DQRule} {fingerprint : String}
    (hrules : deserializeChecks env checks = .ok rules)
    (hrules' : deserializeChecks env checks' = .ok rules') (hperm : rules'.Perm rules)
    (h : computeRuleSetFingerprintByMetadata env checks = .ok fingerprint) :
    computeRuleSetFingerprintByMetadata env checks' = .ok fingerprint := by
  rw [computeRuleSetFingerprintByMetadata, hrules] at h
  rw [computeRuleSetFingerprintByMetadata, hrules']
  exact computeRuleSetFingerprint_perm hperm h

/-- The fingerprint of some checks is that of the checks in any other order, with the columns of each
check in any other order, with any of them expanded, and that of the dictionaries of their rules. -/
structure FingerprintInvariant (env : Environment) (checks : List Check) (fingerprint : String) :
    Prop where
  permuted : ∀ checks', checks'.Perm checks →
    computeRuleSetFingerprintByMetadata env checks' = .ok fingerprint
  columns : ∀ checks', List.Forall₂ ColumnsPermuted checks checks' →
    computeRuleSetFingerprintByMetadata env checks' = .ok fingerprint
  expanded : ∀ groups,
    List.Forall₂ (fun check group => group = [check] ∨ Expanded check group) checks groups →
    computeRuleSetFingerprintByMetadata env groups.flatten = .ok fingerprint
  serialized : ∃ rules checks', deserializeChecks env checks = .ok rules ∧
    serialize rules = .ok checks' ∧
    computeRuleSetFingerprintByMetadata env checks' = .ok fingerprint

theorem computeRuleSetFingerprintByMetadata_replaced {env : Environment} {checks : List Check}
    {groups : List (List Check)} {fingerprint : String}
    (hgroups : List.Forall₂ (MakeRulesOf env) checks groups)
    (h : computeRuleSetFingerprintByMetadata env checks = .ok fingerprint) :
    computeRuleSetFingerprintByMetadata env groups.flatten = .ok fingerprint := by
  obtain ⟨rules, hrules, -⟩ := bind_eq_ok.mp h
  obtain ⟨rules', hrules', hperm⟩ := deserializeChecks_replaced hgroups hrules
  exact computeRuleSetFingerprintByMetadata_perm hrules hrules' hperm h

theorem computeRuleSetFingerprintByMetadata_columns {env : Environment} {checks checks' : List Check}
    {fingerprint : String} (hcolumns : List.Forall₂ ColumnsPermuted checks checks')
    (h : computeRuleSetFingerprintByMetadata env checks = .ok fingerprint) :
    computeRuleSetFingerprintByMetadata env checks' = .ok fingerprint := by
  have hgroups : List.Forall₂ (MakeRulesOf env) checks (checks'.map fun check => [check]) := by
    rw [List.forall₂_map_right_iff]
    exact hcolumns.imp fun _ _ hcheck => makeRulesOf_columnsPermuted hcheck
  have hflatten : checks' = (checks'.map fun check => [check]).flatten :=
    (List.flatMap_singleton' checks').symm
  rw [hflatten]
  exact computeRuleSetFingerprintByMetadata_replaced hgroups h

theorem computeRuleSetFingerprintByMetadata_expanded {env : Environment} {checks : List Check}
    {groups : List (List Check)} {fingerprint : String}
    (hexpand : ∀ check ∈ checks, Expandable env check)
    (hgroups : List.Forall₂ (fun check group => group = [check] ∨ Expanded check group) checks groups)
    (h : computeRuleSetFingerprintByMetadata env checks = .ok fingerprint) :
    computeRuleSetFingerprintByMetadata env groups.flatten = .ok fingerprint := by
  refine computeRuleSetFingerprintByMetadata_replaced (List.Forall₂.imp ?_
    ((List.forall₂_and_left checks groups).mpr ⟨hexpand, hgroups⟩)) h
  rintro check group ⟨hcheck, rfl | hgroup⟩
  · exact makeRulesOf_self env check
  · exact makeRulesOf_expanded hcheck hgroup

theorem fingerprintInvariant_of_serializable {env : Environment} {checks : List Check}
    {rules : List DQRule} {fingerprint : String}
    (hrules : deserializeChecks env checks = .ok rules)
    (h : computeRuleSetFingerprintByMetadata env checks = .ok fingerprint)
    (hexpand : ∀ check ∈ checks, Expandable env check)
    (hserializable : ∀ rule ∈ rules, Serializable env rule) :
    FingerprintInvariant env checks fingerprint where
  permuted checks' hperm := by
    obtain ⟨rules', hrules', hpermRules⟩ := deserializeChecks_perm hperm hrules
    exact computeRuleSetFingerprintByMetadata_perm hrules hrules' hpermRules h
  columns checks' hcolumns := computeRuleSetFingerprintByMetadata_columns hcolumns h
  expanded groups hgroups := computeRuleSetFingerprintByMetadata_expanded hexpand hgroups h
  serialized := by
    have hset : computeRuleSetFingerprint env rules = .ok fingerprint := by
      rw [computeRuleSetFingerprintByMetadata, hrules] at h
      exact h
    obtain ⟨fingerprints, hfingerprints, -⟩ := bind_eq_ok.mp hset
    obtain ⟨checks', rules', hchecks', hrules', hsame⟩ :=
      serialized_fingerprints (deserializeChecks_made hrules) hserializable hfingerprints
    refine ⟨rules, checks', hrules, hchecks', ?_⟩
    rw [computeRuleSetFingerprintByMetadata, hrules']
    exact computeRuleSetFingerprint_eq hfingerprints hsame (.refl _) hset

/-- Where the dictionaries of some rules deserialize, each of them does. -/
theorem deserializeChecks_mem {env : Environment} {checks : List Check} {rules : List DQRule}
    (h : deserializeChecks env checks = .ok rules) :
    ∀ check ∈ checks, ∃ rules', deserializeChecks env [check] = .ok rules' := by
  obtain ⟨groups, rfl, hgroups⟩ := deserializeChecks_eq_ok_iff.mp h
  intro check hcheck
  obtain ⟨group, -, spec, hspec, hgroup⟩ := exists_of_forall₂_left hgroups hcheck
  exact ⟨group, deserializeChecks_single hspec hgroup⟩

theorem FingerprintInvariant.expandable {env : Environment} {checks : List Check}
    {fingerprint : String} (h : FingerprintInvariant env checks fingerprint) :
    ∀ check ∈ checks, Expandable env check := by
  have hgroups : List.Forall₂ (fun check group => group = [check] ∨ Expanded check group) checks
      (checks.map expansion) := by
    rw [List.forall₂_map_right_iff, List.forall₂_same]
    exact fun check _ => expansion_cases check
  obtain ⟨rules, hrules, -⟩ := bind_eq_ok.mp (h.expanded _ hgroups)
  intro check hcheck
  apply expandable_of_expansion
  intro single hsingle
  exact deserializeChecks_mem hrules single
    (List.mem_flatten.mpr ⟨_, List.mem_map_of_mem hcheck, hsingle⟩)

theorem FingerprintInvariant.serializable {env : Environment} {checks : List Check}
    {rules : List DQRule} {fingerprint : String} (h : FingerprintInvariant env checks fingerprint)
    (hrules : deserializeChecks env checks = .ok rules) (hnames : OwnNames env)
    (hnamed : ∀ rule ∈ rules, rule.name ≠ "") : ∀ rule ∈ rules, Serializable env rule := by
  obtain ⟨_, checks', hsame, hchecks', hfingerprint⟩ := h.serialized
  obtain rfl := Except.ok.inj (hrules.symm.trans hsame)
  obtain ⟨rules', hrules', -⟩ := bind_eq_ok.mp hfingerprint
  intro rule hrule
  obtain ⟨check, hcheck, hdict⟩ := exists_of_forall₂_left (mapM_eq_ok_iff_forall₂.mp hchecks') hrule
  obtain ⟨made, hmade⟩ := deserializeChecks_mem hrules' check hcheck
  exact serializable_of_deserialized (deserializeChecks_resolved hnames hrules rule hrule)
    (deserializeChecks_made hrules rule hrule) (hnamed rule hrule) hdict hmade

/-- The fingerprint of a rule set is invariant where the checks can be expanded and the rules can be
serialized; and only there, if the check functions are found under their names and no rule is
without a name. -/
theorem fingerprintInvariant_iff_serializable {env : Environment} {checks : List Check}
    {rules : List DQRule} {fingerprint : String}
    (hrules : deserializeChecks env checks = .ok rules)
    (h : computeRuleSetFingerprintByMetadata env checks = .ok fingerprint) :
    ((∀ check ∈ checks, Expandable env check) ∧ (∀ rule ∈ rules, Serializable env rule) →
      FingerprintInvariant env checks fingerprint) ∧
    (OwnNames env → (∀ rule ∈ rules, rule.name ≠ "") →
      (FingerprintInvariant env checks fingerprint ↔
        (∀ check ∈ checks, Expandable env check) ∧ ∀ rule ∈ rules, Serializable env rule)) := by
  have hsufficient := fun hconditions : (∀ check ∈ checks, Expandable env check) ∧
      ∀ rule ∈ rules, Serializable env rule =>
    fingerprintInvariant_of_serializable hrules h hconditions.1 hconditions.2
  refine ⟨hsufficient, fun hnames hnamed => ⟨fun hinvariant => ?_, hsufficient⟩⟩
  exact ⟨hinvariant.expandable, hinvariant.serializable hrules hnames hnamed⟩

/-- A limit is not a dictionary. -/
def isNotLessThanTyped : CheckFunction where
  name := "is_not_less_than"
  params := isNotLessThan.params
  accepts _ value := match value with
    | .dict _ => false
    | _ => true
  condition := isNotLessThan.condition

def typedBuiltins : Environment where
  resolveCheckFunction name := if name = "is_not_less_than" then some isNotLessThanTyped else none
  checkFuncRegistry _ := some .row
  parses _ := true
  sha256 := nameHash

/-- The check of two columns against a limit. -/
def columnsNotLessThan (limit : Int) : Check where
  check := {
    function := "is_not_less_than"
    arguments := some (.dict [(.str "limit", .int limit)])
    forEachColumn := some [.str "a", .str "b"] }

theorem typedBuiltins_ownNames : OwnNames typedBuiltins := by
  intro name func hfunc
  rw [typedBuiltins] at hfunc ⊢
  dsimp only at hfunc ⊢
  split at hfunc
  · cases hfunc
    rfl
  · cases hfunc

def columnNotLessThanRule (column : String) (limit : Int) : DQRule where
  func := isNotLessThanTyped
  name := column ++ "_less_than_limit"
  criticality := "error"
  column := some (.str column)
  columns := none
  filter := none
  checkFuncKwargs := [("limit", .int limit)]
  userMetadata := none
  messageExpr := none

theorem columnsNotLessThan_deserialize (limit : Int) :
    deserializeChecks typedBuiltins [columnsNotLessThan limit] =
      .ok [columnNotLessThanRule "a" limit, columnNotLessThanRule "b" limit] := by
  rfl

theorem columnNotLessThanRule_serializable (column : String) (limit : Int) :
    Serializable typedBuiltins (columnNotLessThanRule column limit) := by
  intro bound fullArgs hbound hfull
  cases hbound
  cases hfull
  refine ⟨rfl, rfl, column ++ "_less_than_limit", rfl, fun hempty => hempty⟩

theorem columnsNotLessThan_expandable (limit : Int) :
    Expandable typedBuiltins (columnsNotLessThan limit) := by
  intro func arguments items hfunc harguments hitems
  cases hfunc
  cases harguments
  cases hitems
  refine List.forall_mem_cons.mpr ⟨⟨⟨_, rfl⟩, rfl, Bool.false_ne_true⟩, ?_⟩
  exact List.forall_mem_singleton.mpr ⟨⟨_, rfl⟩, rfl, Bool.false_ne_true⟩

/-- The rules of a check for each of two columns, with an integer limit. -/
theorem columnsNotLessThan_fingerprintInvariant : ∃ fingerprint,
    computeRuleSetFingerprintByMetadata typedBuiltins [columnsNotLessThan 18] = .ok fingerprint ∧
    FingerprintInvariant typedBuiltins [columnsNotLessThan 18] fingerprint := by
  have hok : (computeRuleSetFingerprintByMetadata typedBuiltins
      [columnsNotLessThan 18]).isOk = true := by decide +kernel
  cases hfingerprint : computeRuleSetFingerprintByMetadata typedBuiltins [columnsNotLessThan 18] with
  | error e =>
    rw [hfingerprint] at hok
    cases hok
  | ok fingerprint =>
    refine ⟨_, rfl, (fingerprintInvariant_iff_serializable (columnsNotLessThan_deserialize 18)
      hfingerprint).1 ⟨?_, ?_⟩⟩
    · exact List.forall_mem_singleton.mpr (columnsNotLessThan_expandable 18)
    · simp [columnNotLessThanRule_serializable]

/-- A decimal limit is serialized as a dictionary, which the validator refuses as a limit. -/
theorem decimal_not_fingerprintInvariant :
    ¬∀ (env : Environment) (checks : List Check) (fingerprint : String),
      (∃ specs, checks.mapM (validateCheck env) = .ok specs) →
      computeRuleSetFingerprintByMetadata env checks = .ok fingerprint →
      FingerprintInvariant env checks fingerprint := by
  intro h
  obtain ⟨_, _, hrules, hchecks, hfingerprint⟩ :=
    (h typedBuiltins [notLessThan (.finite false 150 (-2))] _ ⟨_, rfl⟩ rfl).serialized
  cases hrules
  cases hchecks
  cases hfingerprint

end Dqx.Checks
