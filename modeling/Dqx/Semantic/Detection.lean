import Dqx.Semantic.Validator
import Mathlib.Tactic.Tauto

/-! What the semantic validation of a rule set finds: a conflict exactly if two rules with the same
function and columns have other arguments, and a duplicate exactly if two rules are written alike. -/

namespace Dqx.Semantic

open Lib Checks PyValue

/-! ### The parts of a rule have no equal keys either -/

theorem distinctKeys_find {entries : List (Key × PyValue)} {key : Key} {value : PyValue}
    (h : (PyValue.dict entries).DistinctKeys) (hfind : find key entries = some value) :
    value.DistinctKeys := by
  obtain ⟨key', hmem, -⟩ := find_eq_some hfind
  simp only [DistinctKeys, distinctEntries_iff] at h
  exact h.2 _ hmem

theorem distinctKeys_innerBlock {check : PyValue} {entries : List (Key × PyValue)}
    (h : check.DistinctKeys) (hblock : innerBlock check = some entries) :
    (PyValue.dict entries).DistinctKeys := by
  unfold innerBlock at hblock
  split at hblock
  · split at hblock
    next => exact Option.some.inj hblock ▸ h
    next hinner => exact Option.some.inj hblock ▸ distinctKeys_find h hinner
    next => cases hblock
  · cases hblock

theorem distinctKeys_inBlock {check value : PyValue} {name : String} (h : check.DistinctKeys)
    (hvalue : inBlock name check = some value) : value.DistinctKeys := by
  obtain ⟨entries, hblock, hfind⟩ := Option.bind_eq_some_iff.mp hvalue
  exact distinctKeys_find (distinctKeys_innerBlock h hblock) hfind

theorem distinctKeys_getD {value : Option PyValue} (default : PyValue)
    (h : ∀ v, value = some v → v.DistinctKeys) (hdefault : default.DistinctKeys) :
    (value.getD default).DistinctKeys := by
  cases value with
  | none => exact hdefault
  | some v => exact h v rfl

theorem distinctKeys_getFunction {check function : PyValue} (h : check.DistinctKeys)
    (hfunction : getFunction check = some function) : function.DistinctKeys :=
  distinctKeys_inBlock h (Option.filter_eq_some_iff.mp hfunction).1

theorem distinctKeys_getArguments {check : PyValue} (h : check.DistinctKeys) :
    (PyValue.dict (getArguments check)).DistinctKeys := by
  unfold getArguments
  split
  next harguments => exact distinctKeys_inBlock h harguments
  next => simp [DistinctKeys]

theorem distinctKeys_getForEachColumn {check : PyValue} (h : check.DistinctKeys) :
    (getForEachColumn check).DistinctKeys :=
  distinctKeys_getD _ (fun _ => distinctKeys_inBlock h) trivial

theorem distinctKeys_sortedColumns {columns sorted : List PyValue}
    (h : ∀ column ∈ columns, column.DistinctKeys) (hsorted : sortedColumns columns = .ok sorted) :
    ∀ column ∈ sorted, column.DistinctKeys := by
  obtain ⟨keyed, hkeyed, hsorted⟩ := bind_eq_ok.mp hsorted
  obtain rfl := Except.ok.inj hsorted
  intro column hcolumn
  obtain ⟨pair, hpair, rfl⟩ := List.mem_map.mp hcolumn
  obtain ⟨column, hmem, htext⟩ := exists_of_forall₂_right (mapM_eq_ok_iff_forall₂.mp hkeyed)
    ((sortByKey_perm _ keyed).mem_iff.mp hpair)
  obtain ⟨text, -, rfl⟩ := map_eq_ok.mp htext
  exact h column hmem

theorem distinctKeys_normalizeColumns {value normal : PyValue} (h : value.DistinctKeys)
    (hnormal : normalizeColumns value = .ok normal) : normal.DistinctKeys := by
  unfold normalizeColumns at hnormal
  split at hnormal
  · obtain ⟨sorted, hsorted, rfl⟩ := map_eq_ok.mp hnormal
    simp only [DistinctKeys, distinctItems_iff] at h ⊢
    exact distinctKeys_sortedColumns h hsorted
  · exact Except.ok.inj hnormal ▸ h

theorem distinctKeys_normalizeArguments {arguments normal : List (Key × PyValue)}
    (h : (PyValue.dict arguments).DistinctKeys)
    (hnormal : normalizeArguments arguments = .ok normal) : (PyValue.dict normal).DistinctKeys := by
  have hentries : List.Forall₂ (fun entry entry' => entry'.1 = entry.1 ∧
      (entry.2.DistinctKeys → entry'.2.DistinctKeys)) arguments normal := by
    refine (mapM_eq_ok_iff_forall₂.mp hnormal).imp fun entry entry' hentry => ?_
    dsimp only at hentry
    split at hentry
    · obtain ⟨value, hvalue, rfl⟩ := map_eq_ok.mp hentry
      exact ⟨rfl, fun hdistinct => distinctKeys_normalizeColumns hdistinct hvalue⟩
    · obtain rfl := Except.ok.inj hentry
      exact ⟨rfl, id⟩
  simp only [DistinctKeys, distinctEntries_iff] at h ⊢
  have hkeys : normal.map (fun entry => keyAtom entry.1) =
      arguments.map fun entry => keyAtom entry.1 := by
    clear h hnormal
    induction hentries with
    | nil => rfl
    | cons hfirst _ ih => rw [List.map_cons, List.map_cons, hfirst.1, ih]
  refine ⟨hkeys ▸ h.1, fun entry' hmem => ?_⟩
  obtain ⟨entry, hentry, -, hdistinct⟩ := exists_of_forall₂_right hentries hmem
  exact hdistinct (h.2 entry hentry)

theorem distinctKeys_identity {check value : PyValue} (h : check.DistinctKeys)
    (hidentity : identity check = .ok value) : value.DistinctKeys := by
  obtain ⟨forEachColumn, hcolumns, hidentity⟩ := bind_eq_ok.mp hidentity
  obtain ⟨arguments, harguments, hidentity⟩ := bind_eq_ok.mp hidentity
  obtain rfl := Except.ok.inj hidentity
  have hcolumns := distinctKeys_normalizeColumns (distinctKeys_getForEachColumn h) hcolumns
  have harguments := distinctKeys_normalizeArguments (distinctKeys_getArguments h) harguments
  simp only [DistinctKeys, distinctEntries_iff, List.forall_mem_cons]
  refine ⟨by simp [keyAtom], ?_, hcolumns, fun _ h => absurd h List.not_mem_nil⟩
  simpa [DistinctKeys] using harguments

@[simp] theorem makeHashableItems_eq (items : List PyValue) :
    makeHashableItems items = items.map makeHashable := by
  induction items with
  | nil => rfl
  | cons item items ih => rw [makeHashableItems, ih, List.map_cons]

@[simp] theorem makeHashableEntries_eq (entries : List (Key × PyValue)) :
    makeHashableEntries entries =
      entries.map fun entry => (keyText entry.1, makeHashable entry.2) := by
  induction entries with
  | nil => rfl
  | cons entry entries ih => rw [makeHashableEntries, ih, List.map_cons]

theorem distinctKeys_makeHashable (value : PyValue) : (makeHashable value).DistinctKeys := by
  induction value using PyValue.induct with
  | list items ih | tuple items ih => simpa [makeHashable, DistinctKeys] using ih
  | dict entries ih =>
    simp only [makeHashable, DistinctKeys, distinctItems_iff, makeHashableEntries_eq, List.mem_map]
    rintro _ ⟨⟨key, value⟩, hmem, rfl⟩
    obtain ⟨entry, hentry, heq⟩ := List.mem_map.mp ((sortByKey_perm _ _).mem_iff.mp hmem)
    obtain ⟨-, rfl⟩ := Prod.mk.inj heq
    simpa [DistinctKeys] using ih entry hentry
  | _ => trivial

/-! ### What is found -/

/-- Two rules with the same function and columns have equal arguments. -/
def Consistent (a b : RuleDict) : Prop :=
  ∀ x ∈ conflictEntry a.value, ∀ y ∈ conflictEntry b.value, x.1.same y.1 = true →
    eq (.dict y.2) (.dict x.2) = true

/-- Two rules agree in all that is compared, with their arguments as JSON has them. -/
def WrittenAlike (a b : RuleDict) : Prop :=
  ∃ x ∈ duplicateKey a.value, ∃ y ∈ duplicateKey b.value, x.same y = true

structure RuleParts where
  function : PyValue
  identity : PyValue
  criticality : PyValue
  filter : PyValue

/-- The parts of a well-formed rule, with its arguments as they are. -/
def ruleParts (check : PyValue) : Option RuleParts :=
  match duplicateKey check, identity check with
  | some key, .ok identity => some { key with identity }
  | _, _ => none

def RuleParts.same (a b : RuleParts) : Bool :=
  eq a.function b.function && eq a.identity b.identity && eq a.criticality b.criticality &&
    eq a.filter b.filter

/-- Two rules agree in their function, arguments, columns, criticality and filter. -/
def Agree (a b : RuleDict) : Prop :=
  ∃ x ∈ ruleParts a.value, ∃ y ∈ ruleParts b.value, x.same y = true

/-- Some rule of a rule set and a later one are so related. -/
def Two (r : RuleDict → RuleDict → Prop) (checks : List RuleDict) : Prop :=
  ∃ a b, [a, b].Sublist checks ∧ r a b

theorem not_two_iff {r : RuleDict → RuleDict → Prop} {checks : List RuleDict} :
    ¬Two r checks ↔ checks.Pairwise fun a b => ¬r a b := by
  simp only [Two, not_exists, not_and, List.pairwise_iff_forall_sublist]

theorem two_or {r s : RuleDict → RuleDict → Prop} {checks : List RuleDict} :
    Two (fun a b => r a b ∨ s a b) checks ↔ Two r checks ∨ Two s checks := by
  simp only [Two, and_or_left, exists_or]

theorem FullKey.same_iff {a b : FullKey} : a.same b = true ↔ eq a.function b.function = true ∧
    a.identityKey = b.identityKey ∧ eq a.criticality b.criticality = true ∧
      eq a.filter b.filter = true := by
  simp [FullKey.same, and_assoc]

theorem duplicateKey_eq_some {check : PyValue} {key : FullKey}
    (h : duplicateKey check = some key) : fullKey check = .ok (some key) := by
  unfold duplicateKey at h
  split at h
  · split at h
    · rw [← Option.some.inj h]
      assumption
    · cases h
  · cases h

theorem distinctKeys_duplicateKey {check : PyValue} {key : FullKey} (hcheck : check.DistinctKeys)
    (h : duplicateKey check = some key) : key.function.DistinctKeys ∧
      key.criticality.DistinctKeys ∧ key.filter.DistinctKeys := by
  have hkey := duplicateKey_eq_some h
  unfold fullKey at hkey
  split at hkey
  next => cases hkey
  next hfunction =>
    obtain ⟨identity, -, hkey⟩ := bind_eq_ok.mp hkey
    obtain ⟨identityKey, -, hkey⟩ := bind_eq_ok.mp hkey
    obtain rfl := Option.some.inj (Except.ok.inj hkey)
    exact ⟨distinctKeys_getFunction hcheck hfunction, distinctKeys_makeHashable _,
      distinctKeys_makeHashable _⟩

theorem FullKey.same_symm {a b : FullKey}
    (ha : a.function.DistinctKeys ∧ a.criticality.DistinctKeys ∧ a.filter.DistinctKeys)
    (hb : b.function.DistinctKeys ∧ b.criticality.DistinctKeys ∧ b.filter.DistinctKeys)
    (h : a.same b = true) : b.same a = true := by
  obtain ⟨hfunction, hidentity, hcriticality, hfilter⟩ := same_iff.mp h
  exact same_iff.mpr ⟨eq_symm ha.1 hb.1 hfunction, hidentity.symm,
    eq_symm ha.2.1 hb.2.1 hcriticality, eq_symm ha.2.2 hb.2.2 hfilter⟩

theorem FullKey.same_trans {a b c : FullKey} (hab : a.same b = true) (hbc : b.same c = true) :
    a.same c = true := by
  obtain ⟨hfunction, hidentity, hcriticality, hfilter⟩ := same_iff.mp hab
  obtain ⟨hfunction', hidentity', hcriticality', hfilter'⟩ := same_iff.mp hbc
  exact same_iff.mpr ⟨eq_trans hfunction hfunction', hidentity.trans hidentity',
    eq_trans hcriticality hcriticality', eq_trans hfilter hfilter'⟩

/-- Comparing with the first rule under a key finds a duplicate exactly if there is one. -/
theorem detectDuplicates_eq_nil_iff {checks : List RuleDict} :
    detectDuplicates checks = [] ↔ ¬Two WrittenAlike checks := by
  have lawful : FirstSeen.Lawful FullKey.same (fun _ _ : Nat => false) fun x =>
      x.1.function.DistinctKeys ∧ x.1.criticality.DistinctKeys ∧ x.1.filter.DistinctKeys :=
    { same_symm := fun _ _ hx hy => FullKey.same_symm hx hy
      same_trans := fun _ _ _ => FullKey.same_trans
      agrees_symm := fun _ _ _ _ => nofun
      agrees_trans := fun _ _ _ => nofun }
  rw [detectDuplicates, FirstSeen.scan_eq_nil_iff lawful, not_two_iff]
  · apply FirstSeen.pairwise_zipIdx
    intro x y
    simp only [FirstSeen.Agree, WrittenAlike, Option.mem_def, Option.map_eq_some_iff]
    constructor
    · rintro h ⟨key, hkey, key', hkey', hsame⟩
      cases h _ ⟨key, hkey, rfl⟩ _ ⟨key', hkey', rfl⟩ hsame
    · rintro h _ ⟨key, hkey, rfl⟩ _ ⟨key', hkey', rfl⟩ hsame
      exact absurd ⟨key, hkey, key', hkey', hsame⟩ h
  · simp only [List.mem_map]
    rintro _ ⟨⟨check, idx⟩, -, rfl⟩ x hx
    obtain ⟨key, hkey, rfl⟩ := Option.map_eq_some_iff.mp hx
    exact distinctKeys_duplicateKey check.distinct hkey

theorem conflictEntry_eq_some {check : PyValue} {entry : ConflictKey × List (Key × PyValue)}
    (h : conflictEntry check = some entry) : conflictKey check = .ok (some entry.1) ∧
      normalizeArguments (getArguments check) = .ok entry.2 := by
  unfold conflictEntry at h
  split at h
  next hkey harguments =>
    split at h
    · obtain rfl := Option.some.inj h
      exact ⟨hkey, harguments⟩
    · cases h
  next => cases h

theorem distinctKeys_conflictEntry {check : PyValue} {entry : ConflictKey × List (Key × PyValue)}
    (hcheck : check.DistinctKeys) (h : conflictEntry check = some entry) :
    entry.1.function.DistinctKeys ∧ entry.1.column.DistinctKeys ∧
      (PyValue.dict entry.2).DistinctKeys := by
  obtain ⟨hkey, harguments⟩ := conflictEntry_eq_some h
  refine and_assoc.mp ⟨?_, distinctKeys_normalizeArguments (distinctKeys_getArguments hcheck)
    harguments⟩
  unfold conflictKey at hkey
  split at hkey
  next hfunction _ =>
    obtain ⟨column, -, hkey⟩ := bind_eq_ok.mp hkey
    rw [← Option.some.inj (Except.ok.inj hkey)]
    exact ⟨distinctKeys_getFunction hcheck hfunction, distinctKeys_makeHashable _⟩
  next => cases hkey

theorem ConflictKey.same_iff {a b : ConflictKey} : a.same b = true ↔
    eq a.function b.function = true ∧ eq a.column b.column = true := by
  simp [ConflictKey.same]

/-- Comparing with the first rule under a key finds a conflict exactly if there is one. -/
theorem detectConflicts_eq_nil_iff {checks : List RuleDict} :
    detectConflicts checks = [] ↔ checks.Pairwise Consistent := by
  have lawful : FirstSeen.Lawful ConflictKey.same
      (fun first later : Nat × List (Key × PyValue) => eq (.dict later.2) (.dict first.2)) fun x =>
        x.1.function.DistinctKeys ∧ x.1.column.DistinctKeys ∧ (PyValue.dict x.2.2).DistinctKeys :=
    { same_symm := fun x y hx hy h =>
        have h := ConflictKey.same_iff.mp h
        ConflictKey.same_iff.mpr ⟨eq_symm hx.1 hy.1 h.1, eq_symm hx.2.1 hy.2.1 h.2⟩
      same_trans := fun _ _ _ hab hbc =>
        have hab := ConflictKey.same_iff.mp hab
        have hbc := ConflictKey.same_iff.mp hbc
        ConflictKey.same_iff.mpr ⟨eq_trans hab.1 hbc.1, eq_trans hab.2 hbc.2⟩
      agrees_symm := fun _ _ hx hy h => eq_symm hy.2.2 hx.2.2 h
      agrees_trans := fun _ _ _ hab hbc => eq_trans hbc hab }
  rw [detectConflicts, FirstSeen.scan_eq_nil_iff lawful]
  · apply FirstSeen.pairwise_zipIdx
    intro x y
    simp only [FirstSeen.Agree, Consistent, Option.mem_def, Option.map_eq_some_iff]
    constructor
    · intro h entry hentry entry' hentry' hsame
      exact h _ ⟨entry, hentry, rfl⟩ _ ⟨entry', hentry', rfl⟩ hsame
    · rintro h _ ⟨entry, hentry, rfl⟩ _ ⟨entry', hentry', rfl⟩ hsame
      exact h entry hentry entry' hentry' hsame
  · simp only [List.mem_map]
    rintro _ ⟨⟨check, idx⟩, -, rfl⟩ x hx
    obtain ⟨entry, hentry, rfl⟩ := Option.map_eq_some_iff.mp hx
    exact distinctKeys_conflictEntry check.distinct hentry

theorem WrittenAlike.symm {a b : RuleDict} (h : WrittenAlike a b) : WrittenAlike b a := by
  obtain ⟨x, hx, y, hy, hsame⟩ := h
  exact ⟨y, hy, x, hx, FullKey.same_symm (distinctKeys_duplicateKey a.distinct hx)
    (distinctKeys_duplicateKey b.distinct hy) hsame⟩

theorem Consistent.symm {a b : RuleDict} (h : Consistent a b) : Consistent b a := by
  intro y hy x hx hsame
  have hx' := distinctKeys_conflictEntry a.distinct hx
  have hy' := distinctKeys_conflictEntry b.distinct hy
  have hsame := ConflictKey.same_iff.mp hsame
  have hback := h x hx y hy
    (ConflictKey.same_iff.mpr ⟨eq_symm hy'.1 hx'.1 hsame.1, eq_symm hy'.2.1 hx'.2.1 hsame.2⟩)
  exact eq_symm hy'.2.2 hx'.2.2 hback

theorem validateRuleset_eq_nil_iff {checks : List RuleDict} : validateRuleset checks = [] ↔
    checks.Pairwise fun a b => ¬WrittenAlike a b ∧ Consistent a b := by
  rw [validateRuleset, List.append_eq_nil_iff, detectDuplicates_eq_nil_iff, not_two_iff,
    detectConflicts_eq_nil_iff, List.pairwise_and_iff]

/-- Whether anything is found does not depend on the order of the rules. -/
theorem validateRuleset_perm {checks checks' : List RuleDict} (h : checks'.Perm checks) :
    validateRuleset checks' = [] ↔ validateRuleset checks = [] := by
  rw [validateRuleset_eq_nil_iff, validateRuleset_eq_nil_iff]
  exact h.pairwise_iff fun hab => ⟨fun hba => hab.1 hba.symm, hab.2.symm⟩

/-- A conflict is found exactly if two rules with the same function and columns have other arguments,
a duplicate exactly if two rules agree in everything, and whether anything is found is the same in
every order of the rules. -/
structure FindsAll (checks : List RuleDict) : Prop where
  conflicts : detectConflicts checks = [] ↔ checks.Pairwise Consistent
  duplicates : detectDuplicates checks = [] ↔ checks.Pairwise fun a b => ¬Agree a b
  order : ∀ checks', checks'.Perm checks →
    (validateRuleset checks' = [] ↔ validateRuleset checks = [])

/-- Equal rules that JSON writes in two ways, as it does `1` and `1.0`. -/
def Respelled (a b : RuleDict) : Prop := Agree a b ∧ ¬WrittenAlike a b

/-- Different rules that JSON writes in one way, as it does a date and its text. -/
def Conflated (a b : RuleDict) : Prop := WrittenAlike a b ∧ ¬Agree a b

/-- A limit on a column, by a date or by the text of one. -/
def limitRule (limit : PyValue) (h : limit.DistinctKeys) : RuleDict where
  value := .dict [(.str "function", .str "is_not_less_than"), (.str "arguments", .dict [
    (.str "column", .str "day"), (.str "limit", limit)])]
  distinct := by simp [DistinctKeys, keyAtom, h]

def dateRule : RuleDict := limitRule (.date "2024-01-01") trivial

def textRule : RuleDict := limitRule (.str "2024-01-01") trivial

end Dqx.Semantic
