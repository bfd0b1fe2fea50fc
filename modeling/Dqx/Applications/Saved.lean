import Dqx.Applications.Saving
import Dqx.Lib.Traverse

/-! What a save leaves of the applied rules: for its table those of the entries that count, and the rows
of other tables. -/

namespace Dqx.Applications

open Lib

variable {functions : Functions} {upper : Text → Text} {world : World}

/-! ### The entries that count -/

def ofRule (entries : List DesiredAppliedRule) (ruleId : String) : Option DesiredAppliedRule :=
  entries.find? (·.ruleId = ruleId)

theorem ofRule_putEntry (entries : List DesiredAppliedRule) (entry : DesiredAppliedRule)
    (ruleId : String) : ofRule (putEntry entries entry) ruleId =
      if entry.ruleId = ruleId then some entry else ofRule entries ruleId := by
  rw [putEntry, ofRule, ofRule]
  split
  · next hany =>
    have hsame : ((fun other : DesiredAppliedRule => decide (other.ruleId = ruleId)) ∘
        fun old => if old.ruleId = entry.ruleId then entry else old) =
        fun other => decide (other.ruleId = ruleId) := by
      funext old
      rw [Function.comp_apply]
      split
      · next h => rw [h]
      · rfl
    rw [List.find?_map, hsame]
    split
    · next hrule =>
      subst hrule
      obtain ⟨old, hold, heq⟩ := List.any_eq_true.mp hany
      cases hfind : entries.find? fun other => decide (other.ruleId = entry.ruleId) with
      | none => exact absurd heq (List.find?_eq_none.mp hfind old hold)
      | some found =>
        have hfound : found.ruleId = entry.ruleId := by simpa using List.find?_some hfind
        rw [Option.map_some, if_pos hfound]
    · next hrule =>
      cases hfind : entries.find? fun other => decide (other.ruleId = ruleId) with
      | none => rfl
      | some found =>
        have hfound : found.ruleId = ruleId := by simpa using List.find?_some hfind
        rw [Option.map_some, if_neg (hfound.symm ▸ Ne.symm hrule)]
  · next hany =>
    rw [List.find?_append]
    split
    · next hrule =>
      subst hrule
      have hnone : entries.find? (fun other => decide (other.ruleId = entry.ruleId)) = none :=
        List.find?_eq_none.mpr fun old hold heq => hany (List.any_eq_true.mpr ⟨old, hold, heq⟩)
      rw [hnone, Option.none_or]
      exact List.find?_cons_of_pos (decide_eq_true rfl)
    · next hrule =>
      rw [List.find?_cons_of_neg (by simpa using hrule), List.find?_nil, Option.or_none]

/-- The last entry of a rule is the one that counts. -/
theorem ofRule_foldl_putEntry (desired entries : List DesiredAppliedRule) (ruleId : String) :
    ofRule (desired.foldl putEntry entries) ruleId =
      (ofRule desired.reverse ruleId).or (ofRule entries ruleId) := by
  induction desired generalizing entries with
  | nil => rfl
  | cons entry desired ih =>
    rw [List.foldl_cons, ih, ofRule_putEntry, List.reverse_cons]
    have happend : ofRule (desired.reverse ++ [entry]) ruleId =
        (ofRule desired.reverse ruleId).or (ofRule [entry] ruleId) := List.find?_append
    rw [happend, Option.or_assoc]
    congr 1
    by_cases hrule : entry.ruleId = ruleId
    · have hhead : ofRule [entry] ruleId = some entry :=
        List.find?_cons_of_pos (decide_eq_true hrule)
      rw [if_pos hrule, hhead, Option.some_or]
    · have hnone : ofRule [entry] ruleId = none := by
        rw [ofRule, List.find?_cons_of_neg (by simpa using hrule), List.find?_nil]
      rw [if_neg hrule, hnone, Option.none_or]

theorem ofRule_dedupe (desired : List DesiredAppliedRule) (ruleId : String) :
    ofRule (dedupe desired) ruleId = ofRule desired.reverse ruleId := by
  rw [dedupe, ofRule_foldl_putEntry]
  exact Option.or_none

theorem nodup_putEntry {entries : List DesiredAppliedRule} {entry : DesiredAppliedRule}
    (h : (entries.map (·.ruleId)).Nodup) : ((putEntry entries entry).map (·.ruleId)).Nodup := by
  rw [putEntry]
  split
  · have hrules : (entries.map fun old => if old.ruleId = entry.ruleId then entry else old).map
        (·.ruleId) = entries.map (·.ruleId) := by
      rw [List.map_map]
      refine List.map_congr_left fun old _ => ?_
      rw [Function.comp_apply]
      split
      · next h => exact h.symm
      · rfl
    rw [hrules]
    exact h
  · next hany =>
    rw [List.map_append, List.nodup_append]
    refine ⟨h, List.nodup_singleton _, fun old hold new hnew heq => hany ?_⟩
    obtain ⟨other, hother, rfl⟩ := List.mem_map.mp hold
    have hrule : other.ruleId = entry.ruleId := heq.trans (List.mem_singleton.mp hnew)
    exact List.any_eq_true.mpr ⟨other, hother, decide_eq_true hrule⟩

theorem nodup_foldl_putEntry (desired : List DesiredAppliedRule) {entries : List DesiredAppliedRule}
    (h : (entries.map (·.ruleId)).Nodup) :
    ((desired.foldl putEntry entries).map (·.ruleId)).Nodup := by
  induction desired generalizing entries with
  | nil => exact h
  | cons entry desired ih => exact ih (nodup_putEntry h)

theorem mem_dedupe_iff {desired : List DesiredAppliedRule} {entry : DesiredAppliedRule} :
    entry ∈ dedupe desired ↔ ofRule desired.reverse entry.ruleId = some entry := by
  rw [← ofRule_dedupe]
  refine ⟨fun h => ?_, List.mem_of_find?_eq_some⟩
  cases hfind : ofRule (dedupe desired) entry.ruleId with
  | none => exact absurd (decide_eq_true rfl) (List.find?_eq_none.mp hfind entry h)
  | some found =>
    have hrule : found.ruleId = entry.ruleId := by simpa using List.find?_some hfind
    have hnodup : ((dedupe desired).map (·.ruleId)).Nodup := nodup_foldl_putEntry desired List.nodup_nil
    rw [List.inj_on_of_nodup_map hnodup (List.mem_of_find?_eq_some hfind) h hrule]

/-! ### Removing what is superseded -/

/-- The rows of other tables. -/
def Tables.others (tables : Tables) (bindingId : String) : List AppliedRule :=
  tables.applied.filter (·.bindingId ≠ bindingId)

theorem removeEach_eq {rows : List AppliedRule} {tables : Tables}
    (hrows : ∀ row ∈ rows, row ∈ tables.applied) (hnodup : (rows.map (·.id)).Nodup) :
    ∃ tables', removeEach rows tables = (.ok (), tables') ∧
      tables'.applied = tables.applied.filter (fun row => row.id ∉ rows.map (·.id)) := by
  induction rows generalizing tables with
  | nil => exact ⟨tables, rfl, by simp⟩
  | cons row rows ih =>
    rw [List.map_cons, List.nodup_cons] at hnodup
    obtain ⟨found, hfound⟩ : ∃ found, tables.applied.find? (·.id = row.id) = some found :=
      Option.isSome_iff_exists.mp (List.find?_isSome.mpr
        ⟨row, hrows row List.mem_cons_self, decide_eq_true rfl⟩)
    have hfirst : (removeApplied row.id tables).1 = .ok () ∧
        (removeApplied row.id tables).2.applied = tables.applied.filter (·.id ≠ row.id) := by
      rw [removeApplied, hfound]
      exact ⟨rfl, rfl⟩
    obtain ⟨tables', heq, happlied⟩ := @ih (removeApplied row.id tables).2 (fun other hother => by
      rw [hfirst.2, List.mem_filter]
      refine ⟨hrows other (List.mem_cons_of_mem _ hother), decide_eq_true fun hid => hnodup.1 ?_⟩
      exact List.mem_map.mpr ⟨other, hother, hid⟩) hnodup.2
    refine ⟨tables', ?_, ?_⟩
    · rw [removeEach]
      split
      · next h =>
        rw [h] at hfirst
        exact absurd hfirst.1 (by simp)
      · next h =>
        rw [h] at heq
        exact heq
    · rw [happlied, hfirst.2, List.filter_filter]
      refine List.filter_congr fun other _ => ?_
      rw [List.map_cons]
      by_cases hid : other.id = row.id
      · simp [hid]
      · simp [hid]

/-! ### Applying the entries -/

/-- A valid entry passes the checks of its application. -/
theorem alone_validate_ok {bindingId : String} {entry : DesiredAppliedRule}
    (hbinding : bindingId ∈ world.tables.map (·.1))
    (hvalid : validateEntry functions world entry = .ok ()) (tables : Tables) :
    ∃ rule, ∀ {ρ : Type} (onError : Error → AppCall ρ) next,
      alone (validateApplicableRule functions bindingId entry.ruleId entry.application onError next)
        (world.store tables) = alone (next rule) (world.store tables) := by
  rw [validateEntry] at hvalid
  cases hrule : world.rule entry.ruleId with
  | none =>
    rw [hrule] at hvalid
    cases hvalid
  | some rule =>
    rw [hrule] at hvalid
    dsimp only at hvalid
    by_cases hstatus : rule.status = .approved
    · rw [if_neg (not_not.mpr hstatus)] at hvalid
      cases hcomplete : validateMappingComplete entry.application.columnMapping
          (rule.slots.map (·.name)) with
      | error error =>
        rw [hcomplete] at hvalid
        cases hvalid
      | ok =>
        rw [hcomplete] at hvalid
        have happroved : rule.toRegistryRule.status = .approved := hstatus
        have hmapping : validateMappingComplete entry.application.columnMapping
          rule.toRegistryRule.slots = .ok () := hcomplete
        have hfilter : validateRowFilter functions entry.application.rowFilter = .ok () := hvalid
        refine ⟨rule.toRegistryRule, fun onError next => ?_⟩
        rw [validateApplicableRule, alone_read rfl, store_bindings, if_neg (not_not.mpr hbinding),
          alone_read rfl, store_rules, hrule, Option.map_some]
        dsimp only
        rw [if_neg (not_not.mpr happroved), hmapping, hfilter]
    · rw [if_pos hstatus] at hvalid
      cases hvalid

/-- What applying valid entries leaves: a row under each of their keys, and the rows of other tables. -/
structure Put (bindingId : String) (keys : AppliedKey → Prop) (tables tables' : Tables) : Prop where
  sound : tables'.Sound
  keys : ∀ key, key ∈ tables'.keys ↔ key ∈ tables.keys ∨ keys key
  others : tables'.others bindingId = tables.others bindingId

theorem Written.put {bindingId : String} {key : AppliedKey} {tables tables' : Tables}
    (h : Written key tables tables') (hkey : key.1 = bindingId) (hsound : tables.Sound) :
    Put bindingId (· = key) tables tables' := by
  refine ⟨(@Written.edited (· = key) key _ _ h rfl).sound hsound, fun other => ?_, ?_⟩
  · rcases h with ⟨existing, hmem, hexisting, updated, -, rfl⟩ | ⟨row, rfl, -, -, rfl⟩
    · rw [keys_change (key_write updated)]
      refine ⟨.inl, ?_⟩
      rintro (hold | rfl)
      · exact hold
      · rw [← hexisting]
        exact List.mem_map_of_mem hmem
    · rw [keys_add, List.mem_append, List.mem_singleton]
  · rcases h with ⟨existing, hmem, hexisting, updated, hid, rfl⟩ | ⟨row, rfl, -, -, rfl⟩
    · have hbinding (row : AppliedRule) : (updated.write row).bindingId = row.bindingId :=
        congrArg Prod.fst (key_write updated row)
      have hother : ∀ row ∈ tables.others bindingId, updated.write row = row := by
        intro row hrow
        obtain ⟨hrow, hne⟩ := List.mem_filter.mp hrow
        refine if_neg fun hsame => (of_decide_eq_true hne) ?_
        have heq : row = existing := List.inj_on_of_nodup_map hsound.ids hrow hmem (hsame.trans hid)
        rw [heq]
        exact (congrArg Prod.fst hexisting).trans hkey
      have hfilter : (tables.change updated.write).others bindingId =
          (tables.others bindingId).map updated.write := by
        rw [Tables.others, Tables.others, Tables.change, List.filter_map]
        congr 2
        funext row
        rw [Function.comp_apply, hbinding]
      rw [hfilter, List.map_congr_left hother, List.map_id']
    · rw [Tables.others, Tables.others, Tables.add, List.filter_append, List.filter_cons_of_neg,
        List.filter_nil, List.append_nil]
      exact fun hne => (of_decide_eq_true hne) hkey

theorem put_applyEach {bindingId : String} (hbinding : bindingId ∈ world.tables.map (·.1))
    (user : String) {entries : List DesiredAppliedRule}
    (hvalid : ∀ entry ∈ entries, validateEntry functions world entry = .ok ()) {tables : Tables}
    (hsound : tables.Sound) : ∃ tables',
      applyEach functions world bindingId user entries tables = (.ok (), tables') ∧
      Put bindingId (fun key => ∃ entry ∈ entries,
        key = (bindingId, entry.ruleId, entry.mappingHash functions)) tables tables' := by
  induction entries generalizing tables with
  | nil => exact ⟨tables, rfl, hsound, fun key => by simp, rfl⟩
  | cons entry entries ih =>
    obtain ⟨rule, hrule⟩ := alone_validate_ok hbinding (hvalid entry List.mem_cons_self) tables
    obtain ⟨applied, next, heq, hwritten⟩ := written_applyByHand hrule user entry.pinnedVersion
      entry.severityOverride (some entry.tags)
    have hput := hwritten.put rfl hsound
    obtain ⟨tables', hlater, hputs⟩ := ih
      (fun other hother => hvalid other (List.mem_cons_of_mem _ hother)) hput.sound
    refine ⟨tables', ?_, hputs.sound, fun key => ?_, hputs.others.trans hput.others⟩
    · rw [applyEach, heq]
      exact hlater
    · rw [hputs.keys, hput.keys, List.exists_mem_cons_iff, or_assoc]
      rfl

/-! ### The whole save -/

/-- The rows that a save keeps. -/
theorem removeEach_superseded {tables : Tables} (hsound : tables.Sound) (bindingId : String)
    (entries : List DesiredAppliedRule) : ∃ tables',
      removeEach ((tables.applied.filter (·.bindingId = bindingId)).filter
        (isSuperseded functions entries)) tables = (.ok (), tables') ∧
      tables'.applied = tables.applied.filter fun row =>
        !(row.bindingId = bindingId && isSuperseded functions entries row) := by
  have hrows : List.Sublist ((tables.applied.filter (·.bindingId = bindingId)).filter
      (isSuperseded functions entries)) tables.applied :=
    List.filter_sublist.trans List.filter_sublist
  obtain ⟨tables', heq, happlied⟩ := removeEach_eq (fun row hrow => hrows.subset hrow)
    ((hrows.map _).nodup hsound.ids)
  refine ⟨tables', heq, happlied.trans (List.filter_congr fun row hrow => ?_)⟩
  rw [Bool.eq_iff_iff, decide_eq_true_eq, Bool.not_eq_true', ← Bool.not_eq_true, not_iff_not,
    Bool.and_eq_true, List.mem_map]
  constructor
  · rintro ⟨other, hother, hid⟩
    have heq : other = row := List.inj_on_of_nodup_map hsound.ids (hrows.subset hother) hrow hid
    obtain ⟨hbinding, hsuperseded⟩ := List.mem_filter.mp (heq ▸ hother)
    exact ⟨(List.mem_filter.mp hbinding).2, hsuperseded⟩
  · rintro ⟨hbinding, hsuperseded⟩
    exact ⟨row, List.mem_filter.mpr ⟨List.mem_filter.mpr ⟨hrow, hbinding⟩, hsuperseded⟩, rfl⟩

theorem ok_of_forM {ε α : Type} {f : α → Except ε Unit} {xs : List α} (h : xs.forM f = .ok ()) :
    ∀ x ∈ xs, f x = .ok () := by
  induction xs with
  | nil => exact fun x hx => absurd hx List.not_mem_nil
  | cons x xs ih =>
    rw [List.forM_eq_forM, List.forM_cons] at h
    cases hx : f x with
    | error error =>
      rw [hx] at h
      cases h
    | ok =>
      rw [hx] at h
      exact List.forall_mem_cons.mpr ⟨hx, ih h⟩

theorem isSuperseded_eq_false_iff {entries : List DesiredAppliedRule} {row : AppliedRule} :
    isSuperseded functions entries row = false ↔
      (ofRule entries row.ruleId).map (·.mappingHash functions) = some row.mappingHash := by
  rw [isSuperseded, decide_eq_false_iff_not, not_not, ofRule]

/-- The table is monitored, and every entry that counts is valid. -/
def CanSave (functions : Functions) (world : World) (bindingId : String)
    (desired : List DesiredAppliedRule) : Prop :=
  bindingId ∈ world.tables.map (·.1) ∧
    ∀ entry ∈ dedupe desired, validateEntry functions world entry = .ok ()

/-- A save whose entries are all valid leaves for the table a row under the columns of the last entry
of each rule and no other, and the rows of other tables; any other save changes nothing. -/
theorem saveAppliedRules_spec (acts : List (World × Act)) (bindingId : String)
    (desired : List DesiredAppliedRule) (user : String) :
    let tables := runActs functions upper acts .empty
    let saved := saveAppliedRules functions world bindingId desired user tables
    (¬CanSave functions world bindingId desired ∧ ∃ error, saved = (.error error, tables)) ∨
      CanSave functions world bindingId desired ∧ saved.1 = .ok () ∧ saved.2.keys.Nodup ∧
        saved.2.others bindingId = tables.others bindingId ∧
        ∀ ruleId mappingHash, (bindingId, ruleId, mappingHash) ∈ saved.2.keys ↔
          (ofRule desired.reverse ruleId).map (·.mappingHash functions) = some mappingHash := by
  dsimp only
  have hsound : (runActs functions upper acts .empty).Sound := sound_runActs sound_empty
  generalize runActs functions upper acts .empty = tables at hsound
  rw [saveAppliedRules]
  by_cases hbinding : bindingId ∈ world.tables.map (·.1)
  · rw [if_neg (not_not.mpr hbinding)]
    dsimp only
    cases hvalid : (dedupe desired).forM (validateEntry functions world) with
    | error error =>
      refine .inl ⟨fun hcan => ?_, error, rfl⟩
      rw [forM_eq_ok hcan.2] at hvalid
      cases hvalid
    | ok =>
      dsimp only
      right
      obtain ⟨kept, hremoved, hrows⟩ :=
        @removeEach_superseded functions tables hsound bindingId (dedupe desired)
      have hkept : kept.Sound := by
        have hedited := edited_removeEach (fun _ => True)
          ((tables.applied.filter (·.bindingId = bindingId)).filter
            (isSuperseded functions (dedupe desired))) tables
        rw [hremoved] at hedited
        exact hedited.sound hsound
      obtain ⟨tables', happlied, hput⟩ := put_applyEach hbinding user (ok_of_forM hvalid) hkept
      rw [hremoved]
      dsimp only
      rw [happlied]
      refine ⟨⟨hbinding, ok_of_forM hvalid⟩, rfl, hput.sound.keys, hput.others.trans ?_,
        fun ruleId mappingHash => ?_⟩
      · rw [Tables.others, Tables.others, hrows, List.filter_filter]
        refine List.filter_congr fun row _ => ?_
        by_cases hrow : row.bindingId = bindingId
        · simp [hrow]
        · simp [hrow]
      · rw [hput.keys, ← ofRule_dedupe]
        constructor
        · rintro (hold | ⟨entry, hentry, heq⟩)
          · obtain ⟨row, hrow, heq⟩ := List.mem_map.mp hold
            rw [hrows, List.mem_filter] at hrow
            obtain ⟨rfl, rfl, rfl⟩ : row.bindingId = bindingId ∧ row.ruleId = ruleId ∧
                row.mappingHash = mappingHash := by simpa [AppliedRule.key] using heq
            refine isSuperseded_eq_false_iff.mp ?_
            simpa using hrow.2
          · obtain ⟨rfl, rfl⟩ : ruleId = entry.ruleId ∧ mappingHash = entry.mappingHash functions := by
              simpa using heq
            rw [ofRule_dedupe, mem_dedupe_iff.mp hentry, Option.map_some]
        · intro h
          obtain ⟨entry, hentry, rfl⟩ := Option.map_eq_some_iff.mp h
          have hrule : entry.ruleId = ruleId := by simpa using List.find?_some hentry
          exact .inr ⟨entry, List.mem_of_find?_eq_some hentry, by rw [hrule]⟩
  · rw [if_pos hbinding]
    exact .inl ⟨fun hcan => hbinding hcan.1, _, rfl⟩

end Dqx.Applications
