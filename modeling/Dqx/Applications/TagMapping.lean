import Mathlib
import Dqx.Applications.Applied
import Dqx.Lib.Traverse

/-! The groups of columns that the slots of a rule are mapped to by their governed tags. -/

namespace Dqx.Applications

open Lib

inductive SlotFamily where
  | any | numeric | text | temporal | boolean
  deriving DecidableEq, Repr

/-- What the resolver reads of a slot. -/
structure RuleSlot where
  name : String
  family : SlotFamily
  position : Int

/-- A candidate column with its type and its tags. -/
structure ColumnInfo where
  name : String
  typeName : Text
  tags : List Text

/-- `_TYPE_FAMILY` -/
def typeFamily : List (Text × SlotFamily) :=
  [("TINYINT".toList, .numeric), ("SMALLINT".toList, .numeric), ("INT".toList, .numeric),
    ("INTEGER".toList, .numeric), ("BIGINT".toList, .numeric), ("LONG".toList, .numeric),
    ("FLOAT".toList, .numeric), ("DOUBLE".toList, .numeric), ("DECIMAL".toList, .numeric),
    ("STRING".toList, .text), ("VARCHAR".toList, .text), ("CHAR".toList, .text),
    ("DATE".toList, .temporal), ("TIMESTAMP".toList, .temporal),
    ("TIMESTAMP_NTZ".toList, .temporal), ("BOOLEAN".toList, .boolean)]

/-- The key of a tag, and its value if it has one. -/
def parseTag (tag : Text) : Text × Option Text :=
  match tag.dropWhile (· ≠ '=') with
  | [] => (tag, none)
  | _ :: value => (tag.takeWhile (· ≠ '='), some value)

/-- The dictionary of items: the last value of a key stands in the place of the first. -/
def setItem (items : ColumnMappingGroup) (item : String × String) : ColumnMappingGroup :=
  if items.any (·.1 = item.1) then items.map fun old => if old.1 = item.1 then item else old
  else items ++ [item]

/-- `itertools.product`: the last list varies first. -/
def product {α : Type} : List (List α) → List (List α)
  | [] => [[]]
  | xs :: rest => xs.flatMap fun x => (product rest).map (x :: ·)

section Resolve

variable (upper : Text → Text)

def familyForType (typeName : Text) : SlotFamily :=
  let head := ((upper typeName).takeWhile (· ≠ '(')).takeWhile (· ≠ '<')
  ((typeFamily.find? (·.1 = Actions.strip head)).map (·.2)).getD .any

/-- `_column_matches` -/
def columnMatches (column : ColumnInfo) (slot : RuleSlot) (slotTags : List Text) : Bool :=
  (slot.family = .any || familyForType upper column.typeName = slot.family) &&
    slotTags.any fun wanted => column.tags.any fun given =>
      (parseTag given).1 = (parseTag wanted).1 &&
        ((parseTag wanted).2.isNone || (parseTag wanted).2 = (parseTag given).2)

def tagsOf (slotTags : List (String × List Text)) (slot : RuleSlot) : List Text :=
  (slotTags.lookup slot.name).getD []

/-- The columns that a slot can take, unless there is none. -/
def slotMatches (slotTags : List (String × List Text)) (columns : List ColumnInfo)
    (slot : RuleSlot) : Option (List String) :=
  let tags := tagsOf slotTags slot
  let found := (columns.filter fun column => columnMatches upper column slot tags).map (·.name)
  if tags.isEmpty || found.isEmpty then none else some found

def ordered (slots : List RuleSlot) : List RuleSlot := slots.insertionSort (·.position ≤ ·.position)

def resolve (slots : List RuleSlot) (slotTags : List (String × List Text))
    (columns : List ColumnInfo) (single : Bool) : List ColumnMappingGroup :=
  if slots.isEmpty then []
  else
    let sortedColumns := columns.insertionSort (·.name ≤ ·.name)
    match (ordered slots).mapM (slotMatches upper slotTags sortedColumns) with
    | none => []
    | some perSlot =>
      let groups := ((product perSlot).filter fun combo => combo.Nodup).map fun combo =>
        (((ordered slots).map (·.name)).zip combo).foldl setItem []
      if single then groups.take 1 else groups

end Resolve

/-! ### What is resolved -/

variable {upper : Text → Text} {slots : List RuleSlot} {slotTags : List (String × List Text)}
  {columns : List ColumnInfo} {group : ColumnMappingGroup}

theorem mem_product {α : Type} {combo : List α} {lists : List (List α)} :
    combo ∈ product lists ↔ List.Forall₂ (fun x xs => x ∈ xs) combo lists := by
  induction lists generalizing combo with
  | nil => rw [product, List.mem_singleton, List.forall₂_nil_right_iff]
  | cons xs rest ih =>
    rw [product, List.mem_flatMap]
    constructor
    · rintro ⟨x, hx, hcombo⟩
      obtain ⟨tail, htail, rfl⟩ := List.mem_map.mp hcombo
      exact .cons hx (ih.mp htail)
    · intro h
      cases h with
      | cons hx htail => exact ⟨_, hx, List.mem_map.mpr ⟨_, ih.mpr htail, rfl⟩⟩

theorem nodup_product {α : Type} {lists : List (List α)} (h : ∀ xs ∈ lists, xs.Nodup) :
    (product lists).Nodup := by
  induction lists with
  | nil => exact List.nodup_singleton _
  | cons xs rest ih =>
    obtain ⟨hxs, hrest⟩ := List.forall_mem_cons.mp h
    rw [product, List.nodup_flatMap]
    refine ⟨fun x _ => (ih hrest).map (List.cons_injective), ?_⟩
    refine hxs.imp fun hne => ?_
    intro combo hleft hright
    obtain ⟨_, _, rfl⟩ := List.mem_map.mp hleft
    obtain ⟨_, _, heq⟩ := List.mem_map.mp hright
    exact hne (List.cons.inj heq).1.symm

/-- A dictionary of items with distinct keys is these items. -/
theorem foldl_setItem {items done : ColumnMappingGroup}
    (h : ((done ++ items).map Prod.fst).Nodup) : items.foldl setItem done = done ++ items := by
  induction items generalizing done with
  | nil => rw [List.foldl_nil, List.append_nil]
  | cons item items ih =>
    have hnew : done.any (·.1 = item.1) = false := by
      rw [List.any_eq_false]
      intro old hold heq
      rw [List.map_append, List.map_cons] at h
      refine (List.nodup_append.mp h).2.2 old.1 (List.mem_map_of_mem hold) item.1
        List.mem_cons_self (of_decide_eq_true heq)
    rw [List.foldl_cons, setItem, hnew, if_neg Bool.false_ne_true, ih (by simpa using h)]
    simp

theorem mem_keys_setItem {items : ColumnMappingGroup} {item : String × String} {key : String} :
    key ∈ (setItem items item).map Prod.fst ↔ key ∈ items.map Prod.fst ∨ key = item.1 := by
  rw [setItem]
  split
  · next hany =>
    have hkeys : (items.map fun old => if old.1 = item.1 then item else old).map Prod.fst =
        items.map Prod.fst := by
      rw [List.map_map]
      refine List.map_congr_left fun old _ => ?_
      rw [Function.comp_apply]
      split
      · next heq => exact heq.symm
      · rfl
    obtain ⟨old, hold, heq⟩ := List.any_eq_true.mp hany
    rw [hkeys]
    refine ⟨.inl, fun h => h.elim id fun hitem => ?_⟩
    rw [hitem, ← of_decide_eq_true heq]
    exact List.mem_map_of_mem hold
  · rw [List.map_append, List.map_singleton, List.mem_append, List.mem_singleton]

/-- The keys of a dictionary are those of its items. -/
theorem mem_keys_foldl_setItem {items done : ColumnMappingGroup} {key : String} :
    key ∈ (items.foldl setItem done).map Prod.fst ↔
      key ∈ done.map Prod.fst ∨ key ∈ items.map Prod.fst := by
  induction items generalizing done with
  | nil => simp
  | cons item items ih =>
    rw [List.foldl_cons, ih, mem_keys_setItem, List.map_cons, List.mem_cons, or_assoc]

/-- What an item of a group says of a slot: a column of the table that matches it. -/
def Fills (upper : Text → Text) (slotTags : List (String × List Text)) (columns : List ColumnInfo)
    (slot : RuleSlot) (item : String × String) : Prop :=
  item.1 = slot.name ∧ ∃ column ∈ columns, column.name = item.2 ∧
    columnMatches upper column slot (tagsOf slotTags slot) = true

theorem mem_slotMatches {slot : RuleSlot} {found : List String}
    (h : slotMatches upper slotTags columns slot = some found) (name : String) :
    name ∈ found ↔ Fills upper slotTags columns slot (slot.name, name) := by
  rw [slotMatches] at h
  split at h
  · cases h
  · rw [← Option.some.inj h, List.mem_map]
    constructor
    · rintro ⟨column, hcolumn, rfl⟩
      obtain ⟨hmem, hmatches⟩ := List.mem_filter.mp hcolumn
      exact ⟨rfl, column, hmem, rfl, hmatches⟩
    · rintro ⟨-, column, hmem, rfl, hmatches⟩
      exact ⟨column, List.mem_filter.mpr ⟨hmem, hmatches⟩, rfl⟩

/-- A slot that a column matches has columns to take. -/
theorem exists_slotMatches {slot : RuleSlot} {item : String × String}
    (h : Fills upper slotTags columns slot item) :
    ∃ found, slotMatches upper slotTags columns slot = some found := by
  obtain ⟨-, column, hmem, -, hmatches⟩ := h
  rw [slotMatches]
  refine ⟨_, if_neg ?_⟩
  rw [Bool.or_eq_true, not_or]
  refine ⟨fun hempty => ?_, fun hempty => ?_⟩
  · rw [columnMatches, List.isEmpty_iff.mp hempty, List.any_nil, Bool.and_false] at hmatches
    cases hmatches
  · exact List.not_mem_nil (List.isEmpty_iff.mp hempty ▸
      List.mem_map_of_mem (List.mem_filter.mpr ⟨hmem, hmatches⟩))

/-- The items of a group, one for each slot, and the names of their columns. -/
theorem forall₂_fills_iff {slots : List RuleSlot} {group : ColumnMappingGroup} :
    List.Forall₂ (Fills upper slotTags columns) slots group ↔
      group = (slots.map (·.name)).zip (group.map Prod.snd) ∧
        List.Forall₂ (fun slot name => Fills upper slotTags columns slot (slot.name, name)) slots
          (group.map Prod.snd) := by
  constructor
  · intro h
    induction h with
    | nil => exact ⟨rfl, .nil⟩
    | @cons slot item slots group hfills _ ih =>
      have hitem : item = (slot.name, item.2) := Prod.ext hfills.1 rfl
      refine ⟨?_, .cons (hitem ▸ hfills) ih.2⟩
      rw [List.map_cons, List.map_cons, List.zip_cons_cons, ← hitem, ← ih.1]
  · rintro ⟨hgroup, hfills⟩
    generalize group.map Prod.snd = combo at hgroup hfills
    rw [hgroup]
    clear hgroup
    induction hfills with
    | nil => exact .nil
    | cons hhead _ ih => exact .cons hhead ih

theorem forall₂_mem_iff {slots : List RuleSlot} {perSlot : List (List String)}
    (h : List.Forall₂ (fun slot found => slotMatches upper slotTags columns slot = some found) slots
      perSlot) (combo : List String) :
    List.Forall₂ (fun name found => name ∈ found) combo perSlot ↔
      List.Forall₂ (fun slot name => Fills upper slotTags columns slot (slot.name, name)) slots
        combo := by
  induction h generalizing combo with
  | nil => rw [List.forall₂_nil_right_iff, List.forall₂_nil_left_iff]
  | @cons slot found slots perSlot hfound _ ih =>
    cases combo with
    | nil =>
      constructor
      · intro hcombo
        cases hcombo
      · intro hcombo
        cases hcombo
    | cons name combo =>
      rw [List.forall₂_cons, List.forall₂_cons, mem_slotMatches hfound, ih]

theorem ordered_perm (slots : List RuleSlot) : (ordered slots).Perm slots :=
  List.perm_insertionSort _ _

theorem fills_of_mem_iff {columns columns' : List ColumnInfo} (h : columns.Perm columns')
    (slot : RuleSlot) (item : String × String) :
    Fills upper slotTags columns slot item ↔ Fills upper slotTags columns' slot item := by
  simp only [Fills, h.mem_iff]

theorem nodup_keys_zip {names : List String} (h : names.Nodup) (combo : List String) :
    ((names.zip combo).map Prod.fst).Nodup := by
  induction names generalizing combo with
  | nil => exact List.nodup_nil
  | cons name names ih =>
    cases combo with
    | nil => exact List.nodup_nil
    | cons column combo =>
      obtain ⟨hnot, hnames⟩ := List.nodup_cons.mp h
      rw [List.zip_cons_cons, List.map_cons, List.nodup_cons]
      refine ⟨fun hmem => ?_, ih hnames combo⟩
      obtain ⟨item, hitem, heq⟩ := List.mem_map.mp hmem
      have hname := (List.of_mem_zip (show (item.1, item.2) ∈ names.zip combo from hitem)).1
      rw [heq] at hname
      exact hnot hname

/-- The groups of columns that fill the slots: one matching column for each slot, no column twice. -/
theorem mem_resolve_iff (hslots : (slots.map (·.name)).Nodup) :
    group ∈ resolve upper slots slotTags columns false ↔
      slots ≠ [] ∧ (group.map Prod.snd).Nodup ∧
        List.Forall₂ (Fills upper slotTags columns) (ordered slots) group := by
  have hsorted := List.perm_insertionSort (fun a b : ColumnInfo => a.name ≤ b.name) columns
  have hnames : ((ordered slots).map (·.name)).Nodup :=
    ((ordered_perm slots).map _).nodup_iff.mpr hslots
  have hfills : (List.Forall₂ (Fills upper slotTags columns) (ordered slots) group ↔
      List.Forall₂ (Fills upper slotTags (columns.insertionSort (·.name ≤ ·.name)))
        (ordered slots) group) :=
    ⟨fun h => h.imp fun slot item => (fills_of_mem_iff hsorted slot item).mpr,
      fun h => h.imp fun slot item => (fills_of_mem_iff hsorted slot item).mp⟩
  rw [hfills, resolve]
  by_cases hempty : slots.isEmpty = true
  · rw [if_pos hempty]
    exact iff_of_false List.not_mem_nil fun h => h.1 (List.isEmpty_iff.mp hempty)
  rw [if_neg hempty]
  dsimp only
  have hne : slots ≠ [] := fun heq => hempty (List.isEmpty_iff.mpr heq)
  cases hmapM : (ordered slots).mapM
      (slotMatches upper slotTags (columns.insertionSort (·.name ≤ ·.name))) with
  | none =>
    dsimp only
    refine iff_of_false List.not_mem_nil fun h => ?_
    obtain ⟨found, hfound⟩ := exists_mapM_eq_some fun slot hslot =>
      exists_slotMatches (exists_of_forall₂_left h.2.2 hslot).choose_spec.2
    rw [hmapM] at hfound
    cases hfound
  | some perSlot =>
    have hper := mapM_eq_some_iff_forall₂.mp hmapM
    have hdict {combo : List String} : (((ordered slots).map (·.name)).zip combo).foldl setItem [] =
        ((ordered slots).map (·.name)).zip combo := by
      refine foldl_setItem ?_
      rw [List.nil_append]
      exact nodup_keys_zip hnames combo
    dsimp only
    simp only [Bool.false_eq_true, if_false, List.mem_map, List.mem_filter, decide_eq_true_eq,
      mem_product, forall₂_mem_iff hper, hdict]
    constructor
    · rintro ⟨combo, ⟨hcombo, hnodup⟩, rfl⟩
      have hlength : combo.length = ((ordered slots).map (·.name)).length := by
        rw [List.length_map, hcombo.length_eq]
      have hsnd : ((((ordered slots).map (·.name)).zip combo).map Prod.snd) = combo :=
        List.map_snd_zip hlength.le
      refine ⟨hne, by rw [hsnd]; exact hnodup, forall₂_fills_iff.mpr ?_⟩
      rw [hsnd]
      exact ⟨rfl, hcombo⟩
    · rintro ⟨-, hnodup, hgroup⟩
      obtain ⟨heq, hcombo⟩ := forall₂_fills_iff.mp hgroup
      exact ⟨group.map Prod.snd, ⟨hcombo, hnodup⟩, heq.symm⟩

/-- The keys of a group are the names of the slots. -/
theorem keys_of_mem_resolve (h : group ∈ resolve upper slots slotTags columns false) (key : String) :
    key ∈ group.map Prod.fst ↔ key ∈ slots.map (·.name) := by
  rw [resolve] at h
  by_cases hempty : slots.isEmpty = true
  · rw [if_pos hempty] at h
    cases h
  rw [if_neg hempty] at h
  dsimp only at h
  cases hmapM : (ordered slots).mapM
      (slotMatches upper slotTags (columns.insertionSort (·.name ≤ ·.name))) with
  | none =>
    rw [hmapM] at h
    cases h
  | some perSlot =>
    rw [hmapM] at h
    dsimp only at h
    rw [if_neg Bool.false_ne_true] at h
    obtain ⟨combo, hcombo, rfl⟩ := List.mem_map.mp h
    have hlength : combo.length = ((ordered slots).map (·.name)).length := by
      rw [List.length_map, (mem_product.mp (List.mem_filter.mp hcombo).1).length_eq,
        (mapM_eq_some_iff_forall₂.mp hmapM).length_eq]
    rw [mem_keys_foldl_setItem, List.map_fst_zip hlength.ge]
    simp only [List.map_nil, List.not_mem_nil, false_or]
    exact ((ordered_perm slots).map _).mem_iff

/-- Where the columns of the table have different names, no group is resolved twice. -/
theorem nodup_resolve (hslots : (slots.map (·.name)).Nodup)
    (hcolumns : (columns.map (·.name)).Nodup) :
    (resolve upper slots slotTags columns false).Nodup := by
  have hsorted := List.perm_insertionSort (fun a b : ColumnInfo => a.name ≤ b.name) columns
  have hnames : ((ordered slots).map (·.name)).Nodup :=
    ((ordered_perm slots).map _).nodup_iff.mpr hslots
  rw [resolve]
  by_cases hempty : slots.isEmpty = true
  · rw [if_pos hempty]
    exact List.nodup_nil
  rw [if_neg hempty]
  dsimp only
  cases hmapM : (ordered slots).mapM
      (slotMatches upper slotTags (columns.insertionSort (·.name ≤ ·.name))) with
  | none => exact List.nodup_nil
  | some perSlot =>
    dsimp only
    have hper := mapM_eq_some_iff_forall₂.mp hmapM
    have hfound : ∀ found ∈ perSlot, found.Nodup := by
      intro found hmem
      obtain ⟨slot, -, hslot⟩ := exists_of_forall₂_right hper hmem
      rw [slotMatches] at hslot
      split at hslot
      · cases hslot
      · rw [← Option.some.inj hslot]
        exact ((hsorted.map _).nodup_iff.mpr hcolumns).sublist (List.filter_sublist.map _)
    rw [if_neg Bool.false_ne_true]
    refine List.Nodup.map_on ?_ ((nodup_product hfound).filter _)
    intro combo hcombo combo' hcombo' heq
    have hlength {names : List String} (hmem : names ∈ (product perSlot).filter fun c => c.Nodup) :
        names.length = ((ordered slots).map (·.name)).length := by
      rw [List.length_map, (mem_product.mp (List.mem_filter.mp hmem).1).length_eq,
        hper.length_eq]
    rw [foldl_setItem (by rw [List.nil_append]; exact nodup_keys_zip hnames combo),
      foldl_setItem (by rw [List.nil_append]; exact nodup_keys_zip hnames combo'),
      List.nil_append, List.nil_append] at heq
    have hsnd := congrArg (List.map Prod.snd) heq
    rwa [List.map_snd_zip (hlength hcombo).le, List.map_snd_zip (hlength hcombo').le] at hsnd

/-- The groups that are resolved, once each. -/
theorem resolve_groups (hslots : (slots.map (·.name)).Nodup)
    (hcolumns : (columns.map (·.name)).Nodup) :
    (resolve upper slots slotTags columns false).Nodup ∧
      ∀ group, group ∈ resolve upper slots slotTags columns false ↔
        slots ≠ [] ∧ (group.map Prod.snd).Nodup ∧
          List.Forall₂ (Fills upper slotTags columns) (ordered slots) group :=
  ⟨nodup_resolve hslots hcolumns, fun _ => mem_resolve_iff hslots⟩

def taggedSlot : RuleSlot := ⟨"column", .any, 0⟩

def taggedColumn : ColumnInfo := ⟨"email", [], [['p', 'i', 'i']]⟩

theorem resolve_groups_tagged :
    (resolve id [taggedSlot] [("column", [['p', 'i', 'i']])] [taggedColumn] false).Nodup ∧
      ∀ group, group ∈ resolve id [taggedSlot] [("column", [['p', 'i', 'i']])] [taggedColumn] false ↔
        [taggedSlot] ≠ [] ∧ (group.map Prod.snd).Nodup ∧
          List.Forall₂ (Fills id [("column", [['p', 'i', 'i']])] [taggedColumn])
            (ordered [taggedSlot]) group :=
  resolve_groups (List.nodup_singleton _) (List.nodup_singleton _)

end Dqx.Applications
