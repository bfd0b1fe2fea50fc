import Dqx.Checks.Value
import Mathlib.Data.List.Perm.Basic

/-! The stored form of a value: what is read back after it was normalized, written as a document and
denormalized. It has the fingerprint of the value when the keys of its dictionaries are written in
the order of their texts and its decimal markers hold texts of decimals. -/

namespace Dqx.Checks

open Lib

namespace Json

/-- What an object holds when its only field is `__decimal__`. -/
def markedItem : List (String × Json) → Option Json
  | [(key, item)] => if key = "__decimal__" then some item else none
  | _ => none

mutual

/-- Every object that reads as a decimal holds the text of one. -/
def MarkersCanonical : Json → Prop
  | .arr items => ItemsMarkersCanonical items
  | .obj fields =>
    (∀ item, markedItem fields = some item → ∃ d : Decimal, item = .str (String.ofList d.text)) ∧
      FieldsMarkersCanonical fields
  | _ => True

def ItemsMarkersCanonical : List Json → Prop
  | [] => True
  | item :: rest => MarkersCanonical item ∧ ItemsMarkersCanonical rest

def FieldsMarkersCanonical : List (String × Json) → Prop
  | [] => True
  | (_, item) :: rest => MarkersCanonical item ∧ FieldsMarkersCanonical rest

end

theorem itemsMarkersCanonical_iff (items : List Json) :
    ItemsMarkersCanonical items ↔ ∀ item ∈ items, item.MarkersCanonical := by
  induction items with
  | nil => simp [ItemsMarkersCanonical]
  | cons item rest ih => simp [ItemsMarkersCanonical, ih]

theorem fieldsMarkersCanonical_iff (fields : List (String × Json)) :
    FieldsMarkersCanonical fields ↔ ∀ field ∈ fields, field.2.MarkersCanonical := by
  induction fields with
  | nil => simp [FieldsMarkersCanonical]
  | cons field rest ih => simp [FieldsMarkersCanonical, ih]

theorem markedDecimal_loads (fields : List (String × Json)) :
    Value.markedDecimal (fields.map fun field => (Key.str field.1, field.2.loads)) =
      (markedItem fields).map loads := by
  match fields with
  | [] => rfl
  | [(key, item)] =>
    by_cases hkey : key = "__decimal__"
    · simp [Value.markedDecimal, markedItem, hkey]
    · simp [Value.markedDecimal, markedItem, hkey]
  | _ :: _ :: _ => rfl

theorem eq_of_markedItem {fields : List (String × Json)} {item : Json}
    (h : markedItem fields = some item) : fields = [("__decimal__", item)] := by
  match fields with
  | [] => cases h
  | [(key, item')] =>
    by_cases hkey : key = "__decimal__"
    · simp only [markedItem, hkey, if_true, Option.some.injEq] at h
      rw [hkey, h]
    · simp [markedItem, hkey] at h
  | _ :: _ :: _ => cases h

/-- The text of a decimal reads as it. -/
theorem toDecimal_text (d : Decimal) :
    Value.toDecimal (.str (String.ofList d.text)) = .ok d := by
  rw [Value.toDecimal, String.toList_ofList, Decimal.read_text]

/-- A document with canonical markers is read back, and what is read back normalizes to it. -/
theorem denormalize_loads {j : Json} (h : j.MarkersCanonical) :
    ∃ value, Value.denormalizeValue j.loads = .ok value ∧
      ∀ simpleOnly, Value.normalizeBoundArgs simpleOnly value = .ok j.loads := by
  induction j using Json.induct with
  | null => exact ⟨.null, rfl, fun _ => rfl⟩
  | bool b => exact ⟨.bool b, rfl, fun _ => rfl⟩
  | int n => exact ⟨.int n, rfl, fun _ => rfl⟩
  | float f => exact ⟨.float f, rfl, fun _ => rfl⟩
  | str s => exact ⟨.str s, rfl, fun _ => rfl⟩
  | arr items ih =>
    have hitems : ∀ item ∈ items.map loads, ∃ value, Value.denormalizeValue item = .ok value ∧
        ∀ simpleOnly, Value.normalizeBoundArgs simpleOnly value = .ok item := by
      intro item hitem
      obtain ⟨j, hj, rfl⟩ := List.mem_map.mp hitem
      exact ih j hj ((itemsMarkersCanonical_iff items).mp h j hj)
    obtain ⟨values, hread, hback⟩ := mapM_roundTrip hitems
    refine ⟨.list values, ?_, fun simpleOnly => ?_⟩
    · rw [loads, loadsItems_eq, Value.denormalizeValue, Value.denormalizeItems_eq, hread]
      rfl
    · rw [Value.normalizeBoundArgs, Value.normalizeItems_eq, hback, loads, loadsItems_eq]
      rfl
  | obj fields ih =>
    obtain ⟨hmarked, hfields⟩ := h
    cases hitem : markedItem fields with
    | some item =>
      obtain ⟨d, rfl⟩ := hmarked item hitem
      obtain rfl := eq_of_markedItem hitem
      refine ⟨.decimal d, ?_, fun _ => rfl⟩
      show (Value.toDecimal (.str (String.ofList d.text))).map Value.decimal = _
      rw [toDecimal_text]
      rfl
    | none =>
      have hentries : ∀ entry ∈ fields.map fun field => (Key.str field.1, field.2.loads),
          ∃ value, Value.denormalizeValue entry.2 = .ok value ∧
            ∀ simpleOnly, Value.normalizeBoundArgs simpleOnly value = .ok entry.2 := by
        intro entry hentry
        obtain ⟨field, hfield, rfl⟩ := List.mem_map.mp hentry
        exact ih field hfield ((fieldsMarkersCanonical_iff fields).mp hfields field hfield)
      obtain ⟨entries, hread, hback⟩ := mapValuesM_roundTrip hentries
      refine ⟨.dict entries, ?_, fun simpleOnly => ?_⟩
      · rw [loads, loadsFields_eq, Value.denormalizeValue, markedDecimal_loads, hitem,
          Option.map_none]
        show (Value.denormalizeEntries _).map Value.dict = _
        rw [Value.denormalizeEntries_eq, hread]
        rfl
      · rw [Value.normalizeBoundArgs, Value.normalizeEntries_eq, hback, loads, loadsFields_eq]
        rfl

end Json

namespace Value

variable {α : Type}

theorem textFields_eq_ok_iff {fields : List (Key × α)} {texts : List (String × α)} :
    textFields fields = .ok texts ↔
      List.Forall₂ (fun field text => field.1.text = .ok text.1 ∧ field.2 = text.2) fields texts := by
  have hpoint : ∀ (field : Key × α) (text : String × α),
      (field.1.text.map fun t => (t, field.2)) = .ok text ↔
        field.1.text = .ok text.1 ∧ field.2 = text.2 := by
    rintro ⟨key, value⟩ ⟨t, value'⟩
    rw [map_eq_ok]
    constructor
    · rintro ⟨t', ht', heq⟩
      cases heq
      exact ⟨ht', rfl⟩
    · rintro ⟨ht, rfl⟩
      exact ⟨t, ht, rfl⟩
  rw [textFields, mapM_eq_ok_iff_forall₂]
  constructor
  · exact List.Forall₂.imp fun field text h => (hpoint field text).mp h
  · exact List.Forall₂.imp fun field text h => (hpoint field text).mpr h

@[simp] theorem textFields_str (fields : List (String × α)) :
    textFields (fields.map fun field => (Key.str field.1, field.2)) = .ok fields := by
  rw [textFields_eq_ok_iff, List.forall₂_map_left_iff, List.forall₂_same]
  exact fun field _ => ⟨rfl, rfl⟩

/-- String keys are sorted as strings. -/
theorem sortFields_str (fields : List (String × α)) :
    sortFields (fields.map fun field => (Key.str field.1, field.2)) =
      .ok ((sortByKey (· ≤ ·) fields).map fun field => (Key.str field.1, field.2)) := by
  have hcomparable : Key.comparable
      ((fields.map fun field => (Key.str field.1, field.2)).map Prod.fst) = true := by
    simp [Key.comparable, Key.isStr]
  have hsort : (sortByKey (· ≤ ·) fields).map (fun field => (Key.str field.1, field.2)) =
      sortByKey (fun a b => a.le b = true) (fields.map fun field => (Key.str field.1, field.2)) := by
    apply List.map_insertionSort
    intro a _ b _
    simp [Key.le]
  rw [sortFields, if_pos hcomparable, hsort]

/-- A document is written as it was read. -/
theorem dumps_loads (j : Json) : dumps false j.loads = .ok j ∧ dumps true j.loads = .ok j.sorted := by
  induction j using Json.induct with
  | null => exact ⟨rfl, rfl⟩
  | bool b => exact ⟨rfl, rfl⟩
  | int n => exact ⟨rfl, rfl⟩
  | float f => exact ⟨rfl, rfl⟩
  | str s => exact ⟨rfl, rfl⟩
  | arr items ih =>
    have hplain : (items.map Json.loads).mapM (dumps false) = .ok items := by
      rw [mapM_eq_ok_iff_forall₂, List.forall₂_map_left_iff, List.forall₂_same]
      exact fun item hitem => (ih item hitem).1
    have hsorted : (items.map Json.loads).mapM (dumps true) = .ok (items.map Json.sorted) := by
      rw [mapM_eq_ok_iff_forall₂, List.forall₂_map_left_iff, List.forall₂_map_right_iff,
        List.forall₂_same]
      exact fun item hitem => (ih item hitem).2
    rw [Json.loads, Json.loadsItems_eq, Json.sorted, Json.sortedItems_eq, dumps, dumps,
      dumpsItems_eq, dumpsItems_eq, hplain, hsorted]
    exact ⟨rfl, rfl⟩
  | obj fields ih =>
    have hplain : mapValuesM (dumps false)
        (fields.map fun field => (Key.str field.1, field.2.loads)) =
          .ok (fields.map fun field => (Key.str field.1, field.2)) := by
      rw [mapValuesM_eq_ok_iff_forall₂, List.forall₂_map_left_iff, List.forall₂_map_right_iff,
        List.forall₂_same]
      exact fun field hfield => ⟨rfl, (ih field hfield).1⟩
    have hsorted : mapValuesM (dumps true)
        (fields.map fun field => (Key.str field.1, field.2.loads)) =
          .ok ((fields.map fun field => (field.1, field.2.sorted)).map
            fun field => (Key.str field.1, field.2)) := by
      rw [List.map_map, mapValuesM_eq_ok_iff_forall₂, List.forall₂_map_left_iff,
        List.forall₂_map_right_iff, List.forall₂_same]
      exact fun field hfield => ⟨rfl, (ih field hfield).2⟩
    rw [Json.loads, Json.loadsFields_eq, Json.sorted, Json.sortedFields_eq, dumps, dumps,
      dumpsEntries_eq, dumpsEntries_eq, hplain, hsorted]
    constructor
    · show (textFields (fields.map fun field => (Key.str field.1, field.2))).map Json.obj = _
      rw [textFields_str]
      rfl
    · show (sortFields _ >>= fun ordered => (textFields ordered).map Json.obj) = _
      rw [sortFields_str]
      show (textFields _).map Json.obj = _
      rw [textFields_str]
      rfl

/-- The keys of a dictionary have an order, and in that order increasing texts. -/
def KeysStable (keys : List Key) : Prop :=
  Key.comparable keys = true ∧ ∃ texts,
    (keys.insertionSort fun a b => a.le b = true).mapM Key.text = .ok texts ∧
      texts.Pairwise (· < ·)

mutual

/-- The keys of every dictionary of the value are stable. -/
def KeysOrdered : Value → Prop
  | .list items => ItemsKeysOrdered items
  | .tuple items => ItemsKeysOrdered items
  | .dict entries => KeysStable (entries.map Prod.fst) ∧ EntriesKeysOrdered entries
  | _ => True

def ItemsKeysOrdered : List Value → Prop
  | [] => True
  | item :: rest => KeysOrdered item ∧ ItemsKeysOrdered rest

def EntriesKeysOrdered : List (Key × Value) → Prop
  | [] => True
  | (_, value) :: rest => KeysOrdered value ∧ EntriesKeysOrdered rest

end

theorem itemsKeysOrdered_iff (items : List Value) :
    ItemsKeysOrdered items ↔ ∀ item ∈ items, item.KeysOrdered := by
  induction items with
  | nil => simp [ItemsKeysOrdered]
  | cons item rest ih => simp [ItemsKeysOrdered, ih]

theorem entriesKeysOrdered_iff (entries : List (Key × Value)) :
    EntriesKeysOrdered entries ↔ ∀ entry ∈ entries, entry.2.KeysOrdered := by
  induction entries with
  | nil => simp [EntriesKeysOrdered]
  | cons entry rest ih => simp [EntriesKeysOrdered, ih]

/-- Fields under stable keys are written, once sorted, in the order of their texts. -/
theorem textFields_sortFields {fields : List (Key × α)} {texts : List (String × α)}
    (hstable : KeysStable (fields.map Prod.fst)) (htexts : textFields fields = .ok texts) :
    ∃ ordered, sortFields fields = .ok ordered ∧
      textFields ordered = .ok (sortByKey (· ≤ ·) texts) := by
  obtain ⟨hcomparable, keyTexts, hkeyTexts, hincreasing⟩ := hstable
  refine ⟨_, if_pos hcomparable, ?_⟩
  rw [textFields_eq_ok_iff] at htexts
  obtain ⟨ordered, hordered, hperm⟩ :=
    List.perm_comp_forall₂ (sortByKey_perm (fun a b => a.le b = true) fields) htexts
  have hkeys : ordered.map Prod.fst = keyTexts := by
    have hmapM : ((sortByKey (fun a b => a.le b = true) fields).map Prod.fst).mapM Key.text =
        .ok (ordered.map Prod.fst) := by
      rw [mapM_eq_ok_iff_forall₂, List.forall₂_map_left_iff, List.forall₂_map_right_iff]
      exact hordered.imp fun _ _ h => h.1
    rw [sortByKey_keys, hkeyTexts] at hmapM
    exact (Except.ok.inj hmapM).symm
  have hsorted : ((sortByKey (· ≤ ·) texts).map Prod.fst).Pairwise (· ≤ ·) := by
    rw [sortByKey_keys]
    exact List.pairwise_insertionSort _ _
  have heq : ordered = sortByKey (· ≤ ·) texts :=
    eq_of_perm_of_increasing (hperm.trans (sortByKey_perm _ texts).symm) (hkeys ▸ hincreasing) hsorted
  rw [textFields_eq_ok_iff, ← heq]
  exact hordered

theorem dumps_dict_eq_ok_iff {sortKeys : Bool} {entries : List (Key × Value)} {j : Json} :
    dumps sortKeys (.dict entries) = .ok j ↔ ∃ fields ordered texts,
      mapValuesM (dumps sortKeys) entries = .ok fields ∧ orderFields sortKeys fields = .ok ordered ∧
      textFields ordered = .ok texts ∧ j = .obj texts := by
  rw [dumps, dumpsEntries_eq, bind_eq_ok]
  simp only [bind_eq_ok, map_eq_ok]
  constructor
  · rintro ⟨fields, hfields, ordered, hordered, texts, htexts, rfl⟩
    exact ⟨fields, ordered, texts, hfields, hordered, htexts, rfl⟩
  · rintro ⟨fields, ordered, texts, hfields, hordered, htexts, rfl⟩
    exact ⟨fields, hfields, ordered, hordered, texts, htexts, rfl⟩

theorem dumpsItems_sorted {items : List Value} {js : List Json}
    (h : ∀ item ∈ items, ∀ j, dumps false item = .ok j → dumps true item = .ok j.sorted)
    (hjs : items.mapM (dumps false) = .ok js) :
    items.mapM (dumps true) = .ok (js.map Json.sorted) := by
  rw [mapM_eq_ok_iff_forall₂] at hjs ⊢
  rw [List.forall₂_map_right_iff]
  induction hjs with
  | nil => exact .nil
  | cons hxy _ ih =>
    exact .cons (h _ List.mem_cons_self _ hxy) (ih fun x hx => h x (List.mem_cons_of_mem _ hx))

/-- A value with stable keys is written with sorted keys as its document is sorted. -/
theorem dumps_sorted {value : Value} {j : Json} (hkeys : value.KeysOrdered)
    (hj : dumps false value = .ok j) : dumps true value = .ok j.sorted := by
  induction value using Value.induct generalizing j with
  | null => cases hj; rfl
  | bool b => cases hj; rfl
  | int n => cases hj; rfl
  | float f => cases hj; rfl
  | str s => cases hj; rfl
  | date text => cases hj
  | decimal d => cases hj
  | column c => cases hj
  | structType s => cases hj
  | enum value _ => cases hj
  | object typeName => cases hj
  | set items _ => cases hj
  | list items ih =>
    rw [dumps, dumpsItems_eq] at hj ⊢
    obtain ⟨js, hjs, rfl⟩ := map_eq_ok.mp hj
    rw [dumpsItems_sorted (fun item hitem j hj =>
      ih item hitem ((itemsKeysOrdered_iff items).mp hkeys item hitem) hj) hjs]
    rw [Json.sorted, Json.sortedItems_eq]
    rfl
  | tuple items ih =>
    rw [dumps, dumpsItems_eq] at hj ⊢
    obtain ⟨js, hjs, rfl⟩ := map_eq_ok.mp hj
    rw [dumpsItems_sorted (fun item hitem j hj =>
      ih item hitem ((itemsKeysOrdered_iff items).mp hkeys item hitem) hj) hjs]
    rw [Json.sorted, Json.sortedItems_eq]
    rfl
  | dict entries ih =>
    obtain ⟨hstable, hentries⟩ := hkeys
    obtain ⟨fields, ordered, texts, hfields, hordered, htexts, rfl⟩ := dumps_dict_eq_ok_iff.mp hj
    obtain rfl : fields = ordered := Except.ok.inj hordered
    -- the fields of the sorted document, in the order of the entries
    have hsortedFields : mapValuesM (dumps true) entries =
        .ok (fields.map fun field => (field.1, field.2.sorted)) := by
      have hall : ∀ entry ∈ entries, ∀ j, dumps false entry.2 = .ok j →
          dumps true entry.2 = .ok j.sorted := fun entry hentry j hj =>
        ih entry hentry ((entriesKeysOrdered_iff entries).mp hentries entry hentry) hj
      rw [mapValuesM_eq_ok_iff_forall₂] at hfields ⊢
      rw [List.forall₂_map_right_iff]
      clear hj hstable hentries hordered htexts ih
      induction hfields with
      | nil => exact .nil
      | cons hxy _ ih =>
        exact .cons ⟨hxy.1, hall _ List.mem_cons_self _ hxy.2⟩
          (ih fun e he => hall e (List.mem_cons_of_mem _ he))
    have hsortedTexts : textFields (fields.map fun field => (field.1, field.2.sorted)) =
        .ok (texts.map fun field => (field.1, field.2.sorted)) := by
      rw [textFields_eq_ok_iff] at htexts ⊢
      rw [List.forall₂_map_left_iff, List.forall₂_map_right_iff]
      exact htexts.imp fun _ _ h => ⟨h.1, congrArg Json.sorted h.2⟩
    have hkeys : (fields.map fun field => (field.1, field.2.sorted)).map Prod.fst =
        entries.map Prod.fst := by
      rw [List.map_map]
      exact keys_eq_of_mapValuesM hfields
    obtain ⟨ordered, hordered, hwritten⟩ := textFields_sortFields (hkeys ▸ hstable) hsortedTexts
    rw [Json.sorted, Json.sortedFields_eq]
    exact dumps_dict_eq_ok_iff.mpr ⟨_, ordered, _, hsortedFields, hordered, hwritten, rfl⟩

theorem mem_sortByText {items sorted : List Value} (h : sortByText items = .ok sorted) :
    ∀ item ∈ sorted, item ∈ items := by
  obtain ⟨keyed, hkeyed, hsorted⟩ := bind_eq_ok.mp h
  cases hsorted
  intro item hitem
  obtain ⟨entry, hentry, rfl⟩ := List.mem_map.mp hitem
  have hmem : entry ∈ keyed := (sortByKey_perm _ keyed).subset hentry
  obtain ⟨x, hx, hentry⟩ := exists_of_forall₂_right (mapM_eq_ok_iff_forall₂.mp hkeyed) hmem
  obtain ⟨j, -, rfl⟩ := map_eq_ok.mp hentry
  exact hx

/-- What normalization gives, it leaves as it is. -/
theorem normalize_normalized {value normal : Value} {simpleOnly simpleOnly' : Bool}
    (h : normalizeBoundArgs simpleOnly value = .ok normal) :
    normalizeBoundArgs simpleOnly' normal = .ok normal := by
  have hitems : ∀ items normals : List Value,
      (∀ item ∈ items, ∀ normal, normalizeBoundArgs simpleOnly item = .ok normal →
        normalizeBoundArgs simpleOnly' normal = .ok normal) →
      items.mapM (normalizeBoundArgs simpleOnly) = .ok normals →
      ∀ normal ∈ normals, normalizeBoundArgs simpleOnly' normal = .ok normal := by
    intro items normals hall hnormals normal hnormal
    obtain ⟨item, hitem, heq⟩ := exists_of_forall₂_right (mapM_eq_ok_iff_forall₂.mp hnormals) hnormal
    exact hall item hitem normal heq
  induction value using Value.induct generalizing normal with
  | null => cases h; rfl
  | bool b => cases h; rfl
  | int n => cases h; rfl
  | float f => cases h; rfl
  | str s => cases h; rfl
  | date text => cases h; rfl
  | decimal d => cases h; rfl
  | column c =>
    rw [normalizeBoundArgs] at h
    split at h
    · cases h
    · cases h
      rfl
  | structType s => cases h; rfl
  | enum value ih => exact ih h
  | object typeName => cases h
  | list items ih =>
    rw [normalizeBoundArgs, normalizeItems_eq] at h
    obtain ⟨normals, hnormals, rfl⟩ := map_eq_ok.mp h
    rw [normalizeBoundArgs, normalizeItems_eq,
      mapM_fixed (hitems items normals (fun i hi n hn => ih i hi hn) hnormals)]
    rfl
  | tuple items ih =>
    rw [normalizeBoundArgs, normalizeItems_eq] at h
    obtain ⟨normals, hnormals, rfl⟩ := map_eq_ok.mp h
    rw [normalizeBoundArgs, normalizeItems_eq,
      mapM_fixed (hitems items normals (fun i hi n hn => ih i hi hn) hnormals)]
    rfl
  | set items ih =>
    rw [normalizeBoundArgs, normalizeItems_eq] at h
    obtain ⟨normals, hnormals, hsorted⟩ := bind_eq_ok.mp h
    obtain ⟨sorted, hordered, rfl⟩ := map_eq_ok.mp hsorted
    have hall := hitems items normals (fun i hi n hn => ih i hi hn) hnormals
    rw [normalizeBoundArgs, normalizeItems_eq,
      mapM_fixed fun item hitem => hall item (mem_sortByText hordered item hitem)]
    rfl
  | dict entries ih =>
    rw [normalizeBoundArgs, normalizeEntries_eq] at h
    obtain ⟨normals, hnormals, rfl⟩ := map_eq_ok.mp h
    have hall : ∀ entry ∈ normals, normalizeBoundArgs simpleOnly' entry.2 = .ok entry.2 := by
      intro entry hentry
      obtain ⟨source, hsource, -, heq⟩ :=
        exists_of_forall₂_right (mapValuesM_eq_ok_iff_forall₂.mp hnormals) hentry
      exact ih source hsource heq
    rw [normalizeBoundArgs, normalizeEntries_eq, mapValuesM_fixed hall]
    rfl

/-- Where plain columns are required and found, it makes no difference that they are required. -/
theorem normalize_of_simpleOnly {value normal : Value}
    (h : normalizeBoundArgs true value = .ok normal) :
    normalizeBoundArgs false value = .ok normal := by
  induction value using Value.induct generalizing normal with
  | null => exact h
  | bool b => exact h
  | int n => exact h
  | float f => exact h
  | str s => exact h
  | date text => exact h
  | decimal d => exact h
  | column c =>
    rw [normalizeBoundArgs] at h
    split at h
    · cases h
    · exact h
  | structType s => exact h
  | enum value ih => exact ih h
  | object typeName => exact h
  | list items ih =>
    rw [normalizeBoundArgs, normalizeItems_eq] at h ⊢
    obtain ⟨normals, hnormals, rfl⟩ := map_eq_ok.mp h
    rw [mapM_mono (fun i hi n hn => ih i hi hn) hnormals]
    rfl
  | tuple items ih =>
    rw [normalizeBoundArgs, normalizeItems_eq] at h ⊢
    obtain ⟨normals, hnormals, rfl⟩ := map_eq_ok.mp h
    rw [mapM_mono (fun i hi n hn => ih i hi hn) hnormals]
    rfl
  | set items ih =>
    rw [normalizeBoundArgs, normalizeItems_eq] at h ⊢
    obtain ⟨normals, hnormals, hsorted⟩ := bind_eq_ok.mp h
    rw [mapM_mono (fun i hi n hn => ih i hi hn) hnormals]
    exact hsorted
  | dict entries ih =>
    rw [normalizeBoundArgs, normalizeEntries_eq] at h ⊢
    obtain ⟨normals, hnormals, rfl⟩ := map_eq_ok.mp h
    rw [mapValuesM_mono (fun e he n hn => ih e he hn) hnormals]
    rfl

/-- `value` is stored, and read back as `value'`. -/
def ReadBack (value value' : Value) : Prop :=
  ∃ normal j, normalizeBoundArgs true value = .ok normal ∧ dumps false normal = .ok j ∧
    denormalizeValue j.loads = .ok value'

/-- A value whose stored form keeps its fingerprint. -/
def Survives (value : Value) : Prop :=
  ∃ normal j, normalizeBoundArgs true value = .ok normal ∧ normal.KeysOrdered ∧
    dumps false normal = .ok j ∧ j.MarkersCanonical

theorem ReadBack.unique {value a b : Value} (ha : ReadBack value a) (hb : ReadBack value b) :
    a = b := by
  obtain ⟨normal, j, hnormal, hj, ha⟩ := ha
  obtain ⟨normal', j', hnormal', hj', hb⟩ := hb
  obtain rfl : normal = normal' := Except.ok.inj (hnormal.symm.trans hnormal')
  obtain rfl : j = j' := Except.ok.inj (hj.symm.trans hj')
  exact Except.ok.inj (ha.symm.trans hb)

theorem readBack_str (s : String) : ReadBack (.str s) (.str s) :=
  ⟨.str s, .str s, rfl, rfl, rfl⟩

theorem survives_str (s : String) : Survives (.str s) :=
  ⟨.str s, .str s, rfl, trivial, rfl, trivial⟩

theorem Survives.readBack {value : Value} (h : Survives value) : ∃ value', ReadBack value value' := by
  obtain ⟨normal, j, hnormal, -, hj, hmarkers⟩ := h
  obtain ⟨value', hvalue', -⟩ := Json.denormalize_loads hmarkers
  exact ⟨value', normal, j, hnormal, hj, hvalue'⟩

/-- The value and what is read back for it have normal forms that are written alike. -/
theorem Survives.dumps_eq {value value' : Value} (h : Survives value)
    (hread : ReadBack value value') :
    ∃ normal normal' canonical, normalizeBoundArgs false value = .ok normal ∧
      normalizeBoundArgs false value' = .ok normal' ∧ dumps true normal = .ok canonical ∧
      dumps true normal' = .ok canonical := by
  obtain ⟨normal, j, hnormal, hkeys, hj, hmarkers⟩ := h
  obtain ⟨value'', hvalue'', hback⟩ := Json.denormalize_loads hmarkers
  obtain rfl := hread.unique ⟨normal, j, hnormal, hj, hvalue''⟩
  exact ⟨normal, j.loads, j.sorted, normalize_of_simpleOnly hnormal, hback false,
    dumps_sorted hkeys hj, (dumps_loads j).2⟩

theorem readBack_decimal (d : Decimal) : ReadBack (.decimal d) (.decimal d) := by
  refine ⟨decimalMarker d, .obj [("__decimal__", .str (String.ofList d.text))], rfl, rfl, ?_⟩
  show (toDecimal (.str (String.ofList d.text))).map decimal = _
  rw [Json.toDecimal_text]
  rfl

/-- Every decimal survives, whatever its exponent and sign. -/
theorem survives_decimal (d : Decimal) : Survives (.decimal d) := by
  refine ⟨decimalMarker d, .obj [("__decimal__", .str (String.ofList d.text))], rfl, ?_, rfl, ?_⟩
  · exact ⟨⟨rfl, ["__decimal__"], rfl, List.pairwise_singleton _ _⟩, trivial, trivial⟩
  · refine ⟨fun item hitem => ⟨d, ?_⟩, trivial, trivial⟩
    have hfields := Json.eq_of_markedItem hitem
    simpa using hfields.symm

/-- A list is read back item by item. -/
theorem ReadBack.list {items : List Value} {value' : Value} (h : ReadBack (.list items) value') :
    ∃ items', value' = .list items' ∧ List.Forall₂ ReadBack items items' := by
  obtain ⟨normal, j, hnormal, hj, hread⟩ := h
  rw [normalizeBoundArgs, normalizeItems_eq] at hnormal
  obtain ⟨normals, hnormals, rfl⟩ := map_eq_ok.mp hnormal
  rw [dumps, dumpsItems_eq] at hj
  obtain ⟨js, hjs, rfl⟩ := map_eq_ok.mp hj
  rw [Json.loads, Json.loadsItems_eq, denormalizeValue, denormalizeItems_eq] at hread
  obtain ⟨items', hitems', rfl⟩ := map_eq_ok.mp hread
  refine ⟨items', rfl, ?_⟩
  clear hnormal hj hread
  induction items generalizing normals js items' with
  | nil =>
    cases hnormals
    cases hjs
    cases hitems'
    exact .nil
  | cons item items ih =>
    obtain ⟨n, ns, hn, hns, rfl⟩ := mapM_cons_eq_ok.mp hnormals
    obtain ⟨j, js', hj, hjs', rfl⟩ := mapM_cons_eq_ok.mp hjs
    obtain ⟨v, vs, hv, hvs, rfl⟩ := mapM_cons_eq_ok.mp hitems'
    exact .cons ⟨n, j, hn, hj, hv⟩ (ih ns hns js' hjs' vs hvs)

/-- What is read back can be normalized, whatever its markers hold. -/
theorem normalize_denormalized {j : Json} {value : Value}
    (h : denormalizeValue j.loads = .ok value) (simpleOnly : Bool) :
    ∃ normal, normalizeBoundArgs simpleOnly value = .ok normal := by
  induction j using Json.induct generalizing value with
  | null => cases h; exact ⟨_, rfl⟩
  | bool b => cases h; exact ⟨_, rfl⟩
  | int n => cases h; exact ⟨_, rfl⟩
  | float f => cases h; exact ⟨_, rfl⟩
  | str s => cases h; exact ⟨_, rfl⟩
  | arr items ih =>
    rw [Json.loads, Json.loadsItems_eq, denormalizeValue, denormalizeItems_eq] at h
    obtain ⟨values, hvalues, rfl⟩ := map_eq_ok.mp h
    rw [mapM_eq_ok_iff_forall₂, List.forall₂_map_left_iff] at hvalues
    obtain ⟨normals, hnormals⟩ : ∃ normals, values.mapM (normalizeBoundArgs simpleOnly) =
        .ok normals := by
      apply mapM_ok_of_forall
      intro value hvalue
      obtain ⟨item, hitem, hread⟩ := exists_of_forall₂_right hvalues hvalue
      exact ih item hitem hread
    rw [normalizeBoundArgs, normalizeItems_eq, hnormals]
    exact ⟨_, rfl⟩
  | obj fields ih =>
    rw [Json.loads, Json.loadsFields_eq, denormalizeValue] at h
    split at h
    · obtain ⟨d, -, rfl⟩ := map_eq_ok.mp h
      exact ⟨_, rfl⟩
    · rw [denormalizeEntries_eq] at h
      obtain ⟨entries, hentries, rfl⟩ := map_eq_ok.mp h
      rw [mapValuesM_eq_ok_iff_forall₂, List.forall₂_map_left_iff] at hentries
      obtain ⟨normals, hnormals⟩ : ∃ normals, mapValuesM (normalizeBoundArgs simpleOnly) entries =
          .ok normals := by
        apply mapM_ok_of_forall
        intro entry hentry
        obtain ⟨field, hfield, -, hread⟩ := exists_of_forall₂_right hentries hentry
        obtain ⟨normal, hnormal⟩ := ih field hfield hread
        exact ⟨(entry.1, normal), map_eq_ok.mpr ⟨normal, hnormal, rfl⟩⟩
      rw [normalizeBoundArgs, normalizeEntries_eq, hnormals]
      exact ⟨_, rfl⟩

end Value

end Dqx.Checks
