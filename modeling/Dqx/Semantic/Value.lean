import Mathlib.Data.Rat.Defs
import Mathlib.Algebra.Order.Field.Rat
import Dqx.Checks.Value

/-! The values of a rule dictionary, and the three ways in which two of them are compared: Python's
equality, the text that JSON has for them, and the hashable form of a part of a key. -/

namespace Dqx.Semantic

open Lib Checks

/-- A value of a rule dictionary: what YAML and JSON files hold, and the tuples and decimals of rules
that are defined in Python. -/
inductive PyValue where
  | null
  | bool (b : Bool)
  | int (n : Int)
  | float (f : PyFloat)
  | decimal (d : Decimal)
  | str (s : String)
  | date (text : String)
  | list (items : List PyValue)
  | tuple (items : List PyValue)
  | dict (entries : List (Key × PyValue))
  deriving Inhabited

inductive Number where
  | finite (value : ℚ)
  | infinity (negative : Bool)
  deriving DecidableEq

/-- What a number is equal to; a NaN is equal to nothing. -/
def Number.ofDecimal : Decimal → Option Number
  | .finite negative coefficient exponent =>
    some (.finite ((if negative then -1 else 1) * coefficient * 10 ^ exponent))
  | .infinity negative => some (.infinity negative)
  | .nan _ _ _ => none

def Number.ofInt (n : Int) : Number := .finite n

/-- A value without parts, as equality sees it. -/
inductive Atom where
  | null
  | number (n : Number)
  | str (s : String)
  | date (text : String)
  deriving DecidableEq

def keyAtom : Key → Atom
  | .str s => .str s
  | .int n => .number (.ofInt n)
  | .bool b => .number (.ofInt b.toInt)
  | .null => .null
  | .other text => .date text

/-- `dict.get(key)` -/
def find {α : Type} (key : Key) (entries : List (Key × α)) : Option α :=
  (entries.find? fun entry => keyAtom entry.1 = keyAtom key).map (·.2)

namespace PyValue

def atom : PyValue → Option Atom
  | .null => some .null
  | .bool b => some (.number (.ofInt b.toInt))
  | .int n => some (.number (.ofInt n))
  | .float f => (Number.ofDecimal f.exact).map .number
  | .decimal d => (Number.ofDecimal d).map .number
  | .str s => some (.str s)
  | .date text => some (.date text)
  | .list _ | .tuple _ | .dict _ => none

/-- Equality of values without parts. -/
def eqAtom (a b : PyValue) : Bool :=
  match a.atom, b.atom with
  | some x, some y => x = y
  | _, _ => false

mutual

/-- `a == b` -/
def eq : PyValue → PyValue → Bool
  | .list items, .list items' => eqItems items items'
  | .tuple items, .tuple items' => eqItems items items'
  | .dict entries, .dict entries' =>
    entries.length = entries'.length && eqEntries entries entries'
  | a, b => eqAtom a b

def eqItems : List PyValue → List PyValue → Bool
  | [], [] => true
  | a :: items, b :: items' => eq a b && eqItems items items'
  | _, _ => false

/-- Whether each key of a dictionary has an equal value in another one. -/
def eqEntries : List (Key × PyValue) → List (Key × PyValue) → Bool
  | [], _ => true
  | (key, value) :: entries, entries' =>
    (match find key entries' with
      | some value' => eq value value'
      | none => false) && eqEntries entries entries'

end

/-- `bool(value)` -/
def truthy : PyValue → Bool
  | .null => false
  | .bool b => b
  | .str s => s ≠ ""
  | .date _ => true
  | .list items | .tuple items => !items.isEmpty
  | .dict entries => !entries.isEmpty
  | value => value.atom ≠ some (.number (.ofInt 0))

mutual

/-- Whether a value can be a key. -/
def hashable : PyValue → Bool
  | .list _ | .dict _ => false
  | .tuple items => hashableItems items
  | _ => true

def hashableItems : List PyValue → Bool
  | [] => true
  | item :: items => hashable item && hashableItems items

end

mutual

/-- `json.dumps(value, sort_keys=True, default=str)` -/
def dumps : PyValue → Except CheckError Json
  | .null => .ok .null
  | .bool b => .ok (.bool b)
  | .int n => .ok (.int n)
  | .float f => .ok (.float f)
  | .decimal d => .ok (.str (String.ofList d.text))
  | .str s => .ok (.str s)
  | .date text => .ok (.str text)
  | .list items => (dumpsItems items).map .arr
  | .tuple items => (dumpsItems items).map .arr
  | .dict entries => do
    let fields ← dumpsEntries entries
    let ordered ← Value.sortFields fields
    (Value.textFields ordered).map .obj

def dumpsItems : List PyValue → Except CheckError (List Json)
  | [] => .ok []
  | item :: items => do
    let json ← dumps item
    (dumpsItems items).map (json :: ·)

def dumpsEntries : List (Key × PyValue) → Except CheckError (List (Key × Json))
  | [] => .ok []
  | (key, value) :: entries => do
    let json ← dumps value
    (dumpsEntries entries).map ((key, json) :: ·)

end

/-- The text of a value in JSON. -/
def jsonText (value : PyValue) : Except CheckError String :=
  value.dumps.map Json.text

/-- `str(key)` -/
def keyText : Key → String
  | .str s => s
  | .int n => toString n
  | .bool b => if b then "True" else "False"
  | .null => "None"
  | .other text => text

mutual

/-- `_make_hashable` -/
def makeHashable : PyValue → PyValue
  | .list items | .tuple items => .tuple (makeHashableItems items)
  | .dict entries =>
    .tuple ((sortByKey (· ≤ ·) (makeHashableEntries entries)).map fun (key, value) =>
      .tuple [.str key, value])
  | value => value

def makeHashableItems : List PyValue → List PyValue
  | [] => []
  | item :: items => makeHashable item :: makeHashableItems items

def makeHashableEntries : List (Key × PyValue) → List (String × PyValue)
  | [] => []
  | (key, value) :: entries => (keyText key, makeHashable value) :: makeHashableEntries entries

end

/-- Induction on a value: what holds of the parts of a collection holds of it. -/
@[elab_as_elim]
theorem induct {motive : PyValue → Prop} (null : motive .null) (bool : ∀ b, motive (.bool b))
    (int : ∀ n, motive (.int n)) (float : ∀ f, motive (.float f))
    (decimal : ∀ d, motive (.decimal d)) (str : ∀ s, motive (.str s))
    (date : ∀ text, motive (.date text))
    (list : ∀ items, (∀ item ∈ items, motive item) → motive (.list items))
    (tuple : ∀ items, (∀ item ∈ items, motive item) → motive (.tuple items))
    (dict : ∀ entries, (∀ entry ∈ entries, motive entry.2) → motive (.dict entries)) :
    ∀ value, motive value :=
  @PyValue.rec motive (fun items => ∀ item ∈ items, motive item)
    (fun entries => ∀ entry ∈ entries, motive entry.2) (fun entry => motive entry.2)
    null bool int float decimal str date list tuple dict
    (by simp) (fun _ _ hitem hrest => List.forall_mem_cons.mpr ⟨hitem, hrest⟩) (by simp)
    (fun _ _ hentry hrest => List.forall_mem_cons.mpr ⟨hentry, hrest⟩) (fun _ _ h => h)

mutual

/-- No dictionary in a value has two equal keys. -/
def DistinctKeys : PyValue → Prop
  | .list items | .tuple items => DistinctItems items
  | .dict entries => (entries.map fun entry => keyAtom entry.1).Nodup ∧ DistinctEntries entries
  | _ => True

def DistinctItems : List PyValue → Prop
  | [] => True
  | item :: items => DistinctKeys item ∧ DistinctItems items

def DistinctEntries : List (Key × PyValue) → Prop
  | [] => True
  | (_, value) :: entries => DistinctKeys value ∧ DistinctEntries entries

end

@[simp] theorem distinctItems_iff {items : List PyValue} :
    DistinctItems items ↔ ∀ item ∈ items, DistinctKeys item := by
  induction items with
  | nil => simp [DistinctItems]
  | cons item items ih => simp [DistinctItems, ih]

@[simp] theorem distinctEntries_iff {entries : List (Key × PyValue)} :
    DistinctEntries entries ↔ ∀ entry ∈ entries, DistinctKeys entry.2 := by
  induction entries with
  | nil => simp [DistinctEntries]
  | cons entry entries ih => simp [DistinctEntries, ih]

@[simp] theorem eqItems_iff {items items' : List PyValue} :
    eqItems items items' = true ↔ List.Forall₂ (fun a b => eq a b = true) items items' := by
  induction items generalizing items' with
  | nil => cases items' <;> simp [eqItems]
  | cons item items ih => cases items' <;> simp [eqItems, ih]

@[simp] theorem eqEntries_iff {entries entries' : List (Key × PyValue)} :
    eqEntries entries entries' = true ↔
      ∀ entry ∈ entries, ∃ value ∈ find entry.1 entries', eq entry.2 value = true := by
  induction entries with
  | nil => simp [eqEntries]
  | cons entry entries ih =>
    obtain ⟨key, value⟩ := entry
    rw [eqEntries, Bool.and_eq_true, ih, List.forall_mem_cons]
    cases find key entries' <;> simp

theorem eq_list_iff {items : List PyValue} {b : PyValue} : eq (.list items) b = true ↔
    ∃ items', b = .list items' ∧ List.Forall₂ (fun a b => eq a b = true) items items' := by
  cases b <;> simp [eq, eqAtom, atom]

theorem eq_tuple_iff {items : List PyValue} {b : PyValue} : eq (.tuple items) b = true ↔
    ∃ items', b = .tuple items' ∧ List.Forall₂ (fun a b => eq a b = true) items items' := by
  cases b <;> simp [eq, eqAtom, atom]

theorem eq_dict_iff {entries : List (Key × PyValue)} {b : PyValue} : eq (.dict entries) b = true ↔
    ∃ entries', b = .dict entries' ∧ entries.length = entries'.length ∧
      ∀ entry ∈ entries, ∃ value ∈ find entry.1 entries', eq entry.2 value = true := by
  cases b <;> simp [eq, eqAtom, atom]

theorem eq_atom_iff {a b : PyValue} {x : Atom} (h : a.atom = some x) :
    eq a b = true ↔ b.atom = some x := by
  have heq : eq a b = eqAtom a b := by
    cases a with
    | list | tuple | dict => cases h
    | _ => cases b <;> rfl
  rw [heq, eqAtom, h]
  cases b.atom <;> simp [eq_comm]

/-- A value with parts is not equal to one without. -/
theorem atom_of_eq {a b : PyValue} (hflat : ∀ c, eq a c = eqAtom a c) (h : eq a b = true) :
    ∃ x, a.atom = some x ∧ b.atom = some x := by
  rw [hflat, eqAtom] at h
  cases ha : a.atom <;> cases hb : b.atom <;> simp_all

theorem find_eq_some {α : Type} {key : Key} {entries : List (Key × α)} {value : α}
    (h : find key entries = some value) :
    ∃ key', (key', value) ∈ entries ∧ keyAtom key' = keyAtom key := by
  obtain ⟨⟨key', value'⟩, hfind, rfl⟩ := Option.map_eq_some_iff.mp h
  exact ⟨key', List.mem_of_find?_eq_some hfind, by simpa using List.find?_some hfind⟩

theorem find_congr {α : Type} {key key' : Key} (h : keyAtom key = keyAtom key')
    (entries : List (Key × α)) : find key entries = find key' entries := by
  rw [find, h, find]

/-- A dictionary without equal keys has each of its entries. -/
theorem find_of_mem {α : Type} {entries : List (Key × α)} {entry : Key × α} {key : Key}
    (hnodup : (entries.map fun entry => keyAtom entry.1).Nodup) (h : entry ∈ entries)
    (hkey : keyAtom entry.1 = keyAtom key) : find key entries = some entry.2 := by
  induction entries with
  | nil => cases h
  | cons first entries ih =>
    rw [List.map_cons, List.nodup_cons] at hnodup
    rw [find, List.find?_cons]
    rcases List.mem_cons.mp h with rfl | hmem
    · simp [hkey]
    · have hne : keyAtom first.1 ≠ keyAtom key := fun heq =>
        hnodup.1 (List.mem_map.mpr ⟨entry, hmem, hkey.trans heq.symm⟩)
      rw [decide_eq_false hne]
      exact ih hnodup.2 hmem

theorem eq_trans_of_flat {a b c : PyValue} (hflat : ∀ c, eq a c = eqAtom a c)
    (hab : eq a b = true) (hbc : eq b c = true) : eq a c = true := by
  obtain ⟨x, ha, hb⟩ := atom_of_eq hflat hab
  exact (eq_atom_iff ha).mpr ((eq_atom_iff hb).mp hbc)

theorem eq_symm_of_flat {a b : PyValue} (hflat : ∀ c, eq a c = eqAtom a c) (h : eq a b = true) :
    eq b a = true := by
  obtain ⟨x, ha, hb⟩ := atom_of_eq hflat h
  exact (eq_atom_iff hb).mpr ha

theorem eqItems_trans {items items' items'' : List PyValue}
    (ih : ∀ item ∈ items, ∀ {b c}, eq item b = true → eq b c = true → eq item c = true)
    (h : List.Forall₂ (fun a b => eq a b = true) items items')
    (h' : List.Forall₂ (fun a b => eq a b = true) items' items'') :
    List.Forall₂ (fun a b => eq a b = true) items items'' := by
  induction h generalizing items'' with
  | nil => exact h'
  | cons hfirst _ ihrest =>
    cases h' with
    | cons hfirst' hrest' =>
      exact .cons (ih _ List.mem_cons_self hfirst hfirst')
        (ihrest (fun item hitem => ih item (List.mem_cons_of_mem _ hitem)) hrest')

theorem eqItems_symm {items items' : List PyValue}
    (ih : ∀ item ∈ items, ∀ {b}, item.DistinctKeys → b.DistinctKeys → eq item b = true →
      eq b item = true)
    (hitems : ∀ item ∈ items, item.DistinctKeys) (hitems' : ∀ item ∈ items', item.DistinctKeys)
    (h : List.Forall₂ (fun a b => eq a b = true) items items') :
    List.Forall₂ (fun a b => eq a b = true) items' items := by
  induction h with
  | nil => exact .nil
  | cons hfirst _ ihrest =>
    rw [List.forall_mem_cons] at hitems hitems'
    exact .cons (ih _ List.mem_cons_self hitems.1 hitems'.1 hfirst)
      (ihrest (fun item hitem => ih item (List.mem_cons_of_mem _ hitem)) hitems.2 hitems'.2)

theorem eq_trans {a b c : PyValue} (hab : eq a b = true) (hbc : eq b c = true) :
    eq a c = true := by
  induction a using induct generalizing b c with
  | list items ih =>
    obtain ⟨items', rfl, h⟩ := eq_list_iff.mp hab
    obtain ⟨items'', rfl, h'⟩ := eq_list_iff.mp hbc
    exact eq_list_iff.mpr ⟨items'', rfl, eqItems_trans ih h h'⟩
  | tuple items ih =>
    obtain ⟨items', rfl, h⟩ := eq_tuple_iff.mp hab
    obtain ⟨items'', rfl, h'⟩ := eq_tuple_iff.mp hbc
    exact eq_tuple_iff.mpr ⟨items'', rfl, eqItems_trans ih h h'⟩
  | dict entries ih =>
    obtain ⟨entries', rfl, hlength, h⟩ := eq_dict_iff.mp hab
    obtain ⟨entries'', rfl, hlength', h'⟩ := eq_dict_iff.mp hbc
    refine eq_dict_iff.mpr ⟨entries'', rfl, hlength.trans hlength', fun entry hentry => ?_⟩
    obtain ⟨value, hvalue, heq⟩ := h entry hentry
    obtain ⟨key, hmem, hkey⟩ := find_eq_some hvalue
    obtain ⟨value', hvalue', heq'⟩ := h' _ hmem
    exact ⟨value', find_congr hkey entries'' ▸ hvalue', ih entry hentry heq heq'⟩
  | _ => exact eq_trans_of_flat (fun c => by cases c <;> rfl) hab hbc

/-- A dictionary has all keys of an equal one: as many different keys, each of them one of its own,
are all that it has. -/
theorem exists_key_of_length_eq {entries entries' : List (Key × PyValue)}
    (hdistinct : (entries.map fun entry => keyAtom entry.1).Nodup)
    (hlength : entries.length = entries'.length)
    (h : ∀ entry ∈ entries, ∃ value ∈ find entry.1 entries', eq entry.2 value = true)
    {entry' : Key × PyValue} (hentry' : entry' ∈ entries') :
    ∃ entry ∈ entries, keyAtom entry.1 = keyAtom entry'.1 := by
  have hsubset : (entries.map fun entry => keyAtom entry.1) ⊆
      entries'.map fun entry => keyAtom entry.1 := by
    intro x hx
    obtain ⟨entry, hentry, rfl⟩ := List.mem_map.mp hx
    obtain ⟨value, hvalue, -⟩ := h entry hentry
    obtain ⟨key, hmem, hkey⟩ := find_eq_some hvalue
    exact List.mem_map.mpr ⟨_, hmem, hkey⟩
  have hperm := (List.subperm_of_subset hdistinct hsubset).perm_of_length_le (by simp [hlength])
  exact List.mem_map.mp (hperm.mem_iff.mpr (List.mem_map.mpr ⟨entry', hentry', rfl⟩))

theorem eq_symm {a b : PyValue} (ha : a.DistinctKeys) (hb : b.DistinctKeys) (h : eq a b = true) :
    eq b a = true := by
  induction a using induct generalizing b with
  | list items ih =>
    obtain ⟨items', rfl, hall⟩ := eq_list_iff.mp h
    simp only [DistinctKeys, distinctItems_iff] at ha hb
    exact eq_list_iff.mpr ⟨items, rfl, eqItems_symm ih ha hb hall⟩
  | tuple items ih =>
    obtain ⟨items', rfl, hall⟩ := eq_tuple_iff.mp h
    simp only [DistinctKeys, distinctItems_iff] at ha hb
    exact eq_tuple_iff.mpr ⟨items, rfl, eqItems_symm ih ha hb hall⟩
  | dict entries ih =>
    obtain ⟨entries', rfl, hlength, hall⟩ := eq_dict_iff.mp h
    simp only [DistinctKeys, distinctEntries_iff] at ha hb
    refine eq_dict_iff.mpr ⟨entries, rfl, hlength.symm, fun entry' hentry' => ?_⟩
    obtain ⟨entry, hentry, hkey⟩ := exists_key_of_length_eq ha.1 hlength hall hentry'
    obtain ⟨value, hvalue, heq⟩ := hall entry hentry
    have hsame : value = entry'.2 :=
      Option.some.inj (hvalue.symm.trans (find_of_mem hb.1 hentry' hkey.symm))
    subst hsame
    exact ⟨entry.2, find_of_mem ha.1 hentry hkey,
      ih entry hentry (ha.2 entry hentry) (hb.2 entry' hentry') heq⟩
  | _ => exact eq_symm_of_flat (fun c => by cases c <;> rfl) h

end PyValue

end Dqx.Semantic
