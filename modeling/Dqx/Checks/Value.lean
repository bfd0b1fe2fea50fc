import Dqx.Lib.Decimal
import Dqx.Lib.Traverse
import Mathlib.Data.String.Basic

/-! The values of check definitions, and the three conversions they pass through when a definition
is stored: `normalize_bound_args`, `json.dumps` and `denormalize_value`. A text that `json.dumps`
writes stands as the document it says, so `json.loads` undoes it by construction. -/

namespace Dqx.Checks

open Lib

inductive CheckError where
  | typeError
  | invalidOperation
  | invalidParameter
  | invalidCheck
  | assertion
  | unsafeSqlQuery
  | notFound
  deriving DecidableEq, Repr

/-- A float: what `json.dumps` writes for it, and its exact decimal value. -/
structure PyFloat where
  text : String
  exact : Decimal
  deriving DecidableEq

/-- A column expression: the name or alias found in it, and whether a plain reference is all it
is (an alias counts as plain). -/
structure ColumnExpr where
  name : String
  simple : Bool
  deriving DecidableEq

/-- A key of a dictionary. `other` is any key that `json.dumps` refuses, such as a date. -/
inductive Key where
  | str (s : String)
  | int (n : Int)
  | bool (b : Bool)
  | null
  | other (text : String)
  deriving DecidableEq

/-- `date` is a date or datetime by its text, `object` a value of any other type. -/
inductive Value where
  | null
  | bool (b : Bool)
  | int (n : Int)
  | float (f : PyFloat)
  | str (s : String)
  | date (text : String)
  | decimal (d : Decimal)
  | column (c : ColumnExpr)
  | structType (simpleString : String)
  | enum (value : Value)
  | object (typeName : String)
  | list (items : List Value)
  | tuple (items : List Value)
  | set (items : List Value)
  | dict (entries : List (Key × Value))
  deriving Inhabited

/-- A document as `json.dumps` writes it: the fields of an object in the order written. -/
inductive Json where
  | null
  | bool (b : Bool)
  | int (n : Int)
  | float (f : PyFloat)
  | str (s : String)
  | arr (items : List Json)
  | obj (fields : List (String × Json))

namespace Json

def hexDigits (width n : Nat) : List Char :=
  let digits := Nat.toDigits 16 n
  List.replicate (width - digits.length) '0' ++ digits

/-- Characters outside printable ASCII are written as UTF-16 code units. -/
def escape (c : Char) : List Char :=
  if c = '"' then ['\\', '"']
  else if c = '\\' then ['\\', '\\']
  else if c = '\n' then ['\\', 'n']
  else if c = '\r' then ['\\', 'r']
  else if c = '\t' then ['\\', 't']
  else if c.toNat = 8 then ['\\', 'b']
  else if c.toNat = 12 then ['\\', 'f']
  else if 32 ≤ c.toNat ∧ c.toNat ≤ 126 then [c]
  else if c.toNat < 0x10000 then '\\' :: 'u' :: hexDigits 4 c.toNat
  else
    let rest := c.toNat - 0x10000
    '\\' :: 'u' :: hexDigits 4 (0xd800 + rest / 0x400) ++
      '\\' :: 'u' :: hexDigits 4 (0xdc00 + rest % 0x400)

def quote (s : String) : List Char := '"' :: (s.toList.flatMap escape ++ ['"'])

mutual

def write : Json → List Char
  | .null => ['n', 'u', 'l', 'l']
  | .bool true => ['t', 'r', 'u', 'e']
  | .bool false => ['f', 'a', 'l', 's', 'e']
  | .int n => (toString n).toList
  | .float f => f.text.toList
  | .str s => quote s
  | .arr items => '[' :: (writeItems items ++ [']'])
  | .obj fields => '{' :: (writeFields fields ++ ['}'])

def writeItems : List Json → List Char
  | [] => []
  | [item] => write item
  | item :: rest => write item ++ ',' :: ' ' :: writeItems rest

def writeFields : List (String × Json) → List Char
  | [] => []
  | [(key, item)] => quote key ++ ':' :: ' ' :: write item
  | (key, item) :: rest => quote key ++ ':' :: ' ' :: write item ++ ',' :: ' ' :: writeFields rest

end

/-- The text of a document. -/
def text (j : Json) : String := String.ofList j.write

mutual

/-- `json.loads`, on the text of a document. -/
def loads : Json → Value
  | .null => .null
  | .bool b => .bool b
  | .int n => .int n
  | .float f => .float f
  | .str s => .str s
  | .arr items => .list (loadsItems items)
  | .obj fields => .dict (loadsFields fields)

def loadsItems : List Json → List Value
  | [] => []
  | item :: rest => loads item :: loadsItems rest

def loadsFields : List (String × Json) → List (Key × Value)
  | [] => []
  | (key, item) :: rest => (.str key, loads item) :: loadsFields rest

end

mutual

/-- The same document with the fields of every object sorted by their keys. -/
def sorted : Json → Json
  | .arr items => .arr (sortedItems items)
  | .obj fields => .obj (sortByKey (· ≤ ·) (sortedFields fields))
  | j => j

def sortedItems : List Json → List Json
  | [] => []
  | item :: rest => sorted item :: sortedItems rest

def sortedFields : List (String × Json) → List (String × Json)
  | [] => []
  | (key, item) :: rest => (key, sorted item) :: sortedFields rest

end

/-- Induction on a document: what holds of the parts of an array or object holds of it. -/
@[elab_as_elim]
theorem induct {motive : Json → Prop} (null : motive .null) (bool : ∀ b, motive (.bool b))
    (int : ∀ n, motive (.int n)) (float : ∀ f, motive (.float f)) (str : ∀ s, motive (.str s))
    (arr : ∀ items, (∀ item ∈ items, motive item) → motive (.arr items))
    (obj : ∀ fields, (∀ field ∈ fields, motive field.2) → motive (.obj fields)) :
    ∀ j, motive j :=
  @Json.rec motive (fun items => ∀ item ∈ items, motive item)
    (fun fields => ∀ field ∈ fields, motive field.2) (fun field => motive field.2)
    null bool int float str arr obj (by simp)
    (fun _ _ hitem hrest => List.forall_mem_cons.mpr ⟨hitem, hrest⟩) (by simp)
    (fun _ _ hfield hrest => List.forall_mem_cons.mpr ⟨hfield, hrest⟩) (fun _ _ h => h)

@[simp] theorem loadsItems_eq (items : List Json) : loadsItems items = items.map loads := by
  induction items with
  | nil => rfl
  | cons item rest ih => rw [loadsItems, ih, List.map_cons]

@[simp] theorem loadsFields_eq (fields : List (String × Json)) :
    loadsFields fields = fields.map fun field => (Key.str field.1, field.2.loads) := by
  induction fields with
  | nil => rfl
  | cons field rest ih => rw [loadsFields, ih, List.map_cons]

@[simp] theorem sortedItems_eq (items : List Json) : sortedItems items = items.map sorted := by
  induction items with
  | nil => rfl
  | cons item rest ih => rw [sortedItems, ih, List.map_cons]

@[simp] theorem sortedFields_eq (fields : List (String × Json)) :
    sortedFields fields = fields.map fun field => (field.1, field.2.sorted) := by
  induction fields with
  | nil => rfl
  | cons field rest ih => rw [sortedFields, ih, List.map_cons]

end Json

namespace Key

/-- The text under which `json.dumps` writes a key. -/
def text : Key → Except CheckError String
  | .str s => .ok s
  | .int n => .ok (toString n)
  | .bool b => .ok (if b then "true" else "false")
  | .null => .ok "null"
  | .other _ => .error .typeError

def isStr : Key → Bool
  | .str _ => true
  | _ => false

def isNumber : Key → Bool
  | .int _ => true
  | .bool _ => true
  | _ => false

def number : Key → Int
  | .int n => n
  | .bool b => if b then 1 else 0
  | _ => 0

def le : Key → Key → Bool
  | .str s, .str t => s ≤ t
  | a, b => a.number ≤ b.number

/-- Whether `sorted` finds an order for the keys. -/
def comparable (keys : List Key) : Bool :=
  keys.all isStr || keys.all isNumber || keys.length ≤ 1

end Key

namespace Value

variable {α : Type}

def sortFields (fields : List (Key × α)) : Except CheckError (List (Key × α)) :=
  if Key.comparable (fields.map Prod.fst) then .ok (sortByKey (fun a b => a.le b = true) fields)
  else .error .typeError

/-- The order in which the fields of a dictionary are written. -/
def orderFields (sortKeys : Bool) (fields : List (Key × α)) : Except CheckError (List (Key × α)) :=
  if sortKeys then sortFields fields else .ok fields

def textFields (fields : List (Key × α)) : Except CheckError (List (String × α)) :=
  fields.mapM fun (key, value) => (key.text).map fun text => (text, value)

mutual

/-- `json.dumps`, with or without `sort_keys`. The values it is given have been normalized, so the
hook for other types plays no part. -/
def dumps (sortKeys : Bool) : Value → Except CheckError Json
  | .null => .ok .null
  | .bool b => .ok (.bool b)
  | .int n => .ok (.int n)
  | .float f => .ok (.float f)
  | .str s => .ok (.str s)
  | .list items => (dumpsItems sortKeys items).map .arr
  | .tuple items => (dumpsItems sortKeys items).map .arr
  | .dict entries => do
    let fields ← dumpsEntries sortKeys entries
    let ordered ← orderFields sortKeys fields
    (textFields ordered).map .obj
  | _ => .error .typeError

def dumpsItems (sortKeys : Bool) : List Value → Except CheckError (List Json)
  | [] => .ok []
  | item :: rest => do
    let j ← dumps sortKeys item
    (dumpsItems sortKeys rest).map (j :: ·)

def dumpsEntries (sortKeys : Bool) : List (Key × Value) → Except CheckError (List (Key × Json))
  | [] => .ok []
  | (key, value) :: rest => do
    let j ← dumps sortKeys value
    (dumpsEntries sortKeys rest).map ((key, j) :: ·)

end

/-- The order in which the members of a set are listed. -/
def sortByText (items : List Value) : Except CheckError (List Value) := do
  let keyed ← items.mapM fun item => (dumps true item).map fun j => (j.text, item)
  .ok ((sortByKey (· ≤ ·) keyed).map Prod.snd)

def decimalMarker (d : Decimal) : Value :=
  .dict [(.str "__decimal__", .str (String.ofList d.text))]

mutual

/-- `normalize_bound_args`; `simpleOnly` is `allow_simple_expressions_only`. -/
def normalizeBoundArgs (simpleOnly : Bool) : Value → Except CheckError Value
  | .null => .ok .null
  | .bool b => .ok (.bool b)
  | .int n => .ok (.int n)
  | .float f => .ok (.float f)
  | .str s => .ok (.str s)
  | .date text => .ok (.str text)
  | .decimal d => .ok (decimalMarker d)
  | .column c => if simpleOnly && !c.simple then .error .invalidParameter else .ok (.str c.name)
  | .structType simpleString => .ok (.str simpleString)
  | .enum value => normalizeBoundArgs simpleOnly value
  | .object _ => .error .typeError
  | .list items => (normalizeItems simpleOnly items).map .list
  | .tuple items => (normalizeItems simpleOnly items).map .list
  | .set items => do
    let normalized ← normalizeItems simpleOnly items
    (sortByText normalized).map .list
  | .dict entries => (normalizeEntries simpleOnly entries).map .dict

def normalizeItems (simpleOnly : Bool) : List Value → Except CheckError (List Value)
  | [] => .ok []
  | item :: rest => do
    let normalized ← normalizeBoundArgs simpleOnly item
    (normalizeItems simpleOnly rest).map (normalized :: ·)

def normalizeEntries (simpleOnly : Bool) :
    List (Key × Value) → Except CheckError (List (Key × Value))
  | [] => .ok []
  | (key, value) :: rest => do
    let normalized ← normalizeBoundArgs simpleOnly value
    (normalizeEntries simpleOnly rest).map ((key, normalized) :: ·)

end

/-- What a dictionary holds when its only key is `__decimal__`. -/
def markedDecimal : List (Key × Value) → Option Value
  | [(.str key, value)] => if key = "__decimal__" then some value else none
  | _ => none

def digit : Value → Option Nat
  | .int n => if 0 ≤ n ∧ n ≤ 9 then some n.toNat else none
  | .bool b => some (if b then 1 else 0)
  | _ => none

/-- A decimal from a sign, a list of digits and an exponent. -/
def decimalOfParts (sign digits exponent : Value) : Option Decimal := do
  let negative ← match sign with
    | .int 0 => some false
    | .int 1 => some true
    | .bool b => some b
    | _ => none
  let items ← match digits with
    | .list items => some items
    | .tuple items => some items
    | _ => none
  let values ← items.mapM digit
  let coefficient := values.foldl (fun n d => 10 * n + d) 0
  match exponent with
  | .int e => some (.finite negative coefficient e)
  | .bool b => some (.finite negative coefficient (if b then 1 else 0))
  | .str "F" => some (.infinity negative)
  | .str "n" => some (.nan negative false coefficient)
  | .str "N" => some (.nan negative true coefficient)
  | _ => none

/-- The constructor `Decimal(value)`. -/
def toDecimal : Value → Except CheckError Decimal
  | .str s => match Decimal.read s.toList with
    | some d => .ok d
    | none => .error .invalidOperation
  | .int n => .ok (.finite (n < 0) n.natAbs 0)
  | .bool b => .ok (.finite false (if b then 1 else 0) 0)
  | .float f => .ok f.exact
  | .decimal d => .ok d
  | .list [sign, digits, exponent] => match decimalOfParts sign digits exponent with
    | some d => .ok d
    | none => .error .typeError
  | .tuple [sign, digits, exponent] => match decimalOfParts sign digits exponent with
    | some d => .ok d
    | none => .error .typeError
  | _ => .error .typeError

mutual

def denormalizeValue : Value → Except CheckError Value
  | .dict entries => match markedDecimal entries with
    | some value => (toDecimal value).map .decimal
    | none => (denormalizeEntries entries).map .dict
  | .list items => (denormalizeItems items).map .list
  | .tuple items => (denormalizeItems items).map .tuple
  | value => .ok value

def denormalizeItems : List Value → Except CheckError (List Value)
  | [] => .ok []
  | item :: rest => do
    let value ← denormalizeValue item
    (denormalizeItems rest).map (value :: ·)

def denormalizeEntries : List (Key × Value) → Except CheckError (List (Key × Value))
  | [] => .ok []
  | (key, item) :: rest => do
    let value ← denormalizeValue item
    (denormalizeEntries rest).map ((key, value) :: ·)

end

theorem dumpsItems_eq (sortKeys : Bool) (items : List Value) :
    dumpsItems sortKeys items = items.mapM (dumps sortKeys) := by
  induction items with
  | nil => rfl
  | cons item rest ih =>
    rw [dumpsItems, ih, List.mapM_cons]
    rfl

theorem dumpsEntries_eq (sortKeys : Bool) (entries : List (Key × Value)) :
    dumpsEntries sortKeys entries = mapValuesM (dumps sortKeys) entries := by
  induction entries with
  | nil => rfl
  | cons entry rest ih =>
    rw [dumpsEntries, ih, mapValuesM_cons]

theorem normalizeItems_eq (simpleOnly : Bool) (items : List Value) :
    normalizeItems simpleOnly items = items.mapM (normalizeBoundArgs simpleOnly) := by
  induction items with
  | nil => rfl
  | cons item rest ih =>
    rw [normalizeItems, ih, List.mapM_cons]
    rfl

theorem normalizeEntries_eq (simpleOnly : Bool) (entries : List (Key × Value)) :
    normalizeEntries simpleOnly entries =
      mapValuesM (normalizeBoundArgs simpleOnly) entries := by
  induction entries with
  | nil => rfl
  | cons entry rest ih =>
    rw [normalizeEntries, ih, mapValuesM_cons]

theorem denormalizeItems_eq (items : List Value) :
    denormalizeItems items = items.mapM denormalizeValue := by
  induction items with
  | nil => rfl
  | cons item rest ih =>
    rw [denormalizeItems, ih, List.mapM_cons]
    rfl

theorem denormalizeEntries_eq (entries : List (Key × Value)) :
    denormalizeEntries entries = mapValuesM denormalizeValue entries := by
  induction entries with
  | nil => rfl
  | cons entry rest ih =>
    rw [denormalizeEntries, ih, mapValuesM_cons]

/-- Induction on a value: what holds of the parts of a collection holds of it. -/
@[elab_as_elim]
theorem induct {motive : Value → Prop} (null : motive .null) (bool : ∀ b, motive (.bool b))
    (int : ∀ n, motive (.int n)) (float : ∀ f, motive (.float f)) (str : ∀ s, motive (.str s))
    (date : ∀ text, motive (.date text)) (decimal : ∀ d, motive (.decimal d))
    (column : ∀ c, motive (.column c)) (structType : ∀ s, motive (.structType s))
    (enum : ∀ value, motive value → motive (.enum value))
    (object : ∀ typeName, motive (.object typeName))
    (list : ∀ items, (∀ item ∈ items, motive item) → motive (.list items))
    (tuple : ∀ items, (∀ item ∈ items, motive item) → motive (.tuple items))
    (set : ∀ items, (∀ item ∈ items, motive item) → motive (.set items))
    (dict : ∀ entries, (∀ entry ∈ entries, motive entry.2) → motive (.dict entries)) :
    ∀ value, motive value :=
  @Value.rec motive (fun items => ∀ item ∈ items, motive item)
    (fun entries => ∀ entry ∈ entries, motive entry.2) (fun entry => motive entry.2)
    null bool int float str date decimal column structType enum object list tuple set dict
    (by simp) (fun _ _ hitem hrest => List.forall_mem_cons.mpr ⟨hitem, hrest⟩) (by simp)
    (fun _ _ hentry hrest => List.forall_mem_cons.mpr ⟨hentry, hrest⟩) (fun _ _ h => h)

end Value

end Dqx.Checks
