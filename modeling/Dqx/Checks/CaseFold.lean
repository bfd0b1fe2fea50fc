import Dqx.Checks.Value
import Dqx.Lib.Document
import Mathlib.Tactic.IntervalCases

/-! Documents up to the case of letters. The text of a document in lower case, its fields sorted, is
the text of exactly these documents. -/

namespace Dqx.Checks.Json

open Lib

mutual

/-- A document up to the case of the letters in it. -/
def folded : Json → Document
  | .null => .atom ['n', 'u', 'l', 'l']
  | .bool true => .atom ['t', 'r', 'u', 'e']
  | .bool false => .atom ['f', 'a', 'l', 's', 'e']
  | .int n => .atom ((toString n).toList.map Char.toLower)
  | .float f => .atom (f.text.toList.map Char.toLower)
  | .str s => .str (s.toList.map Char.toLower)
  | .arr items => .arr (foldedItems items)
  | .obj fields => .obj (foldedFields fields)

def foldedItems : List Json → List Document
  | [] => []
  | item :: rest => folded item :: foldedItems rest

def foldedFields : List (String × Json) → List (List Char × Document)
  | [] => []
  | (key, item) :: rest => (key.toList.map Char.toLower, folded item) :: foldedFields rest

end

/-- A document up to the case of letters and the order of fields. -/
def caseless (j : Json) : Document := j.sorted.folded

@[simp] theorem foldedItems_eq (items : List Json) : foldedItems items = items.map folded := by
  induction items with
  | nil => rfl
  | cons item rest ih => rw [foldedItems, ih, List.map_cons]

@[simp] theorem foldedFields_eq (fields : List (String × Json)) :
    foldedFields fields =
      fields.map fun field => (field.1.toList.map Char.toLower, field.2.folded) := by
  induction fields with
  | nil => rfl
  | cons field rest ih => rw [foldedFields, ih, List.map_cons]

mutual

/-- What a JSON text can say: no key is twice in an object, and a float has the text of a number. -/
def Valid : Json → Prop
  | .float f => f.text ≠ "" ∧ ∀ c ∈ f.text.toList, c.isAlphanum ∨ c ∈ ['+', '-', '.']
  | .arr items => ValidItems items
  | .obj fields => (fields.map Prod.fst).Nodup ∧ ValidFields fields
  | _ => True

def ValidItems : List Json → Prop
  | [] => True
  | item :: rest => Valid item ∧ ValidItems rest

def ValidFields : List (String × Json) → Prop
  | [] => True
  | (_, item) :: rest => Valid item ∧ ValidFields rest

end

@[simp] theorem validItems_iff (items : List Json) :
    ValidItems items ↔ ∀ item ∈ items, Valid item := by
  induction items with
  | nil => simp [ValidItems]
  | cons item rest ih => rw [ValidItems, ih, List.forall_mem_cons]

@[simp] theorem validFields_iff (fields : List (String × Json)) :
    ValidFields fields ↔ ∀ field ∈ fields, Valid field.2 := by
  induction fields with
  | nil => simp [ValidFields]
  | cons field rest ih => rw [ValidFields, ih, List.forall_mem_cons]

theorem valid_obj {fields : List (String × Json)} :
    Valid (.obj fields) ↔ (fields.map Prod.fst).Nodup ∧ ∀ field ∈ fields, field.2.Valid := by
  rw [Valid, validFields_iff]

/-! ### Hexadecimal digits -/

def hexDigit (c : Char) : Nat :=
  if c.isDigit then c.toNat - '0'.toNat else c.toNat - 'a'.toNat + 10

def hexValue (digits : List Char) : Nat := digits.foldl (fun n c => 16 * n + hexDigit c) 0

theorem hexDigit_digitChar {n : Nat} (h : n < 16) : hexDigit n.digitChar = n := by
  interval_cases n <;> rfl

theorem hexValue_toDigits (n : Nat) : hexValue (Nat.toDigits 16 n) = n := by
  induction n using Nat.strongRecOn with
  | ind n ih =>
    rw [Nat.toDigits_eq_if (by decide)]
    split
    · next h => rw [hexValue, List.foldl_cons, List.foldl_nil, hexDigit_digitChar h, Nat.mul_zero,
        Nat.zero_add]
    · next h =>
      have hdigit := hexDigit_digitChar (n := n % 16) (Nat.mod_lt _ (by decide))
      have hlead := ih (n / 16) (by omega)
      rw [hexValue] at hlead ⊢
      rw [List.foldl_append, hlead, List.foldl_cons, List.foldl_nil, hdigit]
      omega

theorem hexValue_zeros (k : Nat) (digits : List Char) :
    hexValue (List.replicate k '0' ++ digits) = hexValue digits := by
  induction k with
  | zero => rfl
  | succ k ih => exact ih

theorem hexDigits_four {n : Nat} (h : n < 65536) :
    ∃ a b c d, hexDigits 4 n = [a, b, c, d] ∧ hexValue [a, b, c, d] = n := by
  have hlength : (hexDigits 4 n).length = 4 := by
    have hle : (Nat.toDigits 16 n).length ≤ 4 :=
      (Nat.length_toDigits_le_iff (by decide) (by decide)).mpr h
    simp [hexDigits]
    omega
  have hvalue : hexValue (hexDigits 4 n) = n := by
    rw [hexDigits, hexValue_zeros, hexValue_toDigits]
  match hdigits : hexDigits 4 n, hlength with
  | [a, b, c, d], _ => exact ⟨a, b, c, d, rfl, hdigits ▸ hvalue⟩

theorem toLower_of_mem_toDigits (n : Nat) : ∀ c ∈ Nat.toDigits 16 n, c.toLower = c := by
  have hdigit : ∀ {m : Nat}, m < 16 → m.digitChar.toLower = m.digitChar := by
    intro m hm
    interval_cases m <;> rfl
  induction n using Nat.strongRecOn with
  | ind n ih =>
    rw [Nat.toDigits_eq_if (by decide)]
    split
    · next h => simpa using hdigit h
    · next h =>
      intro c hc
      rcases List.mem_append.mp hc with hc | hc
      · exact ih (n / 16) (by omega) c hc
      · rw [List.mem_singleton.mp hc]
        exact hdigit (Nat.mod_lt _ (by decide))

theorem toLower_hexDigits (k n : Nat) : (hexDigits k n).map Char.toLower = hexDigits k n := by
  rw [hexDigits, List.map_append, List.map_replicate]
  congr 1
  exact List.map_congr_left (toLower_of_mem_toDigits n) |>.trans (List.map_id _)

/-! ### Characters -/

/-- What `escape` has written at the start of a text, and what follows it. -/
def unescape : List Char → Option (Char × List Char)
  | '\\' :: 'u' :: a :: b :: c :: d :: rest =>
    let high := hexValue [a, b, c, d]
    if 0xd800 ≤ high ∧ high < 0xdc00 then
      match rest with
      | '\\' :: 'u' :: a :: b :: c :: d :: rest =>
        let low := hexValue [a, b, c, d]
        some (Char.ofNat (0x10000 + (high - 0xd800) * 0x400 + (low - 0xdc00)), rest)
      | _ => none
    else some (Char.ofNat high, rest)
  | '\\' :: '"' :: rest => some ('"', rest)
  | '\\' :: '\\' :: rest => some ('\\', rest)
  | '\\' :: 'n' :: rest => some ('\n', rest)
  | '\\' :: 'r' :: rest => some ('\r', rest)
  | '\\' :: 't' :: rest => some ('\t', rest)
  | '\\' :: 'b' :: rest => some (Char.ofNat 8, rest)
  | '\\' :: 'f' :: rest => some (Char.ofNat 12, rest)
  | c :: rest => some (c, rest)
  | [] => none

theorem toNat_lt (c : Char) : c.toNat < 0xd800 ∨ 0xdfff < c.toNat ∧ c.toNat < 0x110000 := c.valid

theorem ofNat_of_toNat_eq {c : Char} {n : Nat} (h : c.toNat = n) : Char.ofNat n = c := by
  rw [← h, Char.ofNat_toNat]

theorem unescape_escape (c : Char) (r : List Char) : unescape (escape c ++ r) = some (c, r) := by
  unfold escape
  split
  · next h => rw [h]; rfl
  split
  · next h => rw [h]; rfl
  split
  · next h => rw [h]; rfl
  split
  · next h => rw [h]; rfl
  split
  · next h => rw [h]; rfl
  split
  · next h => exact congrArg (fun d => some (d, r)) (ofNat_of_toNat_eq h)
  split
  · next h => exact congrArg (fun d => some (d, r)) (ofNat_of_toNat_eq h)
  split
  · next hbackslash _ _ _ _ _ _ =>
    unfold unescape
    split <;> simp_all
  split
  · next h =>
    obtain ⟨a, b, c', d, hdigits, hvalue⟩ := hexDigits_four h
    have hsurrogate := toNat_lt c
    rw [hdigits]
    simp only [List.cons_append, List.nil_append, unescape, hvalue]
    rw [if_neg (by omega), Char.ofNat_toNat]
  · next h =>
    have hchar := toNat_lt c
    obtain ⟨a, b, c', d, hdigits, hvalue⟩ :=
      hexDigits_four (n := 0xd800 + (c.toNat - 0x10000) / 0x400) (by omega)
    obtain ⟨a', b', c'', d', hdigits', hvalue'⟩ :=
      hexDigits_four (n := 0xdc00 + (c.toNat - 0x10000) % 0x400) (by omega)
    dsimp only
    rw [hdigits, hdigits']
    simp only [List.cons_append, List.nil_append, unescape, hvalue, hvalue']
    rw [if_pos (by omega)]
    exact congrArg (fun d => some (d, r)) (ofNat_of_toNat_eq (by omega))

theorem escape_code : Document.Code escape where
  opens c := by
    unfold escape
    split
    · exact ⟨_, _, rfl, by decide⟩
    · next hquote =>
      repeat' split
      all_goals first | exact ⟨_, _, rfl, by decide⟩ | exact ⟨_, _, rfl, hquote⟩
  unique h := by
    have hread := congrArg unescape h
    rw [unescape_escape, unescape_escape] at hread
    exact Prod.mk.injEq _ _ _ _ ▸ Option.some.inj hread

theorem toLower_eq_self {c : Char} (h : ¬(65 ≤ c.toNat ∧ c.toNat ≤ 90)) : c.toLower = c := by
  unfold Char.toLower
  rw [dif_neg]
  rintro ⟨hlow, hhigh⟩
  have hlow' : 65 ≤ c.val.toNat := by simpa [UInt32.le_iff_toNat_le] using hlow
  have hhigh' : c.val.toNat ≤ 90 := by simpa [UInt32.le_iff_toNat_le] using hhigh
  exact h ⟨hlow', hhigh'⟩

theorem toLower_escape_upper {n : Nat} (hlow : 65 ≤ n) (hhigh : n ≤ 90) :
    (escape (Char.ofNat n)).map Char.toLower = escape (Char.ofNat n).toLower := by
  interval_cases n <;> rfl

theorem toLower_escape (c : Char) : (escape c).map Char.toLower = escape c.toLower := by
  by_cases hupper : 65 ≤ c.toNat ∧ c.toNat ≤ 90
  · have h := toLower_escape_upper hupper.1 hupper.2
    rwa [Char.ofNat_toNat] at h
  · rw [toLower_eq_self hupper]
    have hbackslash : Char.toLower '\\' = '\\' := rfl
    have hu : Char.toLower 'u' = 'u' := rfl
    unfold escape
    split
    · rfl
    split
    · rfl
    split
    · rfl
    split
    · rfl
    split
    · rfl
    split
    · rfl
    split
    · rfl
    split
    · rw [List.map_singleton, toLower_eq_self hupper]
    split
    · simp only [List.map_cons, toLower_hexDigits, hbackslash, hu]
    · simp only [List.map_cons, List.map_append, toLower_hexDigits, hbackslash, hu]

/-! ### Texts -/

theorem toLower_quote (s : String) :
    (quote s).map Char.toLower = Document.quote escape (s.toList.map Char.toLower) := by
  simp only [quote, Document.quote, List.map_cons, List.map_append, List.map_flatMap,
    List.flatMap_map, toLower_escape]
  rfl

theorem writeItems_eq (items : List Json) : writeItems items = Document.joined write items := by
  induction items with
  | nil => rfl
  | cons item rest ih =>
    cases rest with
    | nil => rfl
    | cons next rest =>
      show write item ++ ',' :: ' ' :: writeItems (next :: rest) = _
      rw [ih]
      rfl

def writeField (field : String × Json) : List Char := quote field.1 ++ ':' :: ' ' :: field.2.write

theorem writeFields_eq (fields : List (String × Json)) :
    writeFields fields = Document.joined writeField fields := by
  induction fields with
  | nil => rfl
  | cons field rest ih =>
    cases rest with
    | nil => rfl
    | cons next rest =>
      show writeField field ++ ',' :: ' ' :: writeFields (next :: rest) = _
      rw [ih]
      rfl

theorem toLower_write (j : Json) :
    j.write.map Char.toLower = Document.write escape j.folded := by
  induction j using induct with
  | null => rfl
  | bool b => cases b <;> rfl
  | int n => rfl
  | float f => rfl
  | str s => exact toLower_quote s
  | arr items ih =>
    simp only [write, folded, Document.write, writeItems_eq, Document.writeItems_eq, List.map_cons,
      List.map_append, foldedItems_eq, Document.joined_map]
    rw [Document.map_joined write rfl rfl, Document.joined_congr ih]
    rfl
  | obj fields ih =>
    have hfield : ∀ field ∈ fields, (writeField field).map Char.toLower =
        Document.writeField escape (field.1.toList.map Char.toLower, field.2.folded) := by
      intro field hfield
      simp only [writeField, Document.writeField, List.map_append, List.map_cons, toLower_quote,
        ih field hfield]
      rfl
    simp only [write, folded, Document.write, writeFields_eq, Document.writeFields_eq, List.map_cons,
      List.map_append, foldedFields_eq, Document.joined_map]
    rw [Document.map_joined writeField rfl rfl, Document.joined_congr hfield]
    rfl

theorem upper_not_mark {n : Nat} (hlow : 65 ≤ n) (hhigh : n ≤ 90) :
    (Char.ofNat n).toLower ∉ Document.marks := by
  interval_cases n <;> decide

/-- No mark of a document is a letter, a digit or part of a number. -/
theorem not_mark {c : Char} (h : c.isAlphanum = true ∨ c ∈ ['+', '-', '.']) :
    c.toLower ∉ Document.marks := by
  intro hmark
  by_cases hupper : 65 ≤ c.toNat ∧ c.toNat ≤ 90
  · have hlower : c.toLower ∉ Document.marks := by
      rw [← Char.ofNat_toNat c]
      exact upper_not_mark hupper.1 hupper.2
    exact hlower hmark
  · rw [toLower_eq_self hupper] at hmark
    revert h
    simp only [Document.marks, Document.ends, List.mem_cons, List.not_mem_nil, or_false] at hmark
    rcases hmark with rfl | rfl | rfl | rfl | rfl | rfl <;> decide

theorem plain_number {text : String} (hne : text ≠ "")
    (h : ∀ c ∈ text.toList, c.isAlphanum ∨ c ∈ ['+', '-', '.']) :
    (Document.atom (text.toList.map Char.toLower)).Plain := by
  refine ⟨by simpa using hne, ?_⟩
  simp only [List.mem_map]
  rintro _ ⟨c, hc, rfl⟩
  exact not_mark (h c hc)

theorem int_text (n : Int) : toString n ≠ "" ∧
    ∀ c ∈ (toString n).toList, c.isAlphanum ∨ c ∈ ['+', '-', '.'] := by
  have hdigits : ∀ m : Nat, ∀ c ∈ Nat.toDigits 10 m, c.isAlphanum := by
    intro m c hc
    have := Nat.isDigit_of_mem_toDigits (by decide) (by decide) hc
    simp [Char.isAlphanum, this]
  cases n with
  | ofNat m =>
    have htext : (toString (Int.ofNat m)).toList = Nat.toDigits 10 m := Nat.toList_repr
    refine ⟨?_, fun c hc => .inl (hdigits m c (htext ▸ hc))⟩
    rw [Ne, ← String.toList_eq_nil_iff, htext]
    exact Nat.toDigits_ne_nil
  | negSucc m =>
    have htext : (toString (Int.negSucc m)).toList = '-' :: Nat.toDigits 10 (m + 1) := by
      show ("-" ++ (m + 1).repr).toList = _
      rw [String.toList_append, Nat.toList_repr]
      rfl
    refine ⟨?_, fun c hc => ?_⟩
    · rw [Ne, ← String.toList_eq_nil_iff, htext]
      exact List.cons_ne_nil _ _
    · rw [htext] at hc
      rcases List.mem_cons.mp hc with rfl | hc
      · exact .inr (by decide)
      · exact .inl (hdigits (m + 1) c hc)

theorem plain_word {text : List Char} (hne : text ≠ [])
    (h : (text.all fun c => !Document.marks.contains c) = true) : (Document.atom text).Plain :=
  ⟨hne, fun c hc => by simpa using List.all_eq_true.mp h c hc⟩

theorem plain_folded {j : Json} (h : j.Valid) : j.folded.Plain := by
  induction j using induct with
  | null => exact plain_word nofun (by decide)
  | bool b => cases b <;> exact plain_word nofun (by decide)
  | int n => exact plain_number (int_text n).1 (int_text n).2
  | float f => exact plain_number h.1 h.2
  | str s => trivial
  | arr items ih =>
    simp only [Valid, validItems_iff] at h
    simp only [folded, Document.Plain, foldedItems_eq, Document.plainItems_iff,
      List.forall_mem_map]
    exact fun item hitem => ih item hitem (h item hitem)
  | obj fields ih =>
    obtain ⟨-, hfields⟩ := valid_obj.mp h
    simp only [folded, Document.Plain, foldedFields_eq, Document.plainFields_iff,
      List.forall_mem_map]
    exact fun field hfield => ih field hfield (hfields field hfield)

theorem mem_sortedFields {fields : List (String × Json)} {field : String × Json} :
    field ∈ sortByKey (· ≤ ·) (sortedFields fields) ↔
      ∃ original ∈ fields, (original.1, original.2.sorted) = field := by
  rw [(sortByKey_perm _ _).mem_iff, sortedFields_eq, List.mem_map]

theorem sortedFields_nodup {fields : List (String × Json)} (h : (fields.map Prod.fst).Nodup) :
    ((sortByKey (· ≤ ·) (sortedFields fields)).map Prod.fst).Nodup := by
  have hperm := (sortByKey_perm (· ≤ ·) (sortedFields fields)).map Prod.fst
  rw [hperm.nodup_iff, sortedFields_eq, List.map_map]
  exact h

theorem valid_sorted {j : Json} (h : j.Valid) : j.sorted.Valid := by
  induction j using induct with
  | null => trivial
  | bool b => trivial
  | int n => trivial
  | float f => exact h
  | str s => trivial
  | arr items ih =>
    simp only [Valid, validItems_iff] at h
    simp only [sorted, Valid, sortedItems_eq, validItems_iff, List.forall_mem_map]
    exact fun item hitem => ih item hitem (h item hitem)
  | obj fields ih =>
    obtain ⟨hnodup, hfields⟩ := valid_obj.mp h
    rw [sorted]
    refine valid_obj.mpr ⟨sortedFields_nodup hnodup, fun field hfield => ?_⟩
    obtain ⟨original, horiginal, rfl⟩ := mem_sortedFields.mp hfield
    exact ih original horiginal (hfields original horiginal)

/-- Two documents have one text in lower case, their fields sorted, where they differ in the case of
letters and the order of fields only. -/
theorem lowered_eq_iff {j j' : Json} (h : j.Valid) (h' : j'.Valid) :
    j.sorted.write.map Char.toLower = j'.sorted.write.map Char.toLower ↔
      j.caseless = j'.caseless := by
  rw [toLower_write, toLower_write, caseless, caseless]
  refine ⟨fun heq => ?_, fun heq => by rw [heq]⟩
  exact Document.write_injective escape_code (plain_folded (valid_sorted h))
    (plain_folded (valid_sorted h')) heq

end Dqx.Checks.Json
