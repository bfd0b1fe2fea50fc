import Mathlib
import Dqx.Contracts.PhysicalType
import Dqx.Lib.Trim

/-! Unity Catalog types as trees, the texts that spell them, and their canonical texts. -/

namespace Dqx.Contracts

open Lib Lib.Sql
open Actions (isSpace strip)

/-- Precision and scale of a decimal type, within the limits of Spark. -/
structure DecimalBounds where
  precision : Nat
  scale : Nat
  one_le : 1 ≤ precision
  le_max : precision ≤ 38
  scale_le : scale ≤ precision

/-- What a text can be the text of: a type, or the fields of a structure. -/
inductive Part where
  | type
  | fields
  deriving DecidableEq, Repr

/-- A Unity Catalog type, or fields. The types that are known by a prefix only are kept as texts. -/
inductive UnityType : Part → Type where
  | simple (type : SimpleType) : UnityType .type
  | decimal (bounds : DecimalBounds) : UnityType .type
  | verbatim (text : Text) : UnityType .type
  | array (element : UnityType .type) : UnityType .type
  | map (key value : UnityType .type) : UnityType .type
  | struct (fields : UnityType .fields) : UnityType .type
  | field (name : Text) (type : UnityType .type) : UnityType .fields
  | more (name : Text) (type : UnityType .type) (rest : UnityType .fields) : UnityType .fields

namespace UnityType

/-- The canonical text. -/
def render : {k : Part} → UnityType k → Text
  | _, simple type => type.keyword
  | _, decimal bounds =>
    decimalText (Nat.toDigits 10 bounds.precision) (Nat.toDigits 10 bounds.scale)
  | _, verbatim text => text
  | _, array element => withParameters arrayKeyword element.render
  | _, map key value => withParameters mapKeyword (key.render ++ ',' :: value.render)
  | _, struct fields => withParameters structKeyword fields.render
  | _, field name type => name ++ ':' :: type.render
  | _, more name type rest => name ++ ':' :: (type.render ++ ',' :: rest.render)

/-- How deep types are nested, from one for a type without parameters. -/
def height : {k : Part} → UnityType k → Nat
  | _, simple _ => 1
  | _, decimal _ => 1
  | _, verbatim _ => 1
  | _, array element => element.height + 1
  | _, map key value => max key.height value.height + 1
  | _, struct fields => fields.height + 1
  | _, field _ type => type.height
  | _, more _ type rest => max type.height rest.height

end UnityType

/-- White space only. -/
def Blank (text : Text) : Prop := ∀ c ∈ text, isSpace c = true

/-- A character that neither brackets nor separates. -/
def isPlainChar (c : Char) : Bool := c ∉ ['<', '>', '(', ')', ',', ':']

/-- A field name without the characters by which types are read. -/
structure FieldName (name : Text) : Prop where
  trimmed : Trimmed isSpace name
  plain : ∀ c ∈ name, isPlainChar c = true

def isSeparator (c : Char) : Bool := c = ',' || c = ':'

/-- A text that can stand between brackets and separators: its own brackets are balanced, and its
separators are inside them. -/
structure Enclosed (text : Text) : Prop where
  trimmed : Trimmed isSpace text
  brackets : Nesting.Balanced bracket text
  angles : Nesting.Balanced angle text
  separators : Nesting.Passes bracket isSeparator 0 text

/-- Letters that Python takes for the word when it compares upper case. -/
def Letters.Writes (letters : Letters) (word text : Text) : Prop := letters.toUpper text = word

/-- Decimal digits. -/
structure Letters.Digits (letters : Letters) (digits : Text) : Prop where
  nonempty : digits ≠ []
  digit : ∀ c ∈ digits, (letters.digitValue c).isSome = true

/-- The texts that spell a type: in any letter case, and with white space around every type, name and
parameter. -/
inductive Spells (letters : Letters) : {k : Part} → UnityType k → Text → Prop where
  | simple {type text} (h : letters.Writes type.keyword text) : Spells letters (.simple type) text
  | decimal {bounds : DecimalBounds} {word precision scale b₁ b₂ b₃ b₄ b₅ : Text}
    (hword : afterWord decimalKeyword word = some [])
    (hprecision : letters.Digits precision) (hscale : letters.Digits scale)
    (hbounds : letters.number precision = bounds.precision ∧ letters.number scale = bounds.scale)
    (hblank : Blank b₁ ∧ Blank b₂ ∧ Blank b₃ ∧ Blank b₄ ∧ Blank b₅) :
    Spells letters (.decimal bounds)
      (word ++ (b₁ ++ '(' :: (b₂ ++ precision ++ (b₃ ++ ',' :: (b₄ ++ scale ++ (b₅ ++ [')']))))))
  | verbatim {text word} (hword : word ∈ unityComplexPrefixes)
    (h : word.isPrefixOf (letters.toUpper text) = true) (henclosed : Enclosed text) :
    Spells letters (.verbatim (letters.toUpper text)) text
  | array {element word left text right} (hword : letters.Writes arrayKeyword word)
    (hblank : Blank left ∧ Blank right) (h : Spells letters element text) :
    Spells letters (.array element) (withParameters word (left ++ text ++ right))
  | map {key value word left text right left' text' right'} (hword : letters.Writes mapKeyword word)
    (hblank : Blank left ∧ Blank right ∧ Blank left' ∧ Blank right')
    (h : Spells letters key text) (h' : Spells letters value text') :
    Spells letters (.map key value) (withParameters word
      (left ++ text ++ right ++ ',' :: (left' ++ text' ++ right')))
  | struct {fields word left text right} (hword : letters.Writes structKeyword word)
    (hblank : Blank left ∧ Blank right) (h : Spells letters fields text) :
    Spells letters (.struct fields) (withParameters word (left ++ text ++ right))
  | field {name type left right text} (hname : FieldName name) (hblank : Blank left ∧ Blank right)
    (h : Spells letters type text) :
    Spells letters (.field name type) (name ++ left ++ ':' :: (right ++ text))
  | more {name type rest left right left' right' text text'} (hname : FieldName name)
    (hblank : Blank left ∧ Blank right ∧ Blank left' ∧ Blank right')
    (h : Spells letters type text) (h' : Spells letters rest text') :
    Spells letters (.more name type rest)
      (name ++ left ++ ':' :: (right ++ text) ++ left' ++ ',' :: (right' ++ text'))

/-! ### Characters -/

section Characters

variable {letters : Letters} {text word : Text} {c : Char}

/-- What is checked of the codes of the ASCII characters holds of these characters. -/
theorem ascii_all {p : Char → Bool} (h : ((List.range 128).all fun n => p (Char.ofNat n)) = true)
    (hascii : c.toNat < 128) : p c = true := by
  have hcode := List.all_eq_true.mp h c.toNat (List.mem_range.mpr hascii)
  rwa [Char.ofNat_toNat] at hcode

theorem toNat_lt_of_not_isPlainChar (h : isPlainChar c = false) :
    c.toNat < 128 ∧ c.toUpper = c ∧ isSpace c = false := by
  simp only [isPlainChar, List.mem_cons, List.not_mem_nil, or_false, decide_eq_false_iff_not,
    not_not] at h
  rcases h with rfl | rfl | rfl | rfl | rfl | rfl <;> decide

theorem bracket_of_isPlainChar (h : isPlainChar c = true) : bracket c = 0 := by
  simp only [isPlainChar, List.mem_cons, List.not_mem_nil, or_false, decide_eq_true_eq, not_or] at h
  rw [bracket, if_neg (by simp [h]), if_neg (by simp [h])]

theorem angle_of_isPlainChar (h : isPlainChar c = true) : angle c = 0 := by
  simp only [isPlainChar, List.mem_cons, List.not_mem_nil, or_false, decide_eq_true_eq, not_or] at h
  rw [angle, if_neg h.1, if_neg h.2.1]

theorem isSeparator_of_isPlainChar (h : isPlainChar c = true) : isSeparator c = false := by
  simp only [isPlainChar, List.mem_cons, List.not_mem_nil, or_false, decide_eq_true_eq, not_or] at h
  simp [isSeparator, h]

theorem isPlainChar_of_isSpace (h : isSpace c = true) : isPlainChar c = true := by
  by_contra hplain
  rw [(toNat_lt_of_not_isPlainChar (Bool.not_eq_true _ |>.mp hplain)).2.2] at h
  cases h

theorem toUpper_append (x y : Text) :
    letters.toUpper (x ++ y) = letters.toUpper x ++ letters.toUpper y := List.flatMap_append

theorem mem_toUpper (h : c ∈ text) (hascii : c.toNat < 128) : c.toUpper ∈ letters.toUpper text :=
  List.mem_flatMap.mpr ⟨c, h, by rw [if_pos hascii]; exact List.mem_singleton_self _⟩

/-- A mark of the grammar stays in upper case. -/
theorem mark_mem_toUpper (h : c ∈ text) (hmark : isPlainChar c = false) :
    c ∈ letters.toUpper text := by
  obtain ⟨hascii, hupper, -⟩ := toNat_lt_of_not_isPlainChar hmark
  have := @mem_toUpper letters _ _ h hascii
  rw [hupper] at this
  exact this

theorem toUpper_mark (hmark : isPlainChar c = false) (text : Text) :
    letters.toUpper (c :: text) = c :: letters.toUpper text := by
  obtain ⟨hascii, hupper, -⟩ := toNat_lt_of_not_isPlainChar hmark
  rw [Letters.toUpper, List.flatMap_cons, if_pos hascii, hupper]
  rfl

/-- A text in upper case has the white space that the text has. -/
theorem space_mem_toUpper (h : c ∈ text) (hspace : isSpace c = true) :
    c ∈ letters.toUpper text := by
  by_cases hascii : c.toNat < 128
  · have hupper : c.toUpper = c := by
      have hcheck := @ascii_all c (fun c => !isSpace c || c.toUpper = c) (by decide) hascii
      rw [hspace, Bool.not_true, Bool.false_or] at hcheck
      exact of_decide_eq_true hcheck
    have := @mem_toUpper letters _ _ h hascii
    rw [hupper] at this
    exact this
  · exact List.mem_flatMap.mpr ⟨c, h, by
      rw [if_neg hascii, letters.upper_space c hspace]; exact List.mem_singleton_self _⟩

/-- A word of plain characters other than white space is written without any other. -/
theorem Letters.Writes.plain (h : letters.Writes word text)
    (hword : ∀ c ∈ word, isPlainChar c = true ∧ isSpace c = false) :
    ∀ c ∈ text, isPlainChar c = true ∧ isSpace c = false := by
  intro c hc
  refine ⟨?_, ?_⟩
  · by_contra hplain
    have hmem := @mark_mem_toUpper letters _ _ hc (Bool.not_eq_true _ |>.mp hplain)
    rw [h] at hmem
    exact hplain (hword c hmem).1
  · by_contra hspace
    have hmem := @space_mem_toUpper letters _ _ hc (Bool.not_eq_false _ |>.mp hspace)
    rw [h] at hmem
    exact hspace (hword c hmem).2

theorem Letters.Writes.ne_nil (h : letters.Writes word text) (hword : word ≠ []) : text ≠ [] := by
  rintro rfl
  exact hword h.symm

/-- A text without marks or white space at its ends. -/
theorem trimmed_of_forall {text : Text} (hne : text ≠ []) (h : ∀ c ∈ text, isSpace c = false) :
    Trimmed isSpace text where
  nonempty := hne
  head c hc := h c (List.mem_of_mem_head? hc)
  last c hc := h c (List.mem_of_mem_getLast? hc)

theorem plain_of_all {word : Text} (hne : word ≠ [])
    (h : (word.all fun c => isPlainChar c && !isSpace c) = true) :
    word ≠ [] ∧ ∀ c ∈ word, isPlainChar c = true ∧ isSpace c = false := by
  simp only [List.all_eq_true, Bool.and_eq_true, Bool.not_eq_true'] at h
  exact ⟨hne, h⟩

theorem keyword_plain (type : SimpleType) :
    type.keyword ≠ [] ∧ ∀ c ∈ type.keyword, isPlainChar c = true ∧ isSpace c = false := by
  cases type <;> exact plain_of_all (List.cons_ne_nil _ _) (by decide)

theorem parameter_keyword_plain {word : Text}
    (h : word ∈ [arrayKeyword, mapKeyword, structKeyword]) :
    word ≠ [] ∧ ∀ c ∈ word, isPlainChar c = true ∧ isSpace c = false := by
  simp only [List.mem_cons, List.not_mem_nil, or_false] at h
  rcases h with rfl | rfl | rfl <;> exact plain_of_all (List.cons_ne_nil _ _) (by decide)

theorem isPlainChar_of_digit (h : (letters.digitValue c).isSome = true) :
    isPlainChar c = true ∧ isSpace c = false ∨ 128 ≤ c.toNat := by
  by_cases hascii : c.toNat < 128
  · rw [Letters.digitValue, if_pos hascii] at h
    have hcheck := @ascii_all c (fun c => !c.isDigit || isPlainChar c && !isSpace c) (by decide)
      hascii
    split at h
    · next hdigit =>
      rw [hdigit, Bool.not_true, Bool.false_or, Bool.and_eq_true, Bool.not_eq_true'] at hcheck
      exact .inl hcheck
    · cases h
  · exact .inr (Nat.not_lt.mp hascii)

theorem plain_of_digit (h : (letters.digitValue c).isSome = true) : isPlainChar c = true := by
  rcases isPlainChar_of_digit h with hplain | hlarge
  · exact hplain.1
  · by_contra hplain
    have := (toNat_lt_of_not_isPlainChar (Bool.not_eq_true _ |>.mp hplain)).1
    omega

/-- The letters of `DECIMAL` that a pattern takes are no marks, and no white space. -/
theorem plain_of_sameLetter {letter : Char} (hletter : letter ∈ decimalKeyword)
    (h : sameLetter letter c = true) : isPlainChar c = true ∧ isSpace c = false := by
  by_cases hascii : c.toNat < 128
  · have hcheck := @ascii_all c
      (fun c => decimalKeyword.all fun l => !sameLetter l c || isPlainChar c && !isSpace c)
      (by decide) hascii
    have hplain := List.all_eq_true.mp hcheck letter hletter
    rw [h, Bool.not_true, Bool.false_or, Bool.and_eq_true, Bool.not_eq_true'] at hplain
    exact hplain
  · have hplain : isPlainChar c = true := by
      by_contra hplain
      exact hascii (toNat_lt_of_not_isPlainChar (Bool.not_eq_true _ |>.mp hplain)).1
    refine ⟨hplain, ?_⟩
    rw [sameLetter, Bool.or_eq_true, decide_eq_true_eq] at h
    rcases h with h | h
    · have hlower : c.toLower = c := by
        rw [Char.toLower, dif_neg]
        rintro ⟨-, hle⟩
        have hle' : c.toNat ≤ 90 := hle
        omega
      have hletters : (decimalKeyword.all fun l => decide (l.toLower.toNat < 128)) = true := by
        decide
      have := of_decide_eq_true (List.all_eq_true.mp hletters letter hletter)
      rw [← h, hlower] at this
      exact absurd this hascii
    · simp only [Bool.and_eq_true, Bool.or_eq_true, decide_eq_true_eq] at h
      rw [isSpace]
      rcases h.2 with h | h <;> rw [h] <;> decide

theorem plain_of_afterWord {word text rest : Text} (hword : ∀ l ∈ word, l ∈ decimalKeyword)
    (h : afterWord word text = some rest) :
    ∃ taken, text = taken ++ rest ∧ taken.length = word.length ∧
      ∀ c ∈ taken, isPlainChar c = true ∧ isSpace c = false := by
  induction word generalizing text with
  | nil => exact ⟨[], Option.some.inj h, rfl, fun _ hc => absurd hc List.not_mem_nil⟩
  | cons letter word ih =>
    cases text with
    | nil => cases h
    | cons c text =>
      rw [afterWord] at h
      split at h
      · next hsame =>
        obtain ⟨taken, htext, hlength, hplain⟩ :=
          ih (fun l hl => hword l (List.mem_cons_of_mem _ hl)) h
        refine ⟨c :: taken, by rw [htext]; rfl, congrArg (· + 1) hlength, ?_⟩
        intro c' hc'
        rcases List.mem_cons.mp hc' with rfl | hc'
        · exact plain_of_sameLetter (hword letter List.mem_cons_self) hsame
        · exact hplain c' hc'
      · cases h

end Characters

/-! ### What is spelled is enclosed -/

section Enclosed

variable {letters : Letters} {word text : Text}

theorem balanced_plain {weight : Char → Int} (hweight : ∀ c, isPlainChar c = true → weight c = 0)
    (h : ∀ c ∈ text, isPlainChar c = true) : Nesting.Balanced weight text :=
  Nesting.balanced_of_forall fun c hc => hweight c (h c hc)

theorem Blank.plain (h : Blank text) : ∀ c ∈ text, isPlainChar c = true :=
  fun c hc => isPlainChar_of_isSpace (h c hc)

/-- A word with something in brackets after it. -/
theorem enclosed_of_brackets {content : Text} {opening closing : Char} (hne : word ≠ [])
    (hword : ∀ c ∈ word, isPlainChar c = true ∧ isSpace c = false) {blank : Text}
    (hblank : Blank blank)
    (hopening : bracket opening = 1 ∧ isSeparator opening = false)
    (hclosing : bracket closing = -1 ∧ isSeparator closing = false ∧ isSpace closing = false)
    (hangle : Nesting.Balanced angle (opening :: (content ++ [closing])))
    (hcontent : Nesting.Balanced bracket content) :
    Enclosed (word ++ (blank ++ opening :: (content ++ [closing]))) where
  trimmed := by
    have := (trimmed_of_forall hne fun c hc => (hword c hc).2).append (blank ++ opening :: content)
      (trimmed_of_forall (List.cons_ne_nil closing []) fun c hc => by
        rw [List.mem_singleton.mp hc]; exact hclosing.2.2)
    simpa using this
  brackets := (balanced_plain (fun _ => bracket_of_isPlainChar) fun c hc => (hword c hc).1).append
    ((balanced_plain (fun _ => bracket_of_isPlainChar) hblank.plain).append
      (hcontent.enclosed hopening.1 hclosing.1))
  angles := (balanced_plain (fun _ => angle_of_isPlainChar) fun c hc => (hword c hc).1).append
    ((balanced_plain (fun _ => angle_of_isPlainChar) hblank.plain).append hangle)
  separators := by
    have hdepth := (balanced_plain (fun _ => bracket_of_isPlainChar) fun c hc =>
      (hword c hc).1).depth_eq
    have hdepth' := (balanced_plain (fun _ => bracket_of_isPlainChar) hblank.plain).depth_eq
    refine Nesting.passes_append.mpr ⟨Nesting.passes_of_forall fun c hc =>
      isSeparator_of_isPlainChar (hword c hc).1, ?_⟩
    rw [hdepth, add_zero]
    refine Nesting.passes_append.mpr ⟨Nesting.passes_of_forall fun c hc =>
      isSeparator_of_isPlainChar (hblank.plain c hc), ?_⟩
    rw [hdepth', add_zero]
    exact hcontent.passes_enclosed hopening.1 hopening.2 hclosing.2.1

/-- A type with parameters. -/
theorem enclosed_withParameters {content : Text} (hne : word ≠ [])
    (hword : ∀ c ∈ word, isPlainChar c = true ∧ isSpace c = false)
    (hangles : Nesting.Balanced angle content) (hbrackets : Nesting.Balanced bracket content) :
    Enclosed (withParameters word content) :=
  enclosed_of_brackets hne hword (fun _ hc => absurd hc List.not_mem_nil) (by decide) (by decide)
    (hangles.enclosed rfl rfl) hbrackets

/-- What holds of the texts that spell a type, or fields. -/
structure Shaped (k : Part) (text : Text) : Prop where
  trimmed : Trimmed isSpace text
  brackets : Nesting.Balanced bracket text
  angles : Nesting.Balanced angle text
  separators : k = .type → Nesting.Passes bracket isSeparator 0 text

theorem Enclosed.shaped (h : Enclosed text) : Shaped .type text :=
  ⟨h.trimmed, h.brackets, h.angles, fun _ => h.separators⟩

theorem Shaped.enclosed (h : Shaped .type text) : Enclosed text :=
  ⟨h.trimmed, h.brackets, h.angles, h.separators rfl⟩

/-- White space around a text changes no depth. -/
theorem Shaped.balanced_pad {k : Part} (h : Shaped k text) {left right : Text} (hleft : Blank left)
    (hright : Blank right) : Nesting.Balanced bracket (left ++ text ++ right) ∧
      Nesting.Balanced angle (left ++ text ++ right) :=
  ⟨((balanced_plain (fun _ => bracket_of_isPlainChar) hleft.plain).append h.brackets).append
      (balanced_plain (fun _ => bracket_of_isPlainChar) hright.plain),
    ((balanced_plain (fun _ => angle_of_isPlainChar) hleft.plain).append h.angles).append
      (balanced_plain (fun _ => angle_of_isPlainChar) hright.plain)⟩

end Enclosed

end Dqx.Contracts
