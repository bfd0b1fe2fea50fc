import Mathlib.Computability.Language
import Mathlib.Data.List.TakeWhile

/-! Regular expressions over characters: the language of an expression, a matcher that takes
derivatives, and the languages of the usual abbreviations. -/

namespace Dqx.Lib

open Language Computability

/-- `both` stands for an expression and a look-ahead, where both have to match all of a text. -/
inductive Regex where
  | fail
  | empty
  | one (p : Char → Bool)
  | alt (r s : Regex)
  | seq (r s : Regex)
  | both (r s : Regex)
  | star (r : Regex)

namespace Regex

def language : Regex → Language Char
  | .fail => 0
  | .empty => 1
  | .one p => {text | ∃ c, p c = true ∧ text = [c]}
  | .alt r s => r.language + s.language
  | .seq r s => r.language * s.language
  | .both r s => {text | text ∈ r.language ∧ text ∈ s.language}
  | .star r => r.language∗

/-- Whether an expression matches the empty text. -/
def nullable : Regex → Bool
  | .fail | .one _ => false
  | .empty | .star _ => true
  | .alt r s => r.nullable || s.nullable
  | .seq r s | .both r s => r.nullable && s.nullable

/-- What an expression has left to match after a character. -/
def deriv (c : Char) : Regex → Regex
  | .fail | .empty => .fail
  | .one p => if p c then .empty else .fail
  | .alt r s => .alt (r.deriv c) (s.deriv c)
  | .seq r s =>
    if r.nullable then .alt (.seq (r.deriv c) s) (s.deriv c) else .seq (r.deriv c) s
  | .both r s => .both (r.deriv c) (s.deriv c)
  | .star r => .seq (r.deriv c) (.star r)

/-- Whether an expression matches all of a text. -/
def accepts (r : Regex) : List Char → Bool
  | [] => r.nullable
  | c :: text => (r.deriv c).accepts text

variable {r s : Regex} {p : Char → Bool} {text : List Char} {c : Char}

@[simp] theorem mem_fail : text ∈ language .fail ↔ False := Iff.rfl

@[simp] theorem mem_empty : text ∈ language .empty ↔ text = [] := Iff.rfl

@[simp] theorem mem_one : text ∈ language (.one p) ↔ ∃ c, p c = true ∧ text = [c] := Iff.rfl

@[simp] theorem mem_alt :
    text ∈ language (.alt r s) ↔ text ∈ r.language ∨ text ∈ s.language := Iff.rfl

@[simp] theorem mem_both :
    text ∈ language (.both r s) ↔ text ∈ r.language ∧ text ∈ s.language := Iff.rfl

theorem mem_seq : text ∈ language (.seq r s) ↔
    ∃ a b, text = a ++ b ∧ a ∈ r.language ∧ b ∈ s.language := by
  rw [language, Language.mem_mul]
  constructor
  · rintro ⟨a, ha, b, hb, rfl⟩
    exact ⟨a, b, rfl, ha, hb⟩
  · rintro ⟨a, b, rfl, ha, hb⟩
    exact ⟨a, ha, b, hb, rfl⟩

theorem mem_star : text ∈ language (.star r) ↔
    ∃ parts : List (List Char), text = parts.flatten ∧ ∀ part ∈ parts, part ∈ r.language :=
  Language.mem_kstar

theorem nullable_iff : r.nullable = true ↔ [] ∈ r.language := by
  induction r with
  | fail => simp [nullable]
  | empty => simp [nullable]
  | one p => simp [nullable]
  | alt r s ihr ihs => simp [nullable, ihr, ihs]
  | seq r s ihr ihs =>
    rw [nullable, Bool.and_eq_true, ihr, ihs, mem_seq]
    constructor
    · rintro ⟨hr, hs⟩
      exact ⟨[], [], rfl, hr, hs⟩
    · rintro ⟨a, b, hab, ha, hb⟩
      obtain ⟨rfl, rfl⟩ := List.append_eq_nil_iff.mp hab.symm
      exact ⟨ha, hb⟩
  | both r s ihr ihs => simp [nullable, ihr, ihs]
  | star r => simpa [nullable] using mem_star.mpr ⟨[], rfl, nofun⟩

theorem cons_mem_seq : c :: text ∈ language (.seq r s) ↔
    (∃ a b, text = a ++ b ∧ c :: a ∈ r.language ∧ b ∈ s.language) ∨
      ([] ∈ r.language ∧ c :: text ∈ s.language) := by
  rw [mem_seq]
  constructor
  · rintro ⟨a, b, hab, ha, hb⟩
    cases a with
    | nil => exact .inr ⟨ha, hab ▸ hb⟩
    | cons d a =>
      obtain ⟨rfl, rfl⟩ := List.cons.inj hab
      exact .inl ⟨a, b, rfl, ha, hb⟩
  · rintro (⟨a, b, rfl, ha, hb⟩ | ⟨hr, hs⟩)
    · exact ⟨c :: a, b, rfl, ha, hb⟩
    · exact ⟨[], c :: text, rfl, hr, hs⟩

/-- The first part of a text that is not empty begins with the first character. -/
theorem cons_mem_star : c :: text ∈ language (.star r) ↔
    ∃ a b, text = a ++ b ∧ c :: a ∈ r.language ∧ b ∈ language (.star r) := by
  rw [mem_star]
  constructor
  · rintro ⟨parts, hparts, hall⟩
    induction parts with
    | nil => cases hparts
    | cons part parts ih =>
      rw [List.forall_mem_cons] at hall
      cases part with
      | nil => exact ih hparts hall.2
      | cons d part =>
        obtain ⟨rfl, rfl⟩ := List.cons.inj hparts
        exact ⟨part, parts.flatten, rfl, hall.1, mem_star.mpr ⟨parts, rfl, hall.2⟩⟩
  · rintro ⟨a, b, rfl, ha, hb⟩
    obtain ⟨parts, rfl, hall⟩ := mem_star.mp hb
    exact ⟨(c :: a) :: parts, rfl, List.forall_mem_cons.mpr ⟨ha, hall⟩⟩

theorem mem_deriv : text ∈ language (r.deriv c) ↔ c :: text ∈ r.language := by
  induction r generalizing text with
  | fail => simp [deriv]
  | empty => simp [deriv]
  | one p => cases h : p c <;> simp [deriv, h]
  | alt r s ihr ihs => simp [deriv, ihr, ihs]
  | seq r s ihr ihs =>
    have hseq : text ∈ language (.seq (r.deriv c) s) ↔
        ∃ a b, text = a ++ b ∧ c :: a ∈ r.language ∧ b ∈ s.language := by
      simp only [mem_seq, ihr]
    rw [cons_mem_seq, ← nullable_iff, deriv]
    cases hnullable : r.nullable <;> simp [hseq, ihs]
  | both r s ihr ihs => simp [deriv, ihr, ihs]
  | star r ih =>
    rw [cons_mem_star, deriv, mem_seq]
    simp only [ih]

theorem accepts_iff : r.accepts text = true ↔ text ∈ r.language := by
  induction text generalizing r with
  | nil => exact nullable_iff
  | cons c text ih => rw [accepts, ih, mem_deriv]

/-! ### Abbreviations -/

def char (c : Char) : Regex := .one (· = c)

/-- A literal text. -/
def literal : List Char → Regex
  | [] => .empty
  | c :: text => .seq (char c) (literal text)

def optional (r : Regex) : Regex := .alt .empty r

/-- `r+` -/
def plus (r : Regex) : Regex := .seq r (.star r)

/-- `r{n}` -/
def exactly (r : Regex) : Nat → Regex
  | 0 => .empty
  | n + 1 => .seq r (exactly r n)

/-- `r{0,n}` -/
def atMost (r : Regex) : Nat → Regex
  | 0 => .empty
  | n + 1 => optional (.seq r (atMost r n))

/-- `r{m,n}` -/
def between (r : Regex) (m n : Nat) : Regex := .seq (exactly r m) (atMost r (n - m))

@[simp] theorem mem_char : text ∈ (char c).language ↔ text = [c] := by
  simp [char]

@[simp] theorem mem_literal {word : List Char} : text ∈ (literal word).language ↔ text = word := by
  induction word generalizing text with
  | nil => simp [literal]
  | cons c word ih => simp [literal, mem_seq, ih]

@[simp] theorem mem_optional : text ∈ (optional r).language ↔ text = [] ∨ text ∈ r.language := by
  simp [optional]

theorem mem_plus : text ∈ (plus r).language ↔ ∃ parts : List (List Char), parts ≠ [] ∧
    text = parts.flatten ∧ ∀ part ∈ parts, part ∈ r.language := by
  rw [plus, mem_seq]
  constructor
  · rintro ⟨a, b, rfl, ha, hb⟩
    obtain ⟨parts, rfl, hall⟩ := mem_star.mp hb
    exact ⟨a :: parts, nofun, rfl, List.forall_mem_cons.mpr ⟨ha, hall⟩⟩
  · rintro ⟨parts, hne, rfl, hall⟩
    obtain ⟨a, parts, rfl⟩ := List.exists_cons_of_ne_nil hne
    rw [List.forall_mem_cons] at hall
    exact ⟨a, parts.flatten, rfl, hall.1, mem_star.mpr ⟨parts, rfl, hall.2⟩⟩

theorem mem_exactly {n : Nat} : text ∈ (exactly r n).language ↔ ∃ parts : List (List Char),
    parts.length = n ∧ text = parts.flatten ∧ ∀ part ∈ parts, part ∈ r.language := by
  induction n generalizing text with
  | zero => simp [exactly]
  | succ n ih =>
    rw [exactly, mem_seq]
    constructor
    · rintro ⟨a, b, rfl, ha, hb⟩
      obtain ⟨parts, hlength, rfl, hall⟩ := ih.mp hb
      exact ⟨a :: parts, congrArg (· + 1) hlength, rfl, List.forall_mem_cons.mpr ⟨ha, hall⟩⟩
    · rintro ⟨parts, hlength, rfl, hall⟩
      obtain ⟨a, parts, rfl⟩ := List.exists_cons_of_length_eq_add_one hlength
      rw [List.forall_mem_cons] at hall
      exact ⟨a, parts.flatten, rfl, hall.1,
        ih.mpr ⟨parts, Nat.succ.inj hlength, rfl, hall.2⟩⟩

theorem mem_atMost {n : Nat} : text ∈ (atMost r n).language ↔ ∃ parts : List (List Char),
    parts.length ≤ n ∧ text = parts.flatten ∧ ∀ part ∈ parts, part ∈ r.language := by
  induction n generalizing text with
  | zero => simp [atMost]
  | succ n ih =>
    rw [atMost, mem_optional, mem_seq]
    constructor
    · rintro (rfl | ⟨a, b, rfl, ha, hb⟩)
      · exact ⟨[], Nat.zero_le _, rfl, nofun⟩
      · obtain ⟨parts, hlength, rfl, hall⟩ := ih.mp hb
        exact ⟨a :: parts, Nat.succ_le_succ hlength, rfl, List.forall_mem_cons.mpr ⟨ha, hall⟩⟩
    · rintro ⟨parts, hlength, rfl, hall⟩
      cases parts with
      | nil => exact .inl rfl
      | cons a parts =>
        rw [List.forall_mem_cons] at hall
        exact .inr ⟨a, parts.flatten, rfl, hall.1,
          ih.mpr ⟨parts, Nat.le_of_succ_le_succ hlength, rfl, hall.2⟩⟩

theorem mem_between {m n : Nat} (h : m ≤ n) : text ∈ (between r m n).language ↔
    ∃ parts : List (List Char), (m ≤ parts.length ∧ parts.length ≤ n) ∧ text = parts.flatten ∧
      ∀ part ∈ parts, part ∈ r.language := by
  rw [between, mem_seq]
  constructor
  · rintro ⟨a, b, rfl, ha, hb⟩
    obtain ⟨parts, hlength, rfl, hall⟩ := mem_exactly.mp ha
    obtain ⟨parts', hlength', rfl, hall'⟩ := mem_atMost.mp hb
    refine ⟨parts ++ parts', ?_, by simp, ?_⟩
    · rw [List.length_append]
      omega
    · intro part hpart
      exact (List.mem_append.mp hpart).elim (hall part) (hall' part)
  · rintro ⟨parts, ⟨hm, hn⟩, rfl, hall⟩
    refine ⟨(parts.take m).flatten, (parts.drop m).flatten, ?_, ?_, ?_⟩
    · rw [← List.flatten_append, List.take_append_drop]
    · exact mem_exactly.mpr ⟨parts.take m, by simpa using hm, rfl,
        fun part hpart => hall part (List.mem_of_mem_take hpart)⟩
    · refine mem_atMost.mpr ⟨parts.drop m, ?_, rfl,
        fun part hpart => hall part (List.mem_of_mem_drop hpart)⟩
      rw [List.length_drop]
      omega

/-- Pieces that an expression matches, by what they are made of. -/
theorem exists_pieces {β : Type} {made : β → Prop} {f : β → List Char}
    (h : ∀ piece, piece ∈ r.language ↔ ∃ b, made b ∧ piece = f b) {q : Nat → Prop} :
    (∃ pieces : List (List Char), q pieces.length ∧ text = pieces.flatten ∧
      ∀ piece ∈ pieces, piece ∈ r.language) ↔
      ∃ parts : List β, q parts.length ∧ text = parts.flatMap f ∧ ∀ b ∈ parts, made b := by
  constructor
  · rintro ⟨pieces, hq, rfl, hall⟩
    have hparts : ∃ parts : List β, pieces = parts.map f ∧ ∀ b ∈ parts, made b := by
      clear hq
      induction pieces with
      | nil => exact ⟨[], rfl, nofun⟩
      | cons piece pieces ih =>
        rw [List.forall_mem_cons] at hall
        obtain ⟨b, hb, rfl⟩ := (h piece).mp hall.1
        obtain ⟨parts, rfl, hparts⟩ := ih hall.2
        exact ⟨b :: parts, rfl, List.forall_mem_cons.mpr ⟨hb, hparts⟩⟩
    obtain ⟨parts, rfl, hparts⟩ := hparts
    exact ⟨parts, by simpa using hq, List.flatMap_def.symm, hparts⟩
  · rintro ⟨parts, hq, rfl, hall⟩
    refine ⟨parts.map f, by simpa using hq, List.flatMap_def, fun piece hpiece => ?_⟩
    obtain ⟨b, hb, rfl⟩ := List.mem_map.mp hpiece
    exact (h _).mpr ⟨b, hall b hb, rfl⟩

theorem exists_parts_one {q : Nat → Prop} :
    (∃ parts : List (List Char), q parts.length ∧ text = parts.flatten ∧
      ∀ part ∈ parts, part ∈ language (.one p)) ↔ q text.length ∧ ∀ c ∈ text, p c = true := by
  rw [exists_pieces (f := ([·])) fun _ => mem_one]
  simp only [List.flatMap_singleton']
  constructor
  · rintro ⟨_, hq, rfl, hall⟩
    exact ⟨hq, hall⟩
  · rintro ⟨hq, hall⟩
    exact ⟨text, hq, rfl, hall⟩

theorem mem_star_one : text ∈ language (.star (.one p)) ↔ ∀ c ∈ text, p c = true := by
  rw [mem_star]
  simpa using @exists_parts_one p text fun _ => True

theorem mem_plus_one :
    text ∈ (plus (.one p)).language ↔ text ≠ [] ∧ ∀ c ∈ text, p c = true := by
  rw [mem_plus]
  simpa [List.length_pos_iff] using @exists_parts_one p text fun n => 0 < n

theorem mem_between_one {m n : Nat} (h : m ≤ n) : text ∈ (between (.one p) m n).language ↔
    (m ≤ text.length ∧ text.length ≤ n) ∧ ∀ c ∈ text, p c = true := by
  rw [mem_between h, exists_parts_one (q := fun k => m ≤ k ∧ k ≤ n)]

theorem mem_before {sep : Char} (piece : List Char) : piece ∈ language (.seq (char sep) r) ↔
    ∃ part, part ∈ r.language ∧ piece = sep :: part := by
  simp only [mem_seq, mem_char]
  constructor
  · rintro ⟨_, part, rfl, rfl, hpart⟩
    exact ⟨part, hpart, rfl⟩
  · rintro ⟨part, hpart, rfl⟩
    exact ⟨[sep], part, rfl, rfl, hpart⟩

theorem mem_after {sep : Char} (piece : List Char) : piece ∈ language (.seq r (char sep)) ↔
    ∃ part, part ∈ r.language ∧ piece = part ++ [sep] := by
  simp only [mem_seq, mem_char]
  constructor
  · rintro ⟨part, _, rfl, hpart, rfl⟩
    exact ⟨part, hpart, rfl⟩
  · rintro ⟨part, hpart, rfl⟩
    exact ⟨part, [sep], rfl, hpart, rfl⟩

theorem intercalate_cons (sep : Char) (part : List Char) (parts : List (List Char)) :
    [sep].intercalate (part :: parts) = part ++ parts.flatMap (sep :: ·) := by
  induction parts generalizing part with
  | nil => simp
  | cons next parts ih => rw [List.intercalate_cons_cons, ih]; simp

theorem intercalate_append_singleton (sep : Char) (parts : List (List Char)) (last : List Char) :
    [sep].intercalate (parts ++ [last]) = parts.flatMap (· ++ [sep]) ++ last := by
  induction parts with
  | nil => simp
  | cons part parts ih =>
    rw [List.cons_append]
    cases parts with
    | nil => simp [List.intercalate_cons_cons]
    | cons next parts =>
      rw [List.cons_append, List.intercalate_cons_cons, ← List.cons_append, ih]
      simp

/-- A part, and parts after separators. -/
theorem mem_separated {sep : Char} {s : Regex} {q : Nat → Prop}
    (hs : ∀ b, b ∈ s.language ↔ ∃ pieces : List (List Char), q pieces.length ∧ b = pieces.flatten ∧
      ∀ piece ∈ pieces, piece ∈ language (.seq (char sep) r)) :
    text ∈ language (.seq r s) ↔ ∃ part, ∃ parts : List (List Char), q parts.length ∧
      text = [sep].intercalate (part :: parts) ∧ ∀ p ∈ part :: parts, p ∈ r.language := by
  have hs' := fun b => (hs b).trans (exists_pieces mem_before)
  rw [mem_seq]
  simp only [hs', intercalate_cons, List.forall_mem_cons]
  constructor
  · rintro ⟨part, _, rfl, hpart, parts, hq, rfl, hall⟩
    exact ⟨part, parts, hq, rfl, hpart, hall⟩
  · rintro ⟨part, parts, hq, rfl, hpart, hall⟩
    exact ⟨part, _, rfl, hpart, parts, hq, rfl, hall⟩

theorem mem_separated_star {sep : Char} :
    text ∈ language (.seq r (.star (.seq (char sep) r))) ↔ ∃ parts : List (List Char),
      parts ≠ [] ∧ text = [sep].intercalate parts ∧ ∀ part ∈ parts, part ∈ r.language := by
  rw [mem_separated (q := fun _ => True) fun b => by simpa using mem_star]
  constructor
  · rintro ⟨part, parts, -, htext, hall⟩
    exact ⟨part :: parts, nofun, htext, hall⟩
  · rintro ⟨parts, hne, htext, hall⟩
    obtain ⟨part, parts, rfl⟩ := List.exists_cons_of_ne_nil hne
    exact ⟨part, parts, trivial, htext, hall⟩

theorem mem_separated_exactly {sep : Char} {n : Nat} :
    text ∈ language (.seq r (exactly (.seq (char sep) r) n)) ↔ ∃ parts : List (List Char),
      parts.length = n + 1 ∧ text = [sep].intercalate parts ∧
        ∀ part ∈ parts, part ∈ r.language := by
  rw [mem_separated (q := (· = n)) fun b => mem_exactly]
  constructor
  · rintro ⟨part, parts, hlength, htext, hall⟩
    exact ⟨part :: parts, congrArg (· + 1) hlength, htext, hall⟩
  · rintro ⟨parts, hlength, htext, hall⟩
    obtain ⟨part, parts, rfl⟩ := List.exists_cons_of_length_eq_add_one hlength
    exact ⟨part, parts, Nat.succ.inj hlength, htext, hall⟩

/-- Parts before separators, and a last one. -/
theorem mem_plus_after {sep : Char} : text ∈ language (.seq (plus (.seq r (char sep))) s) ↔
    ∃ (parts : List (List Char)) (last : List Char), parts ≠ [] ∧
      text = [sep].intercalate (parts ++ [last]) ∧ (∀ part ∈ parts, part ∈ r.language) ∧
        last ∈ s.language := by
  have hplus : ∀ a, a ∈ (plus (.seq r (char sep))).language ↔ ∃ parts : List (List Char),
      0 < parts.length ∧ a = parts.flatMap (· ++ [sep]) ∧ ∀ part ∈ parts, part ∈ r.language := by
    intro a
    rw [mem_plus, ← exists_pieces mem_after (q := (0 < ·))]
    simp only [List.length_pos_iff]
  rw [mem_seq]
  simp only [hplus, intercalate_append_singleton, List.length_pos_iff]
  constructor
  · rintro ⟨_, last, rfl, ⟨parts, hne, rfl, hall⟩, hlast⟩
    exact ⟨parts, last, hne, rfl, hall, hlast⟩
  · rintro ⟨parts, last, hne, rfl, hall, hlast⟩
    exact ⟨_, last, rfl, ⟨parts, hne, rfl, hall⟩, hlast⟩

end Regex

end Dqx.Lib
