import Dqx.Utils.SqlText

/-! The placeholders of a SQL template, and which texts are left as they are. -/

namespace Dqx.Utils

open Lib.Sql

/-- The inside of the placeholder that a text begins with, and what follows it. -/
def placeholderAt : Text → Option (Text × Text)
  | '\x7b' :: '\x7b' :: text =>
    match text.dropWhile (· ≠ '\x7d') with
    | '\x7d' :: '\x7d' :: rest => some (text.takeWhile (· ≠ '\x7d'), rest)
    | _ => none
  | _ => none

/-- `inside.strip("{} \t")` -/
def placeholderName (inside : Text) : Text :=
  let outer (c : Char) := "\x7b\x7d \t".toList.contains c
  ((inside.dropWhile outer).reverse.dropWhile outer).reverse

/-- A template whose placeholders are replaced where a variable has their name. -/
def replaceFrom (values : Text → Option Text) : Nat → Text → Text
  | _, [] => []
  | skip + 1, _ :: text => replaceFrom values skip text
  | 0, c :: text =>
    match placeholderAt (c :: text) with
    | none => c :: replaceFrom values 0 text
    | some (inside, rest) =>
      let length := text.length - rest.length
      (values (placeholderName inside)).getD (c :: text.take length) ++
        replaceFrom values length text

def replaceTemplate (text : Text) (values : Text → Option Text) : Text :=
  replaceFrom values 0 text

/-- Wherever it stands, a text becomes another one. -/
def Becomes (values : Text → Option Text) (text new : Text) : Prop :=
  ∀ rest, replaceFrom values 0 (text ++ rest) = new ++ replaceFrom values 0 rest

/-- Wherever it stands, a text is left as it is. -/
def Inert (values : Text → Option Text) (text : Text) : Prop := Becomes values text text

/-- Two opening braces, one behind the other. -/
def hasOpening : Text → Bool
  | [] => false
  | c :: text => c = '\x7b' && text.head? = some '\x7b' || hasOpening text

variable {values : Text → Option Text}

theorem Becomes.replaceTemplate {text new : Text} (h : Becomes values text new) :
    replaceTemplate text values = new := by
  have hend := h []
  simp only [List.append_nil, replaceFrom] at hend
  exact hend

theorem Becomes.append {a a' b b' : Text} (ha : Becomes values a a') (hb : Becomes values b b') :
    Becomes values (a ++ b) (a' ++ b') := by
  intro rest
  rw [List.append_assoc, ha, hb, List.append_assoc]

theorem Inert.intercalate {separator : Text} (hseparator : Inert values separator)
    {parts : List Text} (hparts : ∀ part ∈ parts, Inert values part) :
    Inert values (separator.intercalate parts) := by
  induction parts with
  | nil => exact fun rest => rfl
  | cons part parts ih =>
    obtain ⟨hpart, hrest⟩ := List.forall_mem_cons.mp hparts
    cases parts with
    | nil => simpa using hpart
    | cons next parts =>
      rw [List.intercalate_cons_cons]
      exact (hpart.append hseparator).append (ih hrest)

theorem replaceFrom_cons {c : Char} {text : Text} (h : placeholderAt (c :: text) = none) :
    replaceFrom values 0 (c :: text) = c :: replaceFrom values 0 text := by
  rw [replaceFrom, h]

theorem placeholderAt_eq_none {c : Char} {text : Text}
    (h : ¬ (c = '\x7b' ∧ text.head? = some '\x7b')) : placeholderAt (c :: text) = none := by
  unfold placeholderAt
  split
  · simp_all
  · rfl

/-- A text without two opening braces is inert where no brace follows it. -/
theorem replaceFrom_append {text rest : Text} (opening : hasOpening text = false)
    (hrest : text.getLast? = some '\x7b' → rest.head? ≠ some '\x7b') :
    replaceFrom values 0 (text ++ rest) = text ++ replaceFrom values 0 rest := by
  induction text with
  | nil => rfl
  | cons c text ih =>
    obtain ⟨hc, htext⟩ : ¬ (c = '\x7b' ∧ text.head? = some '\x7b') ∧ hasOpening text = false := by
      simpa [hasOpening] using opening
    cases text with
    | nil =>
      have hhead : ¬ (c = '\x7b' ∧ rest.head? = some '\x7b') := by
        rintro ⟨rfl, hhead⟩
        exact hrest rfl hhead
      exact replaceFrom_cons (placeholderAt_eq_none hhead)
    | cons d text =>
      rw [List.cons_append, replaceFrom_cons (placeholderAt_eq_none (by simpa using hc)),
        ih htext (by simpa using hrest)]
      rfl

theorem inert_of_hasOpening {text : Text} (opening : hasOpening text = false)
    (hlast : text.getLast? ≠ some '\x7b') : Inert values text :=
  fun _ => replaceFrom_append opening fun h => absurd h hlast

theorem hasOpening_eq_false {text : Text} (h : '\x7b' ∉ text) : hasOpening text = false := by
  induction text with
  | nil => rfl
  | cons c text ih =>
    obtain ⟨hc, htext⟩ : '\x7b' ≠ c ∧ '\x7b' ∉ text := by simpa using h
    simp [hasOpening, Ne.symm hc, ih htext]

theorem inert_of_notMem {text : Text} (h : '\x7b' ∉ text) : Inert values text := by
  refine inert_of_hasOpening (hasOpening_eq_false h) fun hlast => ?_
  exact h (List.mem_of_getLast? hlast)

theorem inert_of_chars {chars : Text} (h : '\x7b' ∉ chars) :
    Inert values (String.ofList chars).toList := by
  rw [String.toList_ofList]
  exact inert_of_notMem h

theorem head?_escape (value : Text) :
    (escapeSqlStringLiteral value).head? = some '\x7b' ↔ value.head? = some '\x7b' := by
  cases value with
  | nil => rfl
  | cons c value =>
    rw [escapeSqlStringLiteral_cons]
    split
    · rename_i hc
      rcases hc with rfl | rfl <;> simp
    · simp

theorem hasOpening_escape {value : Text} (h : hasOpening value = false) :
    hasOpening (escapeSqlStringLiteral value) = false := by
  induction value with
  | nil => rfl
  | cons c value ih =>
    obtain ⟨hc, hvalue⟩ : ¬ (c = '\x7b' ∧ value.head? = some '\x7b') ∧
        hasOpening value = false := by
      simpa [hasOpening] using h
    rw [escapeSqlStringLiteral_cons]
    split
    · rename_i hspecial
      rcases hspecial with rfl | rfl <;> simp [hasOpening, ih hvalue]
    · simp only [List.cons_append, List.nil_append, hasOpening, ih hvalue, head?_escape]
      simpa using hc

theorem inert_literal {value : Text} (h : hasOpening value = false) :
    Inert values ('\'' :: (escapeSqlStringLiteral value ++ ['\''])) := by
  intro rest
  have hbody : replaceFrom values 0 (escapeSqlStringLiteral value ++ ('\'' :: rest)) =
      escapeSqlStringLiteral value ++ replaceFrom values 0 ('\'' :: rest) :=
    replaceFrom_append (hasOpening_escape h) fun _ => by simp
  have hquote : ∀ text, replaceFrom values 0 ('\'' :: text) = '\'' :: replaceFrom values 0 text :=
    fun text => replaceFrom_cons rfl
  rw [List.cons_append, List.append_assoc, List.singleton_append, hquote, hbody, hquote]
  simp

end Dqx.Utils
