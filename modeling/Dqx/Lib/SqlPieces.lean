import Dqx.Lib.SqlLexer

/-! The comments, the quoted texts and the other characters of a SQL text, read from left to right.
A quoted text is the longest one that begins where it does; a quote without such a text is a
character like any other. -/

namespace Dqx.Lib.Sql

inductive Piece where
  | comment (text : Text)
  | quoted (text : Text)
  | other (c : Char)

def Piece.text : Piece → Text
  | .comment text => text
  | .quoted text => text
  | .other c => [c]

/-- The text of some pieces. -/
def textOf (pieces : List Piece) : Text :=
  pieces.flatMap Piece.text

/-- The rules in which readers of SQL differ. -/
structure Rules where
  /-- Whether a backslash in a string escapes the character behind it. -/
  escapes : Bool
  /-- What follows a block comment, from behind its opening on, if it is one. -/
  block : Text → Option Text
  block_suffix : ∀ {text rest}, block text = some rest → rest <:+ text

/-- What follows the first end of a comment. -/
def afterFirstEnd : Text → Option Text
  | [] => none
  | c :: text => if c = '*' ∧ text.head? = some '/' then some text.tail else afterFirstEnd text

theorem afterFirstEnd_suffix {text rest : Text} (h : afterFirstEnd text = some rest) :
    rest <:+ text := by
  induction text with
  | nil => cases h
  | cons c text ih =>
    rw [afterFirstEnd] at h
    split at h
    · obtain rfl := Option.some.inj h
      exact (List.tail_suffix text).trans (List.suffix_cons c text)
    · exact (ih h).trans (List.suffix_cons c text)

/-- What follows a comment that comments are nested in, some of them open. A comment that is left open
goes on to the end. -/
def afterNested : Nat → Text → Text
  | depth, '*' :: '/' :: text =>
    match depth with
    | 0 => text
    | depth + 1 => afterNested depth text
  | depth, '/' :: '*' :: text => afterNested (depth + 1) text
  | depth, _ :: text => afterNested depth text
  | _, [] => []

theorem afterNested_suffix (depth : Nat) (text : Text) : afterNested depth text <:+ text := by
  induction depth, text using afterNested.induct with
  | case1 text => exact (List.suffix_cons '/' text).trans (List.suffix_cons '*' _)
  | case2 text depth ih => exact ih.trans ((List.suffix_cons '/' text).trans (List.suffix_cons '*' _))
  | case3 depth text ih => exact ih.trans ((List.suffix_cons '*' text).trans (List.suffix_cons '/' _))
  | case4 depth c text _ _ ih =>
    rw [afterNested]
    · exact ih.trans (List.suffix_cons c text)
    all_goals assumption
  | case5 => exact List.suffix_rfl

/-- The text between the quotes of a quoted text. -/
inductive QuotedBody (quote : Char) (escapes : Bool) : Text → Prop
  | nil : QuotedBody quote escapes []
  | plain {c : Char} {body : Text} (hquote : c ≠ quote) (hescape : ¬(escapes = true ∧ c = '\\')) :
    QuotedBody quote escapes body → QuotedBody quote escapes (c :: body)
  | doubled {body : Text} :
    QuotedBody quote escapes body → QuotedBody quote escapes (quote :: quote :: body)
  | escaped {c : Char} {body : Text} (hescapes : escapes = true) :
    QuotedBody quote escapes body → QuotedBody quote escapes ('\\' :: c :: body)

/-- `body` is the longest one that a quote ends in the text behind the first quote. -/
structure Closes (quote : Char) (escapes : Bool) (text body rest : Text) : Prop where
  text_eq : text = body ++ quote :: rest
  quotedBody : QuotedBody quote escapes body
  longest : ∀ body' rest', text = body' ++ quote :: rest' → QuotedBody quote escapes body' →
    body'.length ≤ body.length

def isQuote (c : Char) : Bool :=
  c = '\'' || c = '"' || c = '`'

namespace Rules

/-- The rules of Spark. -/
def spark : Rules :=
  ⟨true, fun text => some (afterNested 0 text), fun h =>
    Option.some.inj h ▸ afterNested_suffix 0 _⟩

/-- Whether a backslash escapes the character behind it between quotes of a kind. -/
def escapesIn (rules : Rules) (quote : Char) : Bool :=
  rules.escapes && quote ≠ '`'

/-- Whether a comment or a quoted text begins with a character. -/
def Begins (rules : Rules) (c : Char) (text : Text) : Prop :=
  c = '-' ∧ text.head? = some '-' ∨
    c = '/' ∧ text.head? = some '*' ∧ (rules.block text.tail).isSome ∨
    isQuote c = true ∧ ∃ body rest, Closes c (rules.escapesIn c) text body rest

end Rules

/-- The pieces of a text. -/
inductive Tokenizes (rules : Rules) : Text → List Piece → Prop
  | nil : Tokenizes rules [] []
  | line {body rest : Text} {pieces : List Piece} (hbody : '\n' ∉ body)
    (hrest : ∀ c ∈ rest.head?, c = '\n') (h : Tokenizes rules rest pieces) :
    Tokenizes rules ('-' :: '-' :: (body ++ rest)) (.comment ('-' :: '-' :: body) :: pieces)
  | block {body rest : Text} {pieces : List Piece} (hblock : rules.block (body ++ rest) = some rest)
    (h : Tokenizes rules rest pieces) :
    Tokenizes rules ('/' :: '*' :: (body ++ rest)) (.comment ('/' :: '*' :: body) :: pieces)
  | quoted {quote : Char} {body rest : Text} {pieces : List Piece} (hquote : isQuote quote = true)
    (hcloses : Closes quote (rules.escapesIn quote) (body ++ quote :: rest) body rest)
    (h : Tokenizes rules rest pieces) :
    Tokenizes rules (quote :: (body ++ quote :: rest))
      (.quoted (quote :: (body ++ [quote])) :: pieces)
  | other {c : Char} {text : Text} {pieces : List Piece} (hother : ¬rules.Begins c text)
    (h : Tokenizes rules text pieces) : Tokenizes rules (c :: text) (.other c :: pieces)

/-! ### Quoted texts -/

variable {quote c d : Char} {escapes : Bool} {text body rest : Text}

theorem quotedBody_doubled_iff (hquote : quote ≠ '\\') :
    QuotedBody quote escapes (quote :: text) ↔
      ∃ body, text = quote :: body ∧ QuotedBody quote escapes body := by
  constructor
  · intro h
    cases h with
    | plain hne => exact absurd rfl hne
    | doubled h => exact ⟨_, rfl, h⟩
    | escaped => exact absurd rfl hquote
  · rintro ⟨body, rfl, h⟩
    exact .doubled h

theorem quotedBody_escaped_iff (hescapes : escapes = true) (hquote : quote ≠ '\\') :
    QuotedBody quote escapes ('\\' :: text) ↔
      ∃ c body, text = c :: body ∧ QuotedBody quote escapes body := by
  constructor
  · intro h
    cases h with
    | plain _ hescape => exact absurd ⟨hescapes, rfl⟩ hescape
    | doubled => exact absurd rfl hquote
    | escaped _ h => exact ⟨_, _, rfl, h⟩
  · rintro ⟨c, body, rfl, h⟩
    exact .escaped hescapes h

theorem quotedBody_plain_iff (hquote : c ≠ quote) (hescape : ¬(escapes = true ∧ c = '\\')) :
    QuotedBody quote escapes (c :: text) ↔ QuotedBody quote escapes text := by
  constructor
  · intro h
    cases h with
    | plain _ _ h => exact h
    | doubled => exact absurd rfl hquote
    | escaped hescapes => exact absurd ⟨hescapes, rfl⟩ hescape
  · exact .plain hquote hescape

/-- No body of a quoted text is ended in the text. -/
def Unclosed (quote : Char) (escapes : Bool) (text : Text) : Prop :=
  ∀ body rest, text = body ++ quote :: rest → ¬QuotedBody quote escapes body

theorem Closes.not_unclosed (h : Closes quote escapes text body rest) :
    ¬Unclosed quote escapes text :=
  fun unclosed => unclosed body rest h.text_eq h.quotedBody

/-- There is one longest body. -/
theorem Closes.unique {body' rest' : Text} (h : Closes quote escapes text body rest)
    (h' : Closes quote escapes text body' rest') : body = body' ∧ rest = rest' := by
  have hlength : body.length = body'.length :=
    Nat.le_antisymm (h'.longest _ _ h.text_eq h.quotedBody) (h.longest _ _ h'.text_eq h'.quotedBody)
  have happend : body ++ quote :: rest = body' ++ quote :: rest' := h.text_eq ▸ h'.text_eq
  obtain ⟨hbody, hrest⟩ := List.append_inj happend hlength
  exact ⟨hbody, (List.cons.inj hrest).2⟩

theorem unclosed_nil : Unclosed quote escapes [] := by
  intro body rest h
  simp at h

/-- What a text with a body has at its beginning, if it is not the quote that ends it. -/
theorem exists_of_cons_eq (hquote : c ≠ quote) (h : c :: text = body ++ quote :: rest) :
    ∃ after, body = c :: after ∧ text = after ++ quote :: rest := by
  cases body with
  | nil => exact absurd (List.cons.inj h).1 hquote
  | cons d after =>
    obtain ⟨hc, htext⟩ := List.cons.inj h
    exact ⟨after, by rw [hc], htext⟩

/-- A character that is neither a quote nor escapes anything belongs to the body. -/
theorem Closes.plain (hquote : c ≠ quote) (hescape : ¬(escapes = true ∧ c = '\\'))
    (h : Closes quote escapes text body rest) :
    Closes quote escapes (c :: text) (c :: body) rest where
  text_eq := by rw [h.text_eq, List.cons_append]
  quotedBody := .plain hquote hescape h.quotedBody
  longest := by
    intro body' rest' htext hbody
    obtain ⟨after, rfl, heq⟩ := exists_of_cons_eq hquote htext
    have hle := h.longest after rest' heq ((quotedBody_plain_iff hquote hescape).mp hbody)
    simpa using hle

theorem Unclosed.plain (hquote : c ≠ quote) (hescape : ¬(escapes = true ∧ c = '\\'))
    (h : Unclosed quote escapes text) : Unclosed quote escapes (c :: text) := by
  intro body' rest' htext hbody
  obtain ⟨after, rfl, heq⟩ := exists_of_cons_eq hquote htext
  exact h after rest' heq ((quotedBody_plain_iff hquote hescape).mp hbody)

/-- What a text whose body begins with an escape has behind it. -/
theorem exists_of_escape_eq (hescapes : escapes = true) (hquote : quote ≠ '\\')
    (h : '\\' :: text = body ++ quote :: rest) (hbody : QuotedBody quote escapes body) :
    ∃ c after, body = '\\' :: c :: after ∧ text = c :: (after ++ quote :: rest) ∧
      QuotedBody quote escapes after := by
  obtain ⟨escaped, rfl, htext⟩ := exists_of_cons_eq (Ne.symm hquote) h
  obtain ⟨c, after, rfl, hafter⟩ := (quotedBody_escaped_iff hescapes hquote).mp hbody
  exact ⟨c, after, rfl, htext, hafter⟩

theorem Closes.escaped (hescapes : escapes = true) (hquote : quote ≠ '\\')
    (h : Closes quote escapes text body rest) :
    Closes quote escapes ('\\' :: c :: text) ('\\' :: c :: body) rest where
  text_eq := by rw [h.text_eq, List.cons_append, List.cons_append]
  quotedBody := .escaped hescapes h.quotedBody
  longest := by
    intro body' rest' htext hbody
    obtain ⟨d, after, rfl, heq, hafter⟩ := exists_of_escape_eq hescapes hquote htext hbody
    have hle := h.longest after rest' (List.cons.inj heq).2 hafter
    simpa using hle

theorem Unclosed.escaped (hescapes : escapes = true) (hquote : quote ≠ '\\')
    (h : Unclosed quote escapes text) : Unclosed quote escapes ('\\' :: c :: text) := by
  intro body' rest' htext hbody
  obtain ⟨d, after, rfl, heq, hafter⟩ := exists_of_escape_eq hescapes hquote htext hbody
  exact h after rest' (List.cons.inj heq).2 hafter

theorem unclosed_escape (hescapes : escapes = true) (hquote : quote ≠ '\\') :
    Unclosed quote escapes ['\\'] := by
  intro body' rest' htext hbody
  obtain ⟨d, after, -, heq, -⟩ := exists_of_escape_eq hescapes hquote htext hbody
  cases heq

/-- A body that begins with a quote has a second one behind it. -/
theorem exists_of_quote_eq (hquote : quote ≠ '\\') (h : quote :: text = body ++ quote :: rest)
    (hbody : QuotedBody quote escapes body) : body = [] ∨
      ∃ after, body = quote :: quote :: after ∧ text = quote :: (after ++ quote :: rest) ∧
        QuotedBody quote escapes after := by
  cases body with
  | nil => exact .inl rfl
  | cons d second =>
    obtain ⟨rfl, htext⟩ := List.cons.inj h
    obtain ⟨after, rfl, hafter⟩ := (quotedBody_doubled_iff hquote).mp hbody
    exact .inr ⟨after, rfl, htext, hafter⟩

/-- Two quotes are one of the body if the text goes on to its end. -/
theorem Closes.doubled (hquote : quote ≠ '\\') (h : Closes quote escapes text body rest) :
    Closes quote escapes (quote :: quote :: text) (quote :: quote :: body) rest where
  text_eq := by rw [h.text_eq, List.cons_append, List.cons_append]
  quotedBody := .doubled h.quotedBody
  longest := by
    intro body' rest' htext hbody
    rcases exists_of_quote_eq hquote htext hbody with rfl | ⟨after, rfl, heq, hafter⟩
    · exact Nat.zero_le _
    · have hle := h.longest after rest' (List.cons.inj heq).2 hafter
      simpa using hle

/-- The first quote ends the body where no body goes on behind it. -/
theorem closes_quote (hquote : quote ≠ '\\')
    (h : ∀ after, text = quote :: after → Unclosed quote escapes after) :
    Closes quote escapes (quote :: text) [] text where
  text_eq := rfl
  quotedBody := .nil
  longest := by
    intro body' rest' htext hbody
    rcases exists_of_quote_eq hquote htext hbody with rfl | ⟨after, rfl, heq, hafter⟩
    · exact Nat.le_refl _
    · exact absurd hafter (h _ heq after rest' rfl)

theorem QuotedBody.append {after : Text} (h : QuotedBody quote escapes body)
    (hafter : QuotedBody quote escapes after) : QuotedBody quote escapes (body ++ after) := by
  induction h with
  | nil => exact hafter
  | plain hquote hescape _ ih => exact .plain hquote hescape ih
  | doubled _ ih => exact .doubled ih
  | escaped hescapes _ ih => exact .escaped hescapes ih

/-- A quoted text that is followed by its quote cannot go on with it. -/
theorem Closes.unclosed {after : Text} (h : Closes quote escapes text body (quote :: after)) :
    Unclosed quote escapes after := by
  intro body' rest' hafter hbody'
  have hle := h.longest (body ++ quote :: quote :: body') rest' (by rw [h.text_eq, hafter]; simp)
    (h.quotedBody.append (.doubled hbody'))
  rw [List.length_append, List.length_cons] at hle
  omega

/-- A body that is not followed by a second quote is the longest one. -/
theorem QuotedBody.closes (hquote : quote ≠ '\\') (hrest : rest.head? ≠ some quote)
    (h : QuotedBody quote escapes body) :
    Closes quote escapes (body ++ quote :: rest) body rest := by
  induction h with
  | nil =>
    refine closes_quote hquote fun after heq => ?_
    rw [heq] at hrest
    exact absurd rfl hrest
  | plain hc hescape _ ih => exact ih.plain hc hescape
  | doubled _ ih => exact ih.doubled hquote
  | escaped hescapes _ ih => exact ih.escaped hescapes hquote

/-! ### Reading a text -/

variable {rules : Rules} {pieces : List Piece}

/-- A text can be read. -/
theorem exists_tokenizes (rules : Rules) (text : Text) : ∃ pieces, Tokenizes rules text pieces := by
  induction h : text.length using Nat.strong_induction_on generalizing text with
  | _ n ih =>
  cases text with
  | nil => exact ⟨[], .nil⟩
  | cons c text =>
    have hshorter : ∀ rest : Text, rest.length ≤ text.length →
        ∃ pieces, Tokenizes rules rest pieces := fun rest hrest =>
      ih rest.length (by simp at h; omega) rest rfl
    by_cases hbegins : rules.Begins c text
    · rcases hbegins with ⟨rfl, hhead⟩ | ⟨rfl, hhead, hblock⟩ | ⟨hquote, body, rest, hcloses⟩
      · obtain ⟨after, rfl⟩ := List.head?_eq_some_iff.mp hhead
        have hsplit : after = after.takeWhile (· ≠ '\n') ++ after.dropWhile (· ≠ '\n') :=
          (List.takeWhile_append_dropWhile).symm
        have hlength := (List.dropWhile_suffix (l := after) (· ≠ '\n')).length_le
        obtain ⟨pieces, hpieces⟩ := hshorter (after.dropWhile (· ≠ '\n'))
          (Nat.le_succ_of_le hlength)
        rw [hsplit]
        refine ⟨_, .line (fun hmem => ?_) (fun d hd => ?_) hpieces⟩
        · simpa using List.all_eq_true.mp List.all_takeWhile _ hmem
        · have hnot := List.head?_dropWhile_not (· ≠ '\n') after
          rw [hd] at hnot
          simpa using hnot
      · obtain ⟨after, rfl⟩ := List.head?_eq_some_iff.mp hhead
        obtain ⟨rest, hrest⟩ := Option.isSome_iff_exists.mp hblock
        obtain ⟨body, hbody⟩ := rules.block_suffix hrest
        rw [List.tail_cons] at hbody hrest
        subst hbody
        obtain ⟨pieces, hpieces⟩ := hshorter rest (by simp; omega)
        exact ⟨_, .block hrest hpieces⟩
      · obtain rfl := hcloses.text_eq
        obtain ⟨pieces, hpieces⟩ := hshorter rest (by simp; omega)
        exact ⟨_, .quoted hquote hcloses hpieces⟩
    · obtain ⟨pieces, hpieces⟩ := hshorter text (Nat.le_refl _)
      exact ⟨_, .other hbegins hpieces⟩

theorem Tokenizes.text_eq {text : Text} (h : Tokenizes rules text pieces) :
    text = textOf pieces := by
  induction h with
  | nil => rfl
  | line _ _ _ ih | block _ _ ih => rw [ih]; rfl
  | quoted _ _ _ ih => rw [ih]; simp [textOf, Piece.text]
  | other _ _ ih => rw [ih]; rfl

/-! ### The pieces one by one -/

/-- What the reading of a piece says about the text behind it. -/
def Piece.Stands (rules : Rules) (rest : Text) : Piece → Prop
  | .comment text =>
    (∃ body, text = '-' :: '-' :: body ∧ '\n' ∉ body ∧ ∀ c ∈ rest.head?, c = '\n') ∨
      ∃ body, text = '/' :: '*' :: body ∧ rules.block (body ++ rest) = some rest
  | .quoted text =>
    ∃ quote body, text = quote :: (body ++ [quote]) ∧ isQuote quote = true ∧
      Closes quote (rules.escapesIn quote) (body ++ quote :: rest) body rest
  | .other c => ¬rules.Begins c rest

/-- What is behind a piece is read on its own. -/
theorem Tokenizes.of_cons {piece : Piece} {text : Text} (h : Tokenizes rules text (piece :: pieces)) :
    ∃ rest, text = piece.text ++ rest ∧ piece.Stands rules rest ∧ Tokenizes rules rest pieces := by
  cases h with
  | line hbody hrest h => exact ⟨_, rfl, .inl ⟨_, rfl, hbody, hrest⟩, h⟩
  | block hblock h => exact ⟨_, rfl, .inr ⟨_, rfl, hblock⟩, h⟩
  | quoted hquote hcloses h =>
    exact ⟨_, by simp [Piece.text], ⟨_, _, rfl, hquote, hcloses⟩, h⟩
  | other hother h => exact ⟨_, rfl, hother, h⟩

/-- Two readings with the same pieces agree on what is behind each of them. -/
theorem Tokenizes.of_cons_append {piece : Piece} {rest : Text}
    (h : Tokenizes rules (piece.text ++ rest) (piece :: pieces)) :
    piece.Stands rules rest ∧ Tokenizes rules rest pieces := by
  obtain ⟨rest', heq, hstands, htail⟩ := h.of_cons
  obtain rfl := List.append_cancel_left heq
  exact ⟨hstands, htail⟩

end Dqx.Lib.Sql
