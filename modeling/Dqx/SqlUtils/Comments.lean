import Dqx.Utils.SqlSafety

/-! The comments that `strip_sql_line_comments` takes out of a query, and what the search for
forbidden words finds behind them. -/

namespace Dqx.SqlUtils

open Lib.Sql Utils

/-- Where the scan is. -/
inductive Scan where
  | code
  | quoted (quote : Char)
  | line
  | block

def stripFrom : Scan → Text → Text
  | .code, '-' :: '-' :: text => stripFrom .line text
  | .code, '/' :: '*' :: text => stripFrom .block text
  | .code, c :: text => c :: stripFrom (if isQuote c then .quoted c else .code) text
  | .quoted quote, c :: d :: text =>
    if c = quote then
      if d = quote then c :: d :: stripFrom (.quoted quote) text
      else c :: stripFrom .code (d :: text)
    else c :: stripFrom (.quoted quote) (d :: text)
  | .quoted _, [c] => [c]
  | .line, c :: text => if c = '\n' then c :: stripFrom .code text else stripFrom .line text
  | .block, '*' :: '/' :: text => stripFrom .code text
  | .block, _ :: text => stripFrom .block text
  | _, [] => []

def stripSqlLineComments (sql : Text) : Text :=
  stripFrom .code sql

/-- What the scan takes for comments and quoted texts: a backslash escapes nothing, and a block
comment goes on to its first end. -/
def plain : Rules where
  escapes := false
  block text := some ((afterFirstEnd text).getD [])
  block_suffix h := by
    obtain rfl := Option.some.inj h
    cases hafter : afterFirstEnd _ with
    | none => exact List.nil_suffix
    | some rest => exact afterFirstEnd_suffix hafter

/-! ### The scan piece by piece -/

theorem stripFrom_line {body rest : Text} (hbody : '\n' ∉ body)
    (hrest : ∀ c ∈ rest.head?, c = '\n') :
    stripFrom .line (body ++ rest) = stripFrom .code rest := by
  induction body with
  | nil =>
    cases rest with
    | nil => rfl
    | cons c rest =>
      obtain rfl := hrest c rfl
      rfl
  | cons c body ih =>
    obtain ⟨hc, hbody⟩ := List.ne_and_not_mem_of_not_mem_cons hbody
    rw [List.cons_append, stripFrom, if_neg (Ne.symm hc), ih hbody]

theorem stripFrom_block (text : Text) :
    stripFrom .block text = stripFrom .code ((afterFirstEnd text).getD []) := by
  induction text with
  | nil => rfl
  | cons c text ih =>
    rw [afterFirstEnd]
    split
    · next hends =>
      obtain ⟨rfl, hhead⟩ := hends
      obtain ⟨rest, rfl⟩ := List.head?_eq_some_iff.mp hhead
      rfl
    · next hends =>
      rw [stripFrom, ih]
      rintro rest rfl rfl
      exact hends ⟨rfl, rfl⟩

theorem stripFrom_quoted_cons {quote c : Char} (hc : c ≠ quote) (text : Text) :
    stripFrom (.quoted quote) (c :: text) = c :: stripFrom (.quoted quote) text := by
  cases text with
  | nil => rfl
  | cons d text => rw [stripFrom, if_neg hc]

theorem stripFrom_quoted_doubled (quote : Char) (text : Text) :
    stripFrom (.quoted quote) (quote :: quote :: text) =
      quote :: quote :: stripFrom (.quoted quote) text := by
  rw [stripFrom, if_pos rfl, if_pos rfl]

theorem stripFrom_quoted_end {quote : Char} {rest : Text} (h : rest.head? ≠ some quote) :
    stripFrom (.quoted quote) (quote :: rest) = quote :: stripFrom .code rest := by
  cases rest with
  | nil => rfl
  | cons d rest =>
    have hd : d ≠ quote := by simpa using h
    rw [stripFrom.eq_4, if_pos rfl, if_neg hd]

theorem stripFrom_quotedBody {quote : Char} {body : Text} (h : QuotedBody quote false body)
    (text : Text) :
    stripFrom (.quoted quote) (body ++ text) = body ++ stripFrom (.quoted quote) text := by
  induction h with
  | nil => rfl
  | plain hc _ _ ih => rw [List.cons_append, stripFrom_quoted_cons hc, ih]; rfl
  | doubled _ ih => rw [List.cons_append, List.cons_append, stripFrom_quoted_doubled, ih]; rfl
  | escaped hescapes => cases hescapes

/-- Without escapes, nothing closes a text that has no quote. -/
theorem quote_not_mem_of_unclosed {quote : Char} {text : Text} (h : Unclosed quote false text) :
    quote ∉ text := by
  induction text with
  | nil => nofun
  | cons c text ih =>
    have hc : c ≠ quote := by
      rintro rfl
      exact h [] text rfl .nil
    have htext : Unclosed quote false text := fun body rest heq hbody =>
      h (c :: body) rest (by rw [heq, List.cons_append]) (.plain hc (by simp) hbody)
    exact List.not_mem_cons_of_ne_of_not_mem (Ne.symm hc) (ih htext)

theorem stripFrom_quoted_eq_self {quote : Char} {text : Text} (h : quote ∉ text) :
    stripFrom (.quoted quote) text = text := by
  induction text with
  | nil => rfl
  | cons c text ih =>
    obtain ⟨hc, htext⟩ := List.ne_and_not_mem_of_not_mem_cons h
    rw [stripFrom_quoted_cons (Ne.symm hc), ih htext]

/-- What the scan leaves of some pieces. Behind a quote without an end, it leaves everything. -/
def kept : List Piece → Text
  | [] => []
  | .comment _ :: pieces => kept pieces
  | .quoted text :: pieces =>
    text ++ if (textOf pieces).head? = text.getLast? then textOf pieces else kept pieces
  | .other c :: pieces => c :: if isQuote c then textOf pieces else kept pieces

theorem stripFrom_other {c : Char} {text : Text} (h : ¬plain.Begins c text)
    (hquote : isQuote c = false) : stripFrom .code (c :: text) = c :: stripFrom .code text := by
  rw [stripFrom, hquote]
  · rfl
  · rintro rest rfl rfl
    exact h (.inl ⟨rfl, rfl⟩)
  · rintro rest rfl rfl
    exact h (.inr (.inl ⟨rfl, rfl, rfl⟩))

theorem stripFrom_quote {quote : Char} (h : isQuote quote = true) (text : Text) :
    stripFrom .code (quote :: text) = quote :: stripFrom (.quoted quote) text := by
  have hkinds : quote = '\'' ∨ quote = '"' ∨ quote = '`' := by
    simpa [isQuote, or_assoc] using h
  rcases hkinds with rfl | rfl | rfl <;> rfl

theorem stripSqlLineComments_eq_kept {sql : Text} {pieces : List Piece}
    (h : Tokenizes plain sql pieces) : stripSqlLineComments sql = kept pieces := by
  rw [stripSqlLineComments]
  induction h with
  | nil => rfl
  | line hbody hrest _ ih => rw [stripFrom, stripFrom_line hbody hrest, ih, kept]
  | block hblock _ ih =>
    rw [stripFrom, stripFrom_block, Option.some.inj hblock, ih, kept]
  | @quoted quote body rest pieces hquote hcloses htail ih =>
    have hescapes : plain.escapesIn quote = false := rfl
    rw [hescapes] at hcloses
    have hlast : (quote :: (body ++ [quote])).getLast? = some quote := by
      rw [← List.cons_append, List.getLast?_concat]
    rw [stripFrom_quote hquote, stripFrom_quotedBody hcloses.quotedBody, kept, hlast,
      ← htail.text_eq]
    split
    · next hhead =>
      obtain ⟨after, rfl⟩ := List.head?_eq_some_iff.mp hhead
      have hafter := quote_not_mem_of_unclosed hcloses.unclosed
      rw [stripFrom_quoted_doubled, stripFrom_quoted_eq_self hafter]
      simp
    · next hhead =>
      rw [stripFrom_quoted_end hhead, ih]
      simp
  | @other c text pieces hother htail ih =>
    rw [kept, ← htail.text_eq]
    split
    · next hquote =>
      have hunclosed : Unclosed c false text := by
        have hspec := afterQuoted_spec (ne_backslash_of_isQuote hquote) false text
        cases hafter : afterQuoted c false text with
        | none => rwa [hafter] at hspec
        | some rest =>
          rw [hafter] at hspec
          obtain ⟨body, hbody⟩ := hspec
          exact absurd (.inr (.inr ⟨hquote, body, rest, hbody⟩)) hother
      rw [stripFrom_quote hquote, stripFrom_quoted_eq_self (quote_not_mem_of_unclosed hunclosed)]
    · next hquote => rw [stripFrom_other hother (by simpa using hquote), ih]

/-! ### What survives -/

/-- A text that is left of some pieces if nothing but characters of comments is taken out. -/
inductive Survives : List Piece → Text → Prop
  | nil : Survives [] []
  | comment {text left rest : Text} {pieces : List Piece} (hleft : left.Sublist text) :
    Survives pieces rest → Survives (.comment text :: pieces) (left ++ rest)
  | quoted {text rest : Text} {pieces : List Piece} :
    Survives pieces rest → Survives (.quoted text :: pieces) (text ++ rest)
  | other {c : Char} {rest : Text} {pieces : List Piece} :
    Survives pieces rest → Survives (.other c :: pieces) (c :: rest)

theorem survives_textOf (pieces : List Piece) : Survives pieces (textOf pieces) := by
  induction pieces with
  | nil => exact .nil
  | cons piece pieces ih =>
    cases piece with
    | comment text => exact .comment (List.Sublist.refl text) ih
    | quoted text => exact .quoted ih
    | other c => exact .other ih

theorem survives_kept (pieces : List Piece) : Survives pieces (kept pieces) := by
  induction pieces with
  | nil => exact .nil
  | cons piece pieces ih =>
    cases piece with
    | comment text => exact .comment (List.nil_sublist text) ih
    | quoted text =>
      rw [kept]
      split
      · exact .quoted (survives_textOf pieces)
      · exact .quoted ih
    | other c =>
      rw [kept]
      split
      · exact .other (survives_textOf pieces)
      · exact .other ih

/-! ### What the search finds -/

variable {unicode : Unicode}

/-- The text of some pieces outside of its comments and quoted texts, with a blank in the place of
each. -/
def live (pieces : List Piece) : Text :=
  pieces.flatMap fun
    | .comment _ | .quoted _ => [' ']
    | .other c => [c]

/-- Two characters that are read as one thing where nothing stands between them. -/
def Joins (unicode : Unicode) (a b : Char) : Prop :=
  isWord unicode a = true ∧ isWord unicode b = true ∨ a = '-' ∧ b = '-' ∨ a = '/' ∧ b = '*' ∨
    isQuote a = true ∧ a = b

/-- The first character outside of the comments. -/
def firstChar : List Piece → Option Char
  | [] => none
  | .comment _ :: pieces => firstChar pieces
  | piece :: _ => piece.text.head?

/-- No comment stands between two characters that it alone keeps from being joined, up to a quote
that nothing ends. -/
def Joinless (unicode : Unicode) : Option Char → List Piece → Prop
  | _, [] => True
  | last, .comment _ :: pieces =>
    (∀ a ∈ last, ∀ b ∈ firstChar pieces, ¬Joins unicode a b) ∧ Joinless unicode last pieces
  | _, .quoted text :: pieces =>
    (textOf pieces).head? = text.getLast? ∨ Joinless unicode text.getLast? pieces
  | _, .other c :: pieces => isQuote c = true ∨ Joinless unicode (some c) pieces

theorem not_forbidden_nil : ¬Forbidden unicode [] := by
  rintro ⟨word, hword, hmem⟩
  obtain rfl : word = [] := by simpa [words] using hword
  have hempty : ([] : Text) ∉ forbiddenSqlKeywords := by decide
  exact hempty hmem

theorem forbidden_append_cons {a b : Text} {c : Char} (hc : isWord unicode c = false) :
    Forbidden unicode (a ++ c :: b) ↔ Forbidden unicode a ∨ Forbidden unicode b := by
  have hwords : words unicode (a ++ c :: b) = words unicode a ++ words unicode b :=
    List.splitOnP_append_cons a b (by rw [hc]; rfl)
  simp only [Forbidden, hwords, List.mem_append, or_and_right, exists_or]

theorem forbidden_cons {b : Text} {c : Char} (hc : isWord unicode c = false) :
    Forbidden unicode (c :: b) ↔ Forbidden unicode b := by
  have h := @forbidden_append_cons unicode [] b c hc
  simpa [not_forbidden_nil] using h

/-- Texts whose words do not go on into one another. -/
theorem forbidden_append {a b : Text}
    (h : ∀ c ∈ a.getLast?, ∀ d ∈ b.head?, isWord unicode c = true → isWord unicode d = false) :
    Forbidden unicode a ∨ Forbidden unicode b → Forbidden unicode (a ++ b) := by
  cases b with
  | nil => simp [not_forbidden_nil]
  | cons d b =>
    cases hd : isWord unicode d with
    | false => rw [forbidden_append_cons hd, forbidden_cons hd]; exact id
    | true =>
      rcases List.eq_nil_or_concat a with rfl | ⟨before, c, rfl⟩
      · simp [not_forbidden_nil]
      · have hc : isWord unicode c = false := by
          by_contra hword
          rw [h c (by simp) d rfl (by simpa using hword)] at hd
          cases hd
        rw [List.concat_eq_append, forbidden_append_cons hc, List.append_assoc,
          List.singleton_append, forbidden_append_cons hc]
        simp [not_forbidden_nil]

theorem forbidden_blank {a b : Text} :
    Forbidden unicode (a ++ ' ' :: b) ↔ Forbidden unicode a ∨ Forbidden unicode b :=
  forbidden_append_cons rfl

/-- A closed comment ends with a slash. -/
theorem exists_of_afterFirstEnd {text rest : Text} (h : afterFirstEnd text = some rest) :
    ∃ before, text = before ++ '*' :: '/' :: rest := by
  induction text with
  | nil => cases h
  | cons c text ih =>
    rw [afterFirstEnd] at h
    split at h
    · next hends =>
      obtain ⟨rfl, hhead⟩ := hends
      obtain ⟨after, rfl⟩ := List.head?_eq_some_iff.mp hhead
      obtain rfl := Option.some.inj h
      exact ⟨[], rfl⟩
    · obtain ⟨before, rfl⟩ := ih h
      exact ⟨c :: before, rfl⟩

/-- Where Spark begins no piece of several characters, the pattern does not either. -/
theorem not_begins_pattern {c : Char} {text : Text} (h : ¬Rules.spark.Begins c text) :
    ¬pattern.Begins c text := by
  rintro (hline | ⟨hslash, hstar, -⟩ | hquoted)
  · exact h (.inl hline)
  · exact h (.inr (.inl ⟨hslash, hstar, rfl⟩))
  · exact h (.inr (.inr hquoted))

/-- A search of a text with these pieces comes to the words that are live in them. -/
theorem forbidden_stripFrom {sql : Text} {pieces : List Piece}
    (hspark : Tokenizes .spark sql pieces) (hplain : Tokenizes plain sql pieces) (before : Text)
    (h : Forbidden unicode (before ++ live pieces)) :
    Forbidden unicode (before ++ Utils.stripFrom true 0 sql) := by
  induction hspark generalizing before with
  | nil => exact h
  | @line body rest pieces hbody hrest _ ih =>
    obtain ⟨-, hbehind⟩ := @Tokenizes.of_cons_append _ _ (.comment ('-' :: '-' :: body)) rest hplain
    rw [← List.cons_append, stripFrom_comment true (commentOrLiteral_line hbody hrest), if_pos rfl,
      List.cons_append, forbidden_append_cons rfl]
    refine (forbidden_blank.mp h).imp_right fun hlive => ?_
    have hfound := ih hbehind [] hlive
    rw [List.nil_append] at hfound
    cases rest with
    | nil => exact absurd hfound not_forbidden_nil
    | cons c rest =>
      -- the line ends before the words behind it
      obtain rfl := hrest c rfl
      rw [Utils.stripFrom_cons true rfl, forbidden_cons rfl] at hfound
      rw [Utils.stripFrom_cons true rfl, forbidden_append_cons rfl]
      exact .inr hfound
  | @block body rest pieces hblock _ ih =>
    obtain ⟨hstands, hbehind⟩ :=
      @Tokenizes.of_cons_append _ _ (.comment ('/' :: '*' :: body)) rest hplain
    have hrest : (afterFirstEnd (body ++ rest)).getD [] = rest := by
      rcases hstands with ⟨_, heq, -⟩ | ⟨_, heq, hends⟩
      · cases heq
      · obtain ⟨-, heq⟩ := List.cons.inj heq
        obtain ⟨-, rfl⟩ := List.cons.inj heq
        exact Option.some.inj hends
    cases hafter : afterFirstEnd (body ++ rest) with
    | none =>
      rw [hafter] at hrest
      obtain rfl : [] = rest := hrest
      have hlive : ¬Forbidden unicode (live pieces) := by
        intro hlive
        exact not_forbidden_nil (ih hbehind [] hlive)
      rw [Utils.stripFrom_cons true (by rw [commentOrLiteral, afterComment_eq, hafter]; rfl),
        forbidden_append_cons rfl]
      exact .inl ((forbidden_blank.mp h).resolve_right hlive)
    | some after =>
      rw [hafter] at hrest
      obtain rfl : after = rest := hrest
      obtain ⟨inside, hinside⟩ := exists_of_afterFirstEnd hafter
      obtain rfl : body = inside ++ ['*', '/'] :=
        List.append_cancel_right (hinside.trans (by simp))
      rw [← List.cons_append, stripFrom_comment true (commentOrLiteral_block hafter), if_pos rfl]
      rcases forbidden_blank.mp h with hbefore | hlive
      · rw [List.cons_append, forbidden_append_cons rfl]
        exact .inl hbefore
      · have hfound := ih hbehind [] hlive
        rw [show before ++ ('/' :: '*' :: (inside ++ ['*', '/']) ++ Utils.stripFrom true 0 after) =
          (before ++ '/' :: '*' :: (inside ++ ['*'])) ++ '/' :: Utils.stripFrom true 0 after by simp,
          forbidden_append_cons rfl]
        exact .inr hfound
  | @quoted quote body rest pieces hquote hcloses _ ih =>
    obtain ⟨-, hbehind⟩ := @Tokenizes.of_cons_append _ _ (.quoted (quote :: (body ++ [quote]))) rest
      (by simpa [Piece.text] using hplain)
    have hreads : commentOrLiteral (quote :: (body ++ [quote] ++ rest)) = some (false, rest) := by
      rw [List.append_assoc]
      exact commentOrLiteral_quoted hquote hcloses
    rw [List.append_cons, stripFrom_literal true hreads, forbidden_blank]
    exact (forbidden_blank.mp h).imp_right (ih hbehind [])
  | @other c text pieces hother _ ih =>
    obtain ⟨-, hbehind⟩ := @Tokenizes.of_cons_append _ _ (.other c) text hplain
    rw [Utils.stripFrom_cons true (commentOrLiteral_eq_none (not_begins_pattern hother)),
      List.append_cons]
    refine ih hbehind (before ++ [c]) ?_
    rw [← List.append_cons]
    exact h

theorem head?_kept {rules : Rules} {sql : Text} {pieces : List Piece}
    (h : Tokenizes rules sql pieces) : (kept pieces).head? = firstChar pieces := by
  induction h with
  | nil => rfl
  | line _ _ _ ih | block _ _ ih => exact ih
  | quoted | other => rfl

/-- Behind a piece, the kept text begins as the text does, unless comments stand between. -/
theorem head?_kept_or {rules : Rules} {sql : Text} {pieces : List Piece} {a b : Char}
    (h : Tokenizes rules sql pieces) (joinless : Joinless unicode (some a) pieces)
    (hb : b ∈ (kept pieces).head?) : b ∈ sql.head? ∨ ¬Joins unicode a b := by
  rw [head?_kept h] at hb
  cases h with
  | nil => cases hb
  | line | block => exact .inr (joinless.1 a rfl b hb)
  | quoted | other => exact .inl hb

/-- A word at the beginning of what a search leaves is one of the text. -/
theorem head?_of_isWord {text : Text} {c : Char} (h : c ∈ (Utils.stripFrom true 0 text).head?)
    (hc : isWord unicode c = true) : c ∈ text.head? := by
  cases text with
  | nil => cases h
  | cons d text =>
    rw [Utils.stripFrom] at h
    split at h
    · exact h
    · next isComment rest _ =>
      cases isComment with
      | false =>
        obtain rfl : c = ' ' := by simpa using h.symm
        cases hc
      | true => exact h

/-- A search of what the scan keeps comes to the words that are live in the text. -/
theorem forbidden_kept {sql : Text} {pieces : List Piece} (hspark : Tokenizes .spark sql pieces)
    (hplain : Tokenizes plain sql pieces) (before : Text) {last : Option Char}
    (hends : ∀ c ∈ before.getLast?, isWord unicode c = true → c ∈ last)
    (joinless : Joinless unicode last pieces) (h : Forbidden unicode (before ++ live pieces)) :
    Forbidden unicode (before ++ Utils.stripFrom true 0 (kept pieces)) := by
  induction pieces generalizing sql before last with
  | nil => exact h
  | cons piece pieces ih =>
    obtain ⟨rest, rfl, hstands, hrest⟩ := hspark.of_cons
    obtain ⟨-, hrestPlain⟩ := hplain.of_cons_append
    cases piece with
    | comment text =>
      obtain ⟨hjoins, joinless⟩ := joinless
      refine forbidden_append (fun a ha b hb hword => ?_) ((forbidden_blank.mp h).imp_right
        fun hlive => ih hrest hrestPlain [] nofun joinless hlive)
      -- the words on both sides of the comment stay apart
      by_contra hjoined
      have hb' := head?_of_isWord hb (by simpa using hjoined)
      rw [kept, head?_kept hrest] at hb'
      exact hjoins a (hends a ha hword) b hb' (.inl ⟨hword, by simpa using hjoined⟩)
    | quoted text =>
      obtain ⟨quote, body, rfl, hquote, hcloses⟩ := hstands
      have hlast : (quote :: (body ++ [quote])).getLast? = some quote := by
        rw [← List.cons_append, List.getLast?_concat]
      rw [kept, hlast, ← hrest.text_eq]
      rw [Joinless, hlast, ← hrest.text_eq] at joinless
      have hblank : ∀ c ∈ (before ++ [' ']).getLast?, isWord unicode c = true →
          c ∈ some quote := by
        intro c hc hword
        obtain rfl : c = ' ' := by simpa using hc.symm
        cases hword
      have hreads : ∀ behind, Closes quote (pattern.escapesIn quote) (body ++ quote :: behind) body
          behind → Utils.stripFrom true 0 (quote :: (body ++ [quote]) ++ behind) =
            ' ' :: Utils.stripFrom true 0 behind := by
        intro behind hbehind
        refine stripFrom_literal true ?_
        rw [List.append_assoc]
        exact commentOrLiteral_quoted hquote hbehind
      split
      · rw [hreads rest hcloses, List.append_cons]
        refine forbidden_stripFrom hrest hrestPlain _ ?_
        rw [← List.append_cons]
        exact h
      · next hhead =>
        have hnext := joinless.resolve_left hhead
        have hbehind : (kept pieces).head? ≠ some quote := by
          intro hkept
          rcases head?_kept_or hrest hnext hkept with hmem | hjoins
          · exact hhead hmem
          · exact hjoins (.inr (.inr (.inr ⟨hquote, rfl⟩)))
        have hkept := hcloses.quotedBody.closes (ne_backslash_of_isQuote hquote) hbehind
        rw [hreads _ hkept, List.append_cons]
        refine ih hrest hrestPlain _ hblank hnext ?_
        rw [← List.append_cons]
        exact h
    | other c =>
      rw [kept, ← hrest.text_eq]
      split
      · next hquote =>
        rw [Utils.stripFrom_cons true (commentOrLiteral_eq_none (not_begins_pattern hstands)),
          List.append_cons]
        refine forbidden_stripFrom hrest hrestPlain _ ?_
        rw [← List.append_cons]
        exact h
      · next hquote =>
        have hnext := joinless.resolve_left hquote
        have hother : ¬pattern.Begins c (kept pieces) := by
          rintro (⟨rfl, hminus⟩ | ⟨rfl, hstar, -⟩ | ⟨hisQuote, -⟩)
          · rcases head?_kept_or hrest hnext hminus with hmem | hjoins
            · exact hstands (.inl ⟨rfl, hmem⟩)
            · exact hjoins (.inr (.inl ⟨rfl, rfl⟩))
          · rcases head?_kept_or hrest hnext hstar with hmem | hjoins
            · exact hstands (.inr (.inl ⟨rfl, hmem, rfl⟩))
            · exact hjoins (.inr (.inr (.inl ⟨rfl, rfl⟩)))
          · exact hquote hisQuote
        rw [Utils.stripFrom_cons true (commentOrLiteral_eq_none hother), List.append_cons]
        refine ih hrest hrestPlain _ (fun d hd _ => ?_) hnext ?_
        · simpa using hd
        · rw [← List.append_cons]
          exact h

/-- What the search for forbidden words behind the scan promises. -/
structure Gates (unicode : Unicode) (sql : Text) (pieces : List Piece) : Prop where
  survives : Survives pieces (stripSqlLineComments sql)
  refuses : Forbidden unicode (live pieces) →
    isSqlQuerySafe unicode (stripSqlLineComments sql) = false

/-- Nothing live is hidden where backslashes and nested comments make no difference and no comment
keeps apart what is joined without it. -/
theorem gates_of_agree (separates : unicode.Separates) {sql : Text} {pieces : List Piece}
    (hspark : Tokenizes .spark sql pieces) (hplain : Tokenizes plain sql pieces)
    (joinless : Joinless unicode none pieces) : Gates unicode sql pieces := by
  have hkept := stripSqlLineComments_eq_kept hplain
  refine ⟨hkept ▸ survives_kept pieces, fun hlive => ?_⟩
  rw [hkept]
  obtain ⟨found, hfound⟩ := exists_tokenizes pattern (kept pieces)
  have hvisible : Utils.stripFrom true 0 (kept pieces) = visible found := stripFrom_eq hfound true
  have hforbidden : Forbidden unicode (visible found) := by
    rw [← hvisible]
    exact forbidden_kept hspark hplain [] nofun joinless hlive
  obtain ⟨word, hword, hsuspect⟩ := hforbidden.exists_suspect
  exact (isSqlQuerySafe_eq_false_iff separates hfound).mpr
    ⟨word, List.mem_append_left _ hword, hsuspect⟩

/-- The pieces of `DROP--all`. -/
def dropPieces : List Piece :=
  "DROP".toList.map .other ++ [.comment "--all".toList]

theorem gates_drop : Gates dottedCapital "DROP--all".toList dropPieces := by
  have hline : ∀ rules, Tokenizes rules "--all".toList [.comment "--all".toList] := fun _ =>
    @Tokenizes.line _ "all".toList [] [] (by decide) nofun .nil
  have hreads : ∀ rules, Tokenizes rules "DROP--all".toList dropPieces := fun rules =>
    @tokenizes_others rules "DROP".toList _ _ (by decide) (hline rules)
  exact gates_of_agree separates_dottedCapital (hreads _) (hreads _)
    (.inr (.inr (.inr (.inr ⟨fun _ _ _ => nofun, trivial⟩))))

/-- A text with a live forbidden word that the search behind the scan does not find. -/
def Hides (sql : Text) (pieces : List Piece) : Prop :=
  Tokenizes .spark sql pieces ∧ Forbidden dottedCapital (live pieces) ∧
    isSqlQuerySafe dottedCapital (stripSqlLineComments sql) = true

/-- A backslash before a quote, a comment in a comment and a comment between words each hide one. -/
theorem escaped_nested_and_joined_words_hidden :
    Hides "'\\'--'DROP".toList (.quoted "'\\'--'".toList :: "DROP".toList.map .other) ∧
      Hides "/*/**/--*/DROP".toList (.comment "/*/**/--*/".toList :: "DROP".toList.map .other) ∧
      Hides "a/**/DROP".toList
        (.other 'a' :: .comment "/**/".toList :: "DROP".toList.map .other) := by
  have hdrop : Tokenizes .spark "DROP".toList ("DROP".toList.map .other) :=
    tokenizes_map_other (by decide)
  have hbody : QuotedBody '\'' true "\\'--".toList :=
    .escaped rfl (.plain (by decide) (by decide) (.plain (by decide) (by decide) .nil))
  have hcloses : Closes '\'' true ("\\'--".toList ++ '\'' :: "DROP".toList) "\\'--".toList
      "DROP".toList := hbody.closes (by decide) (by decide)
  have hquoted : Tokenizes .spark "'\\'--'DROP".toList
      (.quoted "'\\'--'".toList :: "DROP".toList.map .other) :=
    @Tokenizes.quoted _ '\'' "\\'--".toList _ _ rfl hcloses hdrop
  have hnested : Tokenizes .spark "/*/**/--*/DROP".toList
      (.comment "/*/**/--*/".toList :: "DROP".toList.map .other) :=
    @Tokenizes.block _ "/**/--*/".toList _ _ rfl hdrop
  have hjoined : Tokenizes .spark "a/**/DROP".toList
      (.other 'a' :: .comment "/**/".toList :: "DROP".toList.map .other) :=
    @tokenizes_others _ ['a'] _ _ (by decide) (@Tokenizes.block _ ['*', '/'] _ _ rfl hdrop)
  refine ⟨⟨hquoted, ⟨"DROP".toList, by decide, by decide⟩, by decide⟩,
    ⟨hnested, ⟨"DROP".toList, by decide, by decide⟩, by decide⟩,
    hjoined, ⟨"DROP".toList, by decide, by decide⟩, by decide⟩

end Dqx.SqlUtils
