import Dqx.Lib.Split
import Dqx.SqlUtils

/-! The SQL texts of the checks: escaped literals, quoted names, and the search for destructive
statements. -/

namespace Dqx.Utils

open Lib.Sql LowCode

/-- `text.replace(c, new)` -/
def replaceChar (c : Char) (new text : Text) : Text :=
  text.flatMap fun d => if d = c then new else [d]

def escapeSqlStringLiteral (value : Text) : Text :=
  replaceChar '\'' ['\\', '\''] (replaceChar '\\' ['\\', '\\'] value)

def quoteColumnName (name : Text) : Text :=
  '`' :: (replaceChar '`' ['`', '`'] name ++ ['`'])

/-- What appears in expressions only. -/
def hasExpressionStructure (column : Text) : Bool :=
  column.any fun c => "()[]\x7b\x7d,;'\"`*".toList.contains c

/-- An operator next to a space. -/
def hasExpressionOperator : Text → Bool
  | [] => false
  | [_] => false
  | c :: d :: text =>
    let operator (c : Char) := "-+/%<>=!&|~^".toList.contains c
    let space (c : Char) := Python.spaces.contains c.toNat
    operator c && space d || space c && operator d || hasExpressionOperator (d :: text)

def normalizeColumnExpr (column : Text) : Text :=
  if hasExpressionStructure column || hasExpressionOperator column then column
  else ['.'].intercalate ((column.splitOn '.').map fun segment =>
    if SqlUtils.isSimpleIdent segment then segment else quoteColumnName segment)

def forbiddenSqlKeywords : List Text :=
  ["delete".toList, "insert".toList, "update".toList, "drop".toList, "truncate".toList,
    "alter".toList, "create".toList, "replace".toList, "grant".toList, "revoke".toList,
    "merge".toList, "use".toList, "refresh".toList, "analyze".toList, "optimize".toList,
    "zorder".toList]

/-- What Python knows of the characters outside of ASCII. -/
structure Unicode where
  isWord : Char → Bool
  lower : Char → Text

variable (unicode : Unicode)

def isWord (c : Char) : Bool :=
  if c.toNat < 128 then c.isAlphanum || c = '_' else unicode.isWord c

/-- `text.lower()` -/
def lower (text : Text) : Text :=
  text.flatMap fun c => if c.toNat < 128 then [c.toLower] else unicode.lower c

/-- What follows the last quote of a quoted text. Two quotes in a row are one of the text, unless no
quote is left to end it. -/
def afterQuoted (quote : Char) (escapes : Bool) : Text → Option Text
  | [] => none
  | [c] => if c = quote then some [] else none
  | c :: d :: text =>
    if c = quote then
      if d = quote then (afterQuoted quote escapes text).orElse fun _ => some (d :: text)
      else some (d :: text)
    else if escapes ∧ c = '\\' then afterQuoted quote escapes text
    else afterQuoted quote escapes (d :: text)

def afterComment : Text → Option Text
  | [] => none
  | [_] => none
  | c :: d :: text => if c = '*' ∧ d = '/' then some text else afterComment (d :: text)

/-- The comment, the literal or the quoted name that a text begins with: whether it is a comment, and
what follows it. -/
def commentOrLiteral : Text → Option (Bool × Text)
  | '-' :: '-' :: text => some (true, text.dropWhile (· ≠ '\n'))
  | '/' :: '*' :: text => (afterComment text).map (true, ·)
  | '\'' :: text => (afterQuoted '\'' true text).map (false, ·)
  | '"' :: text => (afterQuoted '"' true text).map (false, ·)
  | '`' :: text => (afterQuoted '`' false text).map (false, ·)
  | _ => none

/-- A text without its literals and quoted names, from a position on, and with its comments or
without. -/
def stripFrom (comments : Bool) : Nat → Text → Text
  | _, [] => []
  | skip + 1, _ :: text => stripFrom comments skip text
  | 0, c :: text =>
    match commentOrLiteral (c :: text) with
    | none => c :: stripFrom comments 0 text
    | some (isComment, rest) =>
      let length := text.length - rest.length
      (if !isComment then [' '] else if comments then c :: text.take length else []) ++
        stripFrom comments length text

def hasForbiddenKeyword (text : Text) : Bool :=
  (text.splitOnP fun c => !isWord unicode c).any fun word => forbiddenSqlKeywords.contains word

def hasComment (text : Text) : Bool :=
  text.tails.any fun rest => ['-', '-'].isPrefixOf rest || ['/', '*'].isPrefixOf rest

def isSqlQuerySafe (query : Text) : Bool :=
  let withComments := lower unicode (stripFrom true 0 query)
  let withoutComments := lower unicode (stripFrom false 0 query)
  !hasForbiddenKeyword unicode withComments &&
    (!hasComment withComments || !hasForbiddenKeyword unicode withoutComments)

/-! ### Reading over the parts of a query -/

theorem stripFrom_append (comments : Bool) (a b : Text) :
    stripFrom comments a.length (a ++ b) = stripFrom comments 0 b := by
  induction a with
  | nil => rfl
  | cons c a ih => exact ih

theorem stripFrom_literal (comments : Bool) {c : Char} {body rest : Text}
    (h : commentOrLiteral (c :: (body ++ rest)) = some (false, rest)) :
    stripFrom comments 0 (c :: (body ++ rest)) = ' ' :: stripFrom comments 0 rest := by
  have hlength : (body ++ rest).length - rest.length = body.length := by
    rw [List.length_append]
    omega
  rw [stripFrom, h]
  dsimp only
  rw [hlength, stripFrom_append]
  rfl

theorem stripFrom_cons (comments : Bool) {c : Char} {text : Text}
    (h : commentOrLiteral (c :: text) = none) :
    stripFrom comments 0 (c :: text) = c :: stripFrom comments 0 text := by
  rw [stripFrom, h]

theorem afterQuoted_cons {quote c : Char} {escapes : Bool} (hquote : c ≠ quote)
    (hescape : ¬ (escapes = true ∧ c = '\\')) (text : Text) :
    afterQuoted quote escapes (c :: text) = afterQuoted quote escapes text := by
  cases text with
  | nil => simp [afterQuoted, hquote]
  | cons d text => rw [afterQuoted, if_neg hquote, if_neg hescape]

theorem afterQuoted_end {quote : Char} {rest : Text} (h : rest.head? ≠ some quote)
    (escapes : Bool) : afterQuoted quote escapes (quote :: rest) = some rest := by
  cases rest with
  | nil => simp [afterQuoted]
  | cons d rest =>
    have hd : d ≠ quote := by simpa using h
    rw [afterQuoted, if_pos rfl, if_neg hd]

@[simp] theorem replaceChar_nil (c : Char) (new : Text) : replaceChar c new [] = [] := rfl

theorem replaceChar_cons_self (c : Char) (new text : Text) :
    replaceChar c new (c :: text) = new ++ replaceChar c new text := by
  simp [replaceChar]

theorem replaceChar_cons_of_ne {c d : Char} (h : d ≠ c) (new text : Text) :
    replaceChar c new (d :: text) = d :: replaceChar c new text := by
  simp [replaceChar, h]

theorem escapeSqlStringLiteral_cons (c : Char) (value : Text) :
    escapeSqlStringLiteral (c :: value) =
      (if c = '\\' ∨ c = '\'' then ['\\', c] else [c]) ++ escapeSqlStringLiteral value := by
  unfold escapeSqlStringLiteral
  by_cases hbackslash : c = '\\'
  · subst hbackslash
    rw [replaceChar_cons_self]
    simp [replaceChar_cons_of_ne]
  · rw [replaceChar_cons_of_ne hbackslash]
    by_cases hquote : c = '\''
    · subst hquote
      rw [replaceChar_cons_self]
      simp
    · rw [replaceChar_cons_of_ne hquote]
      simp [hbackslash, hquote]

theorem afterQuoted_escape (value : Text) {rest : Text} (h : rest.head? ≠ some '\'') :
    afterQuoted '\'' true (escapeSqlStringLiteral value ++ '\'' :: rest) = some rest := by
  induction value with
  | nil => exact afterQuoted_end h true
  | cons c value ih =>
    rw [escapeSqlStringLiteral_cons]
    split
    · simpa [afterQuoted] using ih
    · rename_i hc
      obtain ⟨hbackslash, hquote⟩ : c ≠ '\\' ∧ c ≠ '\'' := by simpa using hc
      rw [List.cons_append, List.cons_append, afterQuoted_cons hquote (by simp [hbackslash])]
      exact ih

theorem afterQuoted_name (name : Text) {rest : Text} (h : rest.head? ≠ some '`') :
    afterQuoted '`' false (replaceChar '`' ['`', '`'] name ++ '`' :: rest) = some rest := by
  induction name with
  | nil => exact afterQuoted_end h false
  | cons c name ih =>
    by_cases hc : c = '`'
    · subst hc
      rw [replaceChar_cons_self]
      simp [afterQuoted, ih]
    · rw [replaceChar_cons_of_ne hc, List.cons_append, afterQuoted_cons hc (by simp)]
      exact ih

/-- What may follow a literal, a name or a number. -/
def Follows (rest : Text) : Prop :=
  ∀ c ∈ rest.head?, c = ' ' ∨ c = ')' ∨ c = ',' ∨ c = '.'

theorem Follows.head_ne {rest : Text} (h : Follows rest) {quote : Char}
    (hquote : quote = '\'' ∨ quote = '`' ∨ quote = '-') : rest.head? ≠ some quote := by
  intro hhead
  have hc := h quote hhead
  rcases hquote with rfl | rfl | rfl <;> simp at hc

/-- No comment, literal or name begins in the text. -/
def isPlain : Text → Bool
  | [] => true
  | c :: text =>
    !("-'\"`".toList.contains c) && (c ≠ '/' || text.head? = some ' ') && isPlain text

theorem stripFrom_plain {text : Text} (plain : isPlain text = true) (comments : Bool)
    (rest : Text) : stripFrom comments 0 (text ++ rest) = text ++ stripFrom comments 0 rest := by
  induction text with
  | nil => rfl
  | cons c text ih =>
    obtain ⟨⟨hquote, hslash⟩, htext⟩ :
        ((c ≠ '-' ∧ c ≠ '\'' ∧ c ≠ '"' ∧ c ≠ '`') ∧ (c = '/' → text.head? = some ' ')) ∧
          isPlain text = true := by
      simpa [isPlain, imp_iff_not_or] using plain
    obtain ⟨hminus, hsingle, hdouble, hname⟩ := hquote
    rw [List.cons_append, stripFrom_cons, ih htext]
    · rfl
    · by_cases hc : c = '/'
      · subst hc
        cases text with
        | nil => simp at hslash
        | cons d text =>
          obtain rfl : d = ' ' := by simpa using hslash
          rfl
      · unfold commentOrLiteral
        split <;> simp_all

theorem hasForbiddenKeyword_append {a b : Text} {c : Char} (hc : isWord unicode c = false) :
    hasForbiddenKeyword unicode (a ++ c :: b) =
      (hasForbiddenKeyword unicode a || hasForbiddenKeyword unicode b) := by
  have hseparates : (!isWord unicode c) = true := by rw [hc]; rfl
  rw [hasForbiddenKeyword, List.splitOnP_append_cons a b hseparates, List.any_append]
  rfl

theorem hasForbiddenKeyword_nil : hasForbiddenKeyword unicode [] = false := by
  simp [hasForbiddenKeyword, forbiddenSqlKeywords]

theorem hasForbiddenKeyword_cons {b : Text} {c : Char} (hc : isWord unicode c = false) :
    hasForbiddenKeyword unicode (c :: b) = hasForbiddenKeyword unicode b := by
  rw [← List.nil_append (c :: b), hasForbiddenKeyword_append unicode hc, hasForbiddenKeyword_nil,
    Bool.false_or]

theorem lower_append (a b : Text) : lower unicode (a ++ b) = lower unicode a ++ lower unicode b :=
  List.flatMap_append

/-- A text that can be a part of a query that destroys nothing. -/
structure Harmless (text : Text) : Prop where
  reads : ∀ comments rest, Follows rest →
    stripFrom comments 0 (text ++ rest) = stripFrom true 0 text ++ stripFrom comments 0 rest
  clean : hasForbiddenKeyword unicode (lower unicode (stripFrom true 0 text)) = false

variable {unicode}

theorem Harmless.isSqlQuerySafe {text : Text} (h : Harmless unicode text) :
    isSqlQuerySafe unicode text = true := by
  have hreads : stripFrom false 0 text = stripFrom true 0 text := by
    simpa [stripFrom] using h.reads false [] (by simp [Follows])
  rw [Utils.isSqlQuerySafe, hreads, h.clean]
  simp

/-- A text of a query that no value goes into. -/
structure Fixed (unicode : Unicode) (text : Text) : Prop where
  plain : isPlain text = true
  clean : hasForbiddenKeyword unicode (lower unicode text) = false

/-- The forbidden words letter by letter, so that checking a text reads no string again. -/
def forbiddenLetters : List Text :=
  [['d', 'e', 'l', 'e', 't', 'e'], ['i', 'n', 's', 'e', 'r', 't'],
    ['u', 'p', 'd', 'a', 't', 'e'], ['d', 'r', 'o', 'p'],
    ['t', 'r', 'u', 'n', 'c', 'a', 't', 'e'], ['a', 'l', 't', 'e', 'r'],
    ['c', 'r', 'e', 'a', 't', 'e'], ['r', 'e', 'p', 'l', 'a', 'c', 'e'],
    ['g', 'r', 'a', 'n', 't'], ['r', 'e', 'v', 'o', 'k', 'e'], ['m', 'e', 'r', 'g', 'e'],
    ['u', 's', 'e'], ['r', 'e', 'f', 'r', 'e', 's', 'h'], ['a', 'n', 'a', 'l', 'y', 'z', 'e'],
    ['o', 'p', 't', 'i', 'm', 'i', 'z', 'e'], ['z', 'o', 'r', 'd', 'e', 'r']]

theorem forbiddenSqlKeywords_eq : forbiddenSqlKeywords = forbiddenLetters := by
  simp only [forbiddenSqlKeywords, String.reduceToList]
  rfl

/-- The tables that are never asked about ASCII text. -/
def noTables : Unicode := ⟨fun _ => false, fun _ => []⟩

/-- ASCII text that is fixed whatever the tables of the host say. -/
def isFixed (text : Text) : Bool :=
  isPlain text && text.all (fun c => c.toNat < 128 && c.toLower.toNat < 128) &&
    !((text.map Char.toLower).splitOnP fun c => !isWord noTables c).any forbiddenLetters.contains

theorem Fixed.of_isFixed {text : Text} (h : isFixed text = true) : Fixed unicode text := by
  simp only [isFixed, Bool.and_eq_true, List.all_eq_true, decide_eq_true_eq,
    Bool.not_eq_true'] at h
  obtain ⟨⟨hplain, hascii⟩, hclean⟩ := h
  have hlower : lower unicode text = text.map Char.toLower := by
    rw [lower, List.map_eq_flatMap]
    exact List.flatMap_congr fun c hc => if_pos (hascii c hc).1
  have hwords : ∀ c ∈ text.map Char.toLower, (!isWord unicode c) = !isWord noTables c := by
    intro c hc
    obtain ⟨upper, hupper, rfl⟩ := List.mem_map.mp hc
    rw [isWord, isWord, if_pos (hascii upper hupper).2, if_pos (hascii upper hupper).2]
  refine ⟨hplain, ?_⟩
  rw [hlower, hasForbiddenKeyword, Lib.splitOnP_congr hwords, forbiddenSqlKeywords_eq]
  exact hclean

theorem Fixed.of_chars {chars : Text} (h : isFixed chars = true) :
    Fixed unicode (String.ofList chars).toList := by
  rw [String.toList_ofList]
  exact .of_isFixed h

theorem Fixed.harmless {text : Text} (h : Fixed unicode text) : Harmless unicode text := by
  have hstrip : stripFrom true 0 text = text := by
    simpa [stripFrom] using stripFrom_plain h.plain true []
  refine ⟨fun comments rest _ => ?_, ?_⟩
  · rw [hstrip, stripFrom_plain h.plain]
  · rw [hstrip]
    exact h.clean

/-- What follows a part begins with a character that ends it. -/
theorem Harmless.append {a b : Text} (ha : Harmless unicode a) (hb : Harmless unicode b)
    (follows : Follows b) : Harmless unicode (a ++ b) := by
  have hstrip : stripFrom true 0 (a ++ b) = stripFrom true 0 a ++ stripFrom true 0 b :=
    ha.reads true b follows
  cases b with
  | nil => rwa [List.append_nil]
  | cons c b =>
    have hc : c = ' ' ∨ c = ')' ∨ c = ',' ∨ c = '.' := follows c rfl
    have hhead : stripFrom true 0 (c :: b) = c :: stripFrom true 0 b := by
      apply stripFrom_cons
      rcases hc with rfl | rfl | rfl | rfl <;> rfl
    refine ⟨fun comments rest hrest => ?_, ?_⟩
    · have hfollows : Follows (c :: b ++ rest) := follows
      rw [List.append_assoc, ha.reads comments _ hfollows, hb.reads comments rest hrest, hstrip,
        List.append_assoc]
    · have hword : isWord unicode c = false := by
        rcases hc with rfl | rfl | rfl | rfl <;> rfl
      have hlower : lower unicode (c :: stripFrom true 0 b) =
          c :: lower unicode (stripFrom true 0 b) := by
        rcases hc with rfl | rfl | rfl | rfl <;> rfl
      have hclean := hb.clean
      rw [hhead, hlower, hasForbiddenKeyword_cons unicode hword] at hclean
      rw [hstrip, lower_append, hhead, hlower, hasForbiddenKeyword_append unicode hword, ha.clean,
        hclean]
      rfl

/-- A plain text that ends with a space, a parenthesis or a dot can be followed by anything. -/
theorem Fixed.append {a b : Text} (h : Fixed unicode a)
    (hlast : ∃ c ∈ a.getLast?, c = ' ' ∨ c = '(' ∨ c = '.') (hb : Harmless unicode b) :
    Harmless unicode (a ++ b) := by
  obtain ⟨c, hmem, hc⟩ := hlast
  obtain ⟨before, rfl⟩ := List.getLast?_eq_some_iff.mp hmem
  obtain ⟨plain, clean⟩ := h
  have hstrip := stripFrom_plain plain true b
  have hword : isWord unicode c = false := by
    rcases hc with rfl | rfl | rfl <;> rfl
  have hlower : ∀ text, lower unicode (c :: text) = c :: lower unicode text := by
    rcases hc with rfl | rfl | rfl <;> exact fun _ => rfl
  refine ⟨fun comments rest hrest => ?_, ?_⟩
  · rw [List.append_assoc, stripFrom_plain plain, hb.reads comments rest hrest, hstrip]
    simp only [List.append_assoc]
  · rw [lower_append, hlower, hasForbiddenKeyword_append unicode hword,
      Bool.or_eq_false_iff] at clean
    rw [hstrip, lower_append, lower_append, hlower, List.append_assoc, List.cons_append,
      hasForbiddenKeyword_append unicode hword, clean.1]
    exact hb.clean

theorem harmless_literal (value : Text) :
    Harmless unicode ('\'' :: (escapeSqlStringLiteral value ++ ['\''])) := by
  have hreads : ∀ comments rest, rest.head? ≠ some '\'' →
      stripFrom comments 0 ('\'' :: (escapeSqlStringLiteral value ++ ['\'']) ++ rest) =
        ' ' :: stripFrom comments 0 rest := by
    intro comments rest hrest
    rw [List.cons_append]
    apply stripFrom_literal
    rw [commentOrLiteral, List.append_assoc, List.singleton_append, afterQuoted_escape value hrest]
    rfl
  have hstrip : stripFrom true 0 ('\'' :: (escapeSqlStringLiteral value ++ ['\''])) = [' '] := by
    simpa [stripFrom] using hreads true [] (by simp)
  refine ⟨fun comments rest hrest => ?_, ?_⟩
  · rw [hstrip, hreads comments rest (hrest.head_ne (.inl rfl))]
    rfl
  · rw [hstrip]
    exact hasForbiddenKeyword_cons unicode rfl

theorem harmless_name (name : Text) : Harmless unicode (quoteColumnName name) := by
  have hreads : ∀ comments rest, rest.head? ≠ some '`' →
      stripFrom comments 0 (quoteColumnName name ++ rest) = ' ' :: stripFrom comments 0 rest := by
    intro comments rest hrest
    rw [quoteColumnName, List.cons_append]
    apply stripFrom_literal
    rw [commentOrLiteral, List.append_assoc, List.singleton_append, afterQuoted_name name hrest]
    rfl
  have hstrip : stripFrom true 0 (quoteColumnName name) = [' '] := by
    simpa [stripFrom] using hreads true [] (by simp)
  refine ⟨fun comments rest hrest => ?_, ?_⟩
  · rw [hstrip, hreads comments rest (hrest.head_ne (.inr (.inl rfl)))]
    rfl
  · rw [hstrip]
    exact hasForbiddenKeyword_cons unicode rfl

/-- The text of a number: no sign stands before another one, or at the end. -/
def isNumeral (text : Text) : Bool :=
  match text with
  | [] => true
  | c :: text =>
    "0123456789.e+-".toList.contains c &&
      (c ≠ '-' || text.head?.any (· ≠ '-')) && isNumeral text

theorem stripFrom_numeral {text : Text} (numeral : isNumeral text = true) (comments : Bool)
    (rest : Text) : stripFrom comments 0 (text ++ rest) = text ++ stripFrom comments 0 rest := by
  induction text with
  | nil => rfl
  | cons c text ih =>
    simp only [isNumeral, Bool.and_eq_true] at numeral
    obtain ⟨⟨hc, hminus⟩, htext⟩ := numeral
    rw [List.cons_append, stripFrom_cons, ih htext]
    · rfl
    · by_cases hsign : c = '-'
      · subst hsign
        cases text with
        | nil => simp at hminus
        | cons d text =>
          have hd : d ≠ '-' := by simpa using hminus
          rw [List.cons_append]
          unfold commentOrLiteral
          split <;> simp_all
      · have hother : c ≠ '/' ∧ c ≠ '\'' ∧ c ≠ '"' ∧ c ≠ '`' := by
          refine ⟨?_, ?_, ?_, ?_⟩ <;> (rintro rfl; simp at hc)
        unfold commentOrLiteral
        split <;> simp_all

theorem isNumeral_all {text : Text} (numeral : isNumeral text = true) :
    ∀ c ∈ text, c ∈ "0123456789.e+-".toList := by
  induction text with
  | nil => nofun
  | cons c text ih =>
    simp only [isNumeral, Bool.and_eq_true] at numeral
    obtain ⟨⟨hc, -⟩, htext⟩ := numeral
    exact List.forall_mem_cons.mpr ⟨List.contains_iff_mem.mp hc, ih htext⟩

theorem harmless_numeral {text : Text} (numeral : isNumeral text = true) :
    Harmless unicode text := by
  have hstrip : stripFrom true 0 text = text := by
    simpa [stripFrom] using stripFrom_numeral numeral true []
  refine ⟨fun comments rest _ => ?_, ?_⟩
  · rw [hstrip, stripFrom_numeral numeral]
  · have hlower : ∀ c ∈ lower unicode text, c ∈ "0123456789.e+-".toList := by
      intro c hc
      obtain ⟨d, hd, hc⟩ := List.mem_flatMap.mp hc
      have hall : ("0123456789.e+-".toList.all fun d => d.toNat < 128 && d.toLower = d) = true := by
        decide
      obtain ⟨hascii, hsame⟩ : d.toNat < 128 ∧ d.toLower = d := by
        simpa using List.all_eq_true.mp hall d (isNumeral_all numeral d hd)
      obtain rfl : c = d := by simpa [hascii, hsame] using hc
      exact isNumeral_all numeral c hd
    rw [hstrip, hasForbiddenKeyword, List.any_eq_false]
    intro word hword hforbidden
    have hletters : (forbiddenSqlKeywords.all fun keyword =>
        keyword.any fun c => !"0123456789.e+-".toList.contains c) = true := by decide
    have hword' := List.all_eq_true.mp hletters word (List.contains_iff_mem.mp hforbidden)
    obtain ⟨c, hc, hletter⟩ := List.any_eq_true.mp hword'
    have hnumeral := List.contains_iff_mem.mpr (hlower c (Lib.mem_of_mem_splitOnP hword c hc))
    rw [hnumeral] at hletter
    cases hletter

end Dqx.Utils
