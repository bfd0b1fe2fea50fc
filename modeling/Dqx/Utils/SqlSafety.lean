import Mathlib
import Dqx.Lib.SqlPieces
import Dqx.Utils.SqlText

/-! What `is_sql_query_safe` finds: the words of a query outside of its quoted texts, with its
comments and without them. -/

namespace Dqx.Utils

open Lib.Sql

/-- The pattern's comments and quoted texts. -/
def pattern : Rules := ⟨true, afterFirstEnd, afterFirstEnd_suffix⟩

theorem afterComment_eq (text : Text) : afterComment text = afterFirstEnd text := by
  induction text with
  | nil => rfl
  | cons c text ih =>
    cases text with
    | nil => simp [afterComment, afterFirstEnd]
    | cons d text =>
      rw [afterComment, afterFirstEnd, ih]
      simp

/-- The pattern reads a quoted text to the last quote that can end it. -/
theorem afterQuoted_spec {quote : Char} (hquote : quote ≠ '\\') (escapes : Bool) (text : Text) :
    match afterQuoted quote escapes text with
    | some rest => ∃ body, Closes quote escapes text body rest
    | none => Unclosed quote escapes text := by
  induction text using afterQuoted.induct quote escapes with
  | case1 => exact unclosed_nil
  | case2 =>
    simp only [afterQuoted, if_true]
    exact ⟨[], closes_quote hquote fun _ h => by cases h⟩
  | case3 c hc =>
    rw [afterQuoted, if_neg hc]
    by_cases hescape : escapes = true ∧ c = '\\'
    · obtain ⟨hescapes, rfl⟩ := hescape
      exact unclosed_escape hescapes hquote
    · exact unclosed_nil.plain hc hescape
  | case4 text ih =>
    simp only [afterQuoted, if_true]
    cases hafter : afterQuoted quote escapes text with
    | some rest =>
      rw [hafter] at ih
      obtain ⟨body, hbody⟩ := ih
      exact ⟨_, hbody.doubled hquote⟩
    | none =>
      rw [hafter] at ih
      refine ⟨[], closes_quote hquote fun after heq => ?_⟩
      exact (List.cons.inj heq).2 ▸ ih
  | case5 d text hd =>
    rw [afterQuoted, if_pos rfl, if_neg hd]
    exact ⟨[], closes_quote hquote fun after heq => absurd (List.cons.inj heq).1 hd⟩
  | case6 c d text hc hescape ih =>
    obtain ⟨hescapes, rfl⟩ := hescape
    rw [afterQuoted, if_neg hc, if_pos ⟨hescapes, rfl⟩]
    cases hafter : afterQuoted quote escapes text with
    | some rest =>
      rw [hafter] at ih
      obtain ⟨body, hbody⟩ := ih
      exact ⟨_, hbody.escaped hescapes hquote⟩
    | none =>
      rw [hafter] at ih
      exact ih.escaped hescapes hquote
  | case7 c d text hc hescape ih =>
    rw [afterQuoted, if_neg hc, if_neg hescape]
    cases hafter : afterQuoted quote escapes (d :: text) with
    | some rest =>
      rw [hafter] at ih
      obtain ⟨body, hbody⟩ := ih
      exact ⟨_, hbody.plain hc hescape⟩
    | none =>
      rw [hafter] at ih
      exact ih.plain hc hescape

theorem afterQuoted_of_closes {quote : Char} (hquote : quote ≠ '\\') {escapes : Bool}
    {text body rest : Text} (h : Closes quote escapes text body rest) :
    afterQuoted quote escapes text = some rest := by
  have hspec := afterQuoted_spec hquote escapes text
  cases hafter : afterQuoted quote escapes text with
  | some found =>
    rw [hafter] at hspec
    obtain ⟨_, hfound⟩ := hspec
    rw [(hfound.unique h).2]
  | none =>
    rw [hafter] at hspec
    exact absurd hspec h.not_unclosed

theorem exists_closes {quote : Char} (hquote : quote ≠ '\\') {escapes : Bool} {text rest : Text}
    (h : afterQuoted quote escapes text = some rest) :
    ∃ body, Closes quote escapes text body rest := by
  have hspec := afterQuoted_spec hquote escapes text
  rwa [h] at hspec

/-- The pattern finds nothing where no piece of several characters begins. -/
theorem commentOrLiteral_eq_none {c : Char} {text : Text} (h : ¬pattern.Begins c text) :
    commentOrLiteral (c :: text) = none := by
  have hquoted : ∀ quote escapes, quote ≠ '\\' → isQuote quote = true →
      escapes = pattern.escapesIn quote → c = quote → afterQuoted quote escapes text = none := by
    rintro quote escapes hquote hisQuote rfl rfl
    rw [Option.eq_none_iff_forall_not_mem]
    intro rest hrest
    obtain ⟨body, hbody⟩ := exists_closes hquote hrest
    exact h (.inr (.inr ⟨hisQuote, body, rest, hbody⟩))
  unfold commentOrLiteral
  split
  · next heq =>
    obtain ⟨rfl, rfl⟩ := List.cons.inj heq
    exact absurd (.inl ⟨rfl, rfl⟩) h
  · next text' heq =>
    obtain ⟨rfl, rfl⟩ := List.cons.inj heq
    rw [afterComment_eq, Option.map_eq_none_iff]
    by_contra hne
    exact h (.inr (.inl ⟨rfl, rfl, Option.isSome_iff_ne_none.mpr hne⟩))
  · next heq =>
    obtain ⟨rfl, rfl⟩ := List.cons.inj heq
    rw [hquoted '\'' true (by decide) (by decide) rfl rfl, Option.map_none]
  · next heq =>
    obtain ⟨rfl, rfl⟩ := List.cons.inj heq
    rw [hquoted '"' true (by decide) (by decide) rfl rfl, Option.map_none]
  · next heq =>
    obtain ⟨rfl, rfl⟩ := List.cons.inj heq
    rw [hquoted '`' false (by decide) (by decide) rfl rfl, Option.map_none]
  · rfl

theorem ne_backslash_of_isQuote {quote : Char} (h : isQuote quote = true) : quote ≠ '\\' := by
  rintro rfl
  exact absurd h (by decide)

theorem commentOrLiteral_quoted {quote : Char} (hquote : isQuote quote = true)
    {text body rest : Text} (h : Closes quote (pattern.escapesIn quote) text body rest) :
    commentOrLiteral (quote :: text) = some (false, rest) := by
  have hafter := afterQuoted_of_closes (ne_backslash_of_isQuote hquote) h
  have hkinds : quote = '\'' ∨ quote = '"' ∨ quote = '`' := by
    simpa [isQuote, or_assoc] using hquote
  rcases hkinds with rfl | rfl | rfl
  · exact congrArg (Option.map (false, ·)) hafter
  · exact congrArg (Option.map (false, ·)) hafter
  · exact congrArg (Option.map (false, ·)) hafter

theorem commentOrLiteral_line {body rest : Text} (hbody : '\n' ∉ body)
    (hrest : ∀ c ∈ rest.head?, c = '\n') :
    commentOrLiteral ('-' :: '-' :: (body ++ rest)) = some (true, rest) := by
  have hdrop : (body ++ rest).dropWhile (· ≠ '\n') = rest := by
    have hall : ∀ c ∈ body, (decide (c ≠ '\n')) = true := by
      rintro c hc
      rw [decide_eq_true_eq]
      rintro rfl
      exact hbody hc
    rw [List.dropWhile_append_of_pos hall]
    cases rest with
    | nil => rfl
    | cons c rest =>
      obtain rfl := hrest c rfl
      rfl
  rw [commentOrLiteral, hdrop]

theorem commentOrLiteral_block {text rest : Text} (h : afterFirstEnd text = some rest) :
    commentOrLiteral ('/' :: '*' :: text) = some (true, rest) := by
  rw [commentOrLiteral, afterComment_eq, h]
  rfl

theorem stripFrom_comment (comments : Bool) {c : Char} {body rest : Text}
    (h : commentOrLiteral (c :: (body ++ rest)) = some (true, rest)) :
    stripFrom comments 0 (c :: (body ++ rest)) =
      (if comments then c :: body else []) ++ stripFrom comments 0 rest := by
  have hlength : (body ++ rest).length - rest.length = body.length := by
    rw [List.length_append]
    omega
  rw [stripFrom, h]
  dsimp only
  rw [hlength, stripFrom_append, List.take_left]
  rfl

/-- The text of some pieces outside of its quoted texts, with a blank in the place of each. -/
def visible (pieces : List Piece) : Text :=
  pieces.flatMap fun
    | .comment text => text
    | .quoted _ => [' ']
    | .other c => [c]

/-- The same text without its comments. -/
def uncommented (pieces : List Piece) : Text :=
  pieces.flatMap fun
    | .comment _ => []
    | .quoted _ => [' ']
    | .other c => [c]

theorem stripFrom_eq {query : Text} {pieces : List Piece} (h : Tokenizes pattern query pieces)
    (comments : Bool) : stripFrom comments 0 query =
      if comments then visible pieces else uncommented pieces := by
  induction h with
  | nil => cases comments <;> rfl
  | line hbody hrest _ ih =>
    rw [← List.cons_append, stripFrom_comment comments (commentOrLiteral_line hbody hrest), ih]
    cases comments <;> rfl
  | block hblock _ ih =>
    rw [← List.cons_append, stripFrom_comment comments (commentOrLiteral_block hblock), ih]
    cases comments <;> rfl
  | quoted hquote hcloses _ ih =>
    rw [List.append_cons, stripFrom_literal comments (by
      rw [← List.append_cons]
      exact commentOrLiteral_quoted hquote hcloses), ih]
    cases comments <;> rfl
  | other hother _ ih =>
    rw [stripFrom_cons comments (commentOrLiteral_eq_none hother), ih]
    cases comments <;> rfl

/-! ### Words -/

/-- The lowercase of a character that belongs to no word neither joins words nor is one. -/
structure Unicode.Separates (unicode : Unicode) : Prop where
  nonempty : ∀ c, 128 ≤ c.toNat → unicode.isWord c = false → unicode.lower c ≠ []
  separates : ∀ c, 128 ≤ c.toNat → unicode.isWord c = false →
    ∀ d ∈ unicode.lower c, Utils.isWord unicode d = false

variable {unicode : Unicode}

def words (unicode : Unicode) (text : Text) : List Text :=
  text.splitOnP fun c => !isWord unicode c

/-- Whether a word of a text is a forbidden one, in any letter case. -/
def Forbidden (unicode : Unicode) (text : Text) : Prop :=
  ∃ word ∈ words unicode text, lower unicode word ∈ forbiddenSqlKeywords

/-- A word that is no forbidden one, but has one between characters that belong to no word when it is
lowercased. -/
def FallsApart (unicode : Unicode) (word : Text) : Prop :=
  lower unicode word ∉ forbiddenSqlKeywords ∧ hasForbiddenKeyword unicode (lower unicode word) = true

theorem isWord_toLower {c : Char} (hascii : c.toNat < 128) (h : isWord unicode c = false) :
    isWord unicode c.toLower = false := by
  have hupper : c.isUpper = false := by
    simp only [isWord, hascii, if_true, Char.isAlphanum, Char.isAlpha, Bool.or_eq_false_iff] at h
    exact h.1.1.1
  have hsame : c.toLower = c := by
    unfold Char.toLower
    simp only [Char.isUpper, decide_eq_false_iff_not] at hupper
    rw [dif_neg]
    tauto
  rwa [hsame]

/-- The lowercase of a character that belongs to no word. -/
theorem lower_separator (separates : unicode.Separates) {c : Char}
    (h : isWord unicode c = false) :
    ∃ d ds, lower unicode [c] = d :: ds ∧ ∀ e ∈ d :: ds, isWord unicode e = false := by
  by_cases hascii : c.toNat < 128
  · exact ⟨c.toLower, [], by simp [lower, hascii], by simpa using isWord_toLower hascii h⟩
  · have hlower : lower unicode [c] = unicode.lower c := by simp [lower, hascii]
    have hother : unicode.isWord c = false := by simpa [isWord, hascii] using h
    have hwide := Nat.le_of_not_lt hascii
    obtain ⟨d, ds, hds⟩ := List.exists_cons_of_ne_nil (separates.nonempty c hwide hother)
    refine ⟨d, ds, by rw [hlower, hds], ?_⟩
    rw [← hds]
    exact separates.separates c hwide hother

theorem hasForbiddenKeyword_separators {a b : Text} (h : ∀ c ∈ a, isWord unicode c = false) :
    hasForbiddenKeyword unicode (a ++ b) = hasForbiddenKeyword unicode b := by
  induction a with
  | nil => rfl
  | cons c a ih =>
    obtain ⟨hc, ha⟩ := List.forall_mem_cons.mp h
    rw [List.cons_append, hasForbiddenKeyword_cons unicode hc, ih ha]

/-- The first word of a text and what is behind it. -/
theorem all_isWord_or (unicode : Unicode) (text : Text) : (∀ c ∈ text, isWord unicode c = true) ∨
    ∃ word c rest, text = word ++ c :: rest ∧ (∀ d ∈ word, isWord unicode d = true) ∧
      isWord unicode c = false := by
  induction text with
  | nil => exact .inl nofun
  | cons c text ih =>
    cases hc : isWord unicode c with
    | false => exact .inr ⟨[], c, text, rfl, nofun, hc⟩
    | true =>
      rcases ih with hall | ⟨word, d, rest, rfl, hword, hd⟩
      · exact .inl (List.forall_mem_cons.mpr ⟨hc, hall⟩)
      · exact .inr ⟨c :: word, d, rest, rfl, List.forall_mem_cons.mpr ⟨hc, hword⟩, hd⟩

/-- The forbidden words of a lowercased text lie in its lowercased words. -/
theorem hasForbiddenKeyword_lower (separates : unicode.Separates) (text : Text) :
    hasForbiddenKeyword unicode (lower unicode text) =
      (words unicode text).any fun word => hasForbiddenKeyword unicode (lower unicode word) := by
  induction h : text.length using Nat.strong_induction_on generalizing text with
  | _ n ih =>
  rcases all_isWord_or unicode text with hall | ⟨word, c, rest, rfl, hword, hc⟩
  · have hwords : words unicode text = [text] :=
      List.splitOnP_eq_singleton fun c hc => by rw [hall c hc]; rfl
    rw [hwords, List.any_cons, List.any_nil, Bool.or_false]
  · have hwords : words unicode (word ++ c :: rest) = word :: words unicode rest :=
      List.splitOnP_append_cons_of_forall_mem (fun d hd => by rw [hword d hd]; rfl) c
        (by rw [hc]; rfl) rest
    obtain ⟨d, ds, hlower, hseparators⟩ := lower_separator separates hc
    obtain ⟨hd, hds⟩ := List.forall_mem_cons.mp hseparators
    have hrest := ih rest.length (by simp at h; omega) rest rfl
    rw [hwords, List.any_cons, List.append_cons, lower_append, lower_append, hlower,
      List.append_assoc, List.cons_append, hasForbiddenKeyword_append unicode hd,
      hasForbiddenKeyword_separators hds, hrest]

/-- A forbidden word is one word. -/
theorem hasForbiddenKeyword_of_mem {word : Text} (h : word ∈ forbiddenSqlKeywords) :
    hasForbiddenKeyword unicode word = true := by
  have hwords : (words unicode word) = [word] := by
    refine List.splitOnP_eq_singleton fun c hc => ?_
    have hletters : (forbiddenSqlKeywords.all fun keyword =>
        keyword.all fun c => c.toNat < 128 && c.isAlphanum) = true := by decide
    have hc' := List.all_eq_true.mp (List.all_eq_true.mp hletters word h) c hc
    obtain ⟨hascii, hletter⟩ := Bool.and_eq_true_iff.mp hc'
    simp only [decide_eq_true_eq] at hascii
    simp [isWord, hascii, hletter]
  rw [hasForbiddenKeyword]
  change (words unicode word).any _ = true
  rw [hwords]
  simpa using h

theorem hasComment_append {b : Text} (h : hasComment b = true) (a : Text) :
    hasComment (a ++ b) = true := by
  obtain ⟨rest, hrest, hstarts⟩ := List.any_eq_true.mp h
  have hsuffix := ((List.mem_tails _ _).mp hrest).trans (List.suffix_append a b)
  exact List.any_eq_true.mpr ⟨rest, (List.mem_tails _ _).mpr hsuffix, hstarts⟩

/-- The second search is made if there is a comment. -/
theorem hasComment_visible {query : Text} {pieces : List Piece}
    (h : Tokenizes pattern query pieces) (hcomment : ∃ text, .comment text ∈ pieces) :
    hasComment (lower unicode (visible pieces)) = true := by
  induction h with
  | nil =>
    obtain ⟨text, htext⟩ := hcomment
    cases htext
  | line | block => exact List.any_eq_true.mpr ⟨_, (List.mem_tails _ _).mpr List.suffix_rfl, rfl⟩
  | quoted _ _ _ ih | other _ _ ih =>
    obtain ⟨text, htext⟩ := hcomment
    rcases List.mem_cons.mp htext with heq | htext
    · cases heq
    · rw [visible, List.flatMap_cons, lower_append]
      exact hasComment_append (ih ⟨text, htext⟩) _

theorem uncommented_eq_visible {pieces : List Piece} (h : ∀ text, .comment text ∉ pieces) :
    uncommented pieces = visible pieces := by
  unfold uncommented visible
  refine List.flatMap_congr fun piece hpiece => ?_
  cases piece with
  | comment text => exact absurd hpiece (h text)
  | quoted | other => rfl

/-- A query is safe if neither search finds a word. -/
theorem isSqlQuerySafe_iff {query : Text} {pieces : List Piece}
    (h : Tokenizes pattern query pieces) : isSqlQuerySafe unicode query = true ↔
      hasForbiddenKeyword unicode (lower unicode (visible pieces)) = false ∧
        hasForbiddenKeyword unicode (lower unicode (uncommented pieces)) = false := by
  have hvisible : stripFrom true 0 query = visible pieces := stripFrom_eq h true
  have huncommented : stripFrom false 0 query = uncommented pieces := stripFrom_eq h false
  rw [isSqlQuerySafe, hvisible, huncommented]
  by_cases hcomment : ∃ text, .comment text ∈ pieces
  · simp [hasComment_visible h hcomment]
  · rw [uncommented_eq_visible (by simpa using hcomment)]
    simp +contextual

/-- A piece that no word goes on with. -/
def Bounds (unicode : Unicode) (piece : Option Piece) : Prop :=
  ∀ c, piece = some (.other c) → isWord unicode c = false

/-- Whether some pieces in a row spell a forbidden word, in any letter case, but for the comments
among them. -/
def Split (unicode : Unicode) (pieces : List Piece) : Prop :=
  ∃ before middle after, pieces = before ++ middle ++ after ∧
    lower unicode (uncommented middle) ∈ forbiddenSqlKeywords ∧
    Bounds unicode before.getLast? ∧ Bounds unicode after.head?

/-- What the search promises about a query with these pieces. -/
structure Screens (unicode : Unicode) (query : Text) (pieces : List Piece) : Prop where
  refuses : Forbidden unicode (visible pieces) ∨ Forbidden unicode (uncommented pieces) ∨
    Split unicode pieces → isSqlQuerySafe unicode query = false
  accepts : (∀ text, .comment text ∉ pieces) → ¬Forbidden unicode (visible pieces) →
    isSqlQuerySafe unicode query = true

/-- A word that is a forbidden one, or falls apart into one. -/
def Suspect (unicode : Unicode) (word : Text) : Prop :=
  lower unicode word ∈ forbiddenSqlKeywords ∨ FallsApart unicode word

theorem suspect_iff {word : Text} :
    Suspect unicode word ↔ hasForbiddenKeyword unicode (lower unicode word) = true := by
  constructor
  · rintro (hmem | ⟨-, hfound⟩)
    · exact hasForbiddenKeyword_of_mem hmem
    · exact hfound
  · intro hfound
    by_cases hmem : lower unicode word ∈ forbiddenSqlKeywords
    · exact .inl hmem
    · exact .inr ⟨hmem, hfound⟩

/-- A query is refused if it has a suspect word, with its comments or without them. -/
theorem isSqlQuerySafe_eq_false_iff (separates : unicode.Separates) {query : Text}
    {pieces : List Piece} (h : Tokenizes pattern query pieces) :
    isSqlQuerySafe unicode query = false ↔
      ∃ word ∈ words unicode (visible pieces) ++ words unicode (uncommented pieces),
        Suspect unicode word := by
  rw [Bool.eq_false_iff, Ne, isSqlQuerySafe_iff h, hasForbiddenKeyword_lower separates,
    hasForbiddenKeyword_lower separates]
  simp only [List.any_eq_false, not_and_or, not_forall, not_not, ← suspect_iff, List.mem_append,
    or_and_right, exists_or, exists_prop]

theorem Forbidden.exists_suspect {text : Text} (h : Forbidden unicode text) :
    ∃ word ∈ words unicode text, Suspect unicode word := by
  obtain ⟨word, hword, hmem⟩ := h
  exact ⟨word, hword, .inl hmem⟩

/-- A query is screened exactly if every forbidden word that comments split leaves a suspect word,
and no word falls apart into a forbidden one in a query with neither a comment nor such a word. -/
theorem screens_iff (separates : unicode.Separates) {query : Text} {pieces : List Piece}
    (h : Tokenizes pattern query pieces) : Screens unicode query pieces ↔
      (Split unicode pieces →
        ∃ word ∈ words unicode (visible pieces) ++ words unicode (uncommented pieces),
          Suspect unicode word) ∧
      ((∃ text, .comment text ∈ pieces) ∨ Forbidden unicode (visible pieces) ∨
        ∀ word ∈ words unicode (visible pieces), ¬FallsApart unicode word) := by
  have hrefused := isSqlQuerySafe_eq_false_iff separates h
  constructor
  · intro screens
    refine ⟨fun hsplit => hrefused.mp (screens.refuses (.inr (.inr hsplit))), ?_⟩
    by_contra hnone
    push Not at hnone
    obtain ⟨hcomment, hforbidden, word, hword, hfalls⟩ := hnone
    have hsafe := screens.accepts hcomment hforbidden
    rw [hrefused.mpr ⟨word, List.mem_append_left _ hword, .inr hfalls⟩] at hsafe
    cases hsafe
  · rintro ⟨hsplit, hwhole⟩
    refine ⟨fun hforbidden => hrefused.mpr ?_, fun hcomment hforbidden => ?_⟩
    · rcases hforbidden with hvisible | huncommented | hwords
      · obtain ⟨word, hword, hsuspect⟩ := hvisible.exists_suspect
        exact ⟨word, List.mem_append_left _ hword, hsuspect⟩
      · obtain ⟨word, hword, hsuspect⟩ := huncommented.exists_suspect
        exact ⟨word, List.mem_append_right _ hword, hsuspect⟩
      · exact hsplit hwords
    · rw [← Bool.not_eq_false, hrefused]
      rintro ⟨word, hword, hsuspect⟩
      rw [uncommented_eq_visible hcomment, List.mem_append, or_self] at hword
      rcases hsuspect with hmem | hfalls
      · exact hforbidden ⟨word, hword, hmem⟩
      · rcases hwhole with ⟨text, htext⟩ | hmem | hnone
        · exact hcomment text htext
        · exact hforbidden hmem
        · exact hnone word hword hfalls

/-- Python's tables as far as the dotted capital I goes, which becomes an i with a dot of its own. -/
def dottedCapital : Unicode where
  isWord c := c = 'İ'
  lower c := if c = 'İ' then ['i', Char.ofNat 0x307] else [c]

theorem separates_dottedCapital : dottedCapital.Separates where
  nonempty c _ hc := by
    have hne : c ≠ 'İ' := by simpa [dottedCapital] using hc
    simp [dottedCapital, hne]
  separates c hwide hc d hd := by
    have hne : c ≠ 'İ' := by simpa [dottedCapital] using hc
    obtain rfl : d = c := by simpa [dottedCapital, hne] using hd
    simpa [isWord, Nat.not_lt.mpr hwide] using hc

/-- Nothing begins in some characters before a text. -/
theorem tokenizes_others {rules : Rules} {text rest : Text} {pieces : List Piece}
    (h : text.all (fun c => c ≠ '-' && c ≠ '/' && !isQuote c) = true)
    (hrest : Tokenizes rules rest pieces) :
    Tokenizes rules (text ++ rest) (text.map .other ++ pieces) := by
  induction text with
  | nil => exact hrest
  | cons c text ih =>
    simp only [List.all_cons, Bool.and_eq_true, decide_eq_true_eq, Bool.not_eq_true'] at h
    obtain ⟨⟨⟨hminus, hslash⟩, hquote⟩, htext⟩ := h
    refine .other ?_ (ih htext)
    rintro (⟨heq, -⟩ | ⟨heq, -⟩ | ⟨heq, -⟩)
    · exact hminus heq
    · exact hslash heq
    · rw [hquote] at heq
      cases heq

theorem tokenizes_map_other {rules : Rules} {text : Text}
    (h : text.all (fun c => c ≠ '-' && c ≠ '/' && !isQuote c) = true) :
    Tokenizes rules text (text.map .other) := by
  simpa using tokenizes_others h .nil

theorem screens_drop :
    Screens dottedCapital "Drop TABLE t".toList ("Drop TABLE t".toList.map .other) := by
  have hforbidden : lower dottedCapital "Drop".toList ∈ forbiddenSqlKeywords := by decide
  refine (screens_iff separates_dottedCapital (tokenizes_map_other (by decide))).mpr ⟨fun _ => ?_, ?_⟩
  · exact ⟨"Drop".toList, by decide, .inl hforbidden⟩
  · exact .inr (.inl ⟨"Drop".toList, by decide, hforbidden⟩)

/-- The pieces of `a/**/dr/**/op`. -/
def splitPieces : List Piece :=
  [.other 'a', .comment "/**/".toList, .other 'd', .other 'r', .comment "/**/".toList, .other 'o',
    .other 'p']

/-- A forbidden word that one comment splits and another one separates from a word is accepted, and a
query with a word that falls apart is refused. -/
theorem split_word_accepted_and_dotted_word_refused :
    (Tokenizes pattern "a/**/dr/**/op".toList splitPieces ∧ Split dottedCapital splitPieces ∧
      isSqlQuerySafe dottedCapital "a/**/dr/**/op".toList = true) ∧
    Tokenizes pattern "İdrop".toList ("İdrop".toList.map .other) ∧
      (∀ text, .comment text ∉ "İdrop".toList.map Piece.other) ∧
      ¬Forbidden dottedCapital (visible ("İdrop".toList.map .other)) ∧
      isSqlQuerySafe dottedCapital "İdrop".toList = false := by
  have hlast : Tokenizes pattern "op".toList ("op".toList.map .other) :=
    tokenizes_map_other (by decide)
  have hsecond : Tokenizes pattern "dr/**/op".toList (splitPieces.drop 2) :=
    @tokenizes_others _ "dr".toList _ _ (by decide) (@Tokenizes.block _ ['*', '/'] _ _ rfl hlast)
  refine ⟨⟨@tokenizes_others _ ['a'] _ _ (by decide) (@Tokenizes.block _ ['*', '/'] _ _ rfl hsecond),
    ⟨splitPieces.take 2, splitPieces.drop 2, [], rfl, by decide, nofun, nofun⟩, by decide⟩,
    tokenizes_map_other (by decide), by simp, ?_, by decide⟩
  rintro ⟨word, hword, hmem⟩
  revert hmem
  revert word
  decide

end Dqx.Utils
