import Mathlib.Data.List.Chain

/-! The tokens of a SQL text: a scanner that reads one character at a time, with quoted strings whose
quote is doubled or escaped by a backslash, quoted names, comments and `{{name}}` placeholders. -/

namespace Dqx.Lib.Sql

abbrev Text := List Char

instance : LawfulBEq Text := List.instLawfulBEq

inductive Token where
  | word (text : Text)
  | symbol (text : Text)
  | string (quote : Char) (content : Text)
  | quotedName (content : Text)
  | placeholder (name : Text)
  | unclosed (text : Text)
  deriving DecidableEq, Repr

/-- What has been read of the token that is not finished yet. -/
inductive Mode where
  | start
  | word (text : Text)
  | symbol (text : Text)
  | quoted (quote : Char) (content : Text)
  | escaped (quote : Char) (content : Text)
  /-- After a quote that ends the string unless another one follows. -/
  | closed (quote : Char) (content : Text)
  | name (content : Text)
  | nameClosed (content : Text)
  | brace
  | placeholder (name : Text)
  | placeholderBrace (name : Text)
  | lineComment
  | comment (depth : Nat) (last : Char)
  deriving DecidableEq, Repr

def isWordChar (c : Char) : Bool :=
  c.isAlphanum || c = '_' || 128 ≤ c.val.toNat

/-- The exponent mark ends a number that goes on with a sign. -/
def endsExponent (text : Text) : Bool :=
  match text.reverse with
  | c :: digits => (c = 'e' || c = 'E') && !digits.isEmpty && digits.all fun d => d.isDigit || d = '.'
  | [] => false

/-- A word goes on with a word character, and a number with its point or the sign of its exponent. -/
def extendsWord (text : Text) (c : Char) : Bool :=
  isWordChar c || (c = '.' && text.all Char.isDigit) || ((c = '+' || c = '-') && endsExponent text)

/-- The operators of several characters, and what opens a comment. -/
def operators : List Text :=
  [['<', '='], ['<', '=', '>'], ['<', '>'], ['<', '<'], ['>', '='], ['>', '>'], ['>', '>', '>'],
    ['!', '='], ['=', '='], ['=', '>'], ['|', '|'], ['-', '>'], [':', ':'], ['-', '-'],
    ['/', '*']]

def extendsSymbol (text : Text) (c : Char) : Bool :=
  operators.contains (text ++ [c])

def startsOperator (c : Char) : Bool :=
  operators.any fun op => op.head? = some c

/-- A character outside of every token. -/
def startWith (c : Char) : Mode × List Token :=
  if c.isWhitespace then (.start, [])
  else if isWordChar c then (.word [c], [])
  else if c = '\'' ∨ c = '"' then (.quoted c [], [])
  else if c = '`' then (.name [], [])
  else if c = '{' then (.brace, [])
  else if startsOperator c then (.symbol [c], [])
  else (.start, [.symbol [c]])

/-- The token that the end of the text, or a character that does not go on with it, finishes. -/
def flush : Mode → List Token
  | .start => []
  | .word text => [.word text]
  | .symbol text => [.symbol text]
  | .quoted quote content => [.unclosed (quote :: content)]
  | .escaped quote content => [.unclosed (quote :: content)]
  | .closed quote content => [.string quote content]
  | .name content => [.unclosed ('`' :: content)]
  | .nameClosed content => [.quotedName content]
  | .brace => [.symbol ['{']]
  | .placeholder name => [.unclosed ('{' :: '{' :: name)]
  | .placeholderBrace name => [.unclosed ('{' :: '{' :: name)]
  | .lineComment => []
  | .comment _ _ => []

/-- A character that does not go on with the token before it. -/
def flushWith (mode : Mode) (c : Char) : Mode × List Token :=
  ((startWith c).1, flush mode ++ (startWith c).2)

def step (mode : Mode) (c : Char) : Mode × List Token :=
  match mode with
  | .start => startWith c
  | .word text => if extendsWord text c then (.word (text ++ [c]), []) else flushWith mode c
  | .symbol text =>
    if extendsSymbol text c then
      if text ++ [c] = ['-', '-'] then (.lineComment, [])
      else if text ++ [c] = ['/', '*'] then (.comment 1 ' ', [])
      else (.symbol (text ++ [c]), [])
    else flushWith mode c
  | .quoted quote content =>
    if c = '\\' then (.escaped quote content, [])
    else if c = quote then (.closed quote content, [])
    else (.quoted quote (content ++ [c]), [])
  | .escaped quote content => (.quoted quote (content ++ ['\\', c]), [])
  | .closed quote content =>
    if c = quote then (.quoted quote (content ++ [c, c]), []) else flushWith mode c
  | .name content => if c = '`' then (.nameClosed content, []) else (.name (content ++ [c]), [])
  | .nameClosed content =>
    if c = '`' then (.name (content ++ [c, c]), []) else flushWith mode c
  | .brace => if c = '{' then (.placeholder [], []) else flushWith mode c
  | .placeholder name =>
    if c = '}' then (.placeholderBrace name, []) else (.placeholder (name ++ [c]), [])
  | .placeholderBrace name =>
    if c = '}' then (.start, [.placeholder name]) else (.placeholder (name ++ ['}', c]), [])
  | .lineComment => (if c = '\n' then .start else .lineComment, [])
  | .comment depth last =>
    if last = '*' ∧ c = '/' then (if depth = 1 then .start else .comment (depth - 1) ' ', [])
    else if last = '/' ∧ c = '*' then (.comment (depth + 1) ' ', [])
    else (.comment depth c, [])

def scan : Mode → Text → Mode × List Token
  | mode, [] => (mode, [])
  | mode, c :: text =>
    let (next, tokens) := step mode c
    let (final, rest) := scan next text
    (final, tokens ++ rest)

/-- The tokens of a text. -/
def lex (text : Text) : List Token :=
  (scan .start text).2 ++ flush (scan .start text).1

/-- Where reading a text on its own ends. -/
def ends (text : Text) : Mode :=
  (scan .start text).1

/-- Nothing is open: the text could end here. -/
def Mode.isWhole : Mode → Bool
  | .start | .word _ | .nameClosed _ => true
  | .closed quote _ => quote = '\'' || quote = '"'
  | _ => false

/-- A space, a comma or a closing parenthesis goes on with no token. -/
theorem step_of_isWhole {mode : Mode} (whole : mode.isWhole = true) {c : Char}
    (hc : c = ' ' ∨ c = ')' ∨ c = ',') : step mode c = flushWith mode c := by
  have hplain : isWordChar c = false ∧ c ≠ '.' ∧ c ≠ '+' ∧ c ≠ '-' ∧ c ≠ '`' := by
    rcases hc with rfl | rfl | rfl <;> decide
  obtain ⟨hword, hdot, hplus, hminus, hname⟩ := hplain
  cases mode with
  | start => simp [step, flushWith, flush]
  | word text => simp [step, extendsWord, hword, hdot, hplus, hminus]
  | nameClosed content => simp [step, hname]
  | closed quote content =>
    have hquote : c ≠ quote := by
      rintro rfl
      rcases hc with rfl | rfl | rfl <;> simp [Mode.isWhole] at whole
    simp [step, hquote]
  | _ => simp [Mode.isWhole] at whole

/-- A dot goes on with no quoted name. -/
theorem step_nameClosed_dot (content : Text) :
    step (.nameClosed content) '.' = flushWith (.nameClosed content) '.' := by
  simp [step]

@[simp] theorem scan_nil (mode : Mode) : scan mode [] = (mode, []) := rfl

theorem scan_cons (mode : Mode) (c : Char) (text : Text) :
    scan mode (c :: text) =
      ((scan (step mode c).1 text).1, (step mode c).2 ++ (scan (step mode c).1 text).2) := rfl

theorem scan_cons_of_step {mode next : Mode} {c : Char} (h : step mode c = (next, []))
    (text : Text) : scan mode (c :: text) = scan next text := by
  rw [scan_cons, h]
  rfl

theorem scan_append (mode : Mode) (a b : Text) :
    scan mode (a ++ b) =
      ((scan (scan mode a).1 b).1, (scan mode a).2 ++ (scan (scan mode a).1 b).2) := by
  induction a generalizing mode with
  | nil => rfl
  | cons c a ih =>
    rw [List.cons_append, scan_cons, scan_cons, ih]
    simp only [List.append_assoc]

/-- A character that does not go on with a token begins the rest of the text on its own. -/
theorem scan_of_flushWith {mode : Mode} {c : Char} (h : step mode c = flushWith mode c)
    (text : Text) : scan mode (c :: text) =
      ((scan .start (c :: text)).1, flush mode ++ (scan .start (c :: text)).2) := by
  rw [scan_cons, scan_cons, h]
  simp [flushWith, step]

@[simp] theorem lex_nil : lex [] = [] := rfl

theorem lex_of_scan {text : Text} {mode : Mode} {tokens : List Token}
    (h : scan .start text = (mode, tokens)) : lex text = tokens ++ flush mode := by
  rw [lex, h]

theorem ends_of_scan {text : Text} {mode : Mode} {tokens : List Token}
    (h : scan .start text = (mode, tokens)) : ends text = mode := by
  rw [ends, h]

theorem scan_placeholder_name {name : Text} (h : '}' ∉ name) (read : Text) :
    scan (.placeholder read) name = (.placeholder (read ++ name), []) := by
  induction name generalizing read with
  | nil => simp
  | cons c name ih =>
    have hc : c ≠ '}' := fun heq => h (heq ▸ List.mem_cons_self)
    have hstep : step (.placeholder read) c = (.placeholder (read ++ [c]), []) := by
      simp [step, hc]
    rw [scan_cons_of_step hstep, ih fun hmem => h (List.mem_cons_of_mem _ hmem)]
    simp

/-- A placeholder is one token. -/
theorem scan_placeholder {name : Text} (h : '}' ∉ name) :
    scan .start ('{' :: '{' :: (name ++ ['}', '}'])) = (.start, [.placeholder name]) := by
  have hbrace : step .start '{' = (.brace, []) := by decide
  have hopen : step .brace '{' = (.placeholder [], []) := by decide
  rw [scan_cons_of_step hbrace, scan_cons_of_step hopen, scan_append, scan_placeholder_name h]
  simp [scan_cons, step]

theorem scan_name {content : Text} (h : '`' ∉ content) (read : Text) :
    scan (.name read) content = (.name (read ++ content), []) := by
  induction content generalizing read with
  | nil => simp
  | cons c content ih =>
    have hc : c ≠ '`' := fun heq => h (heq ▸ List.mem_cons_self)
    have hstep : step (.name read) c = (.name (read ++ [c]), []) := by
      simp [step, hc]
    rw [scan_cons_of_step hstep, ih fun hmem => h (List.mem_cons_of_mem _ hmem)]
    simp

/-- A quoted name is one token. -/
theorem scan_quotedName {content : Text} (h : '`' ∉ content) :
    scan .start ('`' :: (content ++ ['`'])) = (.nameClosed content, []) := by
  have hopen : step .start '`' = (.name [], []) := by decide
  rw [scan_cons_of_step hopen, scan_append, scan_name h]
  simp [scan_cons, step]

/-- A text does not go on with the token that another one ends in. -/
def Separate (a b : Text) : Prop :=
  ends a = .start ∨ b = [] ∨ ∃ c rest, b = c :: rest ∧ step (ends a) c = flushWith (ends a) c

theorem lex_append {a b : Text} (separate : Separate a b) : lex (a ++ b) = lex a ++ lex b := by
  unfold lex
  rw [scan_append]
  change (scan .start a).2 ++ (scan (ends a) b).2 ++ flush (scan (ends a) b).1 =
    (scan .start a).2 ++ flush (ends a) ++ ((scan .start b).2 ++ flush (scan .start b).1)
  rcases separate with hstart | rfl | ⟨c, rest, rfl, hstep⟩
  · rw [hstart]
    simp [flush]
  · simp [flush]
  · rw [scan_of_flushWith hstep]
    simp only [List.append_assoc]

/-- Texts that are separate from their neighbours have their tokens one after another. -/
theorem lex_flatten {texts : List Text} (nonempty : ∀ text ∈ texts, text ≠ [])
    (chain : texts.IsChain Separate) : lex texts.flatten = texts.flatMap lex := by
  induction texts with
  | nil => rfl
  | cons a texts ih =>
    have hrest := ih (fun text h => nonempty text (List.mem_cons_of_mem _ h)) chain.tail
    rw [List.flatten_cons, List.flatMap_cons, ← hrest]
    apply lex_append
    cases texts with
    | nil => exact .inr (.inl rfl)
    | cons b texts =>
      rw [List.flatten_cons]
      rcases (List.isChain_cons_cons.mp chain).1 with hstart | hnil | ⟨c, rest, rfl, hstep⟩
      · exact .inl hstart
      · exact absurd hnil (nonempty b (by simp))
      · exact .inr (.inr ⟨c, rest ++ texts.flatten, rfl, hstep⟩)

end Dqx.Lib.Sql
