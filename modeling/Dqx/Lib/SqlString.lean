import Dqx.Lib.SqlLexer

/-! String and number literals of a SQL text, and what a string literal denotes. -/

namespace Dqx.Lib.Sql

/-- Every quote written twice. -/
def double (quote : Char) (text : Text) : Text :=
  text.flatMap fun c => if c = quote then [c, c] else [c]

def isHexDigit (c : Char) : Bool :=
  c.isDigit || ('a' ≤ c && c ≤ 'f') || ('A' ≤ c && c ≤ 'F')

def isOctalDigit (c : Char) : Bool :=
  '0' ≤ c && c ≤ '7'

def digitValue (c : Char) : Nat :=
  if c.isDigit then c.toNat - '0'.toNat
  else if c.toNat < 'a'.toNat then c.toNat - 'A'.toNat + 10
  else c.toNat - 'a'.toNat + 10

def codePoint (base : Nat) (digits : Text) : Char :=
  Char.ofNat (digits.foldl (fun n c => base * n + digitValue c) 0)

/-- The escapes of one character. -/
def simpleEscape : Char → Char
  | '0' => Char.ofNat 0
  | 'b' => Char.ofNat 8
  | 'n' => '\n'
  | 'r' => '\r'
  | 't' => '\t'
  | 'Z' => Char.ofNat 26
  | c => c

/-- What the text after a backslash denotes, and how much of it belongs to the escape. A percent sign
or an underscore keeps its backslash. -/
def escape : Text → Text × Nat
  | [] => (['\\'], 0)
  | c :: rest =>
    if c = 'u' ∧ 4 ≤ rest.length ∧ (rest.take 4).all isHexDigit then
      ([codePoint 16 (rest.take 4)], 5)
    else if c = 'U' ∧ 8 ≤ rest.length ∧ (rest.take 8).all isHexDigit then
      ([codePoint 16 (rest.take 8)], 9)
    else if (c = '0' ∨ c = '1') ∧ 2 ≤ rest.length ∧ (rest.take 2).all isOctalDigit then
      ([codePoint 8 (c :: rest.take 2)], 3)
    else if c = '%' ∨ c = '_' then (['\\', c], 1)
    else ([simpleEscape c], 1)

/-- The text without the escapes and the doubled quotes, after some characters that belong to the
escape before it. -/
def unescapeFrom (quote : Char) : Nat → Text → Text
  | _, [] => []
  | skip + 1, _ :: text => unescapeFrom quote skip text
  | 0, c :: text =>
    if c = '\\' then (escape text).1 ++ unescapeFrom quote (escape text).2 text
    else if c = quote ∧ text.head? = some quote then c :: unescapeFrom quote 1 text
    else c :: unescapeFrom quote 0 text

/-- What a string literal with this content denotes. -/
def denotes (content : Text) : Text :=
  unescapeFrom '\'' 0 content

/-- What the string tokens denote, in order. -/
def strings (tokens : List Token) : List Text :=
  tokens.filterMap fun
    | .string '\'' content => some (denotes content)
    | _ => none

/-- Every backslash stands before a percent sign or an underscore, where it denotes itself. -/
def Readable : Text → Prop
  | [] => True
  | c :: text => (c = '\\' → text.head? = some '%' ∨ text.head? = some '_') ∧ Readable text

instance Readable.decidable : (text : Text) → Decidable (Readable text)
  | [] => inferInstanceAs (Decidable True)
  | c :: text =>
    have := Readable.decidable text
    inferInstanceAs (Decidable
      ((c = '\\' → text.head? = some '%' ∨ text.head? = some '_') ∧ Readable text))

@[simp] theorem double_nil (quote : Char) : double quote [] = [] := rfl

@[simp] theorem double_cons_self (quote : Char) (text : Text) :
    double quote (quote :: text) = quote :: quote :: double quote text := by
  simp [double]

theorem double_cons_of_ne {quote c : Char} (h : c ≠ quote) (text : Text) :
    double quote (c :: text) = c :: double quote text := by
  simp [double, h]

theorem double_append (quote : Char) (a b : Text) :
    double quote (a ++ b) = double quote a ++ double quote b :=
  List.flatMap_append

theorem double_eq_self {quote : Char} {text : Text} (h : quote ∉ text) :
    double quote text = text := by
  induction text with
  | nil => rfl
  | cons c text ih =>
    have hc : c ≠ quote := fun heq => h (heq ▸ List.mem_cons_self)
    rw [double_cons_of_ne hc, ih fun hmem => h (List.mem_cons_of_mem _ hmem)]

/-- The backslash before a percent sign or an underscore denotes itself. -/
theorem escape_wildcard {c : Char} (rest : Text) (wildcard : c = '%' ∨ c = '_') :
    escape (c :: rest) = (['\\', c], 1) := by
  rcases wildcard with rfl | rfl <;> simp [escape]

theorem ne_of_wildcard {c : Char} (wildcard : c = '%' ∨ c = '_') : c ≠ '\'' ∧ c ≠ '\\' := by
  rcases wildcard with rfl | rfl <;> decide

/-- A readable text is what its doubled quotes denote. -/
theorem unescapeFrom_double {text : Text} (readable : Readable text) (rest : Text) :
    unescapeFrom '\'' 0 (double '\'' text ++ rest) = text ++ unescapeFrom '\'' 0 rest := by
  induction text with
  | nil => rfl
  | cons c text ih =>
    obtain ⟨hbackslash, htext⟩ := readable
    have hrest := ih htext
    by_cases hc : c = '\\'
    · subst hc
      cases text with
      | nil => simp at hbackslash
      | cons d text =>
        have hd : d = '%' ∨ d = '_' := by simpa using hbackslash
        obtain ⟨hquote, hplain⟩ := ne_of_wildcard hd
        rw [double_cons_of_ne hquote] at hrest
        simp only [List.cons_append, unescapeFrom, hquote, hplain, if_false, false_and,
          List.cons.injEq, true_and] at hrest
        rw [double_cons_of_ne (by decide), double_cons_of_ne hquote]
        simp [unescapeFrom, escape_wildcard _ hd, hrest]
    · by_cases hquote : c = '\''
      · subst hquote
        simp [unescapeFrom, hrest]
      · rw [double_cons_of_ne hquote]
        simp [unescapeFrom, hc, hquote, hrest]

theorem denotes_double {text : Text} (readable : Readable text) :
    denotes (double '\'' text) = text := by
  have h := unescapeFrom_double readable []
  simpa [denotes, unescapeFrom] using h

/-- Inside a string, a readable text with doubled quotes stays inside it. -/
theorem scan_double {text : Text} (readable : Readable text) (content : Text) :
    scan (.quoted '\'' content) (double '\'' text) =
      (.quoted '\'' (content ++ double '\'' text), []) := by
  induction text generalizing content with
  | nil => simp
  | cons c text ih =>
    obtain ⟨hbackslash, htext⟩ := readable
    by_cases hc : c = '\\'
    · subst hc
      cases text with
      | nil => simp at hbackslash
      | cons d text =>
        have hd : d = '%' ∨ d = '_' := by simpa using hbackslash
        obtain ⟨hquote, hplain⟩ := ne_of_wildcard hd
        have hrest := ih htext (content ++ ['\\'])
        have hstep : step (.quoted '\'' (content ++ ['\\'])) d =
            (.quoted '\'' (content ++ ['\\', d]), []) := by
          simp [step, hquote, hplain]
        rw [double_cons_of_ne hquote, scan_cons_of_step hstep] at hrest
        have hbackslash : step (.quoted '\'' content) '\\' = (.escaped '\'' content, []) := rfl
        have hescaped : step (.escaped '\'' content) d =
            (.quoted '\'' (content ++ ['\\', d]), []) := rfl
        rw [double_cons_of_ne (by decide), double_cons_of_ne hquote,
          scan_cons_of_step hbackslash, scan_cons_of_step hescaped, hrest]
        simp
    · by_cases hquote : c = '\''
      · subst hquote
        have hrest := ih htext (content ++ ['\'', '\''])
        have hclosed : step (.quoted '\'' content) '\'' = (.closed '\'' content, []) := rfl
        have hdoubled : step (.closed '\'' content) '\'' =
            (.quoted '\'' (content ++ ['\'', '\'']), []) := rfl
        rw [double_cons_self, scan_cons_of_step hclosed, scan_cons_of_step hdoubled, hrest]
        simp
      · have hrest := ih htext (content ++ [c])
        have hstep : step (.quoted '\'' content) c = (.quoted '\'' (content ++ [c]), []) := by
          simp [step, hc, hquote]
        rw [double_cons_of_ne hquote, scan_cons_of_step hstep, hrest]
        simp

/-- A text between quotes, its own quotes doubled. -/
def quoted (text : Text) : Text :=
  '\'' :: (double '\'' text ++ ['\''])

theorem scan_quoted {text : Text} (readable : Readable text) :
    scan .start (quoted text) = (.closed '\'' (double '\'' text), []) := by
  have hopen : step .start '\'' = (.quoted '\'' [], []) := by decide
  rw [quoted, scan_cons_of_step hopen, scan_append, scan_double readable]
  simp [scan_cons, step]

theorem lex_quoted {text : Text} (readable : Readable text) :
    lex (quoted text) = [.string '\'' (double '\'' text)] := by
  rw [lex, scan_quoted readable]
  rfl

/-- A nonempty run of digits. -/
def IsDigits (text : Text) : Prop :=
  text ≠ [] ∧ text.all Char.isDigit = true

/-- A number without its sign: the digits, the digits after the point, and the exponent. -/
def numeral (whole : Text) (fraction : Option Text) (exponent : Option (Bool × Text)) : Text :=
  whole ++ (fraction.elim [] fun digits => '.' :: digits) ++
    exponent.elim [] fun (negative, digits) => 'e' :: (if negative then '-' else '+') :: digits

theorem isWordChar_of_isDigit {c : Char} (h : c.isDigit = true) : isWordChar c = true := by
  simp [isWordChar, Char.isAlphanum, h]

theorem scan_word {text : Text} (h : text.all isWordChar = true) (read : Text) :
    scan (.word read) text = (.word (read ++ text), []) := by
  induction text generalizing read with
  | nil => simp
  | cons c text ih =>
    rw [List.all_cons, Bool.and_eq_true] at h
    have hstep : step (.word read) c = (.word (read ++ [c]), []) := by
      simp [step, extendsWord, h.1]
    rw [scan_cons_of_step hstep, ih h.2]
    simp

theorem IsDigits.all_isWordChar {text : Text} (h : IsDigits text) :
    text.all isWordChar = true := by
  rw [List.all_eq_true]
  intro c hc
  exact isWordChar_of_isDigit (List.all_eq_true.mp h.2 c hc)

theorem isWhitespace_of_isDigit {c : Char} (h : c.isDigit = true) : c.isWhitespace = false := by
  simp only [Char.isDigit, Bool.and_eq_true, decide_eq_true_eq, ge_iff_le,
    UInt32.le_iff_toNat_le] at h
  have hzero : '0'.val.toNat = 48 := rfl
  have hspace : c ≠ ' ' := by
    rintro rfl
    exact absurd h.1 (by decide)
  have htab : c ≠ '\t' := by
    rintro rfl
    exact absurd h.1 (by decide)
  have hreturn : c ≠ '\r' := by
    rintro rfl
    exact absurd h.1 (by decide)
  have hnewline : c ≠ '\n' := by
    rintro rfl
    exact absurd h.1 (by decide)
  simp [Char.isWhitespace, hspace, htab, hreturn, hnewline]

theorem scan_digits {text : Text} (h : IsDigits text) : scan .start text = (.word text, []) := by
  obtain ⟨hne, hdigits⟩ := h
  cases text with
  | nil => exact absurd rfl hne
  | cons c text =>
    rw [List.all_cons, Bool.and_eq_true] at hdigits
    have hstep : step .start c = (.word [c], []) := by
      simp [step, startWith, isWhitespace_of_isDigit hdigits.1, isWordChar_of_isDigit hdigits.1]
    have hword : text.all isWordChar = true := by
      rw [List.all_eq_true]
      intro d hd
      exact isWordChar_of_isDigit (List.all_eq_true.mp hdigits.2 d hd)
    rw [scan_cons_of_step hstep, scan_word hword]
    rfl

/-- A number is one token. -/
theorem scan_numeral {whole : Text} {fraction : Option Text} {exponent : Option (Bool × Text)}
    (hwhole : IsDigits whole) (hfraction : ∀ digits ∈ fraction, IsDigits digits)
    (hexponent : ∀ e ∈ exponent, IsDigits e.2) :
    scan .start (numeral whole fraction exponent) =
      (.word (numeral whole fraction exponent), []) := by
  have hbefore : scan .start (whole ++ fraction.elim [] fun digits => '.' :: digits) =
      (.word (whole ++ fraction.elim [] fun digits => '.' :: digits), []) := by
    cases fraction with
    | none => simpa using scan_digits hwhole
    | some digits =>
      have hpoint : step (.word whole) '.' = (.word (whole ++ ['.']), []) := by
        simp [step, extendsWord, hwhole.2]
      rw [Option.elim_some, scan_append, scan_digits hwhole]
      dsimp only
      rw [scan_cons_of_step hpoint, scan_word (hfraction digits rfl).all_isWordChar]
      simp
  have hdigits : (whole ++ fraction.elim [] fun digits => '.' :: digits).all
      (fun d => d.isDigit || d = '.') = true := by
    have hall : ∀ {text : Text}, IsDigits text →
        text.all (fun d => d.isDigit || d = '.') = true := by
      intro text h
      rw [List.all_eq_true]
      intro c hc
      simp [List.all_eq_true.mp h.2 c hc]
    cases fraction with
    | none => simpa using hall hwhole
    | some digits =>
      rw [Option.elim_some, List.all_append, hall hwhole, List.all_cons,
        hall (hfraction digits rfl)]
      decide
  have hne : (whole ++ fraction.elim [] fun digits => '.' :: digits) ≠ [] := by
    simp [hwhole.1]
  unfold numeral
  generalize whole ++ fraction.elim [] (fun digits => '.' :: digits) = before at hbefore hdigits hne
  cases exponent with
  | none => simpa using hbefore
  | some e =>
    obtain ⟨negative, digits⟩ := e
    have hmark : step (.word before) 'e' = (.word (before ++ ['e']), []) := by
      simp [step, extendsWord, isWordChar]
    have hends : endsExponent (before ++ ['e']) = true := by
      simp [endsExponent, hne, List.all_reverse, hdigits]
    have hsign : step (.word (before ++ ['e'])) (if negative then '-' else '+') =
        (.word (before ++ ['e'] ++ [if negative then '-' else '+']), []) := by
      cases negative <;> simp [step, extendsWord, hends]
    rw [Option.elim_some, scan_append, hbefore]
    dsimp only
    rw [scan_cons_of_step hmark, scan_cons_of_step hsign,
      scan_word (hexponent _ rfl).all_isWordChar]
    simp

/-- A word that is a number. -/
def isNumber (text : Text) : Bool :=
  text.head?.any Char.isDigit &&
    text.all fun c => c.isDigit || c = '.' || c = 'e' || c = 'E' || c = '+' || c = '-'

def isLiteral : Token → Bool
  | .string quote _ => quote = '\''
  | .word text => isNumber text ||
    ["TRUE", "FALSE", "NULL"].any fun keyword => text.map Char.toUpper = keyword.toList
  | _ => false

def startsNumber (tokens : List Token) : Bool :=
  match tokens with
  | .word text :: _ => isNumber text
  | _ => false

/-- The tokens but for the literals among them. A minus sign before a number is part of it. -/
def skeleton : List Token → List (Option Token)
  | [] => []
  | token :: tokens =>
    if token = .symbol ['-'] ∧ startsNumber tokens then skeleton tokens
    else (if isLiteral token then none else some token) :: skeleton tokens

theorem skeleton_append {a b : List Token} (h : a.getLast? ≠ some (.symbol ['-'])) :
    skeleton (a ++ b) = skeleton a ++ skeleton b := by
  induction a with
  | nil => rfl
  | cons token a ih =>
    cases a with
    | nil =>
      have htoken : token ≠ .symbol ['-'] := by simpa using h
      simp [skeleton, htoken]
    | cons next a =>
      have hrest := ih (by simpa using h)
      have hstarts : startsNumber (next :: a ++ b) = startsNumber (next :: a) := by
        cases next <;> rfl
      rw [List.cons_append, skeleton, skeleton, hstarts, hrest]
      split <;> rfl

theorem isNumber_numeral {whole : Text} {fraction : Option Text} {exponent : Option (Bool × Text)}
    (hwhole : IsDigits whole) (hfraction : ∀ digits ∈ fraction, IsDigits digits)
    (hexponent : ∀ e ∈ exponent, IsDigits e.2) :
    isNumber (numeral whole fraction exponent) = true := by
  obtain ⟨hne, hdigits⟩ := hwhole
  have hall : ∀ {text : Text}, text.all Char.isDigit = true →
      text.all (fun c => c.isDigit || c = '.' || c = 'e' || c = 'E' || c = '+' || c = '-') =
        true := by
    intro text h
    rw [List.all_eq_true]
    intro c hc
    simp [List.all_eq_true.mp h c hc]
  cases whole with
  | nil => exact absurd rfl hne
  | cons d whole =>
    have hd : d.isDigit = true := by
      rw [List.all_cons, Bool.and_eq_true] at hdigits
      exact hdigits.1
    have hhead : (numeral (d :: whole) fraction exponent).head? = some d := by
      simp [numeral]
    rw [isNumber, hhead, Option.any_some, hd, Bool.true_and]
    unfold numeral
    rw [List.all_append, List.all_append, hall hdigits, Bool.true_and, Bool.and_eq_true]
    constructor
    · cases fraction with
      | none => rfl
      | some digits =>
        rw [Option.elim_some, List.all_cons, hall (hfraction digits rfl).2]
        decide
    · cases exponent with
      | none => rfl
      | some e =>
        obtain ⟨negative, digits⟩ := e
        rw [Option.elim_some, List.all_cons, List.all_cons, hall (hexponent _ rfl).2]
        cases negative <;> decide

/-- A sign before a number is a token of its own. -/
theorem scan_negative {c : Char} {text : Text} (hc : c.isDigit = true)
    (h : scan .start (c :: text) = (.word (c :: text), [])) :
    scan .start ('-' :: c :: text) = (.word (c :: text), [.symbol ['-']]) := by
  have hminus : step .start '-' = (.symbol ['-'], []) := by decide
  have hsymbol : extendsSymbol ['-'] c = false := by
    have hne : c ≠ '>' ∧ c ≠ '-' := by
      constructor <;> (rintro rfl; exact absurd hc (by decide))
    simp [extendsSymbol, operators, hne.1, hne.2]
  have hflush : step (.symbol ['-']) c = flushWith (.symbol ['-']) c := by
    simp [step, hsymbol]
  rw [scan_cons_of_step hminus, scan_of_flushWith hflush, h]
  rfl

end Dqx.Lib.Sql
