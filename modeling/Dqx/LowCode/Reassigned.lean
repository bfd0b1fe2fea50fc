import Dqx.LowCode.Hosts
import Dqx.LowCode.Spacing

/-! Rules that differ in their literal values only compile to the same pieces but for their
literals. -/

namespace Dqx.LowCode

open Lib.Sql

/-- A text whose reading has no backslash before its first quote, which is a single one. -/
def calm (text : Text) : Bool :=
  !text.contains '\\' ||
    (!(text.takeWhile (· ≠ '\'')).contains '\\' &&
      match text.dropWhile (· ≠ '\'') with
      | _ :: c :: _ => c ≠ '\''
      | _ => false)

/-- A text that reads as whole tokens, the last of them no minus sign. -/
def fixedText (text : Text) : Bool :=
  !text.isEmpty && (ends text).isWhole && (lex text).getLast? ≠ some (.symbol ['-']) && calm text &&
    (ends text ≠ .start || text.getLast? ≠ some '\'')

/-- A piece of the rule's own text reads as whole tokens. -/
structure Piece.Fixed (piece : Piece) : Prop where
  sound : piece.Sound
  minus : (lex piece.text).getLast? ≠ some (.symbol ['-'])
  calm : calm piece.text = true
  last : piece.junction = .free → piece.text.getLast? ≠ some '\''

theorem fixed_sql {text : Text} (h : fixedText text = true) : (Piece.sql text).Fixed := by
  simp only [fixedText, Bool.and_eq_true, Bool.or_eq_true, Bool.not_eq_true', decide_eq_true_eq,
    List.isEmpty_eq_false_iff] at h
  obtain ⟨⟨⟨⟨hne, hwhole⟩, hminus⟩, hcalm⟩, hlast⟩ := h
  have hstart : (Piece.sql text).junction = .free → ends text = .start := by
    intro hfree
    by_contra hends
    simp [Piece.junction, hends] at hfree
  refine ⟨⟨hne, hwhole, hstart, ?_⟩, hminus, hcalm, ?_⟩
  · intro hname
    simp only [Piece.junction] at hname
    split at hname <;> cases hname
  · intro hfree
    rcases hlast with hends | hlast
    · exact absurd (hstart hfree) hends
    · exact hlast

theorem fixed_raw {text : Text} (h : fixedText text = true) : (Piece.raw text).Fixed := by
  have hsql := fixed_sql h
  refine ⟨⟨hsql.sound.nonempty, hsql.sound.whole, ?_, ?_⟩, hsql.minus, hsql.calm, ?_⟩
  · intro hfree
    cases hfree
  · intro hname
    cases hname
  · intro hfree
    cases hfree

theorem Operator.template_fixed (op : Operator) :
    ∀ text, Part.sql text ∈ op.template → fixedText text.toList = true := by
  have h : (op.template.all fun
      | .sql text => fixedText text.toList
      | _ => true) = true := by
    -- literals are turned into characters before the kernel evaluates the check
    cases op <;> simp only [Operator.template, List.all_cons, List.all_nil, String.toList_append,
        -String.reduceToList]
      <;> repeat rw [String.toList_ofList]
    all_goals decide +kernel
  intro text hmem
  exact List.all_eq_true.mp h _ hmem

theorem Aggregate.template_fixed (aggregate : Aggregate) :
    ∀ text, Part.sql text ∈ aggregate.template → fixedText text.toList = true := by
  have h : (aggregate.template.all fun
      | .sql text => fixedText text.toList
      | _ => true) = true := by
    cases aggregate <;> simp only [Aggregate.template, List.all_cons, List.all_nil,
        -String.reduceToList]
      <;> repeat rw [String.toList_ofList]
    all_goals decide +kernel
  intro text hmem
  exact List.all_eq_true.mp h _ hmem

def Piece.isLiteral : Piece → Bool
  | .word _ | .quoted _ | .interval _ | .param _ => true
  | _ => false

/-- A readable text without quotes. -/
def Plain (text : Text) : Prop :=
  '\'' ∉ text ∧ Readable text

/-- A number, a truth value or a null: one literal of the SQL text. -/
structure LiteralWord (text : Text) : Prop where
  sound : (Piece.word text).Sound
  skeleton : skeleton (lex text) = [none]
  strings : strings (lex text) = []
  minus : (lex text).getLast? ≠ some (.symbol ['-'])
  calm : calm text = true

/-- Two pieces that differ in a literal at most. -/
inductive Twin : Piece → Piece → Prop
  | same {piece : Piece} (fixed : piece.Fixed) (other : piece.isLiteral = false) : Twin piece piece
  | word {text text' : Text} (literal : LiteralWord text) (literal' : LiteralWord text') :
      Twin (.word text) (.word text')
  | quoted (text text' : Text) : Twin (.quoted text) (.quoted text')
  | interval {text text' : Text} (nonempty : text ≠ []) (nonempty' : text' ≠ [])
      (plain : Plain text) (plain' : Plain text') : Twin (.interval text) (.interval text')

/-- The rule's own text. -/
def Own (q : Sql) : Prop :=
  ∀ piece ∈ q, piece.Fixed ∧ piece.isLiteral = false

theorem Own.twin {q : Sql} (own : Own q) : List.Forall₂ Twin q q := by
  rw [List.forall₂_same]
  intro piece hpiece
  exact .same (own piece hpiece).1 (own piece hpiece).2

theorem Own.append {a b : Sql} (ha : Own a) (hb : Own b) : Own (a ++ b) := by
  intro piece hpiece
  rcases List.mem_append.mp hpiece with h | h
  · exact ha piece h
  · exact hb piece h

theorem Own.cons {text : String} {q : Sql} (htext : fixedText text.toList = true) (hq : Own q) :
    Own (sql text :: q) := by
  intro piece hpiece
  rcases List.mem_cons.mp hpiece with rfl | h
  · exact ⟨fixed_sql htext, rfl⟩
  · exact hq piece h

theorem Own.nil : Own [] := by
  simp [Own]

theorem Own.join {separator : String} (hseparator : fixedText separator.toList = true)
    {parts : List Sql} (h : ∀ part ∈ parts, Own part) : Own (join separator parts) := by
  induction parts with
  | nil => exact Own.nil
  | cons a parts ih =>
    have ha := h a List.mem_cons_self
    have hrest := ih fun part hpart => h part (List.mem_cons_of_mem _ hpart)
    cases parts with
    | nil => rwa [join_singleton]
    | cons b parts =>
      rw [join_cons_cons]
      exact ha.append (Own.cons hseparator hrest)

theorem twin_append {a b a' b' : Sql} (ha : List.Forall₂ Twin a a')
    (hb : List.Forall₂ Twin b b') : List.Forall₂ Twin (a ++ b) (a' ++ b') :=
  List.rel_append ha hb

theorem twin_cons_sql {text : String} {q q' : Sql} (htext : fixedText text.toList = true)
    (hq : List.Forall₂ Twin q q') : List.Forall₂ Twin (sql text :: q) (sql text :: q') :=
  .cons (.same (fixed_sql htext) rfl) hq

theorem twin_getD {os os' : List Sql} (h : List.Forall₂ (List.Forall₂ Twin) os os')
    (index : Nat) : List.Forall₂ Twin (os.getD index []) (os'.getD index []) := by
  induction h generalizing index with
  | nil => exact .nil
  | cons ho hos ih =>
    cases index with
    | zero => exact ho
    | succ index => exact ih index

theorem twin_fill {left left' : Sql} {os os' : List Sql} {parts : List Part}
    (hfixed : ∀ text, Part.sql text ∈ parts → fixedText text.toList = true)
    (hleft : List.Forall₂ Twin left left') (hos : List.Forall₂ (List.Forall₂ Twin) os os') :
    List.Forall₂ Twin (fill left os parts) (fill left' os' parts) := by
  induction parts with
  | nil => exact .nil
  | cons part parts ih =>
    have hrest := ih fun text htext => hfixed text (List.mem_cons_of_mem _ htext)
    cases part with
    | sql text => exact twin_cons_sql (hfixed text List.mem_cons_self) hrest
    | left => exact twin_append hleft hrest
    | operand index => exact twin_append (twin_getD hos index) hrest

theorem twin_join {separator : String} (hseparator : fixedText separator.toList = true)
    {parts parts' : List Sql} (h : List.Forall₂ (List.Forall₂ Twin) parts parts') :
    List.Forall₂ Twin (join separator parts) (join separator parts') := by
  induction h with
  | nil => exact .nil
  | cons ha hparts ih =>
    cases hparts with
    | nil =>
      rw [join_singleton, join_singleton]
      exact ha
    | cons hb hparts =>
      rw [join_cons_cons, join_cons_cons]
      exact twin_append ha (twin_cons_sql hseparator ih)

theorem twin_isEmpty {q q' : Sql} (h : List.Forall₂ Twin q q') : q.isEmpty = q'.isEmpty := by
  cases h <;> rfl


/-- Values of one kind. -/
inductive SameKind {ν : Type} : Json ν → Json ν → Prop
  | null : SameKind .null .null
  | bool (b b' : Bool) : SameKind (.bool b) (.bool b')
  | num (n n' : ν) : SameKind (.num n) (.num n')
  | str (s s' : Text) : SameKind (.str s) (.str s')
  | list (items items' : List (Json ν)) : SameKind (.list items) (.list items')
  | obj (entries entries' : List (Text × Json ν)) : SameKind (.obj entries) (.obj entries')

/-- The same column, or literals of one kind. -/
structure SameLiteral {ν : Type} (value value' : Json ν) : Prop where
  kind : SameKind value value'
  column : columnRefName value = columnRefName value'

/-- Values with the same names and with literals of the same kinds. -/
structure SameValue {ν : Type} (value value' : Json ν) : Prop where
  literal : SameLiteral value value'
  items : List.Forall₂ SameLiteral (Python.items value) (Python.items value')
  spec : ∀ entries entries', value = .obj entries → value' = .obj entries' →
    Json.get entries "aggregate" = Json.get entries' "aggregate" ∧
      Json.field entries "column_ref" = Json.field entries' "column_ref" ∧
      SameKind (Json.field entries "aggregate_param") (Json.field entries' "aggregate_param")

/-- The name of a type to validate against is no literal. -/
def isValidity {ν : Type} (operator : Json ν) : Bool :=
  match operator with
  | .str name => (Operator.ofName name).any fun op =>
    match op.operandKind with
    | .validity => true
    | _ => false
  | _ => false

/-- A row with the same names and with literals of the same kinds. -/
structure Row.Reassigned {ν : Type} (row row' : Row ν) : Prop where
  kind : row.kind = row'.kind
  combinator : row.combinator = row'.combinator
  aggregate : row.aggregate = row'.aggregate
  columnRef : row.columnRef = row'.columnRef
  operator : row.operator = row'.operator
  param : SameKind row.aggregateParam row'.aggregateParam
  value : if isValidity row.operator then row.value = row'.value else SameValue row.value row'.value

inductive Entry.Reassigned {ν : Type} : Entry ν → Entry ν → Prop
  | row (r r' : Row ν) (h : r.Reassigned r') : Entry.Reassigned (.row r) (.row r')
  | null : Entry.Reassigned .null .null
  | scalar : Entry.Reassigned .scalar .scalar

structure Ast.Reassigned {ν : Type} (ast ast' : Ast ν) : Prop where
  rows : List.Forall₂ Entry.Reassigned ast.rows ast'.rows
  joins : ast.joins = ast'.joins

/-- A column name from the vocabulary: a slot, or the path of a joined table's column. -/
def DeclaredName (name : Text) : Prop :=
  '.' ∈ name ∨ name.all isWordChar = true

def DeclaredColumn {ν : Type} (column : Json ν) : Prop :=
  ∃ name, column = .str name ∧ DeclaredName name

variable (repr : Text → Text)

/-- The Python compiler of JSON documents. -/
abbrev pythonHost : Host Python.Number :=
  Python.host (.ofRepr repr)

/-- Every column that a row refers to is declared. -/
structure Row.Declared (row : Row Python.Number) : Prop where
  columnRef : (pythonHost repr).truthy row.columnRef = true → DeclaredColumn row.columnRef
  value : ∀ value ∈ row.value :: Python.items row.value, ∀ name, columnRefName value = some name →
    DeclaredName name
  spec : ∀ entries, row.value = .obj entries →
    (pythonHost repr).truthy (Json.field entries "column_ref") = true →
      DeclaredColumn (Json.field entries "column_ref")
  combinator : (pythonHost repr).combinator row.combinator = some "AND".toList ∨
    (pythonHost repr).combinator row.combinator = some "OR".toList

structure Ast.Declared (ast : Ast Python.Number) : Prop where
  rows : ∀ row, Entry.row row ∈ ast.rows → row.Declared repr
  keys : ∀ join ∈ ast.joins, ∀ key ∈ join.keys,
    (pythonHost repr).truthy key.columnRef = true → DeclaredColumn key.columnRef

/-- A parameter that is a number or missing. -/
def NumberOrNull {ν : Type} (param : Json ν) : Prop :=
  param = .null ∨ ∃ n, param = .num n

def AggregateSpec.readsParam {ν : Type} (spec : AggregateSpec ν) : Bool :=
  match spec.aggregate with
  | .str name =>
    match Aggregate.ofName name with
    | some .percentile | some .percentileApprox => true
    | _ => false
  | _ => false

/-- The text that an interval has between its quotes. -/
def intervalText (value : Json Python.Number) : Text :=
  Python.intervalField (.ofRepr repr) "number" "0" value ++
    ' ' :: Python.intervalField (.ofRepr repr) "unit" "days" value

/-- What a row puts into its SQL as it is: an interval that needs no escaping, and numbers. -/
structure Row.Unescaped (row : Row Python.Number) : Prop where
  interval : isRow row.kind = true → (pythonHost repr).truthy row.columnRef = true →
    row.operator = .str "is in last".toList → Plain (intervalText repr row.value)
  param : isRow row.kind = false → row.spec.readsParam = true → NumberOrNull row.aggregateParam
  valueParam : isRow row.kind = false → ∀ entries, row.value = .obj entries →
    (AggregateSpec.ofEntries entries).readsParam = true →
      NumberOrNull (Json.field entries "aggregate_param")

def Ast.Unescaped (ast : Ast Python.Number) : Prop :=
  ∀ row, Entry.row row ∈ ast.rows → row.Unescaped repr


variable {repr}

theorem calm_of_not_mem {text : Text} (h : '\\' ∉ text) : calm text = true := by
  simp [calm, h]

theorem scan_slot {name : Text} (h : name.all isWordChar = true) :
    scan .start (Piece.slot name).text = (.start, [.placeholder name]) := by
  have htext : (Piece.slot name).text = '{' :: '{' :: (name ++ ['}', '}']) := by
    simp [Piece.text]
  rw [htext]
  apply scan_placeholder
  intro hmem
  exact absurd (List.all_eq_true.mp h _ hmem) (by decide)

theorem fixed_slot {name : Text} (h : name.all isWordChar = true) : (Piece.slot name).Fixed := by
  have htext : (Piece.slot name).text = '{' :: '{' :: (name ++ ['}', '}']) := by
    simp [Piece.text]
  have hscan := scan_slot h
  have hlast : (Piece.slot name).text.getLast? = some '}' := by
    rw [htext, ← List.cons_append, ← List.cons_append, List.append_cons, List.getLast?_concat]
  refine ⟨⟨by simp [htext], ?_, ?_, ?_⟩, ?_, ?_, by simp [hlast]⟩
  · rw [ends_of_scan hscan]
    rfl
  · intro _
    rw [ends_of_scan hscan]
  · intro hjunction
    cases hjunction
  · rw [lex_of_scan hscan]
    simp [flush]
  · apply calm_of_not_mem
    rw [htext]
    intro hmem
    have hmem' : '\\' ∈ name := by simpa using hmem
    exact absurd (List.all_eq_true.mp h _ hmem') (by decide)

theorem plain_of_validIdentifier {part : Text} (h : Python.validIdentifier part = true) :
    part ≠ [] ∧ '`' ∉ part ∧ '\\' ∉ part := by
  simp only [Python.validIdentifier, Bool.and_eq_true, Bool.not_eq_true'] at h
  obtain ⟨⟨hne, -⟩, hall⟩ := h
  have hbody : ∀ c ∈ (if part.getLast? = some '\n' then part.dropLast else part),
      c ≠ '`' ∧ c ≠ '\\' := by
    intro c hc
    have := List.all_eq_true.mp hall c hc
    simp only [Bool.and_eq_true, decide_eq_true_eq] at this
    exact this.1
  have hmem : ∀ c ∈ part, c ≠ '\n' →
      c ∈ (if part.getLast? = some '\n' then part.dropLast else part) := by
    intro c hc hnewline
    split
    · rename_i hlast
      have hsplit := List.dropLast_append_getLast? _ hlast
      rw [← hsplit] at hc
      simpa [hnewline] using hc
    · exact hc
  refine ⟨?_, fun hc => ?_, fun hc => ?_⟩
  · rintro rfl
    simp at hne
  · exact (hbody _ (hmem _ hc (by decide))).1 rfl
  · exact (hbody _ (hmem _ hc (by decide))).2 rfl

/-- A valid identifier has no quotes to take off or to double. -/
theorem ident_text {part : Text} (h : Python.validIdentifier part = true) :
    (Piece.ident (Python.unquoted part)).text = '`' :: (part ++ ['`']) := by
  obtain ⟨-, hname, -⟩ := plain_of_validIdentifier h
  have hunquoted : Python.unquoted part = part := by
    unfold Python.unquoted
    split
    · rename_i hquoted
      exact absurd (List.mem_of_mem_head? hquoted.2.1) hname
    · rfl
  simp [Piece.text, hunquoted, double_eq_self hname]

theorem scan_ident {part : Text} (h : Python.validIdentifier part = true) :
    scan .start (Piece.ident (Python.unquoted part)).text = (.nameClosed part, []) := by
  rw [ident_text h]
  exact scan_quotedName (plain_of_validIdentifier h).2.1

theorem fixed_ident {part : Text} (h : Python.validIdentifier part = true) :
    (Piece.ident (Python.unquoted part)).Fixed := by
  have hscan := scan_ident h
  refine ⟨⟨by simp [ident_text h], ?_, ?_, ?_⟩, ?_, ?_, fun hfree => by cases hfree⟩
  · rw [ends_of_scan hscan]
    rfl
  · intro hjunction
    cases hjunction
  · intro _
    exact ⟨part, by rw [ends_of_scan hscan]⟩
  · rw [lex_of_scan hscan]
    simp [flush]
  · apply calm_of_not_mem
    rw [ident_text h]
    simpa using (plain_of_validIdentifier h).2.2

theorem own_quoteIdentPath {path : Text} {q : Sql}
    (h : quoteIdentPath (pythonHost repr) path = some q) : Own q := by
  obtain ⟨rfl, hvalid⟩ := quoteIdentPath_eq h
  apply Own.join rfl
  intro part hpart
  obtain ⟨text, htext, rfl⟩ := List.mem_map.mp hpart
  intro piece hpiece
  obtain rfl := List.mem_singleton.mp hpiece
  exact ⟨fixed_ident (hvalid text htext), rfl⟩

theorem own_ref {column : Json Python.Number} {qualify : Bool} {q : Sql}
    (declared : DeclaredColumn column) (h : ref (pythonHost repr) column qualify = some q) :
    Own q := by
  obtain ⟨name, rfl, hname⟩ := declared
  rcases ref_cases h with ⟨path, hpath, -, hquoted⟩ | ⟨slot, hdot, hslot, rfl⟩
  · exact own_quoteIdentPath hquoted
  · obtain rfl : name = slot := Option.some.inj hslot
    have hplain : name.all isWordChar = true := by
      rcases hname with hmem | hplain
      · have hcontains : name.contains '.' = false := Option.some.inj hdot
        simp [hmem] at hcontains
      · exact hplain
    have hown : Own [.slot name] := by
      intro piece hpiece
      obtain rfl := List.mem_singleton.mp hpiece
      exact ⟨fixed_slot hplain, rfl⟩
    cases qualify with
    | false => exact hown
    | true =>
      have hview : Own [.slot "input_view".toList] := by
        intro piece hpiece
        obtain rfl := List.mem_singleton.mp hpiece
        exact ⟨fixed_slot (by decide), rfl⟩
      exact hview.append (Own.cons rfl hown)

theorem sound_word {text : Text} (hne : text ≠ []) (hwhole : (ends text).isWhole = true) :
    (Piece.word text).Sound where
  nonempty := hne
  whole := hwhole
  free h := by cases h
  name h := by cases h

theorem literalWord_of_check {text : Text}
    (h : (!text.isEmpty && (ends text).isWhole && skeleton (lex text) = [none] &&
      strings (lex text) = [] && (lex text).getLast? ≠ some (.symbol ['-']) && calm text) = true) :
    LiteralWord text := by
  simp only [Bool.and_eq_true, Bool.not_eq_true', decide_eq_true_eq,
    List.isEmpty_eq_false_iff] at h
  obtain ⟨⟨⟨⟨⟨hne, hwhole⟩, hskeleton⟩, hstrings⟩, hminus⟩, hcalm⟩ := h
  exact ⟨sound_word hne hwhole, hskeleton, hstrings, hminus, hcalm⟩

theorem Python.Number.magnitude_digits (n : Python.Number) :
    ∃ whole fraction exponent, n.magnitude = numeral whole fraction exponent ∧ IsDigits whole ∧
      (∀ digits ∈ fraction, IsDigits digits) ∧ ∀ e ∈ exponent, IsDigits e.2 := by
  cases n with
  | int n =>
    refine ⟨Nat.toDigits 10 n.natAbs, none, none, by simp [Number.magnitude, numeral], ⟨?_, ?_⟩,
      by simp, by simp⟩
    · exact Nat.toDigits_ne_nil
    · rw [List.all_eq_true]
      intro c hc
      exact Nat.isDigit_of_mem_toDigits (by decide) (by decide) hc
  | float x =>
    exact ⟨x.whole, x.fraction, x.exponent, rfl, x.whole_digits, x.fraction_digits,
      x.exponent_digits⟩

theorem not_mem_backslash {text : Text} (h : isNumber text = true) : '\\' ∉ text := by
  intro hmem
  rw [isNumber, Bool.and_eq_true] at h
  have := List.all_eq_true.mp h.2 _ hmem
  exact absurd this (by decide)

/-- A number is one word, behind a sign if it is negative. -/
theorem Python.Number.scan_text (n : Python.Number) :
    isNumber n.magnitude = true ∧
      scan .start n.text = (.word n.magnitude, if n.negative then [.symbol ['-']] else []) := by
  obtain ⟨whole, fraction, exponent, hmagnitude, hwhole, hfraction, hexponent⟩ :=
    n.magnitude_digits
  have hscan := scan_numeral hwhole hfraction hexponent
  have hnumber := isNumber_numeral hwhole hfraction hexponent
  rw [← hmagnitude] at hscan hnumber
  refine ⟨hnumber, ?_⟩
  unfold Python.Number.text
  split
  · rw [isNumber, Bool.and_eq_true] at hnumber
    cases hm : n.magnitude with
    | nil => simp [hm] at hnumber
    | cons c rest =>
      rw [hm] at hscan
      exact scan_negative (by simpa [hm] using hnumber.1) hscan
  · exact hscan

/-- A number of a document is one literal. -/
theorem literalWord_number (n : Python.Number) : LiteralWord n.text := by
  obtain ⟨hnumber, hscan⟩ := n.scan_text
  have hbackslash := not_mem_backslash hnumber
  have hliteral : isLiteral (.word n.magnitude) = true := by simp [isLiteral, hnumber]
  have hne : n.text ≠ [] := by
    intro hnil
    rw [hnil] at hscan
    cases hscan
  have hlex := lex_of_scan hscan
  have hcalm : calm n.text = true := by
    apply calm_of_not_mem
    unfold Python.Number.text
    split <;> simpa using hbackslash
  refine ⟨sound_word hne (by rw [ends_of_scan hscan]; rfl), ?_, ?_, ?_, hcalm⟩
  · rw [hlex]
    split <;> simp [skeleton, startsNumber, hnumber, hliteral, flush]
  · rw [hlex]
    split <;> rfl
  · rw [hlex]
    simp [flush]

theorem literalWord_true : LiteralWord "TRUE".toList := literalWord_of_check rfl

theorem literalWord_false : LiteralWord "FALSE".toList := literalWord_of_check rfl

theorem literalWord_null : LiteralWord "NULL".toList := literalWord_of_check rfl

theorem literalWord_half : LiteralWord "0.5".toList := literalWord_of_check rfl

theorem twin_quote {value value' : Json Python.Number} {q q' : Sql} (h : SameKind value value')
    (hq : quote (pythonHost repr) value = some q) (hq' : quote (pythonHost repr) value' = some q') :
    List.Forall₂ Twin q q' := by
  have hbool : ∀ b : Bool, LiteralWord (if b then "TRUE" else "FALSE").toList := by
    rintro (_ | _)
    · exact literalWord_false
    · exact literalWord_true
  cases h <;>
    (obtain rfl := Option.some.inj hq
     obtain rfl := Option.some.inj hq'
     refine .cons ?_ .nil)
  case null => exact .word literalWord_null literalWord_null
  case bool b b' => exact .word (hbool b) (hbool b')
  case num n n' => exact .word (literalWord_number n) (literalWord_number n')
  all_goals exact .quoted _ _

theorem twin_valueSql {value value' : Json Python.Number} {qualify : Bool} {q q' : Sql}
    (h : SameLiteral value value')
    (declared : ∀ name, columnRefName value = some name → DeclaredName name)
    (hq : valueSql (pythonHost repr) value qualify = some q)
    (hq' : valueSql (pythonHost repr) value' qualify = some q') : List.Forall₂ Twin q q' := by
  unfold valueSql at hq hq'
  rw [← h.column] at hq'
  cases hname : columnRefName value with
  | none =>
    rw [hname] at hq hq'
    exact twin_quote h.kind hq hq'
  | some name =>
    rw [hname] at hq hq'
    obtain rfl := Option.some.inj (hq.symm.trans hq')
    exact (own_ref ⟨name, rfl, declared name hname⟩ hq).twin

end Dqx.LowCode
