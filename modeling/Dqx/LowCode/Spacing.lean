import Dqx.Lib.Traverse
import Dqx.LowCode.Compile

/-! Where the tokens of compiled SQL begin and end: every piece stands between fixed text that keeps
its tokens apart from its neighbours'. -/

namespace Dqx.LowCode

open Lib.Sql

/-- What a piece ends in. -/
inductive Junction where
  /-- Between two tokens. -/
  | free
  /-- Behind a quoted name. -/
  | name
  /-- Behind any other token. -/
  | token
  deriving DecidableEq

def Piece.junction : Piece → Junction
  | .sql text => if ends text = .start then .free else .token
  | .slot _ => .free
  | .ident _ => .name
  | _ => .token

/-- Fixed text that begins with a space, a comma or a closing parenthesis goes on with no token, and
text that begins with a dot goes on with no quoted name. -/
def Piece.follows (piece : Piece) : Junction → Bool
  | .free => true
  | .name =>
    match piece with
    | .sql text => text.head? = some ' ' || text.head? = some ')' || text.head? = some ',' ||
      text.head? = some '.'
    | _ => false
  | .token =>
    match piece with
    | .sql text => text.head? = some ' ' || text.head? = some ')' || text.head? = some ','
    | _ => false

/-- Every piece follows the one before it. -/
def spaced : Junction → Sql → Bool
  | _, [] => true
  | junction, piece :: sql => piece.follows junction && spaced piece.junction sql

/-- What the pieces end in. -/
def after : Junction → Sql → Junction
  | junction, [] => junction
  | _, piece :: sql => after piece.junction sql

theorem follows_of_token {piece : Piece} (h : piece.follows .token = true) (junction : Junction) :
    piece.follows junction = true := by
  cases junction with
  | free => rfl
  | token => exact h
  | name =>
    cases piece <;> simp_all [Piece.follows]

@[simp] theorem follows_free (piece : Piece) : piece.follows .free = true := rfl

theorem spaced_of_token {sql : Sql} (h : spaced .token sql = true) (junction : Junction) :
    spaced junction sql = true := by
  cases sql with
  | nil => rfl
  | cons piece sql =>
    rw [spaced, Bool.and_eq_true] at h ⊢
    exact ⟨follows_of_token h.1 junction, h.2⟩

theorem spaced_free {sql : Sql} {junction : Junction} (h : spaced junction sql = true) :
    spaced .free sql = true := by
  cases sql with
  | nil => rfl
  | cons piece sql =>
    rw [spaced, Bool.and_eq_true] at h ⊢
    exact ⟨rfl, h.2⟩

theorem spaced_append (junction : Junction) (a b : Sql) :
    spaced junction (a ++ b) = (spaced junction a && spaced (after junction a) b) := by
  induction a generalizing junction with
  | nil => rfl
  | cons piece a ih => simp only [List.cons_append, spaced, after, ih, Bool.and_assoc]

/-- Pieces that stand behind any token can stand behind others. -/
theorem spaced_append_token {junction : Junction} {a b : Sql} (ha : spaced junction a = true)
    (hb : spaced .token b = true) : spaced junction (a ++ b) = true := by
  rw [spaced_append, ha, Bool.true_and]
  exact spaced_of_token hb _

/-- A template's fixed parts keep its left side and its operands apart. -/
def partsSpaced : Junction → List Part → Bool
  | _, [] => true
  | junction, .sql text :: parts =>
    (LowCode.sql text).follows junction && partsSpaced (LowCode.sql text).junction parts
  | junction, .left :: parts => junction = .free && partsSpaced .token parts
  | junction, .operand _ :: parts => junction = .free && partsSpaced .token parts

theorem spaced_fill_cons {junction : Junction} {filled : Sql} {rest : Sql}
    (hjunction : junction = .free) (hfilled : spaced .free filled = true)
    (hrest : ∀ junction, spaced junction rest = true) :
    spaced junction (filled ++ rest) = true := by
  rw [spaced_append, hjunction, hfilled, Bool.true_and]
  exact hrest _

theorem spaced_fill {left : Sql} {operands : List Sql} (hleft : spaced .free left = true)
    (hoperands : ∀ operand ∈ operands, spaced .free operand = true) {junction : Junction}
    {parts : List Part} (h : partsSpaced junction parts = true) (other : Junction)
    (hother : other = junction ∨ junction = .token) :
    spaced other (fill left operands parts) = true := by
  induction parts generalizing junction other with
  | nil => rfl
  | cons part parts ih =>
    have hindex : ∀ index, spaced .free (operands.getD index []) = true := by
      intro index
      rw [List.getD_eq_getElem?_getD]
      cases hget : operands[index]? with
      | none => rfl
      | some operand => exact hoperands operand (List.mem_of_getElem? hget)
    have hfree : junction = .free → other = .free := by
      rintro rfl
      rcases hother with rfl | hother
      · rfl
      · cases hother
    cases part with
    | sql text =>
      rw [partsSpaced, Bool.and_eq_true] at h
      change spaced other (LowCode.sql text :: fill left operands parts) = true
      rw [spaced, Bool.and_eq_true]
      refine ⟨?_, ih h.2 _ (.inl rfl)⟩
      rcases hother with rfl | rfl
      · exact h.1
      · exact follows_of_token h.1 other
    | left =>
      rw [partsSpaced, Bool.and_eq_true, decide_eq_true_eq] at h
      exact spaced_fill_cons (hfree h.1) hleft fun junction => ih h.2 junction (.inr rfl)
    | operand index =>
      rw [partsSpaced, Bool.and_eq_true, decide_eq_true_eq] at h
      exact spaced_fill_cons (hfree h.1) (hindex index) fun junction => ih h.2 junction (.inr rfl)

theorem sql_ofList (text : Text) : LowCode.sql (String.ofList text) = .sql text := by
  rw [LowCode.sql, String.toList_ofList]

theorem sql_ofList_append (a b : Text) :
    LowCode.sql (String.ofList a ++ String.ofList b) = .sql (a ++ b) := by
  rw [← String.ofList_append, sql_ofList]

theorem Operator.template_spaced (op : Operator) : partsSpaced .free op.template = true := by
  -- literals are turned into characters before the kernel evaluates the check
  cases op <;> simp only [Operator.template, partsSpaced]
    <;> repeat (first | rw [sql_ofList_append] | rw [sql_ofList])
  all_goals decide +kernel

theorem Aggregate.template_spaced (aggregate : Aggregate) :
    partsSpaced .free aggregate.template = true := by
  cases aggregate <;> simp only [Aggregate.template, partsSpaced] <;> repeat rw [sql_ofList]
  all_goals decide +kernel

/-- A piece's own text ends in what its junction says. -/
structure Piece.Sound (piece : Piece) : Prop where
  nonempty : piece.text ≠ []
  whole : (ends piece.text).isWhole = true
  free : piece.junction = .free → ends piece.text = .start
  name : piece.junction = .name → ∃ content, ends piece.text = .nameClosed content

theorem Piece.Sound.separate {a b : Piece} (sound : a.Sound) (h : b.follows a.junction = true) :
    Separate a.text b.text := by
  have htext : a.junction ≠ .free → ∃ text, b = .sql text := by
    intro hjunction
    cases hb : b with
    | sql text => exact ⟨text, rfl⟩
    | _ =>
      subst hb
      cases hj : a.junction with
      | free => exact absurd hj hjunction
      | _ => simp [hj, Piece.follows] at h
  cases hjunction : a.junction with
  | free => exact .inl (sound.free hjunction)
  | token =>
    obtain ⟨text, rfl⟩ := htext (by simp [hjunction])
    rw [hjunction] at h
    cases text with
    | nil => simp [Piece.follows] at h
    | cons c rest =>
      have hc : c = ' ' ∨ c = ')' ∨ c = ',' := by simpa [Piece.follows, or_assoc] using h
      exact .inr (.inr ⟨c, rest, rfl, step_of_isWhole sound.whole hc⟩)
  | name =>
    obtain ⟨text, rfl⟩ := htext (by simp [hjunction])
    rw [hjunction] at h
    cases text with
    | nil => simp [Piece.follows] at h
    | cons c rest =>
      have hc : (c = ' ' ∨ c = ')' ∨ c = ',') ∨ c = '.' := by
        simpa [Piece.follows, or_assoc] using h
      rcases hc with hc | rfl
      · exact .inr (.inr ⟨c, rest, rfl, step_of_isWhole sound.whole hc⟩)
      · obtain ⟨content, hends⟩ := sound.name hjunction
        exact .inr (.inr ⟨'.', rest, rfl, by rw [hends, step_nameClosed_dot]⟩)

theorem separate_append {a b rest : Text} (h : Separate a b) (hb : b ≠ []) :
    Separate a (b ++ rest) := by
  rcases h with hstart | hnil | ⟨c, tail, rfl, hstep⟩
  · exact .inl hstart
  · exact absurd hnil hb
  · exact .inr (.inr ⟨c, tail ++ rest, rfl, hstep⟩)

/-- Sound pieces have their tokens before those of the pieces that follow them. -/
theorem lex_render_append {a b : Sql} {junction : Junction}
    (h : spaced junction (a ++ b) = true) (sound : ∀ piece ∈ a, piece.Sound)
    (nonempty : ∀ piece ∈ b, piece.text ≠ []) :
    lex (render (a ++ b)) = a.flatMap (fun piece => lex piece.text) ++ lex (render b) := by
  induction a generalizing junction with
  | nil => rfl
  | cons piece a ih =>
    rw [List.cons_append, spaced, Bool.and_eq_true] at h
    have hrest := ih h.2 fun p hp => sound p (List.mem_cons_of_mem _ hp)
    have hseparate : Separate piece.text (render (a ++ b)) := by
      cases hab : a ++ b with
      | nil => exact .inr (.inl rfl)
      | cons next rest =>
        rw [hab, spaced, Bool.and_eq_true] at h
        have hnext : next.text ≠ [] := by
          have hmem : next ∈ a ++ b := hab ▸ List.mem_cons_self
          rcases List.mem_append.mp hmem with ha | hb
          · exact (sound next (List.mem_cons_of_mem _ ha)).nonempty
          · exact nonempty next hb
        exact separate_append ((sound piece List.mem_cons_self).separate h.2.1) hnext
    have hcons : render (piece :: a ++ b) = piece.text ++ render (a ++ b) := List.flatMap_cons
    rw [hcons, lex_append hseparate, hrest, List.flatMap_cons, List.append_assoc]

/-- The tokens of sound pieces are those of each piece. -/
theorem lex_render {sql : Sql} {junction : Junction} (h : spaced junction sql = true)
    (sound : ∀ piece ∈ sql, piece.Sound) :
    lex (render sql) = sql.flatMap fun piece => lex piece.text := by
  have happend := lex_render_append (b := []) (by rwa [List.append_nil]) sound (by simp)
  simpa [render] using happend

@[simp] theorem join_nil (separator : String) : join separator [] = [] := rfl

@[simp] theorem join_singleton (separator : String) (part : Sql) :
    join separator [part] = part := by
  simp [join]

theorem join_cons_cons (separator : String) (a b : Sql) (parts : List Sql) :
    join separator (a :: b :: parts) = a ++ sql separator :: join separator (b :: parts) := by
  simp [join, List.intercalate_cons_cons]

theorem spaced_join {separator : String} (hseparator : (sql separator).follows .token = true)
    (hfree : (sql separator).junction = .free) {parts : List Sql}
    (h : ∀ part ∈ parts, spaced .free part = true) : spaced .free (join separator parts) = true := by
  induction parts with
  | nil => rfl
  | cons a parts ih =>
    have ha := h a List.mem_cons_self
    have hrest := ih fun part hpart => h part (List.mem_cons_of_mem _ hpart)
    cases parts with
    | nil => rwa [join_singleton]
    | cons b parts =>
      rw [join_cons_cons]
      apply spaced_append_token ha
      rw [spaced, hseparator, hfree, hrest]
      rfl

section

variable {ν : Type} {host : Host ν} {qualify : Bool}

theorem spaced_path {parts : List Text} :
    spaced .free (join "." (parts.map fun part => [.ident part])) = true := by
  induction parts with
  | nil => rfl
  | cons a parts ih =>
    cases parts with
    | nil => simp [spaced, Piece.follows]
    | cons b parts =>
      rw [List.map_cons] at ih
      have hfirst : (Piece.ident a).follows .free = true := rfl
      have hname : (Piece.ident a).junction = .name := rfl
      have hdot : (sql ".").follows .name = true := by decide
      have hfree : (sql ".").junction = .free := by exact rfl
      rw [List.map_cons, List.map_cons, join_cons_cons, List.singleton_append, spaced, spaced,
        hfirst, hname, hdot, hfree, ih]
      rfl

theorem quoteIdentPath_eq {path : Text} {q : Sql} (h : quoteIdentPath host path = some q) :
    q = join "." ((path.splitOn '.').map fun part => [.ident (host.unquoted part)]) ∧
      ∀ part ∈ path.splitOn '.', host.validIdentifier part = true := by
  simp only [quoteIdentPath] at h
  split at h
  · cases h
  · rename_i hparts
    refine ⟨(Option.some.inj h).symm, fun part hpart => ?_⟩
    by_contra hinvalid
    exact hparts (List.any_eq_true.mpr ⟨part, hpart, by simp [hinvalid]⟩)

theorem spaced_quoteIdentPath {path : Text} {q : Sql} (h : quoteIdentPath host path = some q) :
    spaced .free q = true := by
  obtain ⟨rfl, -⟩ := quoteIdentPath_eq h
  have hmap : ((path.splitOn '.').map fun part => [Piece.ident (host.unquoted part)]) =
      ((path.splitOn '.').map host.unquoted).map fun part => [.ident part] := by
    simp
  rw [hmap]
  exact spaced_path

/-- A column is a path of quoted names, or a placeholder that may be qualified. -/
theorem ref_cases {column : Json ν} {q : Sql} (h : ref host column qualify = some q) :
    (∃ path, column = .str path ∧ host.hasDot column = some true ∧
      quoteIdentPath host path = some q) ∨
    ∃ name, host.hasDot column = some false ∧ host.str column = some name ∧
      q = if qualify then [.slot "input_view".toList, sql ".", .slot name] else [.slot name] := by
  simp only [ref, bind, Option.bind_eq_some_iff] at h
  obtain ⟨dotted, hdot, h⟩ := h
  cases dotted with
  | true =>
    cases column with
    | str path => exact .inl ⟨path, rfl, hdot, by simpa using h⟩
    | _ => simp at h
  | false =>
    simp only [Bool.false_eq_true, if_false, Option.bind_eq_some_iff] at h
    obtain ⟨name, hname, h⟩ := h
    refine .inr ⟨name, hdot, hname, ?_⟩
    cases qualify <;> simp_all

theorem spaced_ref {column : Json ν} {q : Sql} (h : ref host column qualify = some q) :
    spaced .free q = true := by
  rcases ref_cases h with ⟨path, -, -, hpath⟩ | ⟨name, -, -, rfl⟩
  · exact spaced_quoteIdentPath hpath
  · cases qualify <;> rfl

theorem spaced_singleton (piece : Piece) : spaced .free [piece] = true := rfl

theorem spaced_quote {value : Json ν} {q : Sql} (h : quote host value = some q) :
    spaced .free q = true := by
  cases value <;> simp only [quote, Option.map_eq_some_iff, Option.some.injEq] at h
  case null => exact h ▸ rfl
  case bool => exact h ▸ rfl
  case num => exact h ▸ rfl
  all_goals
    obtain ⟨text, -, rfl⟩ := h
    rfl

theorem spaced_valueSql {value : Json ν} {q : Sql} (h : valueSql host value qualify = some q) :
    spaced .free q = true := by
  unfold valueSql at h
  split at h
  · exact spaced_ref h
  · exact spaced_quote h

theorem spaced_mapM {α : Type} {f : α → Option Sql} {xs : List α} {parts : List Sql}
    (h : xs.mapM f = some parts) (hf : ∀ x q, f x = some q → spaced .free q = true) :
    ∀ part ∈ parts, spaced .free part = true := by
  intro part hpart
  obtain ⟨x, -, hx⟩ := Lib.exists_of_forall₂_right (Lib.mapM_eq_some_iff_forall₂.mp h) hpart
  exact hf x part hx

theorem spaced_commas {parts : List Sql} (h : ∀ part ∈ parts, spaced .free part = true) :
    spaced .free (join ", " parts) = true :=
  spaced_join (by decide) rfl h

theorem spaced_quoteList {values : List (Json ν)} {q : Sql}
    (h : quoteList host values qualify = some q) : spaced .free q = true := by
  simp only [quoteList, bind, pure, Option.bind_eq_some_iff, Option.some.injEq] at h
  obtain ⟨parts, hparts, rfl⟩ := h
  exact spaced_commas (spaced_mapM hparts fun _ _ => spaced_valueSql)

theorem spaced_operands {kind : OperandKind} {value : Json ν} {os : List Sql}
    (h : operands host kind value qualify = some (some os)) :
    ∀ operand ∈ os, spaced .free operand = true := by
  cases kind <;>
    simp only [operands, bind, pure, Option.map_eq_some_iff, Option.bind_eq_some_iff,
      Option.some.injEq] at h
  case unused =>
    subst h
    simp
  case value =>
    obtain ⟨operand, hoperand, rfl⟩ := h
    simpa using spaced_valueSql hoperand
  case literal =>
    obtain ⟨operand, hoperand, rfl⟩ := h
    simpa using spaced_quote hoperand
  case pair =>
    obtain ⟨low, hlow, high, hhigh, rfl⟩ := h
    simpa using ⟨spaced_valueSql hlow, spaced_valueSql hhigh⟩
  case list =>
    obtain ⟨items, -, list, hlist, rfl⟩ := h
    simpa using spaced_quoteList hlist
  case interval =>
    obtain ⟨number, -, unit, -, rfl⟩ := h
    simpa using spaced_singleton _
  case validity =>
    obtain ⟨type, -, htype⟩ := h
    obtain ⟨text, -, rfl⟩ := htype
    simpa using spaced_singleton _

theorem spaced_rowSql {left q : Sql} {operator value : Json ν} (hleft : spaced .free left = true)
    (h : rowSql host left operator value qualify = some q) : spaced .free q = true := by
  unfold rowSql at h
  split at h
  · split at h
    · rename_i op _
      obtain ⟨operands, hoperands, rfl⟩ := Option.map_eq_some_iff.mp h
      cases operands with
      | none => rfl
      | some os =>
        exact spaced_fill hleft (spaced_operands hoperands) op.template_spaced _ (.inl rfl)
    · obtain rfl := Option.some.inj h
      rfl
  · obtain rfl := Option.some.inj h
    rfl


theorem spaced_aggregateParam {param : Json ν} {q : Sql} (h : aggregateParam host param = some q) :
    spaced .free q = true := by
  cases param <;>
    simp only [aggregateParam, Option.map_eq_some_iff, Option.some.injEq] at h
  case null => exact h ▸ rfl
  case num => exact h ▸ rfl
  all_goals
    obtain ⟨text, -, rfl⟩ := h
    rfl

/-- What an aggregate compiles to, in a language whose objects inherit no functions. -/
theorem aggExpr_cases (hinherited : ∀ name column, host.inherited name column = none)
    {spec : AggregateSpec ν} {q : Sql} {present : Bool}
    (h : aggExpr host spec qualify = some (q, present)) :
    (q = [] ∧ present = false) ∨
    ∃ aggregate column param, host.truthy spec.aggregate = true ∧
      host.aggregate spec.aggregate = some (.own aggregate) ∧
      host.truthy spec.columnRef = true ∧
      ref host spec.columnRef qualify = some column ∧
      aggregateOperand host aggregate spec.param = some param ∧
      q = fill column [param] aggregate.template ∧ present = true := by
  unfold aggExpr at h
  cases htruthy : host.truthy spec.aggregate with
  | false => simp_all
  | true =>
    simp only [htruthy, Bool.not_true, Bool.false_eq_true, if_false, bind, pure,
      Option.bind_eq_some_iff] at h
    obtain ⟨entry, hentry, h⟩ := h
    cases entry with
    | missing => simp_all
    | inherited name => simp_all
    | own aggregate =>
      cases hcolumn : host.truthy spec.columnRef with
      | false => simp_all
      | true =>
        simp only [hcolumn, Bool.not_true, Bool.false_eq_true, if_false,
          Option.bind_eq_some_iff] at h
        obtain ⟨column, href, param, hparam, h⟩ := h
        simp only [Option.some.injEq, Prod.mk.injEq] at h
        exact .inr ⟨aggregate, column, param, rfl, hentry, rfl, href, hparam, h.1.symm, h.2.symm⟩

theorem spaced_aggExpr (hinherited : ∀ name column, host.inherited name column = none)
    {spec : AggregateSpec ν} {q : Sql} {present : Bool}
    (h : aggExpr host spec qualify = some (q, present)) : spaced .free q = true := by
  rcases aggExpr_cases hinherited h with ⟨rfl, -⟩ | ⟨aggregate, column, param, -, -, -, href, hparam,
    rfl, -⟩
  · rfl
  · have hspaced : spaced .free param = true := by
      unfold aggregateOperand at hparam
      split at hparam
      · exact spaced_aggregateParam hparam
      · exact spaced_aggregateParam hparam
      · exact Option.some.inj hparam ▸ rfl
    exact spaced_fill (spaced_ref href) (by simpa using hspaced) aggregate.template_spaced _
      (.inl rfl)

theorem spaced_aggregatedRight (hinherited : ∀ name column, host.inherited name column = none)
    {value : Json ν} {q : Sql} (h : aggregatedRight host value qualify = some q) :
    spaced .free q = true := by
  unfold aggregatedRight at h
  split at h
  · split at h
    · obtain ⟨⟨right, present⟩, hright, rfl⟩ := Option.map_eq_some_iff.mp h
      exact spaced_aggExpr hinherited hright
    · exact spaced_quote h
  · exact spaced_quote h

theorem spaced_aggregatedSql (hinherited : ∀ name column, host.inherited name column = none)
    {left q : Sql} {operator value : Json ν} (hleft : spaced .free left = true)
    (h : aggregatedSql host left operator value qualify = some q) : spaced .free q = true := by
  unfold aggregatedSql at h
  split at h
  · split at h
    · rename_i op _
      split at h
      · obtain ⟨right, hright, rfl⟩ := Option.map_eq_some_iff.mp h
        exact spaced_fill hleft (by simpa using spaced_aggregatedRight hinherited hright)
          op.template_spaced _ (.inl rfl)
      · split at h
        · obtain rfl := Option.some.inj h
          exact spaced_fill hleft (by simp) (Operator.template_spaced _) _ (.inl rfl)
        · obtain rfl := Option.some.inj h
          exact spaced_fill hleft (by simp) (Operator.template_spaced _) _ (.inl rfl)
        · simp only [bind, pure, Option.bind_eq_some_iff, Option.some.injEq] at h
          obtain ⟨low, hlow, high, hhigh, rfl⟩ := h
          exact spaced_fill hleft (by simpa using ⟨spaced_quote hlow, spaced_quote hhigh⟩)
            (Operator.template_spaced _) _ (.inl rfl)
        · obtain rfl := Option.some.inj h
          rfl
    · obtain rfl := Option.some.inj h
      rfl
  · obtain rfl := Option.some.inj h
    rfl

theorem spaced_compileRow (hinherited : ∀ name column, host.inherited name column = none)
    {row : Row ν} {q : Sql} (h : compileRow host row qualify = some q) : spaced .free q = true := by
  unfold compileRow at h
  split at h
  · split at h
    · obtain rfl := Option.some.inj h
      rfl
    · simp only [bind, Option.bind_eq_some_iff] at h
      obtain ⟨left, hleft, h⟩ := h
      exact spaced_rowSql (spaced_ref hleft) h
  · simp only [bind, pure, Option.bind_eq_some_iff] at h
    obtain ⟨⟨left, present⟩, hleft, h⟩ := h
    cases present with
    | true => exact spaced_aggregatedSql hinherited (spaced_aggExpr hinherited hleft) h
    | false =>
      obtain rfl := Option.some.inj h
      rfl

theorem spaced_entryFragment (hinherited : ∀ name column, host.inherited name column = none)
    {entry : Entry ν} {q : Sql} (h : entryFragment host entry qualify = some q) :
    spaced .free q = true := by
  unfold entryFragment at h
  split at h
  · exact spaced_compileRow hinherited h
  · split at h
    · obtain rfl := Option.some.inj h
      rfl
    · cases h
  · obtain rfl := Option.some.inj h
    rfl

theorem spaced_entryPart (hinherited : ∀ name column, host.inherited name column = none)
    {index : Nat} {entry : Entry ν} {q : Sql} (h : entryPart host index entry qualify = some q) :
    spaced .free q = true := by
  simp only [entryPart, bind, pure, Option.bind_eq_some_iff] at h
  obtain ⟨fragment, hfragment, h⟩ := h
  have hspaced := spaced_entryFragment hinherited hfragment
  split at h
  · obtain rfl := Option.some.inj h
    exact hspaced
  · simp only [Option.bind_eq_some_iff, Option.some.injEq] at h
    obtain ⟨combinator, -, rfl⟩ := h
    have hfollows : (sql " ").follows .token = true := by decide
    have hfree : (sql " ").junction = .free := by exact rfl
    rw [spaced, spaced, hfree, hspaced]
    simpa [Piece.follows, Piece.junction] using hfollows

theorem spaced_compileEntries (hinherited : ∀ name column, host.inherited name column = none)
    {index : Nat} {entries : List (Entry ν)} {parts : List Sql}
    (h : compileEntries host index entries qualify = some parts) :
    ∀ part ∈ parts, spaced .free part = true := by
  induction entries generalizing index parts with
  | nil =>
    obtain rfl := Option.some.inj h
    simp
  | cons entry entries ih =>
    simp only [compileEntries, bind, pure, Option.bind_eq_some_iff, Option.some.injEq] at h
    obtain ⟨part, hpart, rest, hrest, rfl⟩ := h
    split
    · exact ih hrest
    · simpa using ⟨spaced_entryPart hinherited hpart, ih hrest⟩

theorem spaced_spaces {parts : List Sql} (h : ∀ part ∈ parts, spaced .free part = true) :
    spaced .free (join " " parts) = true :=
  spaced_join (by decide) rfl h

theorem spaced_compileAstToSql (hinherited : ∀ name column, host.inherited name column = none)
    {ast : Ast ν} {q : Sql} (h : compileAstToSql host ast qualify = some q) :
    spaced .free q = true := by
  obtain ⟨parts, hparts, rfl⟩ := Option.map_eq_some_iff.mp h
  exact spaced_spaces (spaced_compileEntries hinherited hparts)


theorem after_path {parts : List Text} (hne : parts ≠ []) (junction : Junction) :
    after junction (join "." (parts.map fun part => [.ident part])) = .name := by
  induction parts generalizing junction with
  | nil => exact absurd rfl hne
  | cons a parts ih =>
    cases parts with
    | nil => simp [after, Piece.junction]
    | cons b parts =>
      rw [List.map_cons, List.map_cons, join_cons_cons, List.singleton_append, after, after,
        ← List.map_cons (f := fun part => [Piece.ident part])]
      exact ih (by simp) _

theorem after_quoteIdentPath {path : Text} {q : Sql} (h : quoteIdentPath host path = some q)
    (junction : Junction) : after junction q = .name := by
  obtain ⟨rfl, -⟩ := quoteIdentPath_eq h
  have hmap : ((path.splitOn '.').map fun part => [Piece.ident (host.unquoted part)]) =
      ((path.splitOn '.').map host.unquoted).map fun part => [.ident part] := by
    simp
  rw [hmap]
  exact after_path (by simp [List.splitOn_ne_nil]) junction

/-- A fixed piece between two others. -/
theorem spaced_cons_sql {text : String} {q : Sql} {junction : Junction}
    (hfollows : (sql text).follows junction = true) (hfree : (sql text).junction = .free)
    (hq : spaced .free q = true) : spaced junction (sql text :: q) = true := by
  rw [spaced, hfollows, hfree, hq]
  rfl

theorem spaced_onConditions {target : Sql} {keys : List (JoinKey ν)} {conditions : List Sql}
    (htarget : spaced .free target = true) (hafter : after .free target = .name)
    (h : onConditions host target keys = some conditions) :
    ∀ condition ∈ conditions, spaced .free condition = true := by
  apply spaced_mapM h
  intro key q hq
  simp only [bind, pure, Option.bind_eq_some_iff, Option.some.injEq] at hq
  obtain ⟨path, -, joined, hjoined, own, hown, rfl⟩ := hq
  have heq : spaced .token (sql " = " :: own) = true :=
    spaced_cons_sql (by decide) rfl (spaced_ref hown)
  have hdot : spaced .name (sql "." :: joined) = true :=
    spaced_cons_sql (by decide) rfl (spaced_quoteIdentPath hjoined)
  rw [List.append_assoc, spaced_append, htarget, hafter, spaced_append_token hdot heq]
  rfl

theorem spaced_joinSql {j : Join ν} {q : Sql} (h : joinSql host j = some q) :
    spaced .free q = true := by
  simp only [joinSql, bind, pure, Option.bind_eq_some_iff] at h
  obtain ⟨path, -, target, htarget, joinType, -, h⟩ := h
  have hhead : spaced .free (.sql joinType :: sql " " :: target) = true := by
    have hspace : spaced .token (sql " " :: target) = true :=
      spaced_cons_sql (by decide) rfl (spaced_quoteIdentPath htarget)
    rw [spaced, spaced_of_token hspace]
    rfl
  split at h
  · obtain rfl := Option.some.inj h
    exact hhead
  · simp only [Option.bind_eq_some_iff, Option.some.injEq] at h
    obtain ⟨conditions, hconditions, rfl⟩ := h
    have hon := spaced_onConditions (spaced_quoteIdentPath htarget)
      (after_quoteIdentPath htarget .free) hconditions
    have hand : spaced .free (join " AND " conditions) = true :=
      spaced_join (by decide) rfl hon
    exact spaced_append_token hhead (spaced_cons_sql (by decide) rfl hand)

theorem spaced_compileJoinsToSql {joins : List (Join ν)} {q : Sql}
    (h : compileJoinsToSql host joins = some q) : spaced .free q = true := by
  simp only [compileJoinsToSql, bind, pure, Option.bind_eq_some_iff, Option.some.injEq] at h
  obtain ⟨parts, hparts, rfl⟩ := h
  exact spaced_spaces (spaced_mapM hparts fun _ _ => spaced_joinSql)

theorem unseen_subset {keys : List Sql} {seen : List Text} : unseen seen keys ⊆ keys := by
  induction keys generalizing seen with
  | nil => exact fun _ h => h
  | cons key keys ih =>
    unfold unseen
    split
    · exact List.subset_cons_of_subset key ih
    · exact List.cons_subset_cons key ih

theorem spaced_joinKeyRefs {joins : List (Join ν)} {refs : List Sql}
    (h : joinKeyRefs host joins = some refs) : ∀ key ∈ refs, spaced .free key = true := by
  simp only [joinKeyRefs, bind, pure, Option.bind_eq_some_iff, Option.some.injEq] at h
  obtain ⟨all, hall, rfl⟩ := h
  intro key hkey
  exact spaced_mapM hall (fun _ _ => spaced_ref) key (unseen_subset hkey)

theorem spaced_selectKeyProjection {key : Sql} (h : spaced .free key = true) :
    spaced .free (selectKeyProjection host key) = true := by
  unfold selectKeyProjection
  split
  · have has : spaced .token (sql " AS " :: key) = true :=
      spaced_cons_sql (by decide) rfl h
    have hdot : spaced .free (sql "." :: key) = true := by
      apply spaced_cons_sql (follows_free _) _ h
      exact rfl
    change spaced .free ((sql "." :: key) ++ sql " AS " :: key) = true
    exact spaced_append_token hdot has
  · exact h

theorem spaced_selectQuery {select : Option Sql} {predicate joins : Sql}
    (hselect : ∀ list ∈ select, spaced .free list = true)
    (hpredicate : spaced .free predicate = true) (hjoins : spaced .free joins = true) :
    spaced .free (selectQuery select predicate joins) = true := by
  have hfrom : spaced .free (fromClause joins) = true := by
    unfold fromClause
    split
    · rfl
    · exact spaced_cons_sql (follows_free _) rfl hjoins
  have htail : spaced .token (sql ") AS condition FROM " :: fromClause joins) = true :=
    spaced_cons_sql (by decide) rfl hfrom
  have hclose : spaced .token [sql ")"] = true :=
    spaced_cons_sql (by decide) rfl rfl
  have hfail : spaced .free (failCondition predicate) = true := by
    apply spaced_cons_sql (follows_free _) rfl
    exact spaced_append_token hpredicate hclose
  have hcondition : spaced .free (sql "(" :: failCondition predicate ++
      sql ") AS condition FROM " :: fromClause joins) = true :=
    spaced_append_token (spaced_cons_sql (follows_free _) rfl hfail) htail
  have hfree : ∀ q : Sql, after .free (q ++ [sql ", "]) = .free := by
    intro q
    have hcomma : (sql ", ").junction = .free := by exact rfl
    have happend : ∀ junction, after junction (q ++ [sql ", "]) = .free := by
      induction q with
      | nil => exact fun _ => hcomma
      | cons piece q ih => exact fun _ => ih _
    exact happend _
  have hselected : spaced .free (select.elim [] fun list => list ++ [sql ", "]) = true ∧
      after .free (select.elim [] fun list => list ++ [sql ", "]) = .free := by
    cases select with
    | none => exact ⟨rfl, rfl⟩
    | some list =>
      refine ⟨spaced_append_token (hselect list rfl) ?_, hfree list⟩
      exact spaced_cons_sql (by decide) rfl rfl
  unfold selectQuery
  rw [List.append_assoc, List.cons_append]
  apply spaced_cons_sql (follows_free _) rfl
  rw [spaced_append, hselected.1, hselected.2, hcondition]
  rfl

/-- The compiled SQL keeps its pieces apart. -/
theorem spaced_compileLowcodeBody (hinherited : ∀ name column, host.inherited name column = none)
    {ast : Ast ν} {groupBy : Text} {body : Body}
    (h : compileLowcodeBody host ast groupBy = some body) : spaced .free body.sql = true := by
  obtain ⟨joins, predicate, hjoins, hpredicate, hbody⟩ := compileLowcodeBody_cases host h
  have hjoins := spaced_compileJoinsToSql hjoins
  have hpredicate := spaced_compileAstToSql hinherited hpredicate
  have hprojected : ∀ keys : List Sql, (∀ key ∈ keys, spaced .free key = true) →
      ∀ key ∈ keys.map (selectKeyProjection host), spaced .free key = true := by
    intro keys hkeys key hkey
    obtain ⟨key, hmem, rfl⟩ := List.mem_map.mp hkey
    exact spaced_selectKeyProjection (hkeys key hmem)
  obtain ⟨-, -, rfl⟩ | ⟨columns, -, hcolumns, rfl⟩ | ⟨keyRefs, -, -, hrefs, -, rfl⟩ |
    ⟨-, -, -, rfl⟩ := hbody
  · exact hpredicate
  · have hcolumns : ∀ column ∈ columns, spaced .free column = true := by
      simp [hcolumns, spaced, Piece.follows]
    apply spaced_append_token
    · apply spaced_selectQuery _ hpredicate hjoins
      intro list hlist
      obtain rfl := Option.some.inj hlist
      apply spaced_commas
      split
      · exact hcolumns
      · exact hprojected columns hcolumns
    · exact spaced_cons_sql (by decide) rfl (spaced_commas hcolumns)
  · apply spaced_selectQuery _ hpredicate hjoins
    intro list hlist
    obtain rfl := Option.some.inj hlist
    exact spaced_commas (hprojected keyRefs (spaced_joinKeyRefs hrefs))
  · exact spaced_selectQuery (by simp) hpredicate hjoins

end

end Dqx.LowCode
