import Dqx.LowCode.Structure

/-! The strings that a low-code rule quotes, and the rules whose literals leave the structure of their
SQL alone. -/

namespace Dqx.LowCode

open Lib.Sql

variable (repr : Text → Text)

/-- A string is quoted as it is; a list or an object as Python prints it. -/
def quotedText (value : Json Python.Number) : Option Text :=
  match value with
  | .str s => some s
  | .list _ | .obj _ => some (Python.str (.ofRepr repr) value)
  | _ => none

def ValueIs (p : Text → Prop) (value : Json Python.Number) : Prop :=
  ∀ text, quotedText repr value = some text → p text

/-- The values that are no columns. -/
def literalsOf {ν : Type} (values : List (Json ν)) : List (Json ν) :=
  values.filter fun value => (columnRefName value).isNone

theorem literalsOf_append {ν : Type} (values values' : List (Json ν)) :
    literalsOf (values ++ values') = literalsOf values ++ literalsOf values' :=
  List.filter_append values values'

/-- The literals among an operator's operands. -/
def OperandKind.literals {ν : Type} (kind : OperandKind) (value : Json ν) : List (Json ν) :=
  match kind with
  | .value => literalsOf [value]
  | .literal => [value]
  | .pair => literalsOf [(Python.bounds value).1, (Python.bounds value).2]
  | .list => literalsOf (Python.items value)
  | .unused | .interval | .validity => []

def operatorOf {ν : Type} (operator : Json ν) : Option Operator :=
  match operator with
  | .str name => Operator.ofName name
  | _ => none

/-- An aggregate that is known, of a column. -/
def AggregateSpec.present (spec : AggregateSpec Python.Number) : Bool :=
  match spec.aggregate with
  | .str name => (Aggregate.ofName name).isSome && (pythonHost repr).truthy spec.columnRef
  | _ => false

/-- The literals that an aggregated row compares with. -/
def aggregatedLiterals {ν : Type} (op : Operator) (value : Json ν) : List (Json ν) :=
  if op.isComparison then
    match value with
    | .obj entries => if (Json.get entries "aggregate").isSome then [] else [value]
    | value => [value]
  else
    match op with
    | .between => [(Python.bounds value).1, (Python.bounds value).2]
    | _ => []

/-- The literals in the SQL of a row. -/
def Row.literals (row : Row Python.Number) : List (Json Python.Number) :=
  match operatorOf row.operator with
  | some op =>
    if isRow row.kind then
      if (pythonHost repr).truthy row.columnRef then op.operandKind.literals row.value else []
    else if row.spec.present repr then aggregatedLiterals op row.value else []
  | none => []

/-- Every string among a rule's literals has a property. -/
def Ast.StringsAre (p : Text → Prop) (ast : Ast Python.Number) : Prop :=
  ∀ row, Entry.row row ∈ ast.rows → ∀ value ∈ row.literals repr, ValueIs repr p value

variable {repr} {qualify : Bool} {p : Text → Prop}

theorem stringsAre_nil : StringsAre p [] := by
  intro text hmem
  cases hmem

theorem stringsAre_append {a b : Sql} :
    StringsAre p (a ++ b) ↔ StringsAre p a ∧ StringsAre p b := by
  simp only [StringsAre, List.mem_append]
  constructor
  · intro h
    exact ⟨fun text hmem => h text (.inl hmem), fun text hmem => h text (.inr hmem)⟩
  · rintro ⟨ha, hb⟩ text (hmem | hmem)
    · exact ha text hmem
    · exact hb text hmem

theorem stringsAre_cons_sql {text : Text} {q : Sql} :
    StringsAre p (.sql text :: q) ↔ StringsAre p q := by
  simp [StringsAre]

theorem stringsAre_of_own {q : Sql} (own : Own q) : StringsAre p q := by
  intro text hmem
  cases (own _ hmem).2

theorem stringsAre_join {separator : String} {parts : List Sql} :
    StringsAre p (join separator parts) ↔ ∀ part ∈ parts, StringsAre p part := by
  induction parts with
  | nil => simp [stringsAre_nil]
  | cons a parts ih =>
    cases parts with
    | nil => simp
    | cons b parts =>
      rw [join_cons_cons, stringsAre_append, sql, stringsAre_cons_sql, ih]
      simp

theorem stringsAre_fill {left : Sql} {operands : List Sql} {parts : List Part}
    (hleft : StringsAre p left) :
    StringsAre p (fill left operands parts) ↔
      ∀ index, Part.operand index ∈ parts → StringsAre p (operands.getD index []) := by
  induction parts with
  | nil => simp [fill, stringsAre_nil]
  | cons part parts ih =>
    cases part with
    | sql text =>
      change StringsAre p (.sql text.toList :: fill left operands parts) ↔ _
      rw [stringsAre_cons_sql, ih]
      simp
    | left =>
      change StringsAre p (left ++ fill left operands parts) ↔ _
      rw [stringsAre_append, ih]
      simp [hleft]
    | operand index =>
      change StringsAre p (operands.getD index [] ++ fill left operands parts) ↔ _
      rw [stringsAre_append, ih]
      simp

/-- How many operands an operator's template has. -/
def OperandKind.arity : OperandKind → Nat
  | .unused => 0
  | .pair => 2
  | _ => 1

/-- The operand that a part of a template stands for. -/
def Part.index : Part → Option Nat
  | .operand index => some index
  | _ => none

theorem Operator.operands_template (op : Operator) :
    op.template.filterMap Part.index = List.range op.operandKind.arity := by
  cases op <;> rfl

theorem Operator.operand_mem (op : Operator) (index : Nat) :
    Part.operand index ∈ op.template ↔ index < op.operandKind.arity := by
  rw [← List.mem_range, ← op.operands_template, List.mem_filterMap]
  constructor
  · exact fun h => ⟨_, h, rfl⟩
  · rintro ⟨part, hpart, hindex⟩
    cases part with
    | operand other => exact Option.some.inj hindex ▸ hpart
    | sql text => cases hindex
    | left => cases hindex

theorem stringsAre_template {left : Sql} {operands : List Sql} {op : Operator}
    (hleft : StringsAre p left) (hlength : operands.length = op.operandKind.arity) :
    StringsAre p (fill left operands op.template) ↔
      ∀ operand ∈ operands, StringsAre p operand := by
  rw [stringsAre_fill hleft]
  simp only [op.operand_mem, ← hlength]
  constructor
  · intro h operand hmem
    obtain ⟨index, hindex, rfl⟩ := List.mem_iff_getElem.mp hmem
    simpa [hindex] using h index hindex
  · intro h index hindex
    simpa [hindex] using h _ (List.getElem_mem hindex)

theorem stringsAre_quote {value : Json Python.Number} {q : Sql}
    (h : quote (pythonHost repr) value = some q) :
    StringsAre p q ↔ ValueIs repr p value := by
  cases value <;> (obtain rfl := Option.some.inj h) <;>
    simp [StringsAre, ValueIs, quotedText, pythonHost, Python.host, Python.str]

theorem stringsAre_ref {column : Json Python.Number} {q : Sql}
    (h : ref (pythonHost repr) column qualify = some q) : StringsAre p q := by
  rcases ref_cases h with ⟨path, -, -, hpath⟩ | ⟨name, -, -, rfl⟩
  · exact stringsAre_of_own (own_quoteIdentPath hpath)
  · cases qualify <;> simp [StringsAre, sql]

theorem stringsAre_valueSql {value : Json Python.Number} {q : Sql}
    (h : valueSql (pythonHost repr) value qualify = some q) :
    StringsAre p q ↔ ∀ literal ∈ literalsOf [value], ValueIs repr p literal := by
  unfold valueSql at h
  split at h
  · rename_i name hname
    simp [literalsOf, hname, stringsAre_ref h]
  · rename_i hname
    rw [stringsAre_quote h]
    simp [literalsOf, hname]

theorem stringsAre_quoteList {values : List (Json Python.Number)} {q : Sql}
    (h : quoteList (pythonHost repr) values qualify = some q) :
    StringsAre p q ↔ ∀ literal ∈ literalsOf values, ValueIs repr p literal := by
  simp only [quoteList, bind, pure, Option.bind_eq_some_iff, Option.some.injEq] at h
  obtain ⟨parts, hparts, rfl⟩ := h
  rw [stringsAre_join]
  induction values generalizing parts with
  | nil =>
    obtain rfl := Option.some.inj hparts
    simp [literalsOf]
  | cons value values ih =>
    obtain ⟨part, rest, hpart, hrest, rfl⟩ := Lib.mapM_cons_eq_some.mp hparts
    have hsplit : literalsOf (value :: values) = literalsOf [value] ++ literalsOf values :=
      literalsOf_append [value] values
    rw [List.forall_mem_cons, stringsAre_valueSql hpart, ih rest hrest, hsplit]
    simp only [List.mem_append]
    constructor
    · rintro ⟨hvalue, hvalues⟩ literal (hmem | hmem)
      · exact hvalue literal hmem
      · exact hvalues literal hmem
    · intro hall
      exact ⟨fun literal hmem => hall literal (.inl hmem), fun literal hmem => hall literal (.inr hmem)⟩

theorem stringsAre_operands {op : Operator} {value : Json Python.Number} {os : List Sql}
    (h : operands (pythonHost repr) op.operandKind value qualify = some (some os)) :
    os.length = op.operandKind.arity ∧ ((∀ operand ∈ os, StringsAre p operand) ↔
      ∀ literal ∈ op.operandKind.literals value, ValueIs repr p literal) := by
  cases hkind : op.operandKind <;> rw [hkind] at h <;>
    simp only [operands, bind, pure, Option.map_eq_some_iff, Option.bind_eq_some_iff,
      Option.some.injEq] at h
  case unused =>
    subst h
    simp [OperandKind.arity, OperandKind.literals]
  case value =>
    obtain ⟨operand, hoperand, rfl⟩ := h
    simpa [OperandKind.arity, OperandKind.literals] using stringsAre_valueSql hoperand
  case literal =>
    obtain ⟨operand, hoperand, rfl⟩ := h
    simpa [OperandKind.arity, OperandKind.literals] using stringsAre_quote hoperand
  case pair =>
    obtain ⟨low, hlow, high, hhigh, rfl⟩ := h
    refine ⟨rfl, ?_⟩
    have hsplit : OperandKind.pair.literals value =
        literalsOf [(Python.bounds value).1] ++ literalsOf [(Python.bounds value).2] :=
      literalsOf_append [(Python.bounds value).1] [(Python.bounds value).2]
    rw [hsplit]
    simp only [List.forall_mem_cons, List.mem_append, stringsAre_valueSql hlow,
      stringsAre_valueSql hhigh]
    constructor
    · rintro ⟨hl, hh, -⟩ literal (hmem | hmem)
      · exact hl literal hmem
      · exact hh literal hmem
    · intro hall
      exact ⟨fun literal hmem => hall literal (.inl hmem),
        fun literal hmem => hall literal (.inr hmem), by simp⟩
  case list =>
    obtain ⟨items, hitems, list, hlist, rfl⟩ := h
    obtain rfl : Python.items value = items := Option.some.inj hitems
    simpa [OperandKind.arity, OperandKind.literals] using stringsAre_quoteList hlist
  case interval =>
    obtain ⟨number, -, unit, -, rfl⟩ := h
    simp [OperandKind.arity, OperandKind.literals, StringsAre]
  case validity =>
    obtain ⟨type, -, htype⟩ := h
    obtain ⟨text, -, rfl⟩ := htype
    simp [OperandKind.arity, OperandKind.literals, StringsAre]

/-- Only a type that is not known has no operands. -/
theorem literals_of_operands_none {op : Operator} {value : Json Python.Number}
    (h : operands (pythonHost repr) op.operandKind value qualify = some none) :
    op.operandKind.literals value = [] := by
  cases hkind : op.operandKind <;> rw [hkind] at h <;>
    simp [operands, bind, pure, Option.bind_eq_some_iff, OperandKind.literals] at h ⊢

theorem stringsAre_aggregateOperand {aggregate : Aggregate} {param : Json Python.Number}
    {q : Sql} (h : aggregateOperand (pythonHost repr) aggregate param = some q) :
    StringsAre p q := by
  unfold aggregateOperand at h
  split at h
  all_goals
    first
      | (obtain rfl := Option.some.inj h
         exact stringsAre_nil)
      | (unfold aggregateParam at h
         split at h
         all_goals
           (obtain rfl := Option.some.inj h
            simp [StringsAre]))

/-- The aggregate of a spec is taken for present when it is known and has a column. -/
theorem AggregateSpec.present_of_aggExpr {spec : AggregateSpec Python.Number} {q : Sql}
    {present : Bool} (h : aggExpr (pythonHost repr) spec qualify = some (q, present)) :
    present = spec.present repr := by
  unfold aggExpr at h
  cases haggregate : spec.aggregate with
  | str name =>
    have hempty : name.isEmpty = true → Aggregate.ofName name = none := by
      intro hname
      rw [List.isEmpty_iff.mp hname]
      decide +kernel
    have htruthy : (pythonHost repr).truthy (.str name) = !name.isEmpty := rfl
    have hentry : (pythonHost repr).aggregate (.str name) =
        some ((Aggregate.ofName name).elim .missing .own) := rfl
    simp only [haggregate, htruthy, hentry, Bool.not_not, bind, pure, Option.bind_some] at h
    cases hname : name.isEmpty with
    | true => simp_all [AggregateSpec.present]
    | false =>
      cases hfound : Aggregate.ofName name with
      | none => simp_all [AggregateSpec.present]
      | some found =>
        cases hcolumn : (pythonHost repr).truthy spec.columnRef with
        | false => simp_all [AggregateSpec.present]
        | true =>
          simp only [hname, hfound, hcolumn, Bool.false_eq_true, if_false, Option.elim,
            Bool.not_true, Option.bind_eq_some_iff, Option.some.injEq, Prod.mk.injEq] at h
          obtain ⟨_, _, _, _, _, rfl⟩ := h
          simp [AggregateSpec.present, haggregate, hfound, hcolumn]
  | _ =>
    simp only [haggregate, bind, pure] at h
    split at h
    · simp_all [AggregateSpec.present]
    · simp_all [AggregateSpec.present, pythonHost, Python.host, Python.aggregate]

theorem stringsAre_aggExpr {spec : AggregateSpec Python.Number} {q : Sql} {present : Bool}
    (h : aggExpr (pythonHost repr) spec qualify = some (q, present)) : StringsAre p q := by
  rcases aggExpr_cases (fun _ _ => rfl) h with ⟨rfl, -⟩ | ⟨aggregate, column, param, -, -, -, href,
    hparam, rfl, -⟩
  · exact stringsAre_nil
  · rw [stringsAre_fill (stringsAre_ref href)]
    intro index _
    cases index with
    | zero => exact stringsAre_aggregateOperand hparam
    | succ index => exact stringsAre_nil

theorem stringsAre_rowSql {left : Sql} {row : Row Python.Number} {q : Sql}
    (hleft : StringsAre p left)
    (h : rowSql (pythonHost repr) left row.operator row.value qualify = some q) :
    StringsAre p q ↔ ∀ op, operatorOf row.operator = some op →
      ∀ literal ∈ op.operandKind.literals row.value, ValueIs repr p literal := by
  unfold rowSql at h
  cases hoperator : row.operator with
  | str name =>
    simp only [hoperator] at h
    cases hop : Operator.ofName name with
    | none =>
      simp only [hop, Option.some.injEq] at h
      subst h
      simp [operatorOf, hop, stringsAre_nil]
    | some op =>
      simp only [hop] at h
      obtain ⟨os, hos, rfl⟩ := Option.map_eq_some_iff.mp h
      cases os with
      | none =>
        have hkind := literals_of_operands_none hos
        simp [operatorOf, hop, stringsAre_nil, hkind]
      | some os =>
        obtain ⟨hlength, hiff⟩ := stringsAre_operands hos
        rw [stringsAre_template hleft hlength, hiff]
        simp [operatorOf, hop]
  | _ =>
    simp only [hoperator, Option.some.injEq] at h
    subst h
    simp [operatorOf, stringsAre_nil]

theorem stringsAre_aggregatedRight {op : Operator} {value : Json Python.Number} {q : Sql}
    (hcomparison : op.isComparison = true)
    (h : aggregatedRight (pythonHost repr) value qualify = some q) :
    StringsAre p q ↔ ∀ literal ∈ aggregatedLiterals op value, ValueIs repr p literal := by
  cases value with
  | obj entries =>
    simp only [aggregatedRight] at h
    cases hget : Json.get entries "aggregate" with
    | none =>
      rw [hget] at h
      simp [aggregatedLiterals, hcomparison, hget, stringsAre_quote h]
    | some aggregate =>
      rw [hget] at h
      obtain ⟨⟨right, present⟩, hright, rfl⟩ := Option.map_eq_some_iff.mp h
      simp [aggregatedLiterals, hcomparison, hget, stringsAre_aggExpr hright]
  | _ =>
    simp only [aggregatedRight] at h
    simp [aggregatedLiterals, hcomparison, stringsAre_quote h]

theorem stringsAre_aggregatedSql {left : Sql} {row : Row Python.Number} {q : Sql}
    (hleft : StringsAre p left)
    (h : aggregatedSql (pythonHost repr) left row.operator row.value qualify = some q) :
    StringsAre p q ↔ ∀ op, operatorOf row.operator = some op →
      ∀ literal ∈ aggregatedLiterals op row.value, ValueIs repr p literal := by
  unfold aggregatedSql at h
  cases hoperator : row.operator with
  | str name =>
    simp only [hoperator] at h
    cases hop : Operator.ofName name with
    | none =>
      simp only [hop, Option.some.injEq] at h
      subst h
      simp [operatorOf, hop, stringsAre_nil]
    | some op =>
      simp only [hop] at h
      have hof : operatorOf (.str name : Json Python.Number) = some op := hop
      simp only [hof, Option.some.injEq, forall_eq']
      split at h
      · rename_i hcomparison
        obtain ⟨right, hright, rfl⟩ := Option.map_eq_some_iff.mp h
        have harity : op.operandKind.arity = 1 := by
          cases op <;> first | rfl | cases hcomparison
        rw [stringsAre_template hleft (by rw [harity]; rfl)]
        simp only [List.mem_singleton, forall_eq]
        exact stringsAre_aggregatedRight hcomparison hright
      · rename_i hcomparison
        cases op <;> simp only [bind, pure, Option.bind_eq_some_iff, Option.some.injEq] at h
        case between =>
          obtain ⟨low, hlow, high, hhigh, rfl⟩ := h
          rw [stringsAre_template hleft rfl]
          have hbounds : (pythonHost repr).bounds row.value = Python.bounds row.value := rfl
          simp [stringsAre_quote hlow, stringsAre_quote hhigh, aggregatedLiterals,
            Operator.isComparison, hbounds]
        case isNull =>
          subst h
          rw [stringsAre_template hleft rfl]
          simp [aggregatedLiterals, Operator.isComparison]
        case isNotNull =>
          subst h
          rw [stringsAre_template hleft rfl]
          simp [aggregatedLiterals, Operator.isComparison]
        all_goals
          subst h
          simp_all [aggregatedLiterals, Operator.isComparison, stringsAre_nil]
  | _ =>
    simp only [hoperator, Option.some.injEq] at h
    subst h
    simp [operatorOf, stringsAre_nil]

theorem stringsAre_compileRow {row : Row Python.Number} {q : Sql}
    (h : compileRow (pythonHost repr) row qualify = some q) :
    StringsAre p q ↔ ∀ literal ∈ row.literals repr, ValueIs repr p literal := by
  have hoperators : ∀ literals : Operator → List (Json Python.Number),
      (∀ literal ∈ (operatorOf row.operator).elim [] literals, ValueIs repr p literal) ↔
        ∀ op, operatorOf row.operator = some op →
          ∀ literal ∈ literals op, ValueIs repr p literal := by
    intro literals
    cases operatorOf row.operator <;> simp
  have hliterals : row.literals repr = (operatorOf row.operator).elim [] fun op =>
      if isRow row.kind then
        if (pythonHost repr).truthy row.columnRef then op.operandKind.literals row.value else []
      else if row.spec.present repr then aggregatedLiterals op row.value else [] := by
    unfold Row.literals
    cases operatorOf row.operator <;> rfl
  rw [hliterals, hoperators]
  unfold compileRow at h
  cases hkind : isRow row.kind with
  | true =>
    simp only [hkind, if_true, bind] at h
    cases htruthy : (pythonHost repr).truthy row.columnRef with
    | false =>
      simp only [htruthy, Bool.not_false, if_true, Option.some.injEq] at h
      subst h
      simp [stringsAre_nil]
    | true =>
      simp only [htruthy, Bool.not_true, Bool.false_eq_true, if_false,
        Option.bind_eq_some_iff] at h
      obtain ⟨left, hleft, h⟩ := h
      simpa using stringsAre_rowSql (stringsAre_ref hleft) h
  | false =>
    simp only [hkind, Bool.false_eq_true, if_false, bind, pure, Option.bind_eq_some_iff] at h
    obtain ⟨⟨left, present⟩, hleft, h⟩ := h
    obtain rfl := AggregateSpec.present_of_aggExpr hleft
    cases hpresent : row.spec.present repr with
    | false =>
      rw [hpresent] at h
      obtain rfl := Option.some.inj h
      simp [stringsAre_nil]
    | true =>
      rw [hpresent] at h
      simpa using stringsAre_aggregatedSql (stringsAre_aggExpr hleft) h

theorem stringsAre_entryPart {index : Nat} {entry : Entry Python.Number} {q : Sql}
    (h : entryPart (pythonHost repr) index entry qualify = some q) :
    StringsAre p q ↔ ∀ row, entry = .row row →
      ∀ literal ∈ row.literals repr, ValueIs repr p literal := by
  simp only [entryPart, bind, pure, Option.bind_eq_some_iff] at h
  obtain ⟨fragment, hfragment, h⟩ := h
  have hread : StringsAre p fragment ↔ ∀ row, entry = .row row →
      ∀ literal ∈ row.literals repr, ValueIs repr p literal := by
    cases entry with
    | row row => simpa using stringsAre_compileRow hfragment
    | null =>
      obtain rfl := Option.some.inj hfragment
      simp [stringsAre_nil]
    | scalar =>
      obtain rfl := Option.some.inj hfragment
      simp [stringsAre_nil]
  rw [← hread]
  split at h
  · obtain rfl := Option.some.inj h
    rfl
  · simp only [Option.bind_eq_some_iff, Option.some.injEq] at h
    obtain ⟨combinator, -, rfl⟩ := h
    simp [StringsAre, sql]

theorem stringsAre_compileEntries {index : Nat} {entries : List (Entry Python.Number)}
    {parts : List Sql} (h : compileEntries (pythonHost repr) index entries qualify = some parts) :
    (∀ part ∈ parts, StringsAre p part) ↔ ∀ row, Entry.row row ∈ entries →
      ∀ literal ∈ row.literals repr, ValueIs repr p literal := by
  induction entries generalizing index parts with
  | nil =>
    obtain rfl := Option.some.inj h
    simp
  | cons entry entries ih =>
    simp only [compileEntries, bind, pure, Option.bind_eq_some_iff, Option.some.injEq] at h
    obtain ⟨part, hpart, rest, hrest, rfl⟩ := h
    have hsplit : (∀ part' ∈ if part.isEmpty = true then rest else part :: rest,
        StringsAre p part') ↔ StringsAre p part ∧ ∀ part' ∈ rest, StringsAre p part' := by
      split
      · rename_i hempty
        rw [List.isEmpty_iff] at hempty
        subst hempty
        simp [stringsAre_nil]
      · exact List.forall_mem_cons
    rw [hsplit, stringsAre_entryPart hpart, ih hrest]
    constructor
    · rintro ⟨hentry, hentries⟩ row hmem
      rcases List.mem_cons.mp hmem with heq | hmem
      · exact hentry row heq.symm
      · exact hentries row hmem
    · intro hall
      exact ⟨fun row heq => hall row (by simp [heq]), fun row hmem => hall row (by simp [hmem])⟩

theorem stringsAre_compileAstToSql {ast : Ast Python.Number} {q : Sql}
    (h : compileAstToSql (pythonHost repr) ast qualify = some q) :
    StringsAre p q ↔ ast.StringsAre repr p := by
  obtain ⟨parts, hparts, rfl⟩ := Option.map_eq_some_iff.mp h
  rw [stringsAre_join, stringsAre_compileEntries hparts]
  rfl

theorem stringsAre_selectQuery {select : Option Sql} {predicate joins : Sql}
    (hselect : ∀ list ∈ select, StringsAre p list) (hjoins : StringsAre p joins) :
    StringsAre p (selectQuery select predicate joins) ↔ StringsAre p predicate := by
  have hlist : StringsAre p (select.elim [] fun list => list ++ [sql ", "]) := by
    cases select with
    | none => exact stringsAre_nil
    | some list =>
      exact stringsAre_append.mpr
        ⟨hselect list rfl, stringsAre_cons_sql.mpr stringsAre_nil⟩
  have hfrom : StringsAre p (fromClause joins) := by
    unfold fromClause
    split
    · simp [StringsAre]
    · simpa [StringsAre, sql] using hjoins
  simp only [selectQuery, failCondition, sql, List.cons_append, List.append_assoc,
    stringsAre_cons_sql, stringsAre_append, hfrom, and_true, stringsAre_nil]
  exact and_iff_right hlist

theorem stringsAre_selectKeyProjection {key : Sql} (h : StringsAre p key) :
    StringsAre p (selectKeyProjection (pythonHost repr) key) := by
  unfold selectKeyProjection
  split
  · intro text hmem
    apply h
    simpa [sql] using hmem
  · exact h

/-- The strings of a body are those of its rows. -/
theorem stringsAre_compileLowcodeBody {ast : Ast Python.Number} {groupBy : Text} {body : Body}
    (declared : ast.Declared repr)
    (h : compileLowcodeBody (pythonHost repr) ast groupBy = some body) :
    StringsAre p body.sql ↔ ast.StringsAre repr p := by
  obtain ⟨joins, predicate, hjoins, hpredicate, hbody⟩ := compileLowcodeBody_cases _ h
  have hjoins : StringsAre p joins :=
    stringsAre_of_own (own_compileJoinsToSql declared.keys hjoins)
  have hprojected : ∀ keys : List Sql, (∀ key ∈ keys, StringsAre p key) →
      ∀ key ∈ keys.map (selectKeyProjection (pythonHost repr)), StringsAre p key := by
    intro keys hkeys key hkey
    obtain ⟨key, hmem, rfl⟩ := List.mem_map.mp hkey
    exact stringsAre_selectKeyProjection (hkeys key hmem)
  rw [← stringsAre_compileAstToSql hpredicate]
  obtain ⟨-, -, rfl⟩ | ⟨columns, -, hcolumns, rfl⟩ | ⟨keyRefs, -, -, hrefs, -, rfl⟩ |
    ⟨-, -, -, rfl⟩ := hbody
  · rfl
  · have hcolumns : ∀ column ∈ columns, StringsAre p column := by
      simp [hcolumns, StringsAre]
    have hselect : StringsAre p (join ", " (if joins.isEmpty then columns
        else columns.map (selectKeyProjection (pythonHost repr)))) := by
      rw [stringsAre_join]
      split
      · exact hcolumns
      · exact hprojected columns hcolumns
    change StringsAre p (selectQuery _ _ _ ++ _) ↔ _
    rw [stringsAre_append, stringsAre_selectQuery (by simpa using hselect) hjoins]
    exact and_iff_left (stringsAre_cons_sql.mpr (stringsAre_join.mpr hcolumns))
  · have hkeys : ∀ key ∈ keyRefs, StringsAre p key := fun key hkey =>
      stringsAre_of_own (own_joinKeyRefs declared.keys hrefs key hkey)
    have hselect : StringsAre p (join ", " (keyRefs.map (selectKeyProjection (pythonHost repr)))) :=
      stringsAre_join.mpr (hprojected keyRefs hkeys)
    exact stringsAre_selectQuery (by simpa using hselect) hjoins
  · exact stringsAre_selectQuery (by simp) hjoins

/-- A rule with the same names has the same declared columns. -/
theorem Ast.Reassigned.declared {ast ast' : Ast Python.Number} (h : ast.Reassigned ast')
    (declared : ast.Declared repr) : ast'.Declared repr := by
  refine ⟨fun row' hmem => ?_, h.joins ▸ declared.keys⟩
  obtain ⟨entry, hentry, hsame⟩ := Lib.exists_of_forall₂_right h.rows hmem
  cases hsame with
  | row row _ hrow =>
    have hdeclared := declared.rows row hentry
    have hvalue := hrow.sameValue
    refine ⟨hrow.columnRef ▸ hdeclared.columnRef, ?_, ?_, hrow.combinator ▸ hdeclared.combinator⟩
    · intro value' hvalue' name hname
      have hall : List.Forall₂ SameLiteral (row.value :: Python.items row.value)
          (row'.value :: Python.items row'.value) := .cons hvalue.literal hvalue.items
      obtain ⟨value, hmem, hliteral⟩ := Lib.exists_of_forall₂_right hall hvalue'
      exact hdeclared.value value hmem name (hliteral.column.trans hname)
    · intro entries' hentries' htruthy
      have hkind := hvalue.literal.kind
      rw [hentries'] at hkind
      generalize hentries : row.value = value at hkind
      cases hkind with
      | obj entries _ =>
        obtain ⟨-, hcolumn, -⟩ := hvalue.spec entries entries' hentries hentries'
        rw [← hcolumn] at htruthy ⊢
        exact hdeclared.spec entries hentries htruthy

/-- A row that compares a column with a string. -/
def comparison (column value : String) : Row Python.Number :=
  ⟨.str "row".toList, .str "AND".toList, .null, .str column.toList, .str "equals".toList,
    .str value.toList, .null⟩

def comparing (first second : String) : Ast Python.Number :=
  ⟨[.row (comparison "name" first), .row (comparison "city" second)], []⟩

/-- The compiled comparison. -/
def compared (first second : String) : Body :=
  .predicate [.slot "name".toList, sql " = ", .quoted first.toList, sql " ", .raw "AND".toList,
    sql " ", .slot "city".toList, sql " = ", .quoted second.toList]

theorem reassigned_comparing (first second first' second' : String) :
    (comparing first second).Reassigned (comparing first' second') := by
  have hvalue : ∀ s s' : Text, SameValue (.str s : Json Python.Number) (.str s') := fun s s' =>
    ⟨⟨.str s s', rfl⟩, .nil, fun _ _ h => by cases h⟩
  refine ⟨.cons (.row _ _ ?_) (.cons (.row _ _ ?_) .nil), rfl⟩
  · exact ⟨rfl, rfl, rfl, rfl, rfl, .null, hvalue _ _⟩
  · exact ⟨rfl, rfl, rfl, rfl, rfl, .null, hvalue _ _⟩

theorem comparing_rows {first second : String} {row : Row Python.Number}
    (h : Entry.row row ∈ (comparing first second).rows) :
    ∃ column value, column.toList.all isWordChar = true ∧ row = comparison column value := by
  rcases List.mem_cons.mp h with heq | hmem
  · exact ⟨"name", first, by decide, Entry.row.inj heq⟩
  · exact ⟨"city", second, by decide, Entry.row.inj (List.mem_singleton.mp hmem)⟩

theorem declared_comparing (first second : String) : (comparing first second).Declared id := by
  refine ⟨fun row hrow => ?_, fun _ hjoin => by cases hjoin⟩
  obtain ⟨column, value, hcolumn, rfl⟩ := comparing_rows hrow
  refine ⟨fun _ => ⟨_, rfl, .inr hcolumn⟩, ?_, fun _ h => (by cases h), .inl rfl⟩
  intro value hvalue name hname
  obtain rfl := List.mem_singleton.mp hvalue
  cases hname

theorem unescaped_comparing (first second : String) : (comparing first second).Unescaped id := by
  intro row hrow
  obtain ⟨column, value, -, rfl⟩ := comparing_rows hrow
  have hrowKind : isRow (comparison column value).kind = true := rfl
  refine ⟨fun _ _ h => ?_, fun h => ?_, fun h => ?_⟩
  · have hname : "equals".toList = "is in last".toList := Json.str.inj h
    exact absurd hname (by decide)
  · rw [hrowKind] at h
    cases h
  · rw [hrowKind] at h
    cases h

end Dqx.LowCode
