import Mathlib
import Dqx.LowCode.Strings
import Dqx.LowCode.Templates

/-! How the SQL of a condition row reads: which rows compile to a condition, and which of them to one
that a parser takes. -/

namespace Dqx.LowCode

open Lib.Sql

/-- A text that reads as one string between its quotes. -/
def OneString (text : Text) : Prop :=
  ∃ content, scan .start (Lib.Sql.quoted text) = (.closed '\'' content, [])

theorem OneString.sound {text : Text} (h : OneString text) : (Piece.quoted text).Sound where
  nonempty := by simp [Piece.text, Lib.Sql.quoted]
  whole := by
    obtain ⟨content, hscan⟩ := h
    rw [Piece.text, ends_of_scan hscan]
    rfl
  free h := by cases h
  name h := by cases h

theorem of_number {text : Text} (h : isNumber text = true) : Lexeme.of (.word text) = .literal := by
  have hkeyword : Keyword.ofText text = none := by
    cases hfound : Keyword.ofText text with
    | none => rfl
    | some keyword =>
      have hmem := Lib.mem_of_lookup hfound
      have hheads : ∀ entry ∈ keywords, (entry.1.head?.any Char.isDigit) = false := by
        decide
      have hhead := hheads _ hmem
      rw [isNumber, Bool.and_eq_true] at h
      cases text with
      | nil => simp at h
      | cons c text =>
        have hdigit : c.isDigit = true := by simpa using h.1
        have hupper : c.toUpper = c := by
          have hlower : ¬ ('a'.val ≤ c.val ∧ c.val ≤ 'z'.val) := by
            intro hlower
            simp only [Char.isDigit, Bool.and_eq_true, decide_eq_true_eq] at hdigit
            exact absurd (UInt32.le_trans hlower.1 hdigit.2) (by decide)
          rw [Char.toUpper, dif_neg hlower]
        simp [hupper, hdigit] at hhead
  have hliteral : isLiteral (.word text) = true := by simp [isLiteral, h]
  simp [Lexeme.of, hkeyword, hliteral]

theorem isOperand_token {piece : Piece} {token : Token} (h : lex piece.text = [token])
    (hsimple : isSimple (.of token) = true) : IsOperand [piece] := by
  intro phase hphase
  have htokens : tokens [piece] = [token] := by simp [tokens, h]
  rw [htokens]
  exact inner_simple hphase hsimple

theorem isOperand_number (n : Python.Number) : IsOperand [.word n.text] := by
  intro phase hphase
  obtain ⟨hnumber, hscan⟩ := n.scan_text
  have hword : Lexeme.of (.word n.magnitude) = .literal := of_number hnumber
  have htokens : tokens [.word n.text] =
      (if n.negative then [.symbol ['-']] else []) ++ [.word n.magnitude] := by
    simp only [tokens, List.flatMap_cons, List.flatMap_nil, List.append_nil, Piece.text]
    exact lex_of_scan hscan
  have hoperand : ∀ phase, begins phase = true →
      Inner ⟨phase, []⟩ ⟨.operator, []⟩ [.word n.magnitude] := fun phase hphase =>
    inner_simple hphase (by rw [hword]; rfl)
  rw [htokens]
  split
  · have hminus : Inner ⟨phase, []⟩ ⟨.operand, []⟩ [.symbol ['-']] := by
      cases phase <;> first | rfl | cases hphase
    exact hminus.append (hoperand .operand rfl)
  · exact hoperand phase hphase

theorem isOperand_slot {name : Text} (h : name.all isWordChar = true) : IsOperand [.slot name] :=
  isOperand_token (lex_of_scan (scan_slot h)) rfl

/-- The parts of a path read as one operand, also behind the parts before them. -/
theorem inner_path {parts : List Text} (hne : parts ≠ [])
    (hvalid : ∀ part ∈ parts, Python.validIdentifier part = true) {phase : Phase}
    (hphase : begins phase = true ∨ phase = .dotted) :
    Inner ⟨phase, []⟩ ⟨.operator, []⟩
      (tokens (join "." (parts.map fun part => [.ident (Python.unquoted part)]))) := by
  induction parts generalizing phase with
  | nil => exact absurd rfl hne
  | cons part parts ih =>
    have hpart := hvalid part List.mem_cons_self
    have htokens : tokens [.ident (Python.unquoted part)] = [.quotedName part] := by
      simp only [tokens, List.flatMap_cons, List.flatMap_nil, List.append_nil]
      exact lex_of_scan (scan_ident hpart)
    have hfirst : Inner ⟨phase, []⟩ ⟨.operator, []⟩ (tokens [.ident (Python.unquoted part)]) := by
      rw [htokens]
      rcases hphase with hphase | rfl
      · exact inner_simple hphase rfl
      · rfl
    cases parts with
    | nil => simpa using hfirst
    | cons next parts =>
      have hrest := ih (by simp) (fun part hmem => hvalid part (List.mem_cons_of_mem _ hmem))
        (.inr rfl)
      have hdot : Inner ⟨.operator, []⟩ ⟨.dotted, []⟩ (lex ".".toList) := by exact rfl
      rw [List.map_cons, List.map_cons, join_cons_cons, tokens_append, tokens_cons_sql]
      exact hfirst.append (hdot.append hrest)

theorem isOperand_ref {repr : Text → Text} {column : Json Python.Number} {qualify : Bool} {q : Sql}
    (declared : DeclaredColumn column) (h : ref (pythonHost repr) column qualify = some q) :
    IsOperand q := by
  obtain ⟨name, rfl, hname⟩ := declared
  rcases ref_cases h with ⟨path, hpath, -, hquoted⟩ | ⟨slot, hdot, hslot, rfl⟩
  · obtain ⟨rfl, hvalid⟩ := quoteIdentPath_eq hquoted
    intro phase hphase
    exact inner_path (List.splitOn_ne_nil '.' path) hvalid (.inl hphase)
  · obtain rfl : name = slot := Option.some.inj hslot
    have hplain : name.all isWordChar = true := by
      rcases hname with hmem | hplain
      · have hcontains : name.contains '.' = false := Option.some.inj hdot
        simp [hmem] at hcontains
      · exact hplain
    cases qualify with
    | false => exact isOperand_slot hplain
    | true =>
      intro phase hphase
      have hview := isOperand_slot (show "input_view".toList.all isWordChar = true by decide)
        phase hphase
      have hdot : Inner ⟨.operator, []⟩ ⟨.dotted, []⟩ (lex ".".toList) := by exact rfl
      have hslot : Inner ⟨.dotted, []⟩ ⟨.operator, []⟩ (tokens [.slot name]) := by
        have htokens : tokens [.slot name] = [.placeholder name] := by
          simp only [tokens, List.flatMap_cons, List.flatMap_nil, List.append_nil]
          exact lex_of_scan (scan_slot hplain)
        rw [htokens]
        rfl
      change Inner _ _ (tokens ([.slot "input_view".toList] ++ sql "." :: [.slot name]))
      rw [tokens_append, tokens_cons_sql]
      exact hview.append (hdot.append hslot)

section

variable {repr : Text → Text} {qualify : Bool}

theorem isOperand_word {text : Text} (h : (match lex text with
    | [token] => isSimple (.of token)
    | _ => false) = true) : IsOperand [.word text] := by
  split at h
  · rename_i token hlex
    exact isOperand_token hlex h
  · cases h

theorem isOperand_quote {value : Json Python.Number} {q : Sql} (strings : ValueIs repr OneString value)
    (h : quote (pythonHost repr) value = some q) : IsOperand q := by
  have hquoted : ∀ text, OneString text → IsOperand [.quoted text] := by
    rintro text ⟨content, hscan⟩
    exact isOperand_token (lex_of_scan hscan) rfl
  cases value with
  | null =>
    obtain rfl := Option.some.inj h
    exact isOperand_word rfl
  | bool b =>
    obtain rfl := Option.some.inj h
    cases b <;> exact isOperand_word rfl
  | num n =>
    obtain rfl := Option.some.inj h
    exact isOperand_number n
  | str s =>
    obtain rfl := Option.some.inj h
    exact hquoted s (strings s rfl)
  | list items =>
    obtain rfl := Option.some.inj h
    exact hquoted _ (strings _ rfl)
  | obj entries =>
    obtain rfl := Option.some.inj h
    exact hquoted _ (strings _ rfl)

theorem isOperand_valueSql {value : Json Python.Number} {q : Sql}
    (declared : ∀ name, columnRefName value = some name → DeclaredName name)
    (strings : ∀ literal ∈ literalsOf [value], ValueIs repr OneString literal)
    (h : valueSql (pythonHost repr) value qualify = some q) : IsOperand q := by
  unfold valueSql at h
  split at h
  · rename_i name hname
    exact isOperand_ref ⟨name, rfl, declared name hname⟩ h
  · rename_i hname
    exact isOperand_quote (strings value (by simp [literalsOf, hname])) h

/-- The elements of a list read as operands with commas between them. -/
theorem inner_quoteList {values : List (Json Python.Number)} {q : Sql} (hne : values ≠ [])
    (declared : ∀ value ∈ values, ∀ name, columnRefName value = some name → DeclaredName name)
    (strings : ∀ literal ∈ literalsOf values, ValueIs repr OneString literal)
    (h : quoteList (pythonHost repr) values qualify = some q) :
    Inner ⟨.operand, [.list]⟩ ⟨.operator, [.list]⟩ (tokens q) := by
  simp only [quoteList, bind, pure, Option.bind_eq_some_iff, Option.some.injEq] at h
  obtain ⟨parts, hparts, rfl⟩ := h
  induction values generalizing parts with
  | nil => exact absurd rfl hne
  | cons value values ih =>
    obtain ⟨part, rest, hpart, hrest, rfl⟩ := Lib.mapM_cons_eq_some.mp hparts
    have hsplit : literalsOf (value :: values) = literalsOf [value] ++ literalsOf values :=
      literalsOf_append [value] values
    rw [hsplit] at strings
    have hvalue : IsOperand part := isOperand_valueSql (declared value List.mem_cons_self)
      (fun literal hmem => strings literal (List.mem_append_left _ hmem)) hpart
    have hfirst : Inner ⟨.operand, [.list]⟩ ⟨.operator, [.list]⟩ (tokens part) := hvalue.inner rfl
    cases values with
    | nil =>
      obtain rfl : rest = [] := by simpa using hrest.symm
      simpa using hfirst
    | cons next values =>
      have hothers := ih (by simp) (fun value hmem => declared value (List.mem_cons_of_mem _ hmem))
        (fun literal hmem => strings literal (List.mem_append_right _ hmem)) rest hrest
      obtain ⟨second, others, -, -, rfl⟩ := Lib.mapM_cons_eq_some.mp hrest
      have hcomma : Inner ⟨.operator, [.list]⟩ ⟨.operand, [.list]⟩ (lex ", ".toList) := by
        exact rfl
      rw [join_cons_cons, tokens_append, tokens_cons_sql]
      exact hfirst.append (hcomma.append hothers)

theorem serves_validity {value : Json Python.Number} {text : Text}
    (h : (pythonHost repr).validityType value = some (some text)) :
    Serves .validity [.sql text] := by
  have hall : ((validitySqlType.map fun entry => (entry.1.toList, entry.2.toList)).all fun entry =>
      decide (Inner ⟨.type, []⟩ ⟨.typed, []⟩ (lex entry.2))) = true := by decide +kernel
  have hmem := Lib.mem_of_lookup (Option.some.inj h)
  have hinner := of_decide_eq_true (List.all_eq_true.mp hall _ hmem)
  change Inner _ _ (tokens [.sql text])
  simpa [tokens, Piece.text] using hinner

/-- The operands of a row read as operands of their kind, but for those of an empty list. -/
theorem serves_operands {kind : OperandKind} {value : Json Python.Number} {os : List Sql}
    (declared : ∀ v ∈ value :: Python.items value, ∀ name, columnRefName v = some name →
      DeclaredName name)
    (strings : ∀ literal ∈ kind.literals value, ValueIs repr OneString literal)
    (interval : kind = .interval → Plain (intervalText repr value))
    (nonempty : kind = .list → Python.items value ≠ [])
    (h : operands (pythonHost repr) kind value qualify = some (some os)) :
    ∀ operand ∈ os, Serves kind operand := by
  cases kind <;> simp only [operands, bind, pure, Option.map_eq_some_iff,
    Option.bind_eq_some_iff, Option.some.injEq] at h
  case unused =>
    subst h
    simp
  case value =>
    obtain ⟨operand, hoperand, rfl⟩ := h
    have hserves : Serves .value operand :=
      isOperand_valueSql (declared value List.mem_cons_self) strings hoperand
    simpa using hserves
  case literal =>
    obtain ⟨operand, hoperand, rfl⟩ := h
    have hserves : Serves .literal operand :=
      isOperand_quote (strings value List.mem_cons_self) hoperand
    simpa using hserves
  case pair =>
    obtain ⟨low, hlow, high, hhigh, rfl⟩ := h
    have hbounds : ∀ bound, bound = .null ∨ bound ∈ Python.items value →
        ∀ name, columnRefName bound = some name → DeclaredName name := by
      rintro bound (rfl | hmem) name hname
      · cases hname
      · exact declared bound (List.mem_cons_of_mem _ hmem) name hname
    have hmem := bounds_mem value
    have hsplit : OperandKind.pair.literals value =
        literalsOf [(Python.bounds value).1] ++ literalsOf [(Python.bounds value).2] :=
      literalsOf_append [(Python.bounds value).1] [(Python.bounds value).2]
    rw [hsplit] at strings
    have hlow := isOperand_valueSql (hbounds _ hmem.1)
      (fun literal hmem => strings literal (List.mem_append_left _ hmem)) hlow
    have hhigh := isOperand_valueSql (hbounds _ hmem.2)
      (fun literal hmem => strings literal (List.mem_append_right _ hmem)) hhigh
    intro operand hmem
    rcases List.mem_cons.mp hmem with rfl | hmem
    · exact hlow
    · obtain rfl := List.mem_singleton.mp hmem
      exact hhigh
  case list =>
    obtain ⟨items, hitems, list, hlist, rfl⟩ := h
    obtain rfl : Python.items value = items := Option.some.inj hitems
    have hserves : Serves .list list := inner_quoteList (nonempty rfl)
      (fun v hmem => declared v (List.mem_cons_of_mem _ hmem)) strings hlist
    simpa using hserves
  case interval =>
    obtain ⟨number, hnumber, unit, hunit, rfl⟩ := h
    obtain rfl := Option.some.inj hnumber
    obtain rfl := Option.some.inj hunit
    have hplain := interval rfl
    have htokens : tokens [.interval (intervalText repr value)] =
        [.string '\'' (double '\'' (intervalText repr value))] := by
      simp only [tokens, List.flatMap_cons, List.flatMap_nil, List.append_nil]
      rw [interval_text hplain, lex_quoted hplain.2]
    have hserves : Serves .interval [.interval (intervalText repr value)] := by
      change Inner _ _ (tokens _)
      rw [htokens]
      rfl
    intro operand hmem
    obtain rfl := List.mem_singleton.mp hmem
    exact hserves
  case validity =>
    obtain ⟨type, htype, text, rfl, rfl⟩ := h
    simpa using serves_validity htype

theorem own_of_aggregate {value : Json Python.Number} {aggregate : Aggregate}
    (h : (pythonHost repr).aggregate value = some (.own aggregate)) :
    ∃ name, value = .str name ∧ Aggregate.ofName name = some aggregate := by
  cases value with
  | str name =>
    refine ⟨name, rfl, ?_⟩
    cases hfound : Aggregate.ofName name with
    | none => simp [pythonHost, Python.host, Python.aggregate, hfound] at h
    | some found => simpa [pythonHost, Python.host, Python.aggregate, hfound] using h
  | _ => simp [pythonHost, Python.host, Python.aggregate] at h

theorem isOperand_aggregateParam {param : Json Python.Number} {q : Sql} (number : NumberOrNull param)
    (h : aggregateParam (pythonHost repr) param = some q) : IsOperand q := by
  rcases number with rfl | ⟨n, rfl⟩
  · obtain rfl := Option.some.inj h
    exact isOperand_word rfl
  · obtain rfl := Option.some.inj h
    exact isOperand_number n

/-- An aggregate that is present reads as an operand. -/
theorem isOperand_aggExpr {spec : AggregateSpec Python.Number} {q : Sql}
    (declared : (pythonHost repr).truthy spec.columnRef = true → DeclaredColumn spec.columnRef)
    (number : spec.readsParam = true → NumberOrNull spec.param)
    (h : aggExpr (pythonHost repr) spec qualify = some (q, true)) : IsOperand q := by
  rcases aggExpr_cases (fun _ _ => rfl) h with ⟨-, hpresent⟩ | ⟨aggregate, column, param, -,
    hentry, hcolumn, href, hparam, rfl, -⟩
  · cases hpresent
  · obtain ⟨name, hname, hfound⟩ := own_of_aggregate hentry
    apply isOperand_aggregate (isOperand_ref (declared hcolumn) href)
    intro index hmem
    have hpercentile : aggregate = .percentile ∨ aggregate = .percentileApprox := by
      cases aggregate <;> simp_all [Aggregate.template]
    have hreads : spec.readsParam = true := by
      rcases hpercentile with rfl | rfl <;> simp [AggregateSpec.readsParam, hname, hfound]
    have hindex : index = 0 := by
      rcases hpercentile with rfl | rfl <;> simpa [Aggregate.template] using hmem
    have haggregate : aggregateParam (pythonHost repr) spec.param = some param := by
      rcases hpercentile with rfl | rfl <;> exact hparam
    rw [hindex]
    exact isOperand_aggregateParam (number hreads) haggregate

variable (repr)

/-- Whether a type to validate against is known. -/
def OperandKind.known (kind : OperandKind) (value : Json Python.Number) : Bool :=
  match kind with
  | .validity => (textOf validitySqlType (Python.str (.ofRepr repr) value)).isSome
  | _ => true

def Operator.aggregates (op : Operator) : Bool :=
  op.isComparison || op = .isNull || op = .isNotNull || op = .between

/-- Whether a row compiles to a condition. -/
def Row.compiles (row : Row Python.Number) : Bool :=
  match operatorOf row.operator with
  | none => false
  | some op =>
    if isRow row.kind then
      (pythonHost repr).truthy row.columnRef && op.operandKind.known repr row.value
    else row.spec.present repr && op.aggregates

/-- Whether the right side of an aggregated comparison is there. -/
def rightPresent (value : Json Python.Number) : Bool :=
  match value with
  | .obj entries =>
    (Json.get entries "aggregate").isNone || (AggregateSpec.ofEntries entries).present repr
  | _ => true

/-- Whether a row has the operands of its operator. -/
def Row.filled (row : Row Python.Number) : Bool :=
  match operatorOf row.operator with
  | none => true
  | some op =>
    if isRow row.kind then
      match op.operandKind with
      | .list => !(Python.items row.value).isEmpty
      | _ => true
    else !op.isComparison || rightPresent repr row.value

variable {repr}

/-- What a row compiles to. -/
inductive Compiled (compiles filled : Bool) (q : Sql) : Prop
  | nothing (empty : q = []) (h : compiles = false)
  | condition (conditional : Conditional q) (h : compiles = true) (hfilled : filled = true)
  | broken (broken : Broken q) (h : compiles = true) (hfilled : filled = false)

theorem rowSql_eq {left : Sql} {operator value : Json Python.Number} :
    rowSql (pythonHost repr) left operator value qualify =
      match operatorOf operator with
      | some op => (operands (pythonHost repr) op.operandKind value qualify).map fun
        | some operands => fill left operands op.template
        | none => []
      | none => some [] := by
  cases operator with
  | str name =>
    unfold rowSql operatorOf
    cases Operator.ofName name <;> rfl
  | _ => rfl

theorem aggregatedSql_eq {left : Sql} {operator value : Json Python.Number} :
    aggregatedSql (pythonHost repr) left operator value qualify =
      match operatorOf operator with
      | some op =>
        if op.isComparison then
          (aggregatedRight (pythonHost repr) value qualify).map fun right =>
            fill left [right] op.template
        else
          match op with
          | .isNull | .isNotNull => some (fill left [] op.template)
          | .between => do
            let low ← quote (pythonHost repr) ((pythonHost repr).bounds value).1
            let high ← quote (pythonHost repr) ((pythonHost repr).bounds value).2
            return fill left [low, high] op.template
          | _ => some []
      | none => some [] := by
  cases operator with
  | str name =>
    unfold aggregatedSql operatorOf
    cases Operator.ofName name <;> rfl
  | _ => rfl

theorem known_of_operands {kind : OperandKind} {value : Json Python.Number}
    {os : Option (List Sql)} (h : operands (pythonHost repr) kind value qualify = some os) :
    kind.known repr value = os.isSome := by
  cases kind <;> simp only [operands, bind, pure, Option.map_eq_some_iff,
    Option.bind_eq_some_iff, Option.some.injEq] at h
  case validity =>
    obtain ⟨type, htype, rfl⟩ := h
    obtain rfl := Option.some.inj htype
    simp [OperandKind.known]
  case unused => simp [OperandKind.known, ← h]
  case value => obtain ⟨_, -, rfl⟩ := h; rfl
  case literal => obtain ⟨_, -, rfl⟩ := h; rfl
  case pair => obtain ⟨_, -, _, -, rfl⟩ := h; rfl
  case list => obtain ⟨_, -, _, -, rfl⟩ := h; rfl
  case interval => obtain ⟨_, -, _, -, rfl⟩ := h; rfl

theorem serves_getD {op : Operator} {os : List Sql} (hlength : os.length = op.operandKind.arity)
    (h : ∀ operand ∈ os, Serves op.operandKind operand) (index : Nat)
    (hmem : Part.operand index ∈ op.template) : Serves op.operandKind (os.getD index []) := by
  have hindex : index < os.length := by
    rw [hlength]
    exact (op.operand_mem index).mp hmem
  have hget : os.getD index [] = os[index] := by simp [hindex]
  rw [hget]
  exact h _ (List.getElem_mem hindex)

theorem isInLast_of_interval {operator : Json Python.Number} {op : Operator}
    (h : operatorOf operator = some op) (hkind : op.operandKind = .interval) :
    operator = .str "is in last".toList := by
  cases operator with
  | str name =>
    have hlast : op = .isInLast := by
      cases op <;> first | rfl | cases hkind
    subst hlast
    rw [name_of_isInLast h]
  | _ => cases h

theorem op_of_list {op : Operator} (h : op.operandKind = .list) : op = .isIn ∨ op = .isNotIn := by
  cases op <;> first | exact .inl rfl | exact .inr rfl | cases h

theorem compiled_rowSql {left : Sql} {row : Row Python.Number} {q : Sql} (hleft : IsOperand left)
    (hkind : isRow row.kind = true) (htruthy : (pythonHost repr).truthy row.columnRef = true)
    (declared : row.Declared repr) (unescaped : row.Unescaped repr)
    (strings : ∀ literal ∈ row.literals repr, ValueIs repr OneString literal)
    (h : rowSql (pythonHost repr) left row.operator row.value qualify = some q) :
    Compiled (row.compiles repr) (row.filled repr) q := by
  rw [rowSql_eq] at h
  cases hop : operatorOf row.operator with
  | none =>
    rw [hop] at h
    exact .nothing (Option.some.inj h).symm (by simp [Row.compiles, hop])
  | some op =>
    rw [hop] at h
    obtain ⟨os, hos, rfl⟩ := Option.map_eq_some_iff.mp h
    have hknown := known_of_operands hos
    have hcompiles : row.compiles repr = os.isSome := by
      simp [Row.compiles, hop, hkind, htruthy, hknown]
    have hliterals : row.literals repr = op.operandKind.literals row.value := by
      simp [Row.literals, hop, hkind, htruthy]
    rw [hliterals] at strings
    cases os with
    | none => exact .nothing rfl hcompiles
    | some os =>
      obtain ⟨hlength, -⟩ := @stringsAre_operands _ _ Readable _ _ _ hos
      by_cases hempty : op.operandKind = .list ∧ Python.items row.value = []
      · obtain ⟨hlist, hitems⟩ := hempty
        have hfilled : row.filled repr = false := by
          simp [Row.filled, hop, hkind, hlist, hitems]
        obtain rfl : os = [[]] := by
          rw [hlist] at hos
          have hitems' : (pythonHost repr).items row.value = some [] := congrArg some hitems
          simpa [operands, hitems', quoteList, join] using hos.symm
        exact .broken (broken_emptyList hleft (op_of_list hlist)) hcompiles hfilled
      · have hfilled : row.filled repr = true := by
          simp only [Row.filled, hop, hkind, if_true]
          split
          · rename_i hlist
            simpa using fun hitems => hempty ⟨hlist, hitems⟩
          · rfl
        refine .condition (conditional_fill hleft (serves_getD hlength ?_)) hcompiles hfilled
        exact serves_operands declared.value strings
          (fun hinterval => unescaped.interval hkind htruthy (isInLast_of_interval hop hinterval))
          (fun hlist hitems => hempty ⟨hlist, hitems⟩) hos

theorem serves_value {op : Operator} (h : op.aggregates = true) {q : Sql} (hq : IsOperand q) :
    Serves op.operandKind q := by
  cases op <;> first | exact hq | cases h

/-- The right side of an aggregated comparison is an operand, or nothing. -/
theorem compiled_aggregatedRight {op : Operator} {row : Row Python.Number} {q : Sql}
    (hcomparison : op.isComparison = true) (declared : row.Declared repr)
    (number : ∀ entries, row.value = .obj entries →
      (AggregateSpec.ofEntries entries).readsParam = true →
        NumberOrNull (Json.field entries "aggregate_param"))
    (strings : ∀ literal ∈ aggregatedLiterals op row.value, ValueIs repr OneString literal)
    (h : aggregatedRight (pythonHost repr) row.value qualify = some q) :
    (IsOperand q ∧ rightPresent repr row.value = true) ∨
      (q = [] ∧ rightPresent repr row.value = false) := by
  have hquote : ∀ value, (∀ literal ∈ [value], ValueIs repr OneString literal) →
      quote (pythonHost repr) value = some q → IsOperand q := fun value hstrings hq =>
    isOperand_quote (hstrings value List.mem_cons_self) hq
  cases hvalue : row.value with
  | obj entries =>
    simp only [hvalue, aggregatedRight] at h
    simp only [hvalue, aggregatedLiterals, hcomparison, if_true] at strings
    cases hget : Json.get entries "aggregate" with
    | none =>
      rw [hget] at h strings
      exact .inl ⟨hquote _ strings h, by simp [rightPresent, hget]⟩
    | some aggregate =>
      rw [hget] at h
      obtain ⟨⟨right, present⟩, hright, rfl⟩ := Option.map_eq_some_iff.mp h
      have hpresent := AggregateSpec.present_of_aggExpr hright
      cases present with
      | true =>
        refine .inl ⟨isOperand_aggExpr (declared.spec entries hvalue) (number entries hvalue) hright, ?_⟩
        simp [rightPresent, hget, ← hpresent]
      | false =>
        refine .inr ⟨?_, by simp [rightPresent, hget, ← hpresent]⟩
        rcases aggExpr_cases (fun _ _ => rfl) hright with ⟨hnil, -⟩ | ⟨_, _, _, -, -, -, -, -, -, htrue⟩
        · exact hnil
        · cases htrue
  | _ =>
    simp only [hvalue, aggregatedRight] at h
    simp only [hvalue, aggregatedLiterals, hcomparison, if_true] at strings
    exact .inl ⟨hquote _ strings h, rfl⟩

theorem compiled_aggregatedSql {left : Sql} {row : Row Python.Number} {q : Sql}
    (hleft : IsOperand left) (hkind : isRow row.kind = false)
    (hpresent : row.spec.present repr = true) (declared : row.Declared repr)
    (unescaped : row.Unescaped repr)
    (strings : ∀ literal ∈ row.literals repr, ValueIs repr OneString literal)
    (h : aggregatedSql (pythonHost repr) left row.operator row.value qualify = some q) :
    Compiled (row.compiles repr) (row.filled repr) q := by
  rw [aggregatedSql_eq] at h
  cases hop : operatorOf row.operator with
  | none =>
    rw [hop] at h
    exact .nothing (Option.some.inj h).symm (by simp [Row.compiles, hop])
  | some op =>
    simp only [hop] at h
    have hcompiles : row.compiles repr = op.aggregates := by
      simp [Row.compiles, hop, hkind, hpresent]
    have hliterals : row.literals repr = aggregatedLiterals op row.value := by
      simp [Row.literals, hop, hkind, hpresent]
    rw [hliterals] at strings
    have hserves : ∀ {os : List Sql}, op.aggregates = true → os.length = op.operandKind.arity →
        (∀ operand ∈ os, IsOperand operand) → Conditional (fill left os op.template) := by
      intro os haggregates hlength hos
      apply conditional_fill hleft (serves_getD hlength ?_)
      exact fun operand hmem => serves_value haggregates (hos operand hmem)
    split at h
    · rename_i hcomparison
      obtain ⟨right, hright, rfl⟩ := Option.map_eq_some_iff.mp h
      have haggregates : op.aggregates = true := by simp [Operator.aggregates, hcomparison]
      have hfilled : row.filled repr = rightPresent repr row.value := by
        simp [Row.filled, hop, hkind, hcomparison]
      have harity : op.operandKind.arity = 1 := by
        cases op <;> first | rfl | cases hcomparison
      rcases compiled_aggregatedRight hcomparison declared (unescaped.valueParam hkind) strings hright
        with ⟨hoperand, hpresent⟩ | ⟨rfl, hmissing⟩
      · refine .condition (hserves haggregates harity.symm ?_) (by rw [hcompiles, haggregates])
          (by rw [hfilled, hpresent])
        simpa using hoperand
      · exact .broken (broken_comparison hleft hcomparison) (by rw [hcompiles, haggregates])
          (by rw [hfilled, hmissing])
    · rename_i hcomparison
      have hfilled : row.filled repr = true := by simp [Row.filled, hop, hkind, hcomparison]
      split at h
      · obtain rfl := Option.some.inj h
        exact .condition (hserves rfl rfl (by simp)) (by rw [hcompiles]; rfl) hfilled
      · obtain rfl := Option.some.inj h
        exact .condition (hserves rfl rfl (by simp)) (by rw [hcompiles]; rfl) hfilled
      · simp only [bind, pure, Option.bind_eq_some_iff, Option.some.injEq] at h
        obtain ⟨low, hlow, high, hhigh, rfl⟩ := h
        have hstrings : ValueIs repr OneString (Python.bounds row.value).1 ∧
            ValueIs repr OneString (Python.bounds row.value).2 := by
          simpa [aggregatedLiterals, Operator.isComparison] using strings
        have hoperands := isOperand_quote hstrings.1 hlow
        have hoperands' := isOperand_quote hstrings.2 hhigh
        refine .condition (hserves rfl rfl ?_) (by rw [hcompiles]; rfl) hfilled
        intro operand hmem
        rcases List.mem_cons.mp hmem with rfl | hmem
        · exact hoperands
        · obtain rfl := List.mem_singleton.mp hmem
          exact hoperands'
      · rename_i hnull hnotNull hbetween
        refine .nothing (Option.some.inj h).symm ?_
        rw [hcompiles]
        cases op <;> first | rfl | exact absurd rfl hcomparison | exact (hnull rfl).elim |
          exact (hnotNull rfl).elim | exact (hbetween rfl).elim

theorem compiled_compileRow {row : Row Python.Number} {q : Sql} (declared : row.Declared repr)
    (unescaped : row.Unescaped repr)
    (strings : ∀ literal ∈ row.literals repr, ValueIs repr OneString literal)
    (h : compileRow (pythonHost repr) row qualify = some q) :
    Compiled (row.compiles repr) (row.filled repr) q := by
  unfold compileRow at h
  cases hkind : isRow row.kind with
  | true =>
    simp only [hkind, if_true, bind] at h
    cases htruthy : (pythonHost repr).truthy row.columnRef with
    | false =>
      simp only [htruthy, Bool.not_false, if_true, Option.some.injEq] at h
      refine .nothing h.symm ?_
      unfold Row.compiles
      split <;> simp [hkind, htruthy]
    | true =>
      simp only [htruthy, Bool.not_true, Bool.false_eq_true, if_false,
        Option.bind_eq_some_iff] at h
      obtain ⟨left, hleft, h⟩ := h
      exact compiled_rowSql (isOperand_ref (declared.columnRef htruthy) hleft) hkind htruthy declared
        unescaped strings h
  | false =>
    simp only [hkind, Bool.false_eq_true, if_false, bind, pure, Option.bind_eq_some_iff] at h
    obtain ⟨⟨left, present⟩, hleft, h⟩ := h
    obtain rfl := AggregateSpec.present_of_aggExpr hleft
    cases hpresent : row.spec.present repr with
    | false =>
      rw [hpresent] at h
      refine .nothing (Option.some.inj h).symm ?_
      unfold Row.compiles
      split <;> simp [hkind, hpresent]
    | true =>
      rw [hpresent] at h hleft
      exact compiled_aggregatedSql (isOperand_aggExpr declared.columnRef (unescaped.param hkind) hleft)
        hkind hpresent declared unescaped strings h

end

end Dqx.LowCode
