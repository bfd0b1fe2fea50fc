import Dqx.Lib.SqlCondition
import Dqx.LowCode.Compile

/-! How the templates of operators and aggregates read, whatever their sides and operands are. -/

namespace Dqx.LowCode

open Lib.Sql

def tokens (q : Sql) : List Token :=
  q.flatMap fun piece => lex piece.text

theorem tokens_append (a b : Sql) : tokens (a ++ b) = tokens a ++ tokens b :=
  List.flatMap_append

theorem tokens_cons_sql (text : String) (q : Sql) :
    tokens (sql text :: q) = lex text.toList ++ tokens q := rfl

/-- Where an operand may stand. -/
def begins : Phase → Bool
  | .condition | .operand | .argument => true
  | _ => false

/-- SQL that reads as one operand. -/
def IsOperand (q : Sql) : Prop :=
  ∀ phase, begins phase = true → Inner ⟨phase, []⟩ ⟨.operator, []⟩ (tokens q)

/-- A token that is an operand by itself. -/
def isSimple : Lexeme → Bool
  | .name | .string | .literal | .keyword .null => true
  | _ => false

theorem inner_simple {phase : Phase} {token : Token} (hphase : begins phase = true)
    (h : isSimple (.of token) = true) : Inner ⟨phase, []⟩ ⟨.operator, []⟩ [token] := by
  have hnext : ∀ lexeme, isSimple lexeme = true →
      next ⟨phase, []⟩ lexeme = some ⟨.operator, []⟩ ∧ combines [] lexeme = false := by
    intro lexeme hsimple
    unfold isSimple at hsimple
    split at hsimple
    case h_5 => cases hsimple
    all_goals
      refine ⟨?_, rfl⟩
      cases phase <;> first | rfl | cases hphase
  obtain ⟨hoperator, hinside⟩ := hnext _ h
  refine read_cons_eq_some.mpr ⟨_, [], hoperator, rfl, ?_⟩
  rw [mark_of_not_combines hinside]
  rfl

theorem next_of_operand {stack : List Open} {lexeme : Lexeme} {state : State}
    (h : next ⟨.operand, stack⟩ lexeme = some state) {phase : Phase} (hphase : begins phase = true) :
    next ⟨phase, stack⟩ lexeme = some state := by
  have hbegin : beginOperand stack lexeme = some state := h
  cases phase <;> first | exact h | cases hphase
  case condition =>
    have hnot : lexeme ≠ .keyword .not := by
      rintro rfl
      cases hbegin
    simpa [next, hnot] using hbegin
  case argument =>
    change beginArgument stack lexeme = some state
    unfold beginArgument
    split <;> first | exact hbegin | cases hbegin

/-- What reads as an operand behind an operator reads as one wherever an operand may stand. -/
theorem isOperand_of_inner {q : Sql} (h : Inner ⟨.operand, []⟩ ⟨.operator, []⟩ (tokens q)) :
    IsOperand q := by
  intro phase hphase
  unfold Lib.Sql.Inner at h ⊢
  cases htokens : tokens q with
  | nil =>
    rw [htokens] at h
    cases h
  | cons token rest =>
    rw [htokens] at h
    obtain ⟨state, marks, hnext, hrest, hmarks⟩ := read_cons_eq_some.mp h
    exact read_cons_eq_some.mpr ⟨state, marks, next_of_operand hnext hphase, hrest, hmarks⟩

/-- What reading an operand of a kind does. -/
def operandStep (kind : OperandKind) (state : State) : Option State :=
  match kind with
  | .interval => if state.phase = .interval then some ⟨.operator, state.stack⟩ else none
  | .validity => if state.phase = .type then some ⟨.typed, state.stack⟩ else none
  | .list =>
    if state.phase = .operand ∧ state.stack.head? = some .list then some ⟨.operator, state.stack⟩
    else none
  | _ => if begins state.phase then some ⟨.operator, state.stack⟩ else none

/-- What reading a part of a template does, if its left side and its operands read as they should. -/
def partStep (kind : OperandKind) (state : State) : Part → Option State
  | .sql text => (read state (lex text.toList)).map Prod.fst
  | .left => if begins state.phase then some ⟨.operator, state.stack⟩ else none
  | .operand _ => operandStep kind state

/-- SQL that reads as an operand of a kind. -/
def Serves (kind : OperandKind) (q : Sql) : Prop :=
  match kind with
  | .interval => Inner ⟨.interval, []⟩ ⟨.operator, []⟩ (tokens q)
  | .validity => Inner ⟨.type, []⟩ ⟨.typed, []⟩ (tokens q)
  | .list => Inner ⟨.operand, [.list]⟩ ⟨.operator, [.list]⟩ (tokens q)
  | _ => IsOperand q

theorem IsOperand.inner {q : Sql} (h : IsOperand q) {state : State}
    (hbegins : begins state.phase = true) : Inner state ⟨.operator, state.stack⟩ (tokens q) :=
  (h state.phase hbegins).over state.stack

theorem inner_left {kind : OperandKind} {q : Sql} (h : IsOperand q) {state last : State}
    (hstep : partStep kind state .left = some last) : Inner state last (tokens q) := by
  simp only [partStep] at hstep
  split at hstep
  · obtain rfl := Option.some.inj hstep
    exact h.inner (by assumption)
  · cases hstep

theorem inner_operand {kind : OperandKind} {q : Sql} (h : Serves kind q) {state last : State}
    (hstep : operandStep kind state = some last) : Inner state last (tokens q) := by
  obtain ⟨phase, stack⟩ := state
  cases kind
  case interval =>
    simp only [operandStep, Option.ite_none_right_eq_some, Option.some.injEq] at hstep
    obtain ⟨rfl, rfl⟩ := hstep
    exact Inner.over h stack
  case validity =>
    simp only [operandStep, Option.ite_none_right_eq_some, Option.some.injEq] at hstep
    obtain ⟨rfl, rfl⟩ := hstep
    exact Inner.over h stack
  case list =>
    simp only [operandStep, Option.ite_none_right_eq_some, Option.some.injEq] at hstep
    obtain ⟨⟨rfl, hlist⟩, rfl⟩ := hstep
    cases stack with
    | nil => cases hlist
    | cons top stack =>
      obtain rfl : top = .list := Option.some.inj hlist
      exact Inner.over h stack
  all_goals exact @inner_left .value _ h _ _ hstep

/-- A template reads as its parts do, and only its own text combines conditions. -/
theorem read_fill {kind : OperandKind} {left : Sql} {operands : List Sql} (hleft : IsOperand left)
    {parts : List Part}
    (hoperands : ∀ index, Part.operand index ∈ parts → Serves kind (operands.getD index []))
    {state last : State} (h : parts.foldlM (partStep kind) state = some last) :
    ∃ marks, read state (tokens (fill left operands parts)) = some (last, marks) ∧
      ∀ mark ∈ marks, ∀ k, mark.keyword = some k → ∃ text, Part.sql text ∈ parts ∧
        ∃ token ∈ lex text.toList, Lexeme.of token = .keyword k := by
  induction parts generalizing state with
  | nil =>
    obtain rfl := Option.some.inj h
    exact ⟨[], rfl, by simp⟩
  | cons part parts ih =>
    rw [List.foldlM_cons] at h
    obtain ⟨middle, hstep, hrest⟩ := Option.bind_eq_some_iff.mp h
    obtain ⟨marks, hread, hmarks⟩ := ih
      (fun index hmem => hoperands index (List.mem_cons_of_mem _ hmem)) hrest
    have hlater : ∀ mark ∈ marks, ∀ k, mark.keyword = some k → ∃ text, Part.sql text ∈ part :: parts ∧
        ∃ token ∈ lex text.toList, Lexeme.of token = .keyword k := by
      intro mark hmem k hk
      obtain ⟨text, htext, htoken⟩ := hmarks mark hmem k hk
      exact ⟨text, List.mem_cons_of_mem _ htext, htoken⟩
    have hinner : ∀ {q : Sql}, Inner state middle (tokens q) →
        ∃ marks', read state (tokens (q ++ fill left operands parts)) = some (last, marks') ∧
          ∀ mark ∈ marks', ∀ k, mark.keyword = some k → ∃ text, Part.sql text ∈ part :: parts ∧
            ∃ token ∈ lex text.toList, Lexeme.of token = .keyword k := by
      intro q hq
      have happend := read_append_some hq hread
      rw [← tokens_append] at happend
      refine ⟨_, happend, ?_⟩
      intro mark hmem k hk
      rcases List.mem_append.mp hmem with hmem | hmem
      · obtain ⟨token, -, rfl⟩ := List.mem_map.mp hmem
        cases hk
      · exact hlater mark hmem k hk
    cases part with
    | left => exact hinner (inner_left hleft hstep)
    | operand index => exact hinner (inner_operand (hoperands index List.mem_cons_self) hstep)
    | sql text =>
      obtain ⟨⟨_, marks'⟩, hown, rfl⟩ := Option.map_eq_some_iff.mp hstep
      refine ⟨_, read_append_some hown hread, ?_⟩
      intro mark hmem k hk
      rcases List.mem_append.mp hmem with hmem | hmem
      · exact ⟨text, List.mem_cons_self, exists_keyword_of_mem hown hmem hk⟩
      · exact hlater mark hmem k hk

/-- None of the own texts of a template has a token of a kind. -/
def lacks (kind : Lexeme → Bool) (template : List Part) : Bool :=
  template.all fun
    | .sql text => (lex text.toList).all fun token => !kind (.of token)
    | _ => true

theorem not_of_lacks {kind : Lexeme → Bool} {template : List Part} (h : lacks kind template = true)
    {text : String} (hmem : .sql text ∈ template) {token : Token} (htoken : token ∈ lex text.toList) :
    kind (.of token) = false := by
  have hall := List.all_eq_true.mp h _ hmem
  simpa using List.all_eq_true.mp hall token htoken

def isOr (lexeme : Lexeme) : Bool :=
  lexeme = .keyword .or

def isCombinator (lexeme : Lexeme) : Bool :=
  lexeme = .keyword .and || lexeme = .keyword .or

/-- No operator's own text has an `OR`. -/
theorem Operator.template_reads (op : Operator) :
    op.template.foldlM (partStep op.operandKind) ⟨.condition, []⟩ = some ⟨.operator, []⟩ ∧
      lacks isOr op.template = true := by
  cases op <;> simp only [Operator.template, List.foldlM_cons, List.foldlM_nil, partStep, lacks,
      List.all_cons, List.all_nil, String.toList_append, -String.reduceToList]
    <;> repeat rw [String.toList_ofList]
  all_goals decide +kernel

theorem Aggregate.template_reads (aggregate : Aggregate) :
    aggregate.template.foldlM (partStep .value) ⟨.operand, []⟩ = some ⟨.operator, []⟩ ∧
      lacks isCombinator aggregate.template = true := by
  cases aggregate <;> simp only [Aggregate.template, List.foldlM_cons, List.foldlM_nil, partStep,
      lacks, List.all_cons, List.all_nil, -String.reduceToList]
    <;> repeat rw [String.toList_ofList]
  all_goals decide +kernel

/-- An aggregate of a column is one operand. -/
theorem isOperand_aggregate {aggregate : Aggregate} {column : Sql} {operands : List Sql}
    (hcolumn : IsOperand column)
    (hoperands : ∀ index, Part.operand index ∈ aggregate.template →
      IsOperand (operands.getD index [])) :
    IsOperand (fill column operands aggregate.template) := by
  obtain ⟨marks, hread, hmarks⟩ := @read_fill .value _ _ hcolumn _ hoperands _ _
    aggregate.template_reads.1
  apply isOperand_of_inner
  apply inner_of_marks hread
  intro mark hmem
  cases hk : mark.keyword with
  | none => rfl
  | some k =>
    obtain ⟨text, htext, token, htoken, hkeyword⟩ := hmarks mark hmem k hk
    have hnot := not_of_lacks aggregate.template_reads.2 htext htoken
    rw [hkeyword] at hnot
    cases mark with
    | and =>
      obtain rfl := Option.some.inj hk
      cases hnot
    | or =>
      obtain rfl := Option.some.inj hk
      cases hnot
    | token => cases hk

/-- SQL that reads as a condition without an `OR` of its own. -/
def Conditional (q : Sql) : Prop :=
  ∃ marks, read ⟨.condition, []⟩ (tokens q) = some (⟨.operator, []⟩, marks) ∧ Mark.or ∉ marks

theorem conditional_fill {op : Operator} {left : Sql} {operands : List Sql} (hleft : IsOperand left)
    (hoperands : ∀ index, Part.operand index ∈ op.template →
      Serves op.operandKind (operands.getD index [])) :
    Conditional (fill left operands op.template) := by
  obtain ⟨marks, hread, hmarks⟩ := read_fill hleft hoperands op.template_reads.1
  refine ⟨marks, hread, fun hor => ?_⟩
  obtain ⟨text, htext, token, htoken, hkeyword⟩ := hmarks _ hor .or rfl
  have hnot := not_of_lacks op.template_reads.2 htext htoken
  rw [hkeyword] at hnot
  cases hnot

/-- SQL that no parser takes, whether a combinator follows it or nothing. -/
def Broken (q : Sql) : Prop :=
  read ⟨.condition, []⟩ (tokens q) = none ∨
    ∃ marks, read ⟨.condition, []⟩ (tokens q) = some (⟨.operand, []⟩, marks)

/-- A parenthesis closes a list before its first element. -/
theorem broken_emptyList {op : Operator} {left : Sql} (hleft : IsOperand left)
    (hop : op = .isIn ∨ op = .isNotIn) : Broken (fill left [[]] op.template) := by
  have hread := hleft .condition rfl
  have hlist : ∀ text : String, read ⟨.operator, []⟩ (tokens [sql text, sql ")"]) = none →
      read ⟨.condition, []⟩ (tokens (left ++ [sql text, sql ")"])) = none := by
    intro text h
    rw [tokens_append, read_append hread, h]
    rfl
  rcases hop with rfl | rfl
  · exact .inl (hlist " IN (" rfl)
  · exact .inl (hlist " NOT IN (" rfl)

/-- A comparison ends in its operator when it has no right side. -/
theorem broken_comparison {op : Operator} {left : Sql} (hleft : IsOperand left)
    (hop : op.isComparison = true) : Broken (fill left [[]] op.template) := by
  have hread := hleft .condition rfl
  have hcompare : ∀ text : String, Inner ⟨.operator, []⟩ ⟨.operand, []⟩ (tokens [sql text]) →
      ∃ marks, read ⟨.condition, []⟩ (tokens (left ++ [sql text])) =
        some (⟨.operand, []⟩, marks) := by
    intro text h
    rw [tokens_append]
    exact ⟨_, read_append_some hread h⟩
  cases op <;> first | exact .inr (hcompare _ rfl) | cases hop

end Dqx.LowCode
