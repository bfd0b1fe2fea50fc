import Mathlib.Order.BoundedOrder.Lattice
import Dqx.Lib.SqlString

/-! The reading of a SQL condition. A push-down automaton tells which tokens may follow one another and
which `AND`s and `OR`s combine the conditions of the whole; the value of the condition is the
disjunction of the conjunctions between them. -/

namespace Dqx.Lib.Sql

inductive Keyword where
  | and | or | not
  | between | isIn | is | null | like
  | as | distinct | interval
  | case | when | then | else | end
  deriving DecidableEq

def keywords : List (Text × Keyword) :=
  [(['A', 'N', 'D'], .and), (['O', 'R'], .or), (['N', 'O', 'T'], .not),
    (['B', 'E', 'T', 'W', 'E', 'E', 'N'], .between), (['I', 'N'], .isIn), (['I', 'S'], .is),
    (['N', 'U', 'L', 'L'], .null), (['L', 'I', 'K', 'E'], .like),
    (['R', 'L', 'I', 'K', 'E'], .like), (['A', 'S'], .as),
    (['D', 'I', 'S', 'T', 'I', 'N', 'C', 'T'], .distinct),
    (['I', 'N', 'T', 'E', 'R', 'V', 'A', 'L'], .interval), (['C', 'A', 'S', 'E'], .case),
    (['W', 'H', 'E', 'N'], .when), (['T', 'H', 'E', 'N'], .then), (['E', 'L', 'S', 'E'], .else),
    (['E', 'N', 'D'], .end)]

def Keyword.ofText (text : Text) : Option Keyword :=
  keywords.lookup (text.map Char.toUpper)

/-- What a token is to the syntax of conditions. -/
inductive Lexeme where
  | name | string | literal | word
  | keyword (keyword : Keyword)
  | comparison | operator | minus | star
  | dot | comma | opening | closing
  | other
  deriving DecidableEq

def symbols : List (Text × Lexeme) :=
  [(['='], .comparison), (['!', '='], .comparison), (['<'], .comparison),
    (['<', '='], .comparison), (['>'], .comparison), (['>', '='], .comparison),
    (['+'], .operator), (['/'], .operator), (['|', '|'], .operator), (['-'], .minus),
    (['*'], .star), (['.'], .dot), ([','], .comma), (['('], .opening), ([')'], .closing)]

def Lexeme.of : Token → Lexeme
  | .placeholder _ | .quotedName _ => .name
  | .string quote _ => if quote = '\'' then .string else .other
  | .word text =>
    match Keyword.ofText text with
    | some found => .keyword found
    | none => if isLiteral (.word text) then .literal else .word
  | .symbol text => (symbols.lookup text).getD .other
  | .unclosed _ => .other

/-- What the automaton is inside of. -/
inductive Open where
  | group | call | list
  /-- A range whose `AND` is still to come. -/
  | between
  | when | then | else
  deriving DecidableEq

/-- What the automaton expects. -/
inductive Phase where
  | condition
  | operand
  /-- The first argument of a call. -/
  | argument
  /-- The parenthesis behind a function's name. -/
  | call
  /-- An operator, behind an operand. -/
  | operator
  | dotted
  | negated
  | list
  | is
  | isNot
  | interval
  | type
  | typed
  | case
  deriving DecidableEq

structure State where
  phase : Phase
  stack : List Open
  deriving DecidableEq

/-- The beginning of an operand. -/
def beginOperand (stack : List Open) : Lexeme → Option State
  | .name | .string | .literal | .keyword .null => some ⟨.operator, stack⟩
  | .word => some ⟨.call, stack⟩
  | .keyword .interval => some ⟨.interval, stack⟩
  | .keyword .case => some ⟨.case, stack⟩
  | .minus => some ⟨.operand, stack⟩
  | .opening => some ⟨.condition, .group :: stack⟩
  | _ => none

/-- What follows an operand inside of something that it may end. -/
def endOperand : List Open → Lexeme → Option State
  | .between :: stack, .keyword .and => some ⟨.operand, stack⟩
  | .between :: _, .keyword .or => none
  | stack, .keyword .and => some ⟨.condition, stack⟩
  | stack, .keyword .or => some ⟨.condition, stack⟩
  | .call :: stack, .keyword .as => some ⟨.type, .call :: stack⟩
  | .call :: stack, .comma => some ⟨.operand, .call :: stack⟩
  | .list :: stack, .comma => some ⟨.operand, .list :: stack⟩
  | .group :: stack, .closing => some ⟨.operator, stack⟩
  | .call :: stack, .closing => some ⟨.operator, stack⟩
  | .list :: stack, .closing => some ⟨.operator, stack⟩
  | .when :: stack, .keyword .then => some ⟨.operand, .then :: stack⟩
  | .then :: stack, .keyword .else => some ⟨.operand, .else :: stack⟩
  | .else :: stack, .keyword .end => some ⟨.operator, stack⟩
  | _, _ => none

def afterOperand (stack : List Open) : Lexeme → Option State
  | .dot => some ⟨.dotted, stack⟩
  | .comparison | .operator | .minus | .star | .keyword .like => some ⟨.operand, stack⟩
  | .keyword .is => some ⟨.is, stack⟩
  | .keyword .isIn => some ⟨.list, stack⟩
  | .keyword .between => some ⟨.operand, .between :: stack⟩
  | .keyword .not => some ⟨.negated, stack⟩
  | lexeme => endOperand stack lexeme

/-- The first argument of a call, or the end of the call. -/
def beginArgument (stack : List Open) : Lexeme → Option State
  | .star => some ⟨.operator, stack⟩
  | .keyword .distinct => some ⟨.operand, stack⟩
  | .closing => endOperand stack .closing
  | lexeme => beginOperand stack lexeme

def next (state : State) (lexeme : Lexeme) : Option State :=
  let go (phase : Phase) : Option State := some ⟨phase, state.stack⟩
  let enter (inside : Open) (phase : Phase) : Option State := some ⟨phase, inside :: state.stack⟩
  match state.phase with
  | .condition =>
    if lexeme = .keyword .not then go .condition else beginOperand state.stack lexeme
  | .operand => beginOperand state.stack lexeme
  | .argument => beginArgument state.stack lexeme
  | .operator => afterOperand state.stack lexeme
  | .call => if lexeme = .opening then enter .call .argument else none
  | .dotted => if lexeme = .name then go .operator else none
  | .negated =>
    if lexeme = .keyword .isIn then go .list
    else if lexeme = .keyword .between then enter .between .operand
    else if lexeme = .keyword .like then go .operand else none
  | .list => if lexeme = .opening then enter .list .operand else none
  | .is =>
    if lexeme = .keyword .not then go .isNot
    else if lexeme = .keyword .null then go .operator else none
  | .isNot => if lexeme = .keyword .null then go .operator else none
  | .interval => if lexeme = .string then go .operator else none
  | .type => if lexeme = .word then go .typed else none
  | .typed => if lexeme = .closing then endOperand state.stack .closing else none
  | .case => if lexeme = .keyword .when then enter .when .condition else none

/-- A token of a condition, or what combines two conditions of the whole. -/
inductive Mark where
  | and
  | or
  | token (token : Token)
  deriving DecidableEq

def mark (stack : List Open) (token : Token) : Mark :=
  match stack, Lexeme.of token with
  | [], .keyword .and => .and
  | [], .keyword .or => .or
  | _, _ => .token token

def read : State → List Token → Option (State × List Mark)
  | state, [] => some (state, [])
  | state, token :: tokens => do
    let state' ← next state (.of token)
    let rest ← read state' tokens
    return (rest.1, mark state.stack token :: rest.2)

/-- A condition is read from its first token to its last. -/
def readCondition (tokens : List Token) : Option (List Mark) :=
  match read ⟨.condition, []⟩ tokens with
  | some (⟨.operator, []⟩, marks) => some marks
  | _ => none

theorem read_cons {state state' : State} {token : Token} {tokens : List Token}
    (h : next state (.of token) = some state') :
    read state (token :: tokens) =
      (read state' tokens).map fun rest => (rest.1, mark state.stack token :: rest.2) := by
  simp only [read, h, bind, pure, Option.bind_some]
  cases read state' tokens <;> rfl

theorem read_cons_eq_some {state last : State} {token : Token} {tokens : List Token}
    {marks : List Mark} : read state (token :: tokens) = some (last, marks) ↔
      ∃ state' rest, next state (.of token) = some state' ∧
        read state' tokens = some (last, rest) ∧ marks = mark state.stack token :: rest := by
  simp only [read, bind, pure, Option.bind_eq_some_iff, Option.some.injEq, Prod.mk.injEq]
  constructor
  · rintro ⟨state', hnext, ⟨last, rest⟩, hrest, rfl, rfl⟩
    exact ⟨state', rest, hnext, hrest, rfl⟩
  · rintro ⟨state', rest, hnext, hrest, rfl⟩
    exact ⟨state', hnext, (last, rest), hrest, rfl, rfl⟩

theorem read_append {state middle : State} {a b : List Token} {marks : List Mark}
    (h : read state a = some (middle, marks)) :
    read state (a ++ b) = (read middle b).map fun rest => (rest.1, marks ++ rest.2) := by
  induction a generalizing state marks with
  | nil =>
    obtain ⟨rfl, rfl⟩ : state = middle ∧ [] = marks := by simpa [read] using h
    simp
  | cons token a ih =>
    obtain ⟨state', rest, hnext, hrest, rfl⟩ := read_cons_eq_some.mp h
    rw [List.cons_append, read_cons hnext, ih hrest, Option.map_map]
    rfl

theorem read_append_some {state middle last : State} {a b : List Token} {marks marks' : List Mark}
    (ha : read state a = some (middle, marks)) (hb : read middle b = some (last, marks')) :
    read state (a ++ b) = some (last, marks ++ marks') := by
  rw [read_append ha, hb]
  rfl

theorem read_append_none {state : State} {a : List Token} (b : List Token)
    (h : read state a = none) : read state (a ++ b) = none := by
  induction a generalizing state with
  | nil => cases h
  | cons token a ih =>
    cases hnext : next state (.of token) with
    | none => simp [read, hnext]
    | some state' =>
      rw [read_cons hnext, Option.map_eq_none_iff] at h
      rw [List.cons_append, read_cons hnext, ih h]
      rfl

/-- A state with more underneath what it is inside of. -/
def State.over (state : State) (below : List Open) : State :=
  ⟨state.phase, state.stack ++ below⟩

theorem beginOperand_over {stack : List Open} {lexeme : Lexeme} {state : State}
    (h : beginOperand stack lexeme = some state) (below : List Open) :
    beginOperand (stack ++ below) lexeme = some (state.over below) := by
  unfold beginOperand at h ⊢
  split at h <;> first | (obtain rfl := Option.some.inj h; rfl) | cases h

/-- An `AND` or an `OR` between conditions of the whole. -/
def combines (stack : List Open) (lexeme : Lexeme) : Bool :=
  stack.isEmpty && (lexeme = .keyword .and || lexeme = .keyword .or)

theorem endOperand_over {stack : List Open} {lexeme : Lexeme} {state : State}
    (h : endOperand stack lexeme = some state) (hinside : combines stack lexeme = false)
    (below : List Open) : endOperand (stack ++ below) lexeme = some (state.over below) := by
  cases stack with
  | nil =>
    unfold endOperand at h
    split at h <;> simp_all [combines]
  | cons top stack =>
    unfold endOperand at h
    split at h
    all_goals
      first
        | (obtain rfl := Option.some.inj h
           simp_all [endOperand, State.over])
        | cases h

theorem afterOperand_over {stack : List Open} {lexeme : Lexeme} {state : State}
    (h : afterOperand stack lexeme = some state) (hinside : combines stack lexeme = false)
    (below : List Open) : afterOperand (stack ++ below) lexeme = some (state.over below) := by
  unfold afterOperand at h ⊢
  split at h
  case h_11 => exact endOperand_over h hinside below
  all_goals
    (obtain rfl := Option.some.inj h
     rfl)

theorem beginArgument_over {stack : List Open} {lexeme : Lexeme} {state : State}
    (h : beginArgument stack lexeme = some state) (below : List Open) :
    beginArgument (stack ++ below) lexeme = some (state.over below) := by
  unfold beginArgument at h ⊢
  split at h
  case h_3 => exact endOperand_over h (by simp [combines]) below
  case h_4 => exact beginOperand_over h below
  all_goals
    (obtain rfl := Option.some.inj h
     rfl)

/-- What the automaton is inside of matters to its innermost part only. -/
theorem next_over {state state' : State} {lexeme : Lexeme} (h : next state lexeme = some state')
    (hinside : combines state.stack lexeme = false) (below : List Open) :
    next (state.over below) lexeme = some (state'.over below) := by
  obtain ⟨phase, stack⟩ := state
  cases phase <;> simp only [next, State.over] at h ⊢
  case operand => exact beginOperand_over h below
  case operator => exact afterOperand_over h hinside below
  case argument => exact beginArgument_over h below
  case condition =>
    split at h
    · obtain rfl := Option.some.inj h
      rw [if_pos (by assumption)]
    · rw [if_neg (by assumption)]
      exact beginOperand_over h below
  case typed =>
    split at h
    · rw [if_pos (by assumption)]
      exact endOperand_over h (by simp [combines]) below
    · cases h
  all_goals
    repeat' split at h
    all_goals
      first
        | (obtain rfl := Option.some.inj h
           simp_all)
        | cases h

theorem mark_of_not_combines {stack : List Open} {token : Token}
    (h : combines stack (.of token) = false) : mark stack token = .token token := by
  unfold mark
  split <;> simp_all [combines]

theorem combines_over {stack : List Open} {lexeme : Lexeme} (h : combines stack lexeme = false)
    (below : List Open) : combines (stack ++ below) lexeme = false := by
  unfold combines at h ⊢
  cases stack <;> simp_all

/-- Tokens that combine no conditions of the whole. -/
def Inner (state last : State) (tokens : List Token) : Prop :=
  read state tokens = some (last, tokens.map .token)

instance (state last : State) (tokens : List Token) : Decidable (Inner state last tokens) :=
  inferInstanceAs (Decidable (_ = _))

theorem combines_of_mark {stack : List Open} {token : Token} (h : mark stack token = .token token) :
    combines stack (.of token) = false := by
  cases stack with
  | cons top stack => rfl
  | nil =>
    unfold mark at h
    split at h <;> simp_all [combines]

/-- Inner tokens are read in the same way inside of more. -/
theorem Inner.over {state last : State} {tokens : List Token} (h : Inner state last tokens)
    (below : List Open) : Inner (state.over below) (last.over below) tokens := by
  induction tokens generalizing state with
  | nil =>
    obtain ⟨rfl, -⟩ : state = last ∧ True := by simpa [Inner, read] using h
    rfl
  | cons token tokens ih =>
    obtain ⟨state', rest, hnext, hrest, hmarks⟩ := read_cons_eq_some.mp h
    rw [List.map_cons, List.cons.injEq] at hmarks
    obtain ⟨hmark, rfl⟩ := hmarks
    have hinside := combines_of_mark hmark.symm
    refine read_cons_eq_some.mpr ⟨_, _, next_over hnext hinside below, ih hrest, ?_⟩
    rw [List.map_cons, ← mark_of_not_combines (combines_over hinside below)]
    rfl

theorem Inner.append {state middle last : State} {a b : List Token} (ha : Inner state middle a)
    (hb : Inner middle last b) : Inner state last (a ++ b) := by
  unfold Inner
  rw [List.map_append]
  exact read_append_some ha hb

/-- The keyword that a mark stands for. -/
def Mark.keyword : Mark → Option Keyword
  | .and => some .and
  | .or => some .or
  | .token _ => none

theorem of_keyword_mark {stack : List Open} {token : Token} {k : Keyword}
    (h : (mark stack token).keyword = some k) : Lexeme.of token = .keyword k := by
  unfold mark at h
  split at h
  · obtain rfl := Option.some.inj h
    assumption
  · obtain rfl := Option.some.inj h
    assumption
  · cases h

theorem exists_keyword_of_mem {state last : State} {tokens : List Token} {marks : List Mark}
    (h : read state tokens = some (last, marks)) {mark : Mark} (hmem : mark ∈ marks) {k : Keyword}
    (hk : mark.keyword = some k) : ∃ token ∈ tokens, Lexeme.of token = .keyword k := by
  induction tokens generalizing state marks with
  | nil =>
    obtain ⟨-, rfl⟩ : state = last ∧ [] = marks := by simpa [read] using h
    cases hmem
  | cons token tokens ih =>
    obtain ⟨state', rest, -, hrest, rfl⟩ := read_cons_eq_some.mp h
    rcases List.mem_cons.mp hmem with rfl | hmem
    · exact ⟨token, List.mem_cons_self, of_keyword_mark hk⟩
    · obtain ⟨found, hfound, hkeyword⟩ := ih hrest hmem
      exact ⟨found, List.mem_cons_of_mem _ hfound, hkeyword⟩

/-- Tokens that leave no other marks are inner ones. -/
theorem inner_of_marks {state last : State} {tokens : List Token} {marks : List Mark}
    (h : read state tokens = some (last, marks)) (hmarks : ∀ mark ∈ marks, mark.keyword = none) :
    Inner state last tokens := by
  induction tokens generalizing state marks with
  | nil =>
    obtain ⟨rfl, -⟩ : state = last ∧ [] = marks := by simpa [read] using h
    rfl
  | cons token tokens ih =>
    obtain ⟨state', rest, hnext, hrest, rfl⟩ := read_cons_eq_some.mp h
    have hinner := ih hrest fun mark hmem => hmarks mark (List.mem_cons_of_mem _ hmem)
    refine read_cons_eq_some.mpr ⟨state', _, hnext, hinner, ?_⟩
    have hmark := hmarks _ List.mem_cons_self
    rw [List.map_cons, List.cons.injEq]
    refine ⟨?_, rfl⟩
    cases hown : mark state.stack token with
    | token found =>
      unfold mark at hown
      split at hown <;> cases hown <;> rfl
    | and => simp [hown, Mark.keyword] at hmark
    | or => simp [hown, Mark.keyword] at hmark

/-- The maximal runs of what is combined by `AND`; a row that is combined by `OR` begins a run. -/
def andRuns {β : Type} : List (Bool × β) → List (List β)
  | [] => []
  | (_, row) :: rest =>
    match rest, andRuns rest with
    | (false, _) :: _, run :: runs => (row :: run) :: runs
    | _, runs => [row] :: runs

theorem andRuns_ne_nil {β : Type} (row : Bool × β) (rest : List (Bool × β)) :
    andRuns (row :: rest) ≠ [] := by
  obtain ⟨first, row⟩ := row
  unfold andRuns
  split <;> simp

theorem andRuns_or {β : Type} (first : Bool) (a b : β) (rest : List (Bool × β)) :
    andRuns ((first, a) :: (true, b) :: rest) = [a] :: andRuns ((true, b) :: rest) := rfl

theorem andRuns_and {β : Type} {first : Bool} {a b : β} {rest : List (Bool × β)} {run : List β}
    {runs : List (List β)} (h : andRuns ((false, b) :: rest) = run :: runs) :
    andRuns ((first, a) :: (false, b) :: rest) = (a :: run) :: runs := by
  conv_lhs => unfold andRuns
  rw [h]

/-- The runs are the rows, in order. -/
theorem flatten_andRuns {β : Type} (rows : List (Bool × β)) :
    (andRuns rows).flatten = rows.map Prod.snd := by
  induction rows with
  | nil => rfl
  | cons row rest ih =>
    obtain ⟨first, row⟩ := row
    unfold andRuns
    split
    · rename_i hruns
      rw [hruns] at ih
      simpa using ih
    · simpa using ih

/-- The marks of conditions that are combined without parentheses. -/
def combine : List (Bool × List Mark) → List Mark
  | [] => []
  | (_, marks) :: rest => marks ++ rest.flatMap fun (isOr, marks) =>
    (if isOr then .or else .and) :: marks

theorem combine_cons_cons (first isOr : Bool) (a b : List Mark) (rest : List (Bool × List Mark)) :
    combine ((first, a) :: (isOr, b) :: rest) =
      a ++ (if isOr then .or else .and) :: combine ((isOr, b) :: rest) := rfl

theorem splitOn_append {a b : List Mark} (h : Mark.or ∉ a) :
    (a ++ b).splitOn .or = (b.splitOn .or).modifyHead (a ++ ·) := by
  induction a with
  | nil =>
    rw [List.nil_append]
    cases b.splitOn .or <;> rfl
  | cons mark a ih =>
    have hmark : (mark == Mark.or) = false := by
      rw [beq_eq_false_iff_ne]
      rintro rfl
      exact h List.mem_cons_self
    rw [List.cons_append, List.splitOn_cons_eq_if_modifyHead, hmark,
      ih fun hmem => h (List.mem_cons_of_mem _ hmem)]
    cases b.splitOn .or <;> rfl

section Value

variable {α : Type} [Lattice α] [BoundedOrder α] (atom : List Token → α)

def tokensOf (marks : List Mark) : List Token :=
  marks.filterMap fun
    | .token token => some token
    | _ => none

/-- The conjunction of values. -/
def all (values : List α) : α :=
  values.foldr (· ⊓ ·) ⊤

/-- The disjunction of values. -/
def any (values : List α) : α :=
  values.foldr (· ⊔ ·) ⊥

/-- The conjunction of the conditions between the `AND`s. -/
def runValue (marks : List Mark) : α :=
  all ((marks.splitOn .and).map fun condition => atom (tokensOf condition))

/-- The values of the runs between the `OR`s. -/
def runValues (marks : List Mark) : List α :=
  (marks.splitOn .or).map (runValue atom)

/-- The value of a condition, from those of the conditions it combines. -/
def value (marks : List Mark) : α :=
  any (runValues atom marks)

theorem all_append (xs ys : List α) : all (xs ++ ys) = all xs ⊓ all ys := by
  induction xs with
  | nil => simp [all]
  | cons x xs ih =>
    change x ⊓ all (xs ++ ys) = x ⊓ all xs ⊓ all ys
    rw [ih, inf_assoc]

theorem runValue_and (a b : List Mark) :
    runValue atom (a ++ .and :: b) = runValue atom a ⊓ runValue atom b := by
  unfold runValue
  rw [List.splitOn_append_cons_self, List.map_append, all_append]

theorem runValues_or {a : List Mark} (ha : Mark.or ∉ a) (b : List Mark) :
    runValues atom (a ++ .or :: b) = runValue atom a :: runValues atom b := by
  unfold runValues
  rw [List.splitOn_append_cons_self, List.splitOn_eq_singleton ha]
  rfl

theorem runValues_and {a b : List Mark} (ha : Mark.or ∉ a) {first : α} {rest : List α}
    (hb : runValues atom b = first :: rest) :
    runValues atom (a ++ .and :: b) = (runValue atom a ⊓ first) :: rest := by
  unfold runValues at hb ⊢
  have hprefix : Mark.or ∉ a ++ [.and] := by simpa using ha
  rw [← List.singleton_append, ← List.append_assoc, splitOn_append hprefix]
  cases hsplit : b.splitOn .or with
  | nil => simp [hsplit] at hb
  | cons run runs =>
    rw [hsplit, List.map_cons, List.cons.injEq] at hb
    obtain ⟨rfl, rfl⟩ := hb
    rw [List.modifyHead_cons, List.map_cons, List.append_assoc, List.singleton_append, runValue_and]

theorem runValues_of_run {marks : List Mark} (h : Mark.or ∉ marks) :
    runValues atom marks = [runValue atom marks] := by
  unfold runValues
  rw [List.splitOn_eq_singleton h]
  rfl

theorem value_of_run {marks : List Mark} (h : Mark.or ∉ marks) :
    value atom marks = runValue atom marks := by
  rw [value, runValues_of_run atom h]
  simp [any]

/-- Conditions without an `OR` of their own combine to the disjunction of their runs. -/
theorem runValues_combine {rows : List (Bool × List Mark)} (hne : rows ≠ [])
    (h : ∀ row ∈ rows, Mark.or ∉ row.2) :
    runValues atom (combine rows) =
      (andRuns rows).map fun run => all (run.map (runValue atom)) := by
  induction rows with
  | nil => exact absurd rfl hne
  | cons row rest ih =>
    obtain ⟨first, a⟩ := row
    have ha : Mark.or ∉ a := h (first, a) List.mem_cons_self
    cases rest with
    | nil =>
      simp [combine, andRuns, runValues_of_run atom ha, all]
    | cons next rest =>
      obtain ⟨isOr, b⟩ := next
      have hrest := ih (by simp) fun row hrow => h row (List.mem_cons_of_mem _ hrow)
      rw [combine_cons_cons]
      cases isOr with
      | true =>
        rw [if_pos rfl, runValues_or atom ha, hrest, andRuns_or, List.map_cons]
        simp [all]
      | false =>
        cases hruns : andRuns ((false, b) :: rest) with
        | nil => exact absurd hruns (andRuns_ne_nil _ _)
        | cons run runs =>
          rw [hruns, List.map_cons] at hrest
          rw [if_neg (by simp), runValues_and atom ha hrest, andRuns_and hruns]
          rfl

end Value

end Dqx.Lib.Sql
