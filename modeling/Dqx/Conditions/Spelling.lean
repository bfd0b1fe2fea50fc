import Dqx.Conditions.Validation

/-! The spellings of comparisons. A condition may write them as Spark SQL does; the text that is parsed
has the same tokens in their Python spelling, and a condition in that spelling stays as it is. In
conditions without string literals no other token has a character of a comparison, and two comparisons
are never next to each other. -/

namespace Dqx.Conditions

open Actions (isSpace)

variable {V : Type}

/-! ### Tokens -/

def isComparisonChar (c : Char) : Bool := c = '=' || c = '<' || c = '>' || c = '!'

/-- A name, a number, a keyword, a parenthesis or an operator that is no comparison. -/
structure Word where
  text : Text
  text_ne : text ≠ []
  plain : ∀ c ∈ text, isComparisonChar c = false ∧ isSpace c = false

theorem plain_of_all {text : Text}
    (h : text.all (fun c => !isComparisonChar c && !isSpace c) = true) :
    ∀ c ∈ text, isComparisonChar c = false ∧ isSpace c = false := by
  simpa using h

inductive Comparison where
  | lt | ltE | gt | gtE | eq | notEq
  deriving DecidableEq

namespace Comparison

def python : Comparison → Text
  | lt => ['<']
  | ltE => ['<', '=']
  | gt => ['>']
  | gtE => ['>', '=']
  | eq => ['=', '=']
  | notEq => ['!', '=']

def spellings : Comparison → List Text
  | eq => [['=', '='], ['=']]
  | notEq => [['!', '='], ['<', '>']]
  | comparison => [comparison.python]

def op : Comparison → CmpOp
  | lt => .lt
  | ltE => .ltE
  | gt => .gt
  | gtE => .gtE
  | eq => .eq
  | notEq => .notEq

theorem python_mem_spellings (comparison : Comparison) : comparison.python ∈ comparison.spellings := by
  cases comparison <;> decide

end Comparison

inductive Token where
  | word (word : Word)
  | comparison (comparison : Comparison)

/-- `text` spells the tokens, with whitespace around them, and `python` spells them in the same way but
for the comparisons, which have their Python spelling. -/
inductive Spells : List Token → Text → Text → Prop
  | nil {spaces : Text} (hspaces : ∀ c ∈ spaces, isSpace c = true) : Spells [] spaces spaces
  | word {spaces : Text} {word : Word} {tokens : List Token} {text python : Text}
      (hspaces : ∀ c ∈ spaces, isSpace c = true) (rest : Spells tokens text python) :
      Spells (.word word :: tokens) (spaces ++ (word.text ++ text)) (spaces ++ (word.text ++ python))
  | comparison {spaces spelling : Text} {comparison : Comparison} {tokens : List Token}
      {text python : Text} (hspaces : ∀ c ∈ spaces, isSpace c = true)
      (hspelling : spelling ∈ comparison.spellings) (rest : Spells tokens text python) :
      Spells (.comparison comparison :: tokens) (spaces ++ (spelling ++ text))
        (spaces ++ (comparison.python ++ python))

/-! ### Expressions -/

def openParen : Word := ⟨['('], by simp, plain_of_all rfl⟩

def closeParen : Word := ⟨[')'], by simp, plain_of_all rfl⟩

def BoolOp.word : BoolOp → Word
  | and => ⟨['a', 'n', 'd'], by simp, plain_of_all rfl⟩
  | or => ⟨['o', 'r'], by simp, plain_of_all rfl⟩

def UnaryOp.word? : UnaryOp → Option Word
  | not => some ⟨['n', 'o', 't'], by simp, plain_of_all rfl⟩
  | uSub => some ⟨['-'], by simp, plain_of_all rfl⟩
  | uAdd => some ⟨['+'], by simp, plain_of_all rfl⟩
  | other _ => none

def BinOp.word? : BinOp → Option Word
  | add => some ⟨['+'], by simp, plain_of_all rfl⟩
  | sub => some ⟨['-'], by simp, plain_of_all rfl⟩
  | mult => some ⟨['*'], by simp, plain_of_all rfl⟩
  | div => some ⟨['/'], by simp, plain_of_all rfl⟩
  | floorDiv => some ⟨['/', '/'], by simp, plain_of_all rfl⟩
  | mod => some ⟨['%'], by simp, plain_of_all rfl⟩
  | pow => some ⟨['*', '*'], by simp, plain_of_all rfl⟩
  | other _ => none

mutual

/-- The tokens of an expression, with parentheses in any places. A literal is any word. -/
inductive Renders : Node V → List Token → Prop
  | constant (value : V) (literal : Word) : Renders (.constant value) [.word literal]
  | name (word : Word) : Renders (.name (String.ofList word.text)) [.word word]
  | boolOp {op : BoolOp} {value : Node V} {values : List (Node V)} {first : List Token}
      {tokens : List Token} (hvalue : Renders value first) (hvalues : RendersBool op values tokens) :
      Renders (.boolOp op (value :: values)) (first ++ tokens)
  | unaryOp {op : UnaryOp} {operand : Node V} {tokens : List Token} {word : Word}
      (hword : op.word? = some word) (hoperand : Renders operand tokens) : Renders (.unaryOp op operand) (.word word :: tokens)
  | binOp {op : BinOp} {left right : Node V} {leftTokens rightTokens : List Token} {word : Word}
      (hword : op.word? = some word) (hleft : Renders left leftTokens) (hright : Renders right rightTokens) :
      Renders (.binOp left op right) (leftTokens ++ .word word :: rightTokens)
  | compare {left : Node V} {ops : List CmpOp} {comparators : List (Node V)}
      {leftTokens tokens : List Token} (hleft : Renders left leftTokens)
      (hcomparators : RendersCompare ops comparators tokens) :
      Renders (.compare left ops comparators) (leftTokens ++ tokens)
  | paren {tree : Node V} {tokens : List Token} (htree : Renders tree tokens) :
      Renders tree (.word openParen :: (tokens ++ [.word closeParen]))

/-- The values of an `and` or an `or` behind the first. -/
inductive RendersBool : BoolOp → List (Node V) → List Token → Prop
  | nil {op : BoolOp} : RendersBool op [] []
  | cons {op : BoolOp} {value : Node V} {values : List (Node V)} {first tokens : List Token}
      (hvalue : Renders value first) (hvalues : RendersBool op values tokens) :
      RendersBool op (value :: values) (.word op.word :: (first ++ tokens))

/-- The comparisons of a chain. -/
inductive RendersCompare : List CmpOp → List (Node V) → List Token → Prop
  | nil : RendersCompare [] [] []
  | cons {comparison : Comparison} {ops : List CmpOp} {comparator : Node V}
      {comparators : List (Node V)} {first tokens : List Token} (hcomparator : Renders comparator first)
      (hcomparators : RendersCompare ops comparators tokens) :
      RendersCompare (comparison.op :: ops) (comparator :: comparators)
        (.comparison comparison :: (first ++ tokens))

end

/-- Tokens that begin and end with a word and have no two comparisons in a row. -/
inductive Operand : List Token → Prop
  | single (word : Word) : Operand [.word word]
  | word (word : Word) {tokens : List Token} (rest : Operand tokens) : Operand (.word word :: tokens)
  | comparison (word : Word) (comparison : Comparison) {tokens : List Token} (rest : Operand tokens) :
      Operand (.word word :: .comparison comparison :: tokens)

namespace Operand

variable {xs ys : List Token}

theorem append_word (hx : Operand xs) (word : Word) (hy : Operand ys) :
    Operand (xs ++ .word word :: ys) := by
  induction hx with
  | single w => exact .word w (.word word hy)
  | word w _ ih => exact .word w ih
  | comparison w c _ ih => exact .comparison w c ih

theorem append_comparison (hx : Operand xs) (c : Comparison) (hy : Operand ys) :
    Operand (xs ++ .comparison c :: ys) := by
  induction hx with
  | single w => exact .comparison w c hy
  | word w _ ih => exact .word w ih
  | comparison w c' _ ih => exact .comparison w c' ih

theorem append_single (hx : Operand xs) (word : Word) : Operand (xs ++ [.word word]) := by
  induction hx with
  | single w => exact .word w (.single word)
  | word w _ ih => exact .word w ih
  | comparison w c _ ih => exact .comparison w c ih

end Operand

/-- Every expression is rendered by such tokens. -/
theorem Renders.operand {tree : Node V} {tokens : List Token} (h : Renders tree tokens) :
    Operand tokens := by
  refine Renders.rec (motive_1 := fun _ tokens _ => Operand tokens)
    (motive_2 := fun _ _ tokens _ => ∀ first, Operand first → Operand (first ++ tokens))
    (motive_3 := fun _ _ tokens _ => ∀ first, Operand first → Operand (first ++ tokens))
    ?constant ?name ?boolOp ?unaryOp ?binOp ?compare ?paren ?noValue ?value ?noComparator ?comparator h
  case constant => exact fun _ literal => .single literal
  case name => exact fun word => .single word
  case boolOp => exact fun _ _ hfirst hvalues => hvalues _ hfirst
  case unaryOp => exact fun _ _ htokens => .word _ htokens
  case binOp => exact fun _ _ _ hleft hright => hleft.append_word _ hright
  case compare => exact fun _ _ hleft hcomparators => hcomparators _ hleft
  case paren => exact fun _ htokens => .word _ (htokens.append_single _)
  case noValue => exact fun first hfirst => by rwa [List.append_nil]
  case value =>
    intro op value values first tokens _ _ hvalue hvalues before hbefore
    rw [← List.cons_append, ← List.append_assoc]
    exact hvalues _ (hbefore.append_word _ hvalue)
  case noComparator => exact fun first hfirst => by rwa [List.append_nil]
  case comparator =>
    intro c ops comparator comparators first tokens _ _ hcomparator hcomparators before hbefore
    rw [← List.cons_append, ← List.append_assoc]
    exact hcomparators _ (hbefore.append_comparison _ hcomparator)

/-! ### The passes over the text -/

theorem not_comparison_of_isSpace {c : Char} (h : isSpace c = true) : isComparisonChar c = false := by
  cases hc : isComparisonChar c with
  | false => rfl
  | true =>
    simp only [isComparisonChar, Bool.or_eq_true, decide_eq_true_eq] at hc
    rcases hc with ((rfl | rfl) | rfl) | rfl <;> exact absurd h (by decide)

/-- The text has no character of a comparison. -/
def Plain (text : Text) : Prop := ∀ c ∈ text, isComparisonChar c = false

theorem plain_spaces {spaces : Text} (h : ∀ c ∈ spaces, isSpace c = true) : Plain spaces :=
  fun c hc => not_comparison_of_isSpace (h c hc)

theorem Word.plain_text (word : Word) : Plain word.text := fun c hc => (word.plain c hc).1

theorem ne_of_plain {c : Char} (h : isComparisonChar c = false) :
    c ≠ '=' ∧ c ≠ '<' ∧ c ≠ '>' ∧ c ≠ '!' := by
  simpa [isComparisonChar, and_assoc] using h

theorem subNotEqual_cons {c : Char} {text : Text} (h : c ≠ '<') :
    subNotEqual (c :: text) = c :: subNotEqual text := by
  rw [subNotEqual]
  rintro rest rfl
  exact absurd rfl h

theorem subNotEqual_append {plain text : Text} (h : Plain plain) :
    subNotEqual (plain ++ text) = plain ++ subNotEqual text := by
  induction plain with
  | nil => rfl
  | cons c plain ih =>
    obtain ⟨hc, hplain⟩ := List.forall_mem_cons.mp h
    rw [List.cons_append, subNotEqual_cons (ne_of_plain hc).2.1, ih hplain, List.cons_append]

theorem subSingleEquals_cons {before : Option Char} {c : Char} {text : Text} (h : c ≠ '=') :
    subSingleEquals before (c :: text) = c :: subSingleEquals (some c) text := by
  rw [subSingleEquals]
  exact h

theorem subSingleEquals_append {before : Option Char} {plain text : Text} (h : Plain plain) :
    subSingleEquals before (plain ++ text) =
      plain ++ subSingleEquals (plain.getLast?.or before) text := by
  induction plain generalizing before with
  | nil => rfl
  | cons c plain ih =>
    obtain ⟨hc, hplain⟩ := List.forall_mem_cons.mp h
    rw [List.cons_append, subSingleEquals_cons (ne_of_plain hc).1, ih hplain, List.cons_append]
    cases hlast : plain.getLast? with
    | none => simp [List.getLast?_eq_none_iff.mp hlast]
    | some d => simp [List.getLast?_cons, hlast]

theorem passes_append {plain text : Text} (h : Plain plain) (before : Option Char) :
    subSingleEquals before (subNotEqual (plain ++ text)) =
      plain ++ subSingleEquals (plain.getLast?.or before) (subNotEqual text) := by
  rw [subNotEqual_append h, subSingleEquals_append h]

theorem passes_plain {plain : Text} (h : Plain plain) (before : Option Char) :
    subSingleEquals before (subNotEqual plain) = plain := by
  have happend : subSingleEquals before (subNotEqual (plain ++ [])) = _ := passes_append h before
  rwa [List.append_nil, subNotEqual, subSingleEquals, List.append_nil] at happend

/-- A comparison between characters of other tokens gets its Python spelling. -/
theorem passes_comparison {c : Comparison} {spelling text : Text} {b d : Char}
    (hspelling : spelling ∈ c.spellings) (hb : isComparisonChar b = false)
    (hd : isComparisonChar d = false) :
    ∃ before, subSingleEquals (some b) (subNotEqual (spelling ++ d :: text)) =
      c.python ++ subSingleEquals before (subNotEqual (d :: text)) := by
  obtain ⟨hb1, hb2, hb3, hb4⟩ := ne_of_plain hb
  obtain ⟨hd1, hd2, hd3, hd4⟩ := ne_of_plain hd
  refine ⟨c.python.getLast?, ?_⟩
  -- the first pass sees `<>` only, and the second a `=` that stands alone
  cases c <;> simp only [Comparison.spellings, Comparison.python, List.mem_cons, List.not_mem_nil,
    or_false] at hspelling
  case lt => simp [hspelling, Comparison.python, subNotEqual, subSingleEquals, hd2, hd3]
  case ltE => simp [hspelling, Comparison.python, subNotEqual, subSingleEquals, hd1, hd2, hd3]
  case gt => simp [hspelling, Comparison.python, subNotEqual, subSingleEquals, hd2, hd3]
  case gtE => simp [hspelling, Comparison.python, subNotEqual, subSingleEquals, hd1, hd2, hd3]
  case eq =>
    rcases hspelling with rfl | rfl <;>
      simp [Comparison.python, subNotEqual, subSingleEquals, hb1, hb2, hb3, hb4, hd1, hd2]
  case notEq =>
    rcases hspelling with rfl | rfl <;>
      simp [Comparison.python, subNotEqual, subSingleEquals, hd1, hd2]

theorem Plain.append {plain plain' : Text} (h : Plain plain) (h' : Plain plain') :
    Plain (plain ++ plain') :=
  List.forall_mem_append.mpr ⟨h, h'⟩

/-- A text that is spelled by an operand begins with a character of no comparison. -/
theorem Operand.head {tokens : List Token} {text python : Text} (hoperand : Operand tokens)
    (h : Spells tokens text python) : ∃ d rest, text = d :: rest ∧ isComparisonChar d = false := by
  obtain ⟨word, tokens', rfl⟩ : ∃ word tokens', tokens = Token.word word :: tokens' := by
    cases hoperand <;> exact ⟨_, _, rfl⟩
  cases h with
  | @word spaces _ _ rest _ hspaces hrest =>
    have hplain := (plain_spaces hspaces).append word.plain_text
    cases hstart : spaces ++ word.text with
    | nil => exact absurd (List.append_eq_nil_iff.mp hstart).2 word.text_ne
    | cons d start =>
      refine ⟨d, start ++ rest, by rw [← List.append_assoc, hstart, List.cons_append], ?_⟩
      exact hplain d (hstart ▸ List.mem_cons_self)

/-- The two passes give every comparison its Python spelling and change nothing else. -/
theorem passes_spells {tokens : List Token} {text python : Text} (hoperand : Operand tokens)
    (h : Spells tokens text python) (before : Option Char) :
    subSingleEquals before (subNotEqual text) = python := by
  induction hoperand generalizing text python before with
  | single w =>
    cases h with
    | word hspaces hrest =>
      cases hrest with
      | nil hspaces' =>
        exact passes_plain ((plain_spaces hspaces).append (w.plain_text.append (plain_spaces hspaces')))
          before
  | word w _ ih =>
    cases h with
    | word hspaces hrest =>
      rw [← List.append_assoc, ← List.append_assoc,
        passes_append ((plain_spaces hspaces).append w.plain_text), ih hrest]
  | comparison w c hrest ih =>
    cases h with
    | @word spaces _ _ _ _ hspaces hcomparison =>
      cases hcomparison with
      | @comparison spaces' spelling _ _ rest python hspaces' hspelling hspells =>
        obtain ⟨d, rest', rfl, hd⟩ := hrest.head hspells
        have hplain := (plain_spaces hspaces).append (w.plain_text.append (plain_spaces hspaces'))
        obtain ⟨b, hlast⟩ : ∃ b, (spaces ++ (w.text ++ spaces')).getLast? = some b := by
          cases hnone : (spaces ++ (w.text ++ spaces')).getLast? with
          | none => simp [List.getLast?_eq_none_iff, w.text_ne] at hnone
          | some b => exact ⟨b, rfl⟩
        have hb : isComparisonChar b = false := hplain b (List.mem_of_getLast? hlast)
        obtain ⟨after, hpasses⟩ := @passes_comparison _ _ rest' _ _ hspelling hb hd
        calc subSingleEquals before (subNotEqual
                (spaces ++ (w.text ++ (spaces' ++ (spelling ++ d :: rest')))))
            = subSingleEquals before (subNotEqual
                ((spaces ++ (w.text ++ spaces')) ++ (spelling ++ d :: rest'))) := by
              simp only [List.append_assoc]
          _ = (spaces ++ (w.text ++ spaces')) ++ (c.python ++ python) := by
              rw [passes_append hplain, hlast, Option.some_or, hpasses, ih hspells]
          _ = spaces ++ (w.text ++ (spaces' ++ (c.python ++ python))) := by
              simp only [List.append_assoc]

theorem Spells.python {tokens : List Token} {text python : Text} (h : Spells tokens text python) :
    Spells tokens python python := by
  induction h with
  | nil hspaces => exact .nil hspaces
  | word hspaces _ ih => exact .word hspaces ih
  | comparison hspaces _ _ ih => exact .comparison hspaces (Comparison.python_mem_spellings _) ih

/-- A text that an operand spells is not blank. -/
theorem Operand.not_blank {tokens : List Token} {text python : Text} (hoperand : Operand tokens)
    (h : Spells tokens text python) : text.all isSpace = false := by
  obtain ⟨word, tokens', rfl⟩ : ∃ word tokens', tokens = Token.word word :: tokens' := by
    cases hoperand <;> exact ⟨_, _, rfl⟩
  cases h with
  | word hspaces hrest =>
    obtain ⟨c, rest, hc⟩ := List.exists_cons_of_ne_nil word.text_ne
    have hmem : c ∈ word.text := hc ▸ List.mem_cons_self
    rw [List.all_eq_false]
    exact ⟨c, by simp [hmem], by simp [(word.plain c hmem).2]⟩

/-- Every spelling of an expression is normalized to the spelling of Python, which stays as it is. So
all of them are parsed to the same tree, and evaluated to the same result. -/
theorem spellings_alike (python : Python V) (parse : Text → Except String (Node V)) {tree : Node V}
    {tokens : List Token} {text pythonText : Text} (hrenders : Renders tree tokens)
    (hspells : Spells tokens text pythonText) :
    normalizeOperators text = pythonText ∧ normalizeOperators pythonText = pythonText ∧
      ∀ metrics, (evaluate python parse text metrics).toOption =
          (evaluate python parse pythonText metrics).toOption ∧
        ∀ parsed, parse pythonText = .ok parsed →
          evaluate python parse text metrics = evaluate python parse pythonText metrics := by
  have hoperand := hrenders.operand
  have htext : normalizeOperators text = pythonText := passes_spells hoperand hspells none
  have hpython : normalizeOperators pythonText = pythonText := passes_spells hoperand hspells.python none
  refine ⟨htext, hpython, fun metrics => ?_⟩
  have hblank := hoperand.not_blank hspells
  have hblank' := hoperand.not_blank hspells.python
  rw [evaluate, evaluate, parseCondition, parseCondition, hblank, hblank', htext, hpython]
  cases hparse : parse pythonText with
  | error message => exact ⟨rfl, fun _ h => by cases h⟩
  | ok parsed => exact ⟨rfl, fun _ _ => rfl⟩

def wordA : Word := ⟨['a'], by simp, plain_of_all rfl⟩

def wordB : Word := ⟨['b'], by simp, plain_of_all rfl⟩

def wordOne : Word := ⟨['1'], by simp, plain_of_all rfl⟩

def minus : Word := ⟨['-'], by simp, plain_of_all rfl⟩

/-- `a != -b and b == 1` -/
def mixedTree : Node Number :=
  .boolOp .and [.compare (.name "a") [.notEq] [.unaryOp .uSub (.name "b")],
    .compare (.name "b") [.eq] [.constant (.int 1)]]

def parseMixed (condition : Text) : Except String (Node Number) :=
  if condition = "a!=-b and b ==1".toList then .ok mixedTree else .error "invalid syntax"

theorem spellings_alike_mixed :
    normalizeOperators "a<>-b and b =1".toList = "a!=-b and b ==1".toList ∧
      evaluate numbers parseMixed "a<>-b and b =1".toList [("a", .int 2), ("b", .int 1)] =
        evaluate numbers parseMixed "a!=-b and b ==1".toList [("a", .int 2), ("b", .int 1)] := by
  have hfirst : Renders (.compare (.name "a") [.notEq] [.unaryOp .uSub (.name "b")] : Node Number)
      [.word wordA, .comparison .notEq, .word minus, .word wordB] :=
    .compare (.name wordA) (@RendersCompare.cons _ .notEq _ _ _ _ _ (.unaryOp rfl (.name wordB)) .nil)
  have hsecond : Renders (.compare (.name "b") [.eq] [.constant (.int 1)] : Node Number)
      [.word wordB, .comparison .eq, .word wordOne] :=
    .compare (.name wordB) (@RendersCompare.cons _ .eq _ _ _ _ _ (.constant _ wordOne) .nil)
  have hrenders : Renders mixedTree _ := .boolOp hfirst (.cons hsecond .nil)
  have hspells : Spells
      [.word wordA, .comparison .notEq, .word minus, .word wordB, .word BoolOp.and.word,
        .word wordB, .comparison .eq, .word wordOne]
      "a<>-b and b =1".toList "a!=-b and b ==1".toList := by
    have hnil : ∀ c ∈ ([] : Text), isSpace c = true := nofun
    have hspace : ∀ c ∈ [' '], isSpace c = true := by simp [show isSpace ' ' = true from rfl]
    exact @Spells.word [] wordA _ _ _ hnil
      (@Spells.comparison [] ['<', '>'] .notEq _ _ _ hnil (by decide)
      (@Spells.word [] minus _ _ _ hnil (@Spells.word [] wordB _ _ _ hnil
      (@Spells.word [' '] BoolOp.and.word _ _ _ hspace (@Spells.word [' '] wordB _ _ _ hspace
      (@Spells.comparison [' '] ['='] .eq _ _ _ hspace (by decide)
      (@Spells.word [] wordOne _ _ _ hnil (@Spells.nil [] hnil))))))))
  obtain ⟨hnormal, -, hevaluate⟩ := spellings_alike numbers parseMixed hrenders hspells
  exact ⟨hnormal, (hevaluate _).2 mixedTree rfl⟩

end Dqx.Conditions
