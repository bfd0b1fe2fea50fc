import Dqx.Actions.Types

/-! The conditions of actions: the spellings of their operators, their syntax trees, and the walks that
validate and evaluate a tree. Python's parser and the operators of its objects are parameters. -/

namespace Dqx.Conditions

abbrev Text := List Char

/-- `_NOT_EQUAL_SQL_RE.sub("!=", condition)` -/
def subNotEqual : Text → Text
  | '<' :: '>' :: rest => '!' :: '=' :: subNotEqual rest
  | c :: rest => c :: subNotEqual rest
  | [] => []

/-- `_SINGLE_EQUALS_RE.sub("==", condition)`; `before` is the character that comes before the text. -/
def subSingleEquals (before : Option Char) : Text → Text
  | '=' :: rest =>
    if before.all (· ∉ ['=', '<', '>', '!']) && rest.head? ≠ some '=' then
      '=' :: '=' :: subSingleEquals (some '=') rest
    else '=' :: subSingleEquals (some '=') rest
  | c :: rest => c :: subSingleEquals (some c) rest
  | [] => []

def normalizeOperators (condition : Text) : Text := subSingleEquals none (subNotEqual condition)

/-! ### Syntax trees -/

/-- `_ALLOWED_NODE_TYPES` -/
def allowedNodeTypes : List String :=
  ["Expression", "BoolOp", "UnaryOp", "BinOp", "Compare", "Name", "Constant", "And", "Or", "Not",
    "USub", "UAdd", "Add", "Sub", "Mult", "Div", "FloorDiv", "Mod", "Pow", "Lt", "LtE", "Gt", "GtE",
    "Eq", "NotEq", "Load", "boolop", "unaryop", "operator", "cmpop", "expr", "expr_context"]

/-- The type of a node that conditions may not use. -/
abbrev OtherType := { type : String // type ∉ allowedNodeTypes }

inductive BoolOp where
  | and | or
  deriving DecidableEq

inductive UnaryOp where
  | not | uSub | uAdd
  | other (type : OtherType)
  deriving DecidableEq

inductive BinOp where
  | add | sub | mult | div | floorDiv | mod | pow
  | other (type : OtherType)
  deriving DecidableEq

inductive CmpOp where
  | lt | ltE | gt | gtE | eq | notEq
  | other (type : OtherType)
  deriving DecidableEq

/-- A tree as `ast.parse` returns it, with constants that are objects of type `V`. -/
inductive Node (V : Type) where
  | constant (value : V)
  | name (id : String)
  | boolOp (op : BoolOp) (values : List (Node V))
  | unaryOp (op : UnaryOp) (operand : Node V)
  | binOp (left : Node V) (op : BinOp) (right : Node V)
  | compare (left : Node V) (ops : List CmpOp) (comparators : List (Node V))
  | other (type : OtherType) (children : List (Node V))

variable {V : Type}

inductive PyException where
  | zeroDivisionError (message : String)
  | typeError (message : String)
  | overflowError (message : String)
  | valueError (message : String)
  | other (type message : String)

def PyException.message : PyException → String
  | zeroDivisionError message => message
  | typeError message => message
  | overflowError message => message
  | valueError message => message
  | other _ message => message

/-- The objects of Python and its operators on them. -/
structure Python (V : Type) where
  typeName : V → String
  /-- `isinstance(value, (int, float, bool))` -/
  isNumber : V → Bool
  isStr : V → Bool
  one : V
  ofBool : Bool → V
  /-- `bool(value)` -/
  truth : V → Bool
  float : V → Except PyException V
  neg : V → Except PyException V
  pos : V → Except PyException V
  arithmetic : BinOp → V → V → Except PyException V
  comparison : CmpOp → V → V → Except PyException V
  isNumber_one : isNumber one = true

/-- An `InvalidConditionError`, or another exception that is raised. -/
inductive Error where
  | empty
  | invalidSyntax (condition message : String)
  | nodeType (type : String)
  | constantType (type : String)
  | unknownMetric (name : String) (available : List String)
  | unaryOperator (type : String)
  | binaryOperator (type : String)
  | comparisonOperator (type : String)
  | operator (exception : PyException)
  | raised (exception : PyException)

namespace Error

/-- The text of an `InvalidConditionError`; `repr` is Python's. -/
def message (repr : String → String) : Error → String
  | empty => "Condition expression must not be empty"
  | invalidSyntax condition message =>
    let quoted := repr condition
    s!"Condition {quoted} has a syntax error: {message}"
  | nodeType type => s!"AST node type '{type}' is not allowed in conditions; " ++
      "only arithmetic, comparison, boolean, and literal expressions are permitted"
  | constantType type => s!"Constant type '{type}' is not allowed in conditions"
  | unknownMetric name available =>
    let names := ", ".intercalate (available.map repr)
    s!"Condition references unknown metric '{name}'; available: [{names}]"
  | unaryOperator type => s!"Unary operator '{type}' is not allowed in conditions"
  | binaryOperator type => s!"Binary operator '{type}' is not allowed in conditions"
  | comparisonOperator type => s!"Comparison operator '{type}' is not allowed in conditions"
  | operator exception => "Operator error in condition: " ++ exception.message
  | raised exception => exception.message

/-- The condition has a node that is not allowed. -/
def isDisallowed : Error → Bool
  | nodeType _ | constantType _ | unaryOperator _ | binaryOperator _ | comparisonOperator _ => true
  | _ => false

end Error

abbrev Evaluated := Except Error

/-! ### The structure of a tree -/

def BoolOp.type : BoolOp → String
  | and => "And"
  | or => "Or"

def UnaryOp.type : UnaryOp → String
  | not => "Not"
  | uSub => "USub"
  | uAdd => "UAdd"
  | other type => type

def BinOp.type : BinOp → String
  | add => "Add"
  | sub => "Sub"
  | mult => "Mult"
  | div => "Div"
  | floorDiv => "FloorDiv"
  | mod => "Mod"
  | pow => "Pow"
  | other type => type

def CmpOp.type : CmpOp → String
  | lt => "Lt"
  | ltE => "LtE"
  | gt => "Gt"
  | gtE => "GtE"
  | eq => "Eq"
  | notEq => "NotEq"
  | other type => type

def CmpOp.other? : CmpOp → Option OtherType
  | other type => some type
  | _ => none

def Node.type : Node V → String
  | constant _ => "Constant"
  | name _ => "Name"
  | boolOp _ _ => "BoolOp"
  | unaryOp _ _ => "UnaryOp"
  | binOp _ _ _ => "BinOp"
  | compare _ _ _ => "Compare"
  | other type _ => type

/-- What `ast.walk` visits: an expression, or an operator or a context, which has no children. -/
inductive Visit (V : Type) where
  | node (node : Node V)
  | leaf (type : String)

namespace Visit

def type : Visit V → String
  | node n => n.type
  | leaf type => type

def children : Visit V → List (Visit V)
  | node (.constant _) => []
  | node (.name _) => [leaf "Load"]
  | node (.boolOp op values) => leaf op.type :: values.map node
  | node (.unaryOp op operand) => [leaf op.type, node operand]
  | node (.binOp left op right) => [node left, leaf op.type, node right]
  | node (.compare left ops comparators) =>
    node left :: (ops.map (leaf ·.type) ++ comparators.map node)
  | node (.other _ children) => children.map node
  | leaf _ => []

end Visit

mutual

def Node.depth : Node V → Nat
  | .constant _ => 1
  | .name _ => 2
  | .boolOp _ values => depthOf values + 2
  | .unaryOp _ operand => operand.depth + 2
  | .binOp left _ right => max left.depth right.depth + 2
  | .compare left _ comparators => max left.depth (depthOf comparators) + 2
  | .other _ children => depthOf children + 2

def depthOf : List (Node V) → Nat
  | [] => 0
  | node :: rest => max node.depth (depthOf rest)

end

/-- The visits level by level, down to a depth. -/
def levels : Nat → List (Visit V) → List (Visit V)
  | 0, _ => []
  | depth + 1, visits => visits ++ levels depth (visits.flatMap Visit.children)

/-- `ast.walk` of the expression that holds the tree. -/
def astWalk (tree : Node V) : List (Visit V) := .leaf "Expression" :: levels tree.depth [.node tree]

variable (python : Python V)

/-- What the pass over the tree says about one node. -/
def checkVisit (visit : Visit V) : Evaluated Unit :=
  if visit.type ∉ allowedNodeTypes then .error (.nodeType visit.type)
  else
    match visit with
    | .node (.constant value) =>
      if python.isNumber value || python.isStr value then .ok ()
      else .error (.constantType (python.typeName value))
    | _ => .ok ()

def validateTree (tree : Node V) : Evaluated Unit := (astWalk tree).forM (checkVisit python)

/-! ### Evaluation -/

abbrev Metrics (V : Type) := List (String × V)

/-- `float(value)` of a string that is a number, and any other value itself. -/
def coerceNumeric (value : V) : V :=
  if python.isNumber value then value
  else if python.isStr value then
    match python.float value with
    | .ok number => number
    | .error _ => value
  else value

/-- Names of metrics are not resolved while a condition is validated. -/
def evalName (id : String) : Option (Metrics V) → Evaluated V
  | none => .ok python.one
  | some metrics =>
    match metrics.lookup id with
    | none => .error (.unknownMetric id ((metrics.map Prod.fst).mergeSort (· ≤ ·)))
    | some value => .ok (coerceNumeric python value)

/-- `except (TypeError, OverflowError)` -/
def catchOperator {α : Type} : Except PyException α → Evaluated α
  | .ok value => .ok value
  | .error (.typeError message) => .error (.operator (.typeError message))
  | .error (.overflowError message) => .error (.operator (.overflowError message))
  | .error exception => .error (.raised exception)

/-- `except (ZeroDivisionError, TypeError, OverflowError, ValueError)` -/
def catchArithmetic {α : Type} : Except PyException α → Evaluated α
  | .error (.zeroDivisionError message) => .error (.operator (.zeroDivisionError message))
  | .error (.valueError message) => .error (.operator (.valueError message))
  | result => catchOperator result

def opNot (value : V) : Except PyException V := .ok (python.ofBool !python.truth value)

def opPow (left right : V) : Except PyException V := do
  python.arithmetic .pow (← python.float left) (← python.float right)

def evalUnaryOp (op : UnaryOp) (operand : Evaluated V) : Evaluated V :=
  match op with
  | .other type => .error (.unaryOperator type)
  | .not => do catchOperator (opNot python (← operand))
  | .uSub => do catchOperator (python.neg (← operand))
  | .uAdd => do catchOperator (python.pos (← operand))

def evalBinOp (left : Evaluated V) (op : BinOp) (right : Evaluated V) : Evaluated V :=
  match op with
  | .other type => .error (.binaryOperator type)
  | .pow => do catchArithmetic (opPow python (← left) (← right))
  | op => do catchArithmetic (python.arithmetic op (← left) (← right))

mutual

def walk (metrics : Option (Metrics V)) : Node V → Evaluated V
  | .constant value => .ok value
  | .name id => evalName python id metrics
  | .boolOp op values => walkBool metrics op (python.ofBool (op == .and)) values
  | .unaryOp op operand => evalUnaryOp python op (walk metrics operand)
  | .binOp left op right => evalBinOp python (walk metrics left) op (walk metrics right)
  | .compare left ops comparators =>
    match ops.findSome? CmpOp.other? with
    | some type => .error (.comparisonOperator type)
    | none => do walkCompare metrics (← walk metrics left) ops comparators
  | .other type _ => .error (.nodeType type)

/-- The values of an `and` or an `or`, up to the one that decides it. -/
def walkBool (metrics : Option (Metrics V)) (op : BoolOp) (result : V) : List (Node V) → Evaluated V
  | [] => .ok result
  | value :: rest => do
    let result ← walk metrics value
    if python.truth result == (op == .or) then .ok result
    else walkBool metrics op result rest

/-- The comparisons of a chain, up to the first that does not hold. -/
def walkCompare (metrics : Option (Metrics V)) (left : V) :
    List CmpOp → List (Node V) → Evaluated V
  | op :: ops, comparator :: comparators => do
    let right ← walk metrics comparator
    if python.truth (← catchOperator (python.comparison op left right)) then
      walkCompare metrics right ops comparators
    else .ok (python.ofBool false)
  | _, _ => .ok (python.ofBool true)

end

/-! ### Conditions -/

variable (parse : Text → Except String (Node V))

/-- A condition is parsed by `ast.parse`, which may raise a `SyntaxError`. -/
def parseCondition (condition : Text) : Evaluated (Node V) :=
  if condition.all Actions.isSpace then .error .empty
  else (parse (normalizeOperators condition)).mapError (.invalidSyntax (String.ofList condition))

def validate (condition : Text) : Evaluated Unit := do
  let tree ← parseCondition parse condition
  validateTree python tree
  discard (walk python none tree)

def evaluate (condition : Text) (metrics : Metrics V) : Evaluated Bool := do
  let tree ← parseCondition parse condition
  validateTree python tree
  return python.truth (← walk python (some metrics) tree)

end Dqx.Conditions
