import Dqx.Conditions.Evaluator

/-! What validation says about evaluation. Both check the structure of the whole tree first, so that no
evaluation meets a node that is not allowed. Validation then evaluates the tree with the value 1 for
every metric, and rejects a condition on which that fails, whatever it gives on other metrics. -/

namespace Dqx.Conditions

variable {V : Type}

/-! ### Visits -/

def Visit.depth : Visit V → Nat
  | node n => n.depth
  | leaf _ => 1

theorem depth_pos (n : Node V) : 1 ≤ n.depth := by
  cases n <;> simp [Node.depth]

theorem depth_le_depthOf {n : Node V} {nodes : List (Node V)} (h : n ∈ nodes) :
    n.depth ≤ depthOf nodes := by
  induction nodes with
  | nil => cases h
  | cons m nodes ih =>
    rw [depthOf]
    rcases List.mem_cons.mp h with rfl | h
    · exact Nat.le_max_left _ _
    · exact Nat.le_trans (ih h) (Nat.le_max_right _ _)

theorem Visit.depth_lt {v c : Visit V} (h : c ∈ v.children) : c.depth < v.depth := by
  cases v with
  | leaf type => cases h
  | node n =>
    have hnodes : ∀ nodes : List (Node V), c ∈ nodes.map Visit.node → c.depth ≤ depthOf nodes := by
      intro nodes hc
      obtain ⟨m, hm, rfl⟩ := List.mem_map.mp hc
      exact depth_le_depthOf hm
    cases n with
    | constant value => cases h
    | name id =>
      obtain rfl := List.mem_singleton.mp h
      simp [Visit.depth, Node.depth]
    | boolOp op values =>
      rcases List.mem_cons.mp h with rfl | h
      · simp [Visit.depth, Node.depth]
      · have hle := hnodes _ h
        simp only [Visit.depth.eq_1, Node.depth]
        omega
    | unaryOp op operand =>
      simp only [Visit.children, List.mem_cons, List.not_mem_nil, or_false] at h
      rcases h with rfl | rfl <;> simp [Visit.depth, Node.depth]
    | binOp left op right =>
      simp only [Visit.children, List.mem_cons, List.not_mem_nil, or_false] at h
      rcases h with rfl | rfl | rfl <;> simp only [Visit.depth, Node.depth] <;> omega
    | compare left ops comparators =>
      simp only [Visit.children, List.mem_cons, List.mem_append, List.mem_map] at h
      rcases h with rfl | ⟨op, -, rfl⟩ | h
      · simp only [Visit.depth, Node.depth]
        omega
      · simp only [Visit.depth, Node.depth]
        omega
      · have hle := hnodes comparators (List.mem_map.mpr h)
        simp only [Visit.depth.eq_1, Node.depth]
        omega
    | other type children =>
      have hle := hnodes _ h
      simp only [Visit.depth.eq_1, Node.depth]
      omega

/-- What holds of a visit if it holds of its children holds of every visit. -/
theorem Visit.induction {P : Visit V → Prop} (step : ∀ v, (∀ c ∈ v.children, P c) → P v)
    (v : Visit V) : P v := by
  induction hd : v.depth using Nat.strongRecOn generalizing v with
  | _ d ih =>
    apply step
    intro c hc
    exact ih c.depth (hd ▸ Visit.depth_lt hc) c rfl

/-- `P` holds of a visit and of everything below it. -/
inductive Everywhere (P : Visit V → Prop) : Visit V → Prop
  | intro {v : Visit V} (self : P v) (children : ∀ c ∈ v.children, Everywhere P c) : Everywhere P v

theorem Everywhere.self {P : Visit V → Prop} {v : Visit V} (h : Everywhere P v) : P v := by
  cases h
  assumption

theorem Everywhere.child {P : Visit V → Prop} {v c : Visit V} (h : Everywhere P v)
    (hc : c ∈ v.children) : Everywhere P c := by
  cases h with
  | intro _ children => exact children c hc

theorem forall_levels {P : Visit V → Prop} {depth : Nat} {visits : List (Visit V)}
    (hdepth : ∀ v ∈ visits, v.depth ≤ depth) :
    (∀ v ∈ levels depth visits, P v) ↔ ∀ v ∈ visits, Everywhere P v := by
  induction depth generalizing visits with
  | zero =>
    have hempty : visits = [] := by
      apply List.eq_nil_iff_forall_not_mem.mpr
      intro v hv
      have hpos : 1 ≤ v.depth := by
        cases v with
        | node n => exact depth_pos n
        | leaf type => exact Nat.le_refl 1
      have hzero := hdepth v hv
      omega
    simp [hempty, levels]
  | succ depth ih =>
    have hnext : ∀ c ∈ visits.flatMap Visit.children, c.depth ≤ depth := by
      intro c hc
      obtain ⟨v, hv, hcv⟩ := List.mem_flatMap.mp hc
      have hlt := Visit.depth_lt hcv
      have hle := hdepth v hv
      omega
    rw [levels, List.forall_mem_append, ih hnext]
    constructor
    · rintro ⟨hhere, hbelow⟩ v hv
      exact .intro (hhere v hv) fun c hc => hbelow c (List.mem_flatMap.mpr ⟨v, hv, hc⟩)
    · intro h
      refine ⟨fun v hv => (h v hv).self, fun c hc => ?_⟩
      obtain ⟨v, hv, hcv⟩ := List.mem_flatMap.mp hc
      exact (h v hv).child hcv

theorem forall_astWalk {P : Visit V → Prop} (hexpression : P (.leaf "Expression")) (tree : Node V) :
    (∀ v ∈ astWalk tree, P v) ↔ Everywhere P (.node tree) := by
  have hdepth : ∀ v ∈ [Visit.node tree], v.depth ≤ tree.depth := by
    intro v hv
    rw [List.mem_singleton.mp hv]
    exact Nat.le_refl _
  rw [astWalk, List.forall_mem_cons, forall_levels hdepth, List.forall_mem_singleton]
  exact and_iff_right hexpression

/-! ### The walk -/

variable {python : Python V}

theorem forM_eq_ok {α : Type} {f : α → Evaluated Unit} {xs : List α} :
    xs.forM f = .ok () ↔ ∀ x ∈ xs, f x = .ok () := by
  induction xs with
  | nil => simp [pure, Except.pure]
  | cons x xs ih =>
    rw [List.forall_mem_cons, ← ih]
    show (f x >>= fun _ => xs.forM f) = .ok () ↔ _
    cases f x with
    | error error => simp [bind, Except.bind]
    | ok value => simp [bind, Except.bind]

theorem validateTree_eq_ok {tree : Node V} : validateTree python tree = .ok () ↔
    Everywhere (fun v => checkVisit python v = .ok ()) (.node tree) := by
  rw [validateTree, forM_eq_ok, forall_astWalk]
  simp [checkVisit, Visit.type, allowedNodeTypes]

/-- The result is no error about a node that is not allowed. -/
def Admissible {α : Type} (result : Evaluated α) : Prop :=
  ∀ error, result = .error error → error.isDisallowed = false

theorem admissible_ok {α : Type} (value : α) : Admissible (.ok value : Evaluated α) := nofun

theorem Admissible.bind {α β : Type} {result : Evaluated α} {f : α → Evaluated β}
    (h : Admissible result) (hf : ∀ value, Admissible (f value)) : Admissible (result >>= f) := by
  cases result with
  | error error =>
    intro e he
    cases he
    exact h error rfl
  | ok value => exact hf value

theorem admissible_catchOperator {α : Type} (result : Except PyException α) :
    Admissible (catchOperator result) := by
  intro error h
  unfold catchOperator at h
  split at h <;> cases h <;> rfl

theorem admissible_catchArithmetic {α : Type} (result : Except PyException α) :
    Admissible (catchArithmetic result) := by
  intro error h
  unfold catchArithmetic at h
  split at h
  · cases h
    rfl
  · cases h
    rfl
  · exact admissible_catchOperator _ error h

theorem not_checkVisit_leaf {type : OtherType} : checkVisit python (.leaf type) ≠ .ok () := by
  simp [checkVisit, Visit.type, type.2]

section Walk

variable {metrics : Option (Metrics V)}

theorem admissible_walkBool {op : BoolOp} {values : List (Node V)}
    (hvalues : ∀ n ∈ values, Admissible (walk python metrics n)) (result : V) :
    Admissible (walkBool python metrics op result values) := by
  induction values generalizing result with
  | nil =>
    rw [walkBool]
    exact admissible_ok result
  | cons value values ih =>
    obtain ⟨hvalue, hvalues⟩ := List.forall_mem_cons.mp hvalues
    rw [walkBool]
    apply hvalue.bind
    intro result
    split
    · exact admissible_ok result
    · exact ih hvalues result

theorem admissible_walkCompare {comparators : List (Node V)}
    (hvalues : ∀ n ∈ comparators, Admissible (walk python metrics n)) (left : V) (ops : List CmpOp) :
    Admissible (walkCompare python metrics left ops comparators) := by
  induction comparators generalizing left ops with
  | nil => cases ops <;> exact admissible_ok _
  | cons comparator comparators ih =>
    obtain ⟨hvalue, hvalues⟩ := List.forall_mem_cons.mp hvalues
    cases ops with
    | nil => exact admissible_ok _
    | cons op ops =>
      rw [walkCompare]
      apply hvalue.bind
      intro right
      apply (admissible_catchOperator _).bind
      intro holds
      split
      · exact ih hvalues right ops
      · exact admissible_ok _

/-- A tree whose nodes are all allowed is never rejected for one of them. -/
theorem admissible_walk (visit : Visit V) :
    Everywhere (fun v => checkVisit python v = .ok ()) visit → ∀ tree, visit = .node tree →
      Admissible (walk python metrics tree) := by
  induction visit using Visit.induction with
  | _ v ih =>
  rintro hv tree rfl
  have hnode : ∀ n, Visit.node n ∈ (Visit.node tree).children → Admissible (walk python metrics n) :=
    fun n hn => ih _ hn (hv.child hn) n rfl
  cases tree with
  | constant value => exact admissible_ok value
  | name id =>
    intro error herror
    rw [walk] at herror
    unfold evalName at herror
    split at herror
    · cases herror
    · split at herror <;> cases herror
      rfl
  | boolOp op values =>
    rw [walk]
    apply admissible_walkBool
    intro n hn
    exact hnode n (List.mem_cons_of_mem _ (List.mem_map_of_mem hn))
  | unaryOp op operand =>
    have hoperand := hnode operand (List.mem_cons_of_mem _ List.mem_cons_self)
    rw [walk]
    cases op with
    | other type => exact absurd (hv.child List.mem_cons_self).self not_checkVisit_leaf
    | not => exact hoperand.bind fun _ => admissible_catchOperator _
    | uSub => exact hoperand.bind fun _ => admissible_catchOperator _
    | uAdd => exact hoperand.bind fun _ => admissible_catchOperator _
  | binOp left op right =>
    have hleft := hnode left List.mem_cons_self
    have hright := hnode right (by simp [Visit.children])
    rw [walk]
    cases op with
    | other type =>
      exact absurd (hv.child (List.mem_cons_of_mem _ List.mem_cons_self)).self not_checkVisit_leaf
    | _ => exact hleft.bind fun _ => hright.bind fun _ => admissible_catchArithmetic _
  | compare left ops comparators =>
    have hleft := hnode left List.mem_cons_self
    have hops : ops.findSome? CmpOp.other? = none := by
      rw [List.findSome?_eq_none_iff]
      intro op hop
      cases op with
      | other type =>
        have hchild : Visit.leaf type.1 ∈ (Visit.node (.compare left ops comparators)).children :=
          List.mem_cons_of_mem _ (List.mem_append_left _ (List.mem_map.mpr ⟨_, hop, rfl⟩))
        exact absurd (hv.child hchild).self not_checkVisit_leaf
      | _ => rfl
    rw [walk, hops]
    apply hleft.bind
    intro left
    apply admissible_walkCompare
    intro n hn
    exact hnode n (List.mem_cons_of_mem _ (List.mem_append_right _ (List.mem_map_of_mem hn)))
  | other type children =>
    have hself := hv.self
    simp [checkVisit, Visit.type, Node.type, type.2] at hself

end Walk

/-- Where the first result is a value, the second is the same. -/
def Below {α : Type} (result result' : Evaluated α) : Prop :=
  ∀ value, result = .ok value → result' = .ok value

theorem below_refl {α : Type} (result : Evaluated α) : Below result result := fun _ h => h

theorem Below.bind {α β : Type} {result result' : Evaluated α} {f f' : α → Evaluated β}
    (h : Below result result') (hf : ∀ value, Below (f value) (f' value)) :
    Below (result >>= f) (result' >>= f') := by
  cases result with
  | error error => nofun
  | ok value =>
    rw [h value rfl]
    exact hf value

section Metrics

variable {m m' : Option (Metrics V)}

theorem below_walkBool {op : BoolOp} {values : List (Node V)}
    (hvalues : ∀ n ∈ values, Below (walk python m n) (walk python m' n)) (result : V) :
    Below (walkBool python m op result values) (walkBool python m' op result values) := by
  induction values generalizing result with
  | nil =>
    rw [walkBool, walkBool]
    exact below_refl _
  | cons value values ih =>
    obtain ⟨hvalue, hvalues⟩ := List.forall_mem_cons.mp hvalues
    rw [walkBool, walkBool]
    apply hvalue.bind
    intro result
    split
    · exact below_refl _
    · exact ih hvalues result

theorem below_walkCompare {comparators : List (Node V)}
    (hvalues : ∀ n ∈ comparators, Below (walk python m n) (walk python m' n)) (left : V)
    (ops : List CmpOp) :
    Below (walkCompare python m left ops comparators) (walkCompare python m' left ops comparators) := by
  induction comparators generalizing left ops with
  | nil => cases ops <;> exact below_refl _
  | cons comparator comparators ih =>
    obtain ⟨hvalue, hvalues⟩ := List.forall_mem_cons.mp hvalues
    cases ops with
    | nil => exact below_refl _
    | cons op ops =>
      rw [walkCompare, walkCompare]
      apply hvalue.bind
      intro right
      apply (below_refl _).bind
      intro holds
      split
      · exact ih hvalues right ops
      · exact below_refl _

/-- Metrics that give the names of a tree the same values give it the same value. -/
theorem below_walk (visit : Visit V) :
    Everywhere (fun v => ∀ id, v = .node (.name id) →
      Below (evalName python id m) (evalName python id m')) visit →
    ∀ tree, visit = .node tree → Below (walk python m tree) (walk python m' tree) := by
  induction visit using Visit.induction with
  | _ v ih =>
  rintro hv tree rfl
  have hnode : ∀ n, Visit.node n ∈ (Visit.node tree).children →
      Below (walk python m n) (walk python m' n) := fun n hn => ih _ hn (hv.child hn) n rfl
  cases tree with
  | constant value => exact below_refl _
  | name id =>
    rw [walk, walk]
    exact hv.self id rfl
  | boolOp op values =>
    rw [walk, walk]
    apply below_walkBool
    intro n hn
    exact hnode n (List.mem_cons_of_mem _ (List.mem_map_of_mem hn))
  | unaryOp op operand =>
    have hoperand := hnode operand (List.mem_cons_of_mem _ List.mem_cons_self)
    rw [walk, walk]
    cases op with
    | other type => exact below_refl _
    | _ => exact hoperand.bind fun _ => below_refl _
  | binOp left op right =>
    have hleft := hnode left List.mem_cons_self
    have hright := hnode right (by simp [Visit.children])
    rw [walk, walk]
    cases op with
    | other type => exact below_refl _
    | _ => exact hleft.bind fun _ => hright.bind fun _ => below_refl _
  | compare left ops comparators =>
    have hleft := hnode left List.mem_cons_self
    rw [walk, walk]
    split
    · exact below_refl _
    · apply hleft.bind
      intro left
      apply below_walkCompare
      intro n hn
      exact hnode n (List.mem_cons_of_mem _ (List.mem_append_right _ (List.mem_map_of_mem hn)))
  | other type children => exact below_refl _

end Metrics

theorem everywhere_of_forall {P : Visit V → Prop} (h : ∀ v, P v) (v : Visit V) : Everywhere P v := by
  induction v using Visit.induction with
  | _ v ih => exact .intro (h v) ih

/-- Every metric is 1. -/
def Ones (python : Python V) (metrics : Metrics V) : Prop := ∀ metric ∈ metrics, metric.2 = python.one

theorem coerceNumeric_one : coerceNumeric python python.one = python.one := by
  rw [coerceNumeric, if_pos python.isNumber_one]

theorem evalName_ones {metrics : Metrics V} (hones : Ones python metrics) (id : String) :
    Below (evalName python id (some metrics)) (evalName python id none) := by
  intro value h
  unfold evalName at h
  split at h
  · next hnone => cases hnone
  · next hsome =>
    obtain rfl := Option.some.inj hsome
    split at h
    · cases h
    · next found hfound =>
      obtain ⟨before, after, rfl, -⟩ := List.lookup_eq_some_iff.mp hfound
      have hone : found = python.one := hones (id, found) (by simp)
      rw [hone, coerceNumeric_one] at h
      exact h

/-- The metrics that give 1 to every name in a tree. -/
def onesOf (python : Python V) (tree : Node V) : Metrics V :=
  (astWalk tree).filterMap fun
    | .node (.name id) => some (id, python.one)
    | _ => none

theorem ones_onesOf (tree : Node V) : Ones python (onesOf python tree) := by
  intro metric hmetric
  obtain ⟨visit, -, hvisit⟩ := List.mem_filterMap.mp hmetric
  split at hvisit <;> cases hvisit
  rfl

theorem evalName_onesOf {tree : Node V} {id : String} (h : Visit.node (.name id) ∈ astWalk tree) :
    Below (evalName python id none) (evalName python id (some (onesOf python tree))) := by
  intro value hvalue
  obtain rfl : python.one = value := Except.ok.inj hvalue
  have hmem : (id, python.one) ∈ onesOf python tree := List.mem_filterMap.mpr ⟨_, h, rfl⟩
  rw [evalName]
  cases hlookup : (onesOf python tree).lookup id with
  | none =>
    have hne := List.lookup_eq_none_iff.mp hlookup _ hmem
    simp at hne
  | some found =>
    obtain ⟨before, after, hsplit, -⟩ := List.lookup_eq_some_iff.mp hlookup
    have hone : found = python.one := ones_onesOf tree (id, found) (by simp [hsplit])
    simp [hone, coerceNumeric_one]

/-! ### Conditions -/

section Conditions

variable {parse : Text → Except String (Node V)} {condition : Text}

theorem validate_eq_ok : validate python parse condition = .ok () ↔
    ∃ tree, parseCondition parse condition = .ok tree ∧ validateTree python tree = .ok () ∧
      ∃ value, walk python none tree = .ok value := by
  unfold validate
  cases parseCondition parse condition with
  | error error => simp [bind, Except.bind]
  | ok tree =>
    cases hvalid : validateTree python tree with
    | error error => simp [bind, Except.bind, hvalid]
    | ok valid =>
      cases hwalk : walk python none tree <;>
        simp [bind, Except.bind, hvalid, hwalk, discard, Functor.mapConst, Except.map]

theorem evaluate_eq_ok {metrics : Metrics V} {value : Bool} :
    evaluate python parse condition metrics = .ok value ↔
      ∃ tree, parseCondition parse condition = .ok tree ∧ validateTree python tree = .ok () ∧
        ∃ result, walk python (some metrics) tree = .ok result ∧ python.truth result = value := by
  unfold evaluate
  cases parseCondition parse condition with
  | error error => simp [bind, Except.bind]
  | ok tree =>
    cases hvalid : validateTree python tree with
    | error error => simp [bind, Except.bind, hvalid]
    | ok valid =>
      cases hwalk : walk python (some metrics) tree <;>
        simp [bind, Except.bind, hvalid, hwalk, pure, Except.pure]

/-- Validation accepts what can be evaluated on ones. -/
theorem validate_iff_ones : validate python parse condition = .ok () ↔
    ∃ metrics value, Ones python metrics ∧ evaluate python parse condition metrics = .ok value := by
  rw [validate_eq_ok]
  constructor
  · rintro ⟨tree, hparse, hvalid, value, hwalk⟩
    have hcovered : Everywhere (fun v => ∀ id, v = .node (.name id) →
        Below (evalName python id none) (evalName python id (some (onesOf python tree))))
        (.node tree) := by
      rw [← forall_astWalk nofun]
      rintro v hv id rfl
      exact evalName_onesOf hv
    have hones := below_walk _ hcovered tree rfl value hwalk
    exact ⟨_, _, ones_onesOf tree, evaluate_eq_ok.mpr ⟨tree, hparse, hvalid, value, hones, rfl⟩⟩
  · rintro ⟨metrics, value, hones, hevaluate⟩
    obtain ⟨tree, hparse, hvalid, result, hwalk, -⟩ := evaluate_eq_ok.mp hevaluate
    have hnames : Everywhere (fun v => ∀ id, v = .node (.name id) →
        Below (evalName python id (some metrics)) (evalName python id none)) (.node tree) :=
      everywhere_of_forall (fun v id _ => evalName_ones hones id) _
    exact ⟨tree, hparse, hvalid, result, below_walk _ hnames tree rfl result hwalk⟩

theorem admissible_evaluate (hvalidate : validate python parse condition = .ok ())
    (metrics : Metrics V) : Admissible (evaluate python parse condition metrics) := by
  obtain ⟨tree, hparse, hvalid, -⟩ := validate_eq_ok.mp hvalidate
  have hwalk : Admissible (walk python (some metrics) tree) :=
    admissible_walk _ (validateTree_eq_ok.mp hvalid) tree rfl
  rw [evaluate, hparse]
  show Admissible (validateTree python tree >>= _)
  rw [hvalid]
  exact hwalk.bind fun value => admissible_ok _

end Conditions

/-- Validation accepts a condition that some metrics evaluate exactly when metrics that are all 1 do as
well; and no metrics make a condition that it accepts fail for a node that is not allowed. -/
theorem validation_sound_iff (python : Python V) (parse : Text → Except String (Node V))
    (condition : Text) :
    (((∃ metrics value, evaluate python parse condition metrics = .ok value) →
        validate python parse condition = .ok ()) ↔
      ((∃ metrics value, evaluate python parse condition metrics = .ok value) →
        ∃ metrics value, Ones python metrics ∧
          evaluate python parse condition metrics = .ok value)) ∧
    (validate python parse condition = .ok () →
      ∀ metrics error, evaluate python parse condition metrics = .error error →
        error.isDisallowed = false) :=
  ⟨by rw [validate_iff_ones], fun hvalidate metrics => admissible_evaluate hvalidate metrics⟩

/-- Integers and booleans, with the operators that do not give floats. -/
inductive Number where
  | int (n : Int)
  | bool (b : Bool)
  deriving DecidableEq

def Number.value : Number → Int
  | int n => n
  | bool b => b.toNat

def Number.arithmetic (op : BinOp) (left right : Number) : Except PyException Number :=
  match op with
  | .add => .ok (.int (left.value + right.value))
  | .sub => .ok (.int (left.value - right.value))
  | .mult => .ok (.int (left.value * right.value))
  | .floorDiv =>
    if right.value = 0 then .error (.zeroDivisionError "integer division or modulo by zero")
    else .ok (.int (left.value.fdiv right.value))
  | .mod =>
    if right.value = 0 then .error (.zeroDivisionError "integer modulo by zero")
    else .ok (.int (left.value.fmod right.value))
  | op => .error (.other "Float" op.type)

def Number.comparison (op : CmpOp) (left right : Number) : Except PyException Number :=
  match op with
  | .lt => .ok (.bool (left.value < right.value))
  | .ltE => .ok (.bool (left.value ≤ right.value))
  | .gt => .ok (.bool (right.value < left.value))
  | .gtE => .ok (.bool (right.value ≤ left.value))
  | .eq => .ok (.bool (left.value = right.value))
  | .notEq => .ok (.bool (left.value ≠ right.value))
  | op => .error (.typeError op.type)

def numbers : Python Number where
  typeName _ := "int"
  isNumber _ := true
  isStr _ := false
  one := .int 1
  ofBool := .bool
  truth n := n.value ≠ 0
  float n := .ok n
  neg n := .ok (.int (-n.value))
  pos n := .ok (.int n.value)
  arithmetic := Number.arithmetic
  comparison := Number.comparison
  isNumber_one := rfl

/-- The share of new rows among those that have changed. -/
def changedRows : Text := "rows % (rows - old) < 10".toList

def parseChangedRows (condition : Text) : Except String (Node Number) :=
  if condition = changedRows then
    .ok (.compare (.binOp (.name "rows") .mod (.binOp (.name "rows") .sub (.name "old"))) [.lt]
      [.constant (.int 10)])
  else .error "invalid syntax"

/-- A condition that divides by the difference of two metrics is rejected, for they are both 1 while it
is validated, though it can be evaluated. -/
theorem evaluable_condition_rejected :
    evaluate numbers parseChangedRows changedRows [("rows", .int 7), ("old", .int 4)] = .ok true ∧
      validate numbers parseChangedRows changedRows =
        .error (.operator (.zeroDivisionError "integer modulo by zero")) := by
  constructor <;> rfl

end Dqx.Conditions
