import Dqx.Scheduler.Cron
import Dqx.Actions.Types

/-! The text of a cron expression: its five fields and the values that they match. -/

namespace Dqx.Scheduler

open Actions (isSpace strip)

/-- What `_compute_next_cron_run` raises. -/
inductive CronError where
  | fields (expr : List Char)
  | token (token : List Char)
  | step (part : List Char)
  | int (text : List Char)
  | range (lo hi : Nat) (part : List Char)
  | noValues (raw : List Char)
  | lookahead (expr : List Char)
  deriving DecidableEq

def CronError.message : CronError → String
  | .fields expr => "Cron expression must have exactly 5 fields: '" ++ String.ofList expr ++ "'"
  | .token chars => "Invalid cron token: '" ++ String.ofList chars ++ "'"
  | .step part => "Invalid cron step: '" ++ String.ofList part ++ "'"
  | .int chars => "invalid literal for int() with base 10: '" ++ String.ofList chars ++ "'"
  | .range lo hi part => s!"Cron field value out of range [{lo}, {hi}]: '" ++ String.ofList part ++ "'"
  | .noValues raw => "Invalid cron field: '" ++ String.ofList raw ++ "'"
  | .lookahead expr => "Could not find next occurrence for cron '" ++ String.ofList expr ++
      "' within lookahead window"

/-! ### Integers -/

/-- The zeros of the decimal digits of Unicode; each is followed by the other nine. -/
def digitZeros : List Nat :=
  [0x30, 0x660, 0x6f0, 0x7c0, 0x966, 0x9e6, 0xa66, 0xae6, 0xb66, 0xbe6, 0xc66, 0xce6, 0xd66, 0xde6,
    0xe50, 0xed0, 0xf20, 0x1040, 0x1090, 0x17e0, 0x1810, 0x1946, 0x19d0, 0x1a80, 0x1a90, 0x1b50,
    0x1bb0, 0x1c40, 0x1c50, 0xa620, 0xa8d0, 0xa900, 0xa9d0, 0xa9f0, 0xaa50, 0xabf0, 0xff10, 0x104a0,
    0x10d30, 0x11066, 0x110f0, 0x11136, 0x111d0, 0x112f0, 0x11450, 0x114d0, 0x11650, 0x116c0, 0x11730,
    0x118e0, 0x11950, 0x11c50, 0x11d50, 0x11da0, 0x16a60, 0x16ac0, 0x16b50, 0x1d7ce, 0x1d7d8, 0x1d7e2,
    0x1d7ec, 0x1d7f6, 0x1e140, 0x1e2f0, 0x1e950, 0x1fbf0]

def digit? (c : Char) : Option Nat :=
  (digitZeros.find? fun first => first ≤ c.toNat && c.toNat < first + 10).map (c.toNat - ·)

/-- Digits, with at most one underscore between two of them. -/
def readDigits (value : Nat) : List Char → Option Nat
  | [] => none
  | [c] => (digit? c).map (value * 10 + ·)
  | c :: '_' :: rest => (digit? c).bind fun digit => readDigits (value * 10 + digit) rest
  | c :: rest => (digit? c).bind fun digit => readDigits (value * 10 + digit) rest

/-- `int(text)` -/
def int (text : List Char) : Except CronError Int :=
  let value :=
    match strip text with
    | '-' :: digits => (readDigits 0 digits).map fun n => -(n : Int)
    | '+' :: digits => (readDigits 0 digits).map fun n => (n : Int)
    | digits => (readDigits 0 digits).map fun n => (n : Int)
  match value with
  | none => .error (.int text)
  | some n => .ok n

/-! ### Fields -/

/-- `token.upper()`, for those characters whose upper case is a letter from `A` to `Z`. -/
def upper (c : Char) : Char :=
  if c = 'ı' then 'I' else if c = 'ſ' then 'S' else c.toUpper

def cronWeekdayNames : List (List Char × Nat) :=
  [("SUN".toList, 0), ("MON".toList, 1), ("TUE".toList, 2), ("WED".toList, 3), ("THU".toList, 4),
    ("FRI".toList, 5), ("SAT".toList, 6)]

def resolveCronToken (names : List (List Char × Nat)) (token : List Char) : Except CronError Int :=
  let token := strip token
  match names.lookup (token.map upper) with
  | some value => .ok value
  | none =>
    match int token with
    | .ok value => .ok value
    | .error _ => .error (.token token)

def cronStep (part stepText : List Char) : Except CronError Int :=
  match if stepText = [] then .ok 1 else int stepText with
  | .error error => .error error
  | .ok step => if step ≤ 0 then .error (.step part) else .ok step

/-- The first and the last value of a part without its step. -/
def cronBounds (lo hi : Nat) (names : List (List Char × Nat)) (base : List Char) :
    Except CronError (Int × Int) :=
  if base = ['*'] then .ok (lo, hi)
  else if '-' ∈ base then do
    let start ← resolveCronToken names (base.takeWhile (· ≠ '-'))
    let stop ← resolveCronToken names ((base.dropWhile (· ≠ '-')).drop 1)
    return (start, stop)
  else (resolveCronToken names base).map fun value => (value, value)

/-- The values of one part of a field, which is not empty. -/
def parseCronPart (lo hi : Nat) (names : List (List Char × Nat)) (part : List Char) :
    Except CronError (List Nat) := do
  let step ← cronStep part ((part.dropWhile (· ≠ '/')).drop 1)
  let (start, stop) ← cronBounds lo hi names (part.takeWhile (· ≠ '/'))
  if lo ≤ start ∧ start ≤ hi ∧ lo ≤ stop ∧ stop ≤ hi ∧ start ≤ stop then
    return (List.range' start.toNat (stop.toNat + 1 - start.toNat)).filter fun v =>
      (v - start) % step = 0
  else throw (.range lo hi part)

def parseCronField (raw : List Char) (lo hi : Nat) (names : List (List Char × Nat) := []) :
    Except CronError (List Nat) := do
  let parts := (((strip raw).splitOn ',').map strip).filter (· ≠ [])
  let values ← parts.mapM (parseCronPart lo hi names)
  if values.flatten = [] then throw (.noValues raw) else return values.flatten

/-- `expr.split()` -/
def splitSpaces (text : List Char) : List (List Char) := (text.splitOnP isSpace).filter (· ≠ [])

def parseCron (expr : List Char) : Except CronError Cron :=
  match splitSpaces expr with
  | [minuteF, hourF, domF, monthF, dowF] => do
    let minutes ← parseCronField minuteF 0 59
    let hours ← parseCronField hourF 0 23
    let doms ← parseCronField domF 1 31
    let months ← parseCronField monthF 1 12
    let rawDows ← parseCronField dowF 0 7 cronWeekdayNames
    return {
      minutes, hours, doms, months
      dows := rawDows.map fun v => if v = 7 then 0 else v
      domWild := strip domF = ['*']
      dowWild := strip dowF = ['*'] }
  | _ => .error (.fields expr)

/-- The next occurrence of the text of an expression, in UTC. -/
def nextCronRun (expr : List Char) (after : Nat) : Except CronError Nat := do
  match computeNextCronRun (← parseCron expr) after with
  | some next => return next
  | none => throw (.lookahead expr)

end Dqx.Scheduler
