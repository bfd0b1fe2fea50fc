import Dqx.LowCode.Compile

/-! The two languages that the low-code compiler is written in. -/

namespace Dqx.LowCode

open Lib.Sql (Text)

variable {ν : Type}

namespace Python

/-- What Python does with numbers and with the characters of a string. -/
structure Runtime (ν : Type) where
  number : ν → Text
  isZero : ν → Bool
  /-- The `repr` of a string. -/
  repr : Text → Text

variable (runtime : Runtime ν)

mutual

def reprJson : Json ν → Text
  | .null => "None".toList
  | .bool b => (if b then "True" else "False").toList
  | .num n => runtime.number n
  | .str s => runtime.repr s
  | .list items => '[' :: (reprItems items ++ [']'])
  | .obj entries => '\x7b' :: (reprEntries entries ++ ['\x7d'])

def reprItems : List (Json ν) → Text
  | [] => []
  | [item] => reprJson item
  | item :: items => reprJson item ++ ", ".toList ++ reprItems items

def reprEntries : List (Text × Json ν) → Text
  | [] => []
  | [(key, value)] => runtime.repr key ++ ": ".toList ++ reprJson value
  | (key, value) :: entries =>
    runtime.repr key ++ ": ".toList ++ reprJson value ++ ", ".toList ++ reprEntries entries

end

/-- `str(value)` -/
def str : Json ν → Text
  | .str s => s
  | value => reprJson runtime value

def truthy : Json ν → Bool
  | .null => false
  | .bool b => b
  | .num n => !runtime.isZero n
  | .str s => !s.isEmpty
  | .list items => !items.isEmpty
  | .obj entries => !entries.isEmpty

def isDot : Json ν → Bool
  | .str s => s = ['.']
  | _ => false

/-- `"." in column` -/
def hasDot : Json ν → Option Bool
  | .str s => some (s.contains '.')
  | .list items => some (items.any isDot)
  | .obj entries => some (entries.any fun entry => entry.1 = ['.'])
  | _ => none

def isControl (c : Char) : Bool :=
  c.toNat < 32 || c.toNat = 127

/-- The pattern's end matches before a last newline too. -/
def validIdentifier (part : Text) : Bool :=
  let body := if part.getLast? = some '\n' then part.dropLast else part
  !body.isEmpty && part.length ≤ 255 && body.all fun c => c ≠ '`' && c ≠ '\\' && !isControl c

def unquoted (part : Text) : Text :=
  if 2 ≤ part.length ∧ part.head? = some '`' ∧ part.getLast? = some '`' then
    (part.drop 1).dropLast
  else part

def bounds : Json ν → Json ν × Json ν
  | .list (low :: high :: _) => (low, high)
  | _ => (.null, .null)

def items : Json ν → List (Json ν)
  | .list items => items
  | _ => []

def intervalField (key default : String) : Json ν → Text
  | .obj entries =>
    match Json.get entries key with
    | some value => str runtime value
    | none => default.toList
  | _ => default.toList

/-- A list or an object is no key of a dictionary. -/
def aggregate : Json ν → Option AggregateEntry
  | .str name => some ((Aggregate.ofName name).elim .missing .own)
  | .list _ => none
  | .obj _ => none
  | _ => some .missing

def spaces : List Nat :=
  [9, 10, 11, 12, 13, 28, 29, 30, 31, 32, 133, 160, 5760, 8192, 8193, 8194, 8195, 8196, 8197, 8198,
    8199, 8200, 8201, 8202, 8232, 8233, 8239, 8287, 12288]

def isBareSlot (key : Text) : Bool :=
  key.take 2 = "\x7b\x7b".toList && key.drop (key.length - 2) = "\x7d\x7d".toList &&
    !((key.drop 2).take (key.length - 4)).contains '.'

def host : Host ν where
  str value := some (str runtime value)
  number := runtime.number
  truthy := truthy runtime
  hasDot := hasDot
  path value := some (str runtime value)
  validIdentifier := validIdentifier
  unquoted := unquoted
  bounds := bounds
  items value := some (items value)
  intervalField key default value := some (intervalField runtime key default value)
  validityType value := some (textOf validitySqlType (str runtime value))
  aggregate := aggregate
  inherited _ _ := none
  combinator value := some (if truthy runtime value then str runtime value else "AND".toList)
  joinType value :=
    some ((textOf joinTypeSql (str runtime value)).getD "INNER JOIN".toList)
  skipsNull := true
  isSpace c := spaces.contains c.toNat
  isBareSlot := isBareSlot

/-- A finite float, by its `repr`. -/
structure Float where
  negative : Bool
  whole : Text
  fraction : Option Text
  exponent : Option (Bool × Text)
  whole_digits : Lib.Sql.IsDigits whole
  fraction_digits : ∀ digits ∈ fraction, Lib.Sql.IsDigits digits
  exponent_digits : ∀ e ∈ exponent, Lib.Sql.IsDigits e.2

/-- The number of a JSON document. -/
inductive Number where
  | int (n : Int)
  | float (x : Float)

def Number.negative : Number → Bool
  | .int n => n < 0
  | .float x => x.negative

/-- The number without its sign. -/
def Number.magnitude : Number → Text
  | .int n => Nat.toDigits 10 n.natAbs
  | .float x => Lib.Sql.numeral x.whole x.fraction x.exponent

def Number.text (n : Number) : Text :=
  if n.negative then '-' :: n.magnitude else n.magnitude

def Number.isZero : Number → Bool
  | .int n => n = 0
  | .float x => (x.whole ++ x.fraction.getD []).all (· = '0')

def Runtime.ofRepr (repr : Text → Text) : Runtime Number :=
  ⟨Number.text, Number.isZero, repr⟩

end Python

end Dqx.LowCode
