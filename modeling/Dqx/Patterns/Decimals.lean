import Dqx.Lib.Double
import Dqx.Lib.Places
import Dqx.Patterns.Ipv4

/-! The check of decimal places, which counts digits in the text of a number. -/

namespace Dqx.Patterns

open Lib Lib.Regex Lib.Sql

/-! ### The check -/

/-- `[+-]?` -/
def sign : Regex := optional (.one fun c => c = '+' || c = '-')

/-- `DQPattern.DECIMAL_NUMBER` -/
def decimalNumber : Pattern :=
  .seq (.plain sign) (.seq (.ahead (.seq (optional (char '.')) digit))
    (.seq (.group (.star digit)) (.seq (.optional (.seq (.plain (char '.')) (.group (.star digit))))
      (.optional (.seq (.plain (.one fun c => c = 'e' || c = 'E'))
        (.group (.seq sign (plus digit))))))))

/-- The number that an exponent writes. -/
def signedValue : Text → Int
  | '-' :: digits => -Digits.value 10 digits
  | '+' :: digits => Digits.value 10 digits
  | digits => Digits.value 10 digits

/-- `regexp_replace(text, r"0+\z", "")` -/
def stripTrailingZeros (text : Text) : Text := Digits.significant text

/-- `num_decimal_places`, for a text that matches. -/
def numDecimalPlaces (text : Text) : Double :=
  let integer := regexpExtract text decimalNumber 1
  let fraction := regexpExtract text decimalNumber 2
  let exponent := regexpExtract text decimalNumber 3
  let exponentValue := if exponent = [] then .finite 0 else Double.ofInt (signedValue exponent)
  let significand := stripTrailingZeros (integer ++ fraction)
  let trailingZeros : Int := integer.length + fraction.length - significand.length
  if significand = [] then .finite 0
  else (Double.subFrom (fraction.length - trailingZeros) exponentValue).clamp

/-- `has_num_decimal_places` on one row: `limit` is the value of the limit on that row, unless no
limit is given. -/
def hasNumDecimalPlaces (column : Text) (limit : Option (Option Int)) (allowNulls : Bool)
    (value : Option Text) : Except ParameterError (Option Text) :=
  match limit with
  | none => .error (.missing "Limit is not provided.".toList)
  | some limit =>
    let isLimitNull : Truth := some (value.isSome && limit.isNone)
    let isNumeric : Truth := value.map fun text => (decimalNumber.captures text).isSome
    let exceeds : Truth := do return (numDecimalPlaces (← value)).gt (.ofInt (← limit))
    let condition := (isLimitNull.or isNumeric.not).or exceeds
    let quoted := "Value '".toList ++ value.getD [] ++ "' in Column '".toList ++ column
    let message :=
      if isLimitNull = some true then quoted ++ "' has a null limit".toList
      else if isNumeric.not = some true then quoted ++ "' is not numeric".toList
      else quoted ++ "' has more than ".toList ++ (toString (limit.getD 0)).toList ++
        " decimal places".toList
    if allowNulls then .ok (if condition = some true then some message else none)
    else if Truth.or (some value.isNone) condition = some true then
      .ok (some (if value.isNone then "Column '".toList ++ column ++ "' value is null".toList
        else message))
    else .ok none

/-! ### Numerals -/

/-- A number as it may be written: signs are `-` if true. -/
structure Numeral where
  negative : Option Bool
  whole : Text
  fraction : Option Text
  exponent : Option (Char × Option Bool × Text)
  whole_digits : ∀ c ∈ whole, c.isDigit = true
  fraction_digits : ∀ c ∈ fraction.getD [], c.isDigit = true
  some_digit : whole ++ fraction.getD [] ≠ []
  exponent_form : ∀ mark sign digits, exponent = some (mark, sign, digits) →
    (mark = 'e' ∨ mark = 'E') ∧ digits ≠ [] ∧ ∀ c ∈ digits, c.isDigit = true

def signText : Option Bool → Text
  | none => []
  | some negative => [if negative then '-' else '+']

namespace Numeral

variable (x : Numeral)

def fractionText : Text := (x.fraction.map ('.' :: ·)).getD []

/-- The sign and the digits of the exponent. -/
def exponentGroup : Text := (x.exponent.map fun e => signText e.2.1 ++ e.2.2).getD []

def exponentText : Text := (x.exponent.map fun e => e.1 :: (signText e.2.1 ++ e.2.2)).getD []

def tail : Text := x.whole ++ (x.fractionText ++ x.exponentText)

def text : Text := signText x.negative ++ x.tail

def exponentValue : Int :=
  (x.exponent.map fun e =>
    if e.2.1 = some true then -(Digits.value 10 e.2.2 : Int) else Digits.value 10 e.2.2).getD 0

/-- The exact value. -/
def value : ℚ :=
  let significand := x.whole ++ x.fraction.getD []
  (if x.negative = some true then -1 else 1) *
    (Digits.value 10 significand * 10 ^ (x.exponentValue - ((x.fraction.getD []).length : Int)))

end Numeral

/-- The text is no number, or the number has more than `n` decimal places. -/
def TooPrecise (text : Text) (n : Nat) : Prop :=
  (∀ x : Numeral, x.text ≠ text) ∨
    ∃ x : Numeral, x.text = text ∧ ∃ d, IsLeast (Clearing x.value) d ∧ n < d

end Dqx.Patterns
