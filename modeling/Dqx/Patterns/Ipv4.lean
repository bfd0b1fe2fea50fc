import Dqx.Lib.Captures
import Dqx.Lib.Digits
import Dqx.Lib.SqlValue
import Dqx.Patterns.Email

/-! The check that an address lies in a CIDR block, which Spark computes on strings of bits. -/

namespace Dqx.Patterns

open Lib Lib.Regex Lib.Sql

/-! ### Spark -/

/-- How the evaluation of an expression fails in ANSI mode. -/
inductive SparkError where
  | invalidArrayIndex
  | castInvalidInput
  deriving DecidableEq, Repr

def lpad (text : Text) (length : Nat) (pad : Char) : Text :=
  List.replicate (length - text.length) pad ++ text.take length

def rpad (text : Text) (length : Nat) (pad : Char) : Text :=
  text.take length ++ List.replicate (length - text.length) pad

/-- `conv(text, 10, 2)`: what is read of the text ends before the first other character. -/
def conv (text : Text) : Option Text :=
  if text = [] then none
  else some (Nat.toDigits 2 (Digits.value 10 (text.takeWhile (·.isDigit))))

/-- `array[i]` -/
def element (ansi : Bool) (array : List Text) (i : Nat) : Except SparkError (Option Text) :=
  match array[i]? with
  | some text => .ok (some text)
  | none => if ansi then .error .invalidArrayIndex else .ok none

/-- `CAST(text AS INT)`, of a text that is empty or short and without a sign. -/
def castInt (ansi : Bool) (text : Text) : Except SparkError (Option Nat) :=
  if text ≠ [] ∧ text.all (·.isDigit) then .ok (some (Digits.value 10 text))
  else if ansi then .error .castInvalidInput
  else .ok none

/-- `regexp_extract`, for a pattern that is anchored at both ends. -/
def regexpExtract (text : Text) (pattern : Pattern) (group : Nat) : Text :=
  match pattern.captures text with
  | none => []
  | some groups => if group = 0 then text else groups[group - 1]?.getD []

/-! ### The patterns -/

/-- `_IPV4_OCTET`, where `digit` is what `\d` matches. -/
def octetOf (digit : Char → Bool) : Regex :=
  .alt (.seq (literal ['2', '5']) (digitUpTo '5'))
    (.alt (.seq (char '2') (.seq (digitUpTo '4') (.one digit)))
      (.alt (.seq (char '1') (exactly (.one digit) 2))
        (.seq (optional (.one fun c => '1' ≤ c && c ≤ '9')) (.one digit))))

/-- `_IPV4_CIDR_SUFFIX` -/
def cidrSuffixOf (digit : Char → Bool) : Regex :=
  .alt (.seq (char '3') (digitUpTo '2'))
    (.seq (optional (.one fun c => '1' ≤ c && c ≤ '2')) (.one digit))

/-- `_IPV4_ADDRESS_BODY` -/
def ipv4AddressBody (digit : Char → Bool) : Pattern :=
  .seq (.group (octetOf digit)) (.seq (.plain (char '.'))
    (.seq (.group (octetOf digit)) (.seq (.plain (char '.'))
      (.seq (.group (octetOf digit)) (.seq (.plain (char '.')) (.group (octetOf digit)))))))

/-- `DQPattern.IPV4_ADDRESS` -/
def ipv4Address : Pattern := ipv4AddressBody (·.isDigit)

/-- `DQPattern.IPV4_CIDR_BLOCK` -/
def ipv4CidrBlock (digit : Char → Bool) : Pattern :=
  .seq (ipv4AddressBody digit) (.seq (.plain (char '/')) (.group (cidrSuffixOf digit)))

/-- The zeros of the runs of ten decimal digits in Unicode. -/
def unicodeZeros : List Nat :=
  [0x30, 0x660, 0x6F0, 0x7C0, 0x966, 0x9E6, 0xA66, 0xAE6, 0xB66, 0xBE6, 0xC66, 0xCE6, 0xD66, 0xDE6,
    0xE50, 0xED0, 0xF20, 0x1040, 0x1090, 0x17E0, 0x1810, 0x1946, 0x19D0, 0x1A80, 0x1A90, 0x1B50,
    0x1BB0, 0x1C40, 0x1C50, 0xA620, 0xA8D0, 0xA900, 0xA9D0, 0xA9F0, 0xAA50, 0xABF0, 0xFF10, 0x104A0,
    0x10D30, 0x11066, 0x110F0, 0x11136, 0x111D0, 0x112F0, 0x11450, 0x114D0, 0x11650, 0x116C0,
    0x11730, 0x118E0, 0x11950, 0x11C50, 0x11D50, 0x11DA0, 0x16A60, 0x16AC0, 0x16B50, 0x1D7CE,
    0x1D7D8, 0x1D7E2, 0x1D7EC, 0x1D7F6, 0x1E140, 0x1E2F0, 0x1E950, 0x1FBF0]

/-- The zero of the run that a character belongs to. -/
def zeroOf (c : Char) : Option Nat :=
  unicodeZeros.find? fun start => start ≤ c.toNat && c.toNat < start + 10

/-- `\d` in a Python pattern -/
def isDecimal (c : Char) : Bool := (zeroOf c).isSome

/-! ### The check -/

def ipv4MaxOctetCount : Nat := 4

def ipv4BitLength : Nat := 32

/-- The first octets of an array as bits, unless one of them is missing. -/
def octetsToBits (ansi : Bool) (octets : List Text) : Except SparkError (Option Text) := do
  let elements ← (List.range ipv4MaxOctetCount).mapM (element ansi octets)
  let octetsBin := elements.map fun octet => (octet.bind conv).map (lpad · 8 '0')
  return (octetsBin.mapM id).map List.flatten

def extractOctetsToBits (ansi : Bool) (column : Option Text) (pattern : Pattern) :
    Except SparkError (Option Text) :=
  match column with
  | none => .ok none
  | some text => octetsToBits ansi ((regexpExtract text pattern 0).splitOn '.')

def convertIpv4ToBits (ansi : Bool) (ip : Option Text) : Except SparkError (Option Text) :=
  extractOctetsToBits ansi ip ipv4Address

def convertIpv4CidrToBitsAndPrefix (ansi : Bool) (cidr : Text) :
    Except SparkError (Option Text × Option Nat) := do
  let ipBits ← extractOctetsToBits ansi (some cidr) (ipv4CidrBlock (·.isDigit))
  let prefixLength ← castInt ansi (regexpExtract cidr (ipv4CidrBlock (·.isDigit)) 5)
  return (ipBits, prefixLength)

def getNetworkAddress (ipBits : Option Text) (prefixLength : Option Nat) (totalBits : Nat) :
    Option Text := do
  let bits ← ipBits
  let length ← prefixLength
  return rpad (bits.take length) totalBits '0'

/-- `is_valid_ipv4_address` -/
def isValidIpv4Address (column : Text) (value : Option Text) : Option Text :=
  value.bind fun text =>
    if (ipv4Address.captures text).isSome then none
    else some ("Value '".toList ++ text ++ "' in Column '".toList ++ column ++
      "' does not match pattern 'IPV4_ADDRESS'".toList)

def cidrMessage (column cidr : Text) (value : Option Text) : Text :=
  "Value '".toList ++ value.getD [] ++ "' in Column '".toList ++ column ++
    "' is not in the CIDR block '".toList ++ cidr ++ "'".toList

/-- The argument for the block. -/
inductive CidrArgument where
  | none
  | other (type : Text)
  | text (cidr : Text)

inductive ParameterError where
  | missing (message : Text)
  | invalid (message : Text)
  deriving DecidableEq, Repr

/-- The second operand of the condition, which is evaluated only for addresses and nulls. -/
def outsideCidr (ansi : Bool) (cidr : Text) (value : Option Text) : Except SparkError Truth := do
  let ipBits ← convertIpv4ToBits ansi value
  let (cidrIpBits, prefixLength) ← convertIpv4CidrToBitsAndPrefix ansi cidr
  let ipNet := getNetworkAddress ipBits prefixLength ipv4BitLength
  let cidrNet := getNetworkAddress cidrIpBits prefixLength ipv4BitLength
  return do return (← ipNet) ≠ (← cidrNet)

/-- What is reported of the values of a column. -/
def isIpv4AddressInCidr (ansi : Bool) (column : Text) :
    CidrArgument → Except ParameterError (Option Text → Except SparkError (Option Text))
  | .none => .error (.missing "'cidr_block' is not provided.".toList)
  | .other type =>
    .error (.invalid ("'cidr_block' must be a string, got ".toList ++ type ++ " instead.".toList))
  | .text cidr =>
    if cidr = [] then .error (.invalid "'cidr_block' must be a non-empty string.".toList)
    else if ((ipv4CidrBlock isDecimal).captures cidr).isNone then
      .error (.invalid ("CIDR block '".toList ++ cidr ++ "' is not a valid IPv4 CIDR block.".toList))
    else .ok fun value =>
      match isValidIpv4Address column value with
      | some message => .ok (some message)
      | none => do
        let outside ← outsideCidr ansi cidr value
        return if outside = some true then some (cidrMessage column cidr value) else none

end Dqx.Patterns
