import Dqx.Actions.Types
import Dqx.Lib.Nesting
import Dqx.Lib.Digits
import Dqx.Lib.SqlLexer

/-! The physical types of a data contract: the validator of Unity Catalog types, and the DDL of a schema
whose properties have such types. -/

namespace Dqx.Contracts

open Lib Lib.Sql
open Actions (isSpace strip)

/-- What Python knows of characters that are not ASCII. White space has no letter case, and is no
digit. -/
structure Letters where
  upper : Char → Text
  /-- The value of a decimal digit. -/
  digit : Char → Option Nat
  upper_space : ∀ c, isSpace c = true → upper c = [c]
  digit_space : ∀ c, isSpace c = true → digit c = none

/-- `InvalidPhysicalTypeError`, by what it is about. -/
inductive InvalidPhysicalType where
  | noOpeningBracket (type : Text)
  | unmatchedBrackets (type : Text)
  | badPrecision (precision : Nat)
  | badScale (precision scale : Nat)
  | emptyArray (type : Text)
  | emptyMap (type : Text)
  | mapParameters (count : Nat)
  | emptyField (type : Text)
  | noColon (field : Text)
  | missingNameOrType (field : Text)
  | emptyStruct (type : Text)
  | tooDeep
  | notSet
  | notUnityType (type : Text)
  deriving DecidableEq, Repr

def referenceHint : String :=
  "See: https://learn.microsoft.com/en-gb/azure/databricks/sql/language-manual/sql-ref-datatypes"

def maxTypeRecursionDepth : Nat := 50

/-- The message of the error. -/
def InvalidPhysicalType.message : InvalidPhysicalType → String
  | .noOpeningBracket type =>
    s!"physicalType '{String.ofList type}' has no opening angle bracket for complex type."
  | .unmatchedBrackets type => s!"physicalType '{String.ofList type}' has unmatched angle brackets."
  | .badPrecision precision =>
    s!"DECIMAL precision must be between 1 and 38 (Spark limit), got {precision}."
  | .badScale precision scale =>
    s!"DECIMAL scale must be between 0 and precision ({precision}), got {scale}."
  | .emptyArray type => s!"physicalType '{String.ofList type}' has empty ARRAY element type. " ++
    "Use ARRAY<element_type>, e.g. ARRAY<STRING>."
  | .emptyMap type => s!"physicalType '{String.ofList type}' has empty MAP key/value types. " ++
    "Use MAP<key_type,value_type>, e.g. MAP<STRING,INT>."
  | .mapParameters count =>
    s!"physicalType MAP must have exactly two type parameters (key, value), got {count}."
  | .emptyField type => s!"physicalType STRUCT has empty field spec in '{String.ofList type}'."
  | .noColon field => s!"physicalType STRUCT field must be 'name: type', got '{String.ofList field}'."
  | .missingNameOrType field =>
    s!"physicalType STRUCT field has missing name or type in '{String.ofList field}'."
  | .emptyStruct type => s!"physicalType '{String.ofList type}' has empty STRUCT fields. " ++
    "Use STRUCT<name:type,...>, e.g. STRUCT<id:STRING,count:INT>."
  | .tooDeep => s!"physicalType nesting exceeds maximum depth ({maxTypeRecursionDepth}). " ++
    "Check for malformed or excessively nested types."
  | .notSet => "physicalType must be set to a Unity Catalog data type (e.g. STRING, INT, " ++
    "ARRAY<STRING>). " ++ referenceHint
  | .notUnityType type =>
    s!"physicalType '{String.ofList type}' is not a valid Unity Catalog data type. " ++
    "Allowed types include: STRING, INT, BIGINT, FLOAT, DOUBLE, BOOLEAN, DATE, TIMESTAMP, " ++
    "DECIMAL(p,s), ARRAY<T>, MAP<K,V>, STRUCT<...>. " ++ referenceHint

/-- `_UNITY_SIMPLE_TYPES` -/
inductive SimpleType where
  | string | int | bigint | float | double | boolean | date | timestamp | timestampNtz | binary
  | variant | smallint | tinyint
  deriving DecidableEq, Repr

namespace SimpleType

def keyword : SimpleType → Text
  | string => ['S', 'T', 'R', 'I', 'N', 'G']
  | int => ['I', 'N', 'T']
  | bigint => ['B', 'I', 'G', 'I', 'N', 'T']
  | float => ['F', 'L', 'O', 'A', 'T']
  | double => ['D', 'O', 'U', 'B', 'L', 'E']
  | boolean => ['B', 'O', 'O', 'L', 'E', 'A', 'N']
  | date => ['D', 'A', 'T', 'E']
  | timestamp => ['T', 'I', 'M', 'E', 'S', 'T', 'A', 'M', 'P']
  | timestampNtz => ['T', 'I', 'M', 'E', 'S', 'T', 'A', 'M', 'P', '_', 'N', 'T', 'Z']
  | binary => ['B', 'I', 'N', 'A', 'R', 'Y']
  | variant => ['V', 'A', 'R', 'I', 'A', 'N', 'T']
  | smallint => ['S', 'M', 'A', 'L', 'L', 'I', 'N', 'T']
  | tinyint => ['T', 'I', 'N', 'Y', 'I', 'N', 'T']

def all : List SimpleType :=
  [string, int, bigint, float, double, boolean, date, timestamp, timestampNtz, binary, variant,
    smallint, tinyint]

end SimpleType

def arrayKeyword : Text := ['A', 'R', 'R', 'A', 'Y']

def mapKeyword : Text := ['M', 'A', 'P']

def structKeyword : Text := ['S', 'T', 'R', 'U', 'C', 'T']

def decimalKeyword : Text := ['D', 'E', 'C', 'I', 'M', 'A', 'L']

/-- `_UNITY_COMPLEX_PREFIXES` -/
def unityComplexPrefixes : List Text :=
  [['G', 'E', 'O', 'G', 'R', 'A', 'P', 'H', 'Y', '('], ['G', 'E', 'O', 'M', 'E', 'T', 'R', 'Y', '('],
    ['I', 'N', 'T', 'E', 'R', 'V', 'A', 'L', ' ']]

namespace Letters

variable (letters : Letters)

/-- `str.upper()` -/
def toUpper (text : Text) : Text :=
  text.flatMap fun c => if c.toNat < 128 then [c.toUpper] else letters.upper c

/-- The value of a character that `\d` matches. -/
def digitValue (c : Char) : Option Nat :=
  if c.toNat < 128 then if c.isDigit then some (c.toNat - '0'.toNat) else none else letters.digit c

/-- `int` of digits. -/
def number (digits : Text) : Nat :=
  digits.foldl (fun n c => 10 * n + (letters.digitValue c).getD 0) 0

end Letters

/-- A letter of a pattern and a character that `re.IGNORECASE` takes for it. -/
def sameLetter (letter c : Char) : Bool :=
  c.toLower = letter.toLower || (letter = 'I' && (c.toNat = 0x130 || c.toNat = 0x131))

/-- What follows the letters of a word in any letter case. -/
def afterWord : Text → Text → Option Text
  | [], text => some text
  | _ :: _, [] => none
  | letter :: word, c :: text => if sameLetter letter c then afterWord word text else none

/-- What follows a character that may have white space before it. -/
def afterMark (mark : Char) (text : Text) : Option Text :=
  match text.dropWhile isSpace with
  | [] => none
  | c :: rest => if c = mark then some rest else none

/-- `_UNITY_DECIMAL_PATTERN`, with the texts of its groups. -/
def decimalMatch (letters : Letters) (text : Text) : Option (Text × Text) := do
  let isDigit (c : Char) := (letters.digitValue c).isSome
  let parameters ← (afterWord decimalKeyword text).bind (afterMark '(')
  let precision := (parameters.dropWhile isSpace).takeWhile isDigit
  let second ← afterMark ',' ((parameters.dropWhile isSpace).dropWhile isDigit)
  let scale := (second.dropWhile isSpace).takeWhile isDigit
  let rest ← afterMark ')' ((second.dropWhile isSpace).dropWhile isDigit)
  if precision.isEmpty || scale.isEmpty || !(rest.all isSpace) then none else some (precision, scale)

/-- How a character changes the depth of angle brackets. -/
def angle (c : Char) : Int := if c = '<' then 1 else if c = '>' then -1 else 0

/-- How a character changes the depth of brackets. -/
def bracket (c : Char) : Int :=
  if c = '<' ∨ c = '(' then 1 else if c = '>' ∨ c = ')' then -1 else 0

/-- `_extract_content_in_angle_brackets`; the count of the source begins at one, for the bracket that
is found first. -/
def extractContentInAngleBrackets (type : Text) : Except InvalidPhysicalType Text :=
  match type.dropWhile (· ≠ '<') with
  | [] => .error (.noOpeningBracket type)
  | _ :: rest =>
    match Nesting.breakTop angle (· = '>') 0 rest with
    | none => .error (.unmatchedBrackets type)
    | some (content, _) => .ok (strip content)

/-- `_split_top_level_comma` -/
def splitTopLevelComma (content : Text) : List Text :=
  (Nesting.splitTop bracket (· = ',') 0 content).map strip

def decimalText (precision scale : Text) : Text :=
  decimalKeyword ++ '(' :: (precision ++ ',' :: (scale ++ [')']))

/-- `_validate_decimal` -/
def validateDecimal (precision scale : Nat) : Except InvalidPhysicalType Text :=
  if precision < 1 ∨ 38 < precision then .error (.badPrecision precision)
  else if precision < scale then .error (.badScale precision scale)
  else .ok (decimalText (Nat.toDigits 10 precision) (Nat.toDigits 10 scale))

section Nested

variable (validate : Text → Except InvalidPhysicalType Text)

/-- A type with parameters in angle brackets. -/
def withParameters (keyword content : Text) : Text := keyword ++ '<' :: (content ++ ['>'])

/-- `_validate_array_type` -/
def validateArrayType (stripped type : Text) : Except InvalidPhysicalType Text := do
  let inner ← extractContentInAngleBrackets stripped
  if inner.isEmpty then throw (.emptyArray type)
  let validated ← validate inner
  pure (withParameters arrayKeyword validated)

/-- `_validate_map_type` -/
def validateMapType (stripped type : Text) : Except InvalidPhysicalType Text := do
  let inner ← extractContentInAngleBrackets stripped
  if inner.isEmpty then throw (.emptyMap type)
  match splitTopLevelComma inner with
  | [key, value] =>
    let validatedKey ← validate key
    let validatedValue ← validate value
    pure (withParameters mapKeyword (validatedKey ++ ',' :: validatedValue))
  | parameters => throw (.mapParameters parameters.length)

/-- `_parse_struct_field_and_validate` -/
def parseStructFieldAndValidate (type field : Text) : Except InvalidPhysicalType Text :=
  if field.isEmpty then .error (.emptyField type)
  else
    match Nesting.breakTop bracket (· = ':') 0 field with
    | none => .error (.noColon field)
    | some (fieldName, fieldType) =>
      if (strip fieldName).isEmpty || (strip fieldType).isEmpty then .error (.missingNameOrType field)
      else do
        let validated ← validate (strip fieldType)
        pure (strip fieldName ++ ':' :: validated)

/-- `_validate_struct_type` -/
def validateStructType (stripped type : Text) : Except InvalidPhysicalType Text := do
  let inner ← extractContentInAngleBrackets stripped
  if inner.isEmpty then throw (.emptyStruct type)
  let validated ← (splitTopLevelComma inner).mapM (parseStructFieldAndValidate validate type)
  pure (withParameters structKeyword ([','].intercalate validated))

end Nested

/-- `_validate_unity_physical_type`, with the number of levels that are left. -/
def validateUnityPhysicalType (letters : Letters) : Nat → Text → Except InvalidPhysicalType Text
  | 0, _ => .error .tooDeep
  | left + 1, type =>
    let stripped := strip type
    let upper := letters.toUpper stripped
    if stripped.isEmpty then .error .notSet
    else if SimpleType.all.any (·.keyword = upper) then .ok upper
    else match decimalMatch letters stripped with
      | some (precision, scale) => validateDecimal (letters.number precision) (letters.number scale)
      | none =>
        if (arrayKeyword ++ ['<']).isPrefixOf upper then
          validateArrayType (validateUnityPhysicalType letters left) stripped type
        else if (mapKeyword ++ ['<']).isPrefixOf upper then
          validateMapType (validateUnityPhysicalType letters left) stripped type
        else if (structKeyword ++ ['<']).isPrefixOf upper then
          validateStructType (validateUnityPhysicalType letters left) stripped type
        else if unityComplexPrefixes.any (·.isPrefixOf upper) then .ok upper
        else .error (.notUnityType type)

/-- A physical type, from the outside. -/
def validatePhysicalType (letters : Letters) (type : Text) : Except InvalidPhysicalType Text :=
  validateUnityPhysicalType letters (maxTypeRecursionDepth + 1) type

end Dqx.Contracts
