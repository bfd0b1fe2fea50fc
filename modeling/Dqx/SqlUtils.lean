import Dqx.Lib.SqlName
import Dqx.LowCode.Hosts

/-! The names of tables and views in the statements of the app. -/

namespace Dqx.SqlUtils

open Lib.Sql LowCode

/-- A pattern's end matches before a last newline too. -/
def patternBody (text : Text) : Text :=
  if text.getLast? = some '\n' then text.dropLast else text

/-- `^__sql_check__/[a-zA-Z0-9_\-]+$` -/
def isSqlCheckKey (fqn : Text) : Bool :=
  let body := patternBody fqn
  let rest := body.drop 14
  body.take 14 = "__sql_check__/".toList && !rest.isEmpty &&
    rest.all fun c => c.isAlphanum || c = '_' || c = '-'

/-- `^[a-zA-Z_][a-zA-Z0-9_]*$` -/
def isSimpleIdent (part : Text) : Bool :=
  match patternBody part with
  | [] => false
  | c :: rest => (c.isAlpha || c = '_') && rest.all fun d => d.isAlphanum || d = '_'

def validateFqn (fqn : Text) : Bool :=
  let parts := fqn.splitOn '.'
  !fqn.isEmpty && (isSqlCheckKey fqn ||
    parts.length = 3 && parts.all fun part => Python.validIdentifier (Python.unquoted part))

def fqnNeedsQuoting (fqn : Text) : Bool :=
  let parts := fqn.splitOn '.'
  parts.length ≠ 3 || !parts.all isSimpleIdent

def quoteIdent (part : Text) : Text :=
  '`' :: (double '`' (Python.unquoted part) ++ ['`'])

def quoteFqn (fqn : Text) : Text :=
  ['.'].intercalate ((fqn.splitOn '.').map quoteIdent)

/-- The identifiers that a name with dots stands for, its parts quoted or not. -/
def identifiers (fqn : Text) : List Text :=
  (fqn.splitOn '.').map Python.unquoted

theorem quoteFqn_eq_dotted (fqn : Text) : quoteFqn fqn = dotted (identifiers fqn) := by
  rw [quoteFqn, identifiers]
  generalize fqn.splitOn '.' = parts
  induction parts with
  | nil => rfl
  | cons part parts ih =>
    cases parts with
    | nil => simp [dotted, quoteIdent, quoteName]
    | cons next parts =>
      simp only [List.map_cons, List.intercalate_cons_cons, dotted] at ih ⊢
      rw [ih]
      simp [quoteIdent, quoteName]

/-- A quoted name stands for its identifiers. -/
theorem nameParts_lex_quoteFqn (fqn : Text) :
    nameParts (lex (quoteFqn fqn)) = some (identifiers fqn) := by
  rw [quoteFqn_eq_dotted]
  have hne : identifiers fqn ≠ [] := by simp [identifiers]
  obtain ⟨part, parts, hparts⟩ := List.exists_cons_of_ne_nil hne
  rw [hparts, nameParts_lex_dotted]

/-- The identifiers of a name of three parts without dots. -/
theorem identifiers_join {a b c : Text} (ha : '.' ∉ a) (hb : '.' ∉ b) (hc : '.' ∉ c) :
    identifiers (a ++ '.' :: (b ++ '.' :: c)) =
      [Python.unquoted a, Python.unquoted b, Python.unquoted c] := by
  rw [identifiers, List.splitOn_append_cons_self_of_not_mem ha,
    List.splitOn_append_cons_self_of_not_mem hb, List.splitOn_eq_singleton hc]
  rfl

end Dqx.SqlUtils
