import Dqx.Lib.Glob
import Dqx.Lib.SqlLexer

/-! The two pattern languages in the listing of tables: the shell patterns of `fnmatch`, and the
`LIKE` patterns by which the workspace filters schemas. Text is a list of characters. -/

namespace Dqx.Tables

open Lib

abbrev Text := List Char

/-- What stands between brackets: single characters and ranges. -/
inductive ClassItem where
  | char (c : Char)
  | range (low high : Char)
deriving DecidableEq, Repr

def ClassItem.holds (c : Char) : ClassItem → Bool
  | .char d => c = d
  | .range low high => low ≤ c && c ≤ high

/-- The items between brackets. A hyphen makes a range unless it stands at either end. -/
def classItems : Text → List ClassItem
  | low :: '-' :: high :: rest => .range low high :: classItems rest
  | c :: rest => .char c :: classItems rest
  | [] => []

/-- What is between brackets, without a leading `!`, and what follows. A bracket that closes at once
stands for itself; `none` where no bracket closes. -/
def splitClass : Text → Option (Bool × Text × Text)
  | '!' :: ']' :: rest => (closing rest).map fun (stuff, rest) => (true, ']' :: stuff, rest)
  | '!' :: rest => (closing rest).map fun (stuff, rest) => (true, stuff, rest)
  | ']' :: rest => (closing rest).map fun (stuff, rest) => (false, ']' :: stuff, rest)
  | rest => (closing rest).map fun (stuff, rest) => (false, stuff, rest)
where
  closing : Text → Option (Text × Text)
    | [] => none
    | ']' :: rest => some ([], rest)
    | c :: rest => (closing rest).map fun (stuff, rest) => (c :: stuff, rest)

/-- The tokens of a shell pattern, with at most `fuel` steps. -/
def shellTokens : Nat → Text → List (Token Char)
  | 0, _ => []
  | _, [] => []
  | fuel + 1, '*' :: rest => .star :: shellTokens fuel rest
  | fuel + 1, '?' :: rest => .one (fun _ => true) :: shellTokens fuel rest
  | fuel + 1, '[' :: rest =>
    match splitClass rest with
    | some (negated, stuff, rest) =>
      .one (fun c => (classItems stuff).any (ClassItem.holds c) != negated) :: shellTokens fuel rest
    | none => .one (· = '[') :: shellTokens fuel rest
  | fuel + 1, c :: rest => .one (· = c) :: shellTokens fuel rest

/-- `fnmatch`. Every step takes a character of the pattern. -/
def fnmatch (name pattern : Text) : Bool := matchTokens (shellTokens pattern.length pattern) name

/-- A character of a `LIKE` pattern. -/
def likeToken : Char → Token Char
  | '%' => .star
  | '_' => .one fun _ => true
  | c => .one (· = c)

/-- `LIKE` without an escape character. -/
def like (name pattern : Text) : Bool := matchTokens (pattern.map likeToken) name

/-- A name is like itself. -/
theorem like_self (name : Text) : like name name = true := by
  refine matchTokens_map_self likeToken name fun c _ => ?_
  unfold likeToken
  split
  · rfl
  · rfl
  · simp [Token.accepts]

example : fnmatch "main.s1.t".toList "ma?n.s[0-9].*".toList = true := by decide

example : fnmatch "a[b".toList "a[b".toList = true := by decide

end Dqx.Tables
