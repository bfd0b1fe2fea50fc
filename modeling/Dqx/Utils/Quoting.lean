import Dqx.Lib.Markers
import Dqx.Utils.SqlText

/-! Column names in backticks: unquoting undoes quoting, and what has been made ready for an
expression stays as it is. -/

namespace Dqx.Utils

open Lib.Sql

/-- A backtick as a quoted name has it. -/
def doubled : Text := ['`', '`']

def unquoteColumnName (name : Text) : Text :=
  if 2 ≤ name.length ∧ name.head? = some '`' ∧ name.getLast? = some '`' then
    let inner := name.tail.dropLast
    -- A backtick that is left stands between two names of a path.
    if '`' ∉ Lib.Markers.replace doubled [] inner then Lib.Markers.replace doubled ['`'] inner
    else name
  else name

theorem replace_doubled (new name : Text) :
    Lib.Markers.replace doubled new (replaceChar '`' doubled name) = replaceChar '`' new name := by
  have hne : doubled ≠ [] := by decide
  induction name with
  | nil => rfl
  | cons c name ih =>
    by_cases hc : c = '`'
    · subst hc
      rw [replaceChar_cons_self, replaceChar_cons_self, Lib.Markers.replace,
        Lib.Markers.scan_append_of_marker hne, Lib.Markers.fill_marker, Option.getD_some]
      exact congrArg (new ++ ·) ih
    · have hbegins : ¬ doubled <+: c :: replaceChar '`' doubled name := by
        rintro ⟨rest, hrest⟩
        exact hc (List.cons.inj hrest).1.symm
      rw [replaceChar_cons_of_ne hc, replaceChar_cons_of_ne hc, Lib.Markers.replace,
        Lib.Markers.scan_of_not_begins hne hbegins, Lib.Markers.fill_lit]
      exact congrArg (c :: ·) ih

theorem replaceChar_self (c : Char) (text : Text) : replaceChar c [c] text = text := by
  induction text with
  | nil => rfl
  | cons d text ih =>
    by_cases hd : d = c
    · rw [hd, replaceChar_cons_self, ih, List.singleton_append]
    · rw [replaceChar_cons_of_ne hd, ih]

theorem not_mem_replaceChar {c : Char} {new : Text} (h : c ∉ new) (text : Text) :
    c ∉ replaceChar c new text := by
  intro hmem
  obtain ⟨d, -, hd⟩ := List.mem_flatMap.mp hmem
  split at hd
  · exact h hd
  · next hne => exact hne (List.mem_singleton.mp hd).symm

theorem unquoteColumnName_quoted (inner : Text) :
    unquoteColumnName ('`' :: (inner ++ ['`'])) =
      if '`' ∉ Lib.Markers.replace doubled [] inner then Lib.Markers.replace doubled ['`'] inner
      else '`' :: (inner ++ ['`']) := by
  rw [unquoteColumnName, if_pos ⟨by simp, rfl, by simp [List.getLast?_cons]⟩]
  simp

theorem unquote_quoteColumnName (name : Text) : unquoteColumnName (quoteColumnName name) = name := by
  have hnone : '`' ∉ Lib.Markers.replace doubled [] (replaceChar '`' doubled name) := by
    rw [replace_doubled]
    exact not_mem_replaceChar List.not_mem_nil name
  rw [quoteColumnName, unquoteColumnName_quoted]
  change (if '`' ∉ Lib.Markers.replace doubled [] (replaceChar '`' doubled name) then
    Lib.Markers.replace doubled ['`'] (replaceChar '`' doubled name) else _) = name
  rw [if_pos hnone, replace_doubled, replaceChar_self]

/-- What is in a part is in the parts joined. -/
theorem mem_intercalate_of_mem {separator part : Text} {parts : List Text} {c : Char}
    (hpart : part ∈ parts) (hc : c ∈ part) : c ∈ separator.intercalate parts := by
  induction parts with
  | nil => cases hpart
  | cons first parts ih =>
    cases parts with
    | nil =>
      obtain rfl := List.mem_singleton.mp hpart
      simpa using hc
    | cons next parts =>
      rw [List.intercalate_cons_cons, List.mem_append, List.mem_append]
      rcases List.mem_cons.mp hpart with rfl | hpart
      · exact .inl (.inl hc)
      · exact .inr (ih hpart)

/-- A segment in backticks makes the whole text an expression. -/
theorem hasExpressionStructure_of_backtick {text : Text} (h : '`' ∈ text) :
    hasExpressionStructure text = true :=
  List.any_eq_true.mpr ⟨'`', h, by decide⟩

theorem normalizeColumnExpr_idempotent (column : Text) :
    normalizeColumnExpr (normalizeColumnExpr column) = normalizeColumnExpr column := by
  by_cases hexpression : (hasExpressionStructure column || hasExpressionOperator column) = true
  · have hself : normalizeColumnExpr column = column := by
      rw [normalizeColumnExpr, if_pos hexpression]
    rw [hself, hself]
  have hpath : normalizeColumnExpr column = ['.'].intercalate ((column.splitOn '.').map
      fun segment =>
        if SqlUtils.isSimpleIdent segment then segment else quoteColumnName segment) := by
    rw [normalizeColumnExpr, if_neg hexpression]
  by_cases hsimple : ∀ segment ∈ column.splitOn '.', SqlUtils.isSimpleIdent segment = true
  · have hsegments : ((column.splitOn '.').map fun segment =>
        if SqlUtils.isSimpleIdent segment then segment else quoteColumnName segment) =
          column.splitOn '.' := by
      conv_rhs => rw [← List.map_id (column.splitOn '.')]
      exact List.map_congr_left fun segment hsegment => if_pos (hsimple segment hsegment)
    have hself : normalizeColumnExpr column = column := by
      rw [hpath, hsegments, List.intercalate_splitOn]
    rw [hself, hself]
  · push Not at hsimple
    obtain ⟨segment, hsegment, hquoted⟩ := hsimple
    have hbacktick : '`' ∈ normalizeColumnExpr column := by
      rw [hpath]
      refine mem_intercalate_of_mem (List.mem_map_of_mem hsegment) ?_
      rw [if_neg hquoted]
      exact List.mem_cons_self
    have hstructure := hasExpressionStructure_of_backtick hbacktick
    rw [normalizeColumnExpr, hstructure, Bool.true_or, if_pos rfl]

/-- Quoting of column names can be undone, and a column reference is made ready for an expression
once. -/
theorem quoting_undone_normalizing_once :
    (∀ name, unquoteColumnName (quoteColumnName name) = name) ∧
      ∀ column, normalizeColumnExpr (normalizeColumnExpr column) = normalizeColumnExpr column :=
  ⟨unquote_quoteColumnName, normalizeColumnExpr_idempotent⟩

end Dqx.Utils
