import Dqx.Contracts.Safety

/-! The query of a threshold is the one that is meant, unless an argument has two opening braces in
it. -/

namespace Dqx.Contracts

open Lib.Sql Utils

variable {values : Text → Option Text}

theorem inert_quoteColumnName {name : Text} (h : '\x7b' ∉ name) :
    Inert values (quoteColumnName name) := by
  refine inert_of_notMem fun hmem => ?_
  have hreplace : '\x7b' ∉ replaceChar '`' ['`', '`'] name := by
    intro hmem
    obtain ⟨c, hc, hmem⟩ := List.mem_flatMap.mp hmem
    split at hmem
    · simp at hmem
    · exact h (by simpa using (List.mem_singleton.mp hmem) ▸ hc)
  simp [quoteColumnName, hreplace] at hmem

theorem inert_sqlIdentifier {column : Text} (h : '\x7b' ∉ column) :
    Inert values (sqlIdentifier column) := by
  refine Inert.intercalate (inert_of_notMem (by decide)) fun part hpart => ?_
  obtain ⟨segment, hsegment, rfl⟩ := List.mem_map.mp hpart
  rw [List.splitOn_eq_splitOnP] at hsegment
  exact inert_quoteColumnName fun hmem => h (Lib.mem_of_mem_splitOnP hsegment _ hmem)

/-- A literal without two opening braces. -/
def Scalar.Closed : Scalar → Prop
  | .text value => hasOpening value = false
  | _ => True

theorem inert_numeral (n : Number) : Inert values n.text := by
  refine inert_of_notMem fun hmem => ?_
  have hbrace := isNumeral_all n.numeral _ hmem
  simp at hbrace

theorem inert_sqlLiteral {scalar : Scalar} (closed : scalar.Closed) :
    Inert values (sqlLiteral scalar) := by
  cases scalar with
  | bool value =>
    cases value with
    | true => exact inert_of_chars (by decide)
    | false => exact inert_of_chars (by decide)
  | number n => exact inert_numeral n
  | text value => exact inert_literal closed

/-- The literals of a predicate have no two opening braces, and its columns none. -/
def Predicate.Closed : Predicate → Prop
  | .isNull column => '\x7b' ∉ column
  | .isIn column scalars => '\x7b' ∉ column ∧ ∀ scalar ∈ scalars, scalar.Closed
  | .notIn column scalars => '\x7b' ∉ column ∧ ∀ scalar ∈ scalars, scalar.Closed
  | .notRlike column pattern => '\x7b' ∉ column ∧ hasOpening pattern = false
  | .or a b => a.Closed ∧ b.Closed

theorem inert_predicate {predicate : Predicate} (closed : predicate.Closed) :
    Inert values predicate.sql := by
  have hlist : ∀ {scalars : List Scalar}, (∀ scalar ∈ scalars, scalar.Closed) →
      Inert values (", ".toList.intercalate (scalars.map sqlLiteral)) := by
    intro scalars hscalars
    refine Inert.intercalate (inert_of_chars (by decide)) fun part hpart => ?_
    obtain ⟨scalar, hscalar, rfl⟩ := List.mem_map.mp hpart
    exact inert_sqlLiteral (hscalars scalar hscalar)
  induction predicate with
  | isNull column => exact (inert_sqlIdentifier closed).append (inert_of_chars (by decide))
  | isIn column scalars =>
    exact (((inert_sqlIdentifier closed.1).append (inert_of_chars (by decide))).append
      (hlist closed.2)).append (inert_of_chars (by decide))
  | notIn column scalars =>
    exact (((inert_sqlIdentifier closed.1).append (inert_of_chars (by decide))).append
      (hlist closed.2)).append (inert_of_chars (by decide))
  | notRlike column pattern =>
    have hpattern : Scalar.Closed (.text pattern) := closed.2
    exact ((((inert_of_chars (by decide)).append (inert_sqlIdentifier closed.1)).append
      (inert_of_chars (by decide))).append (inert_sqlLiteral hpattern)).append (inert_of_chars (by decide))
  | or a b iha ihb => exact ((iha closed.1).append (inert_of_chars (by decide))).append (ihb closed.2)

theorem becomes_violationSql (threshold : Threshold) {measure new : Text}
    (h : Becomes values measure new) :
    Becomes values (threshold.violationSql measure) (threshold.violationSql new) := by
  unfold Threshold.violationSql
  cases threshold.bounds with
  | some bounds =>
    have hge : Becomes values " >= ".toList " >= ".toList := inert_of_chars (by decide)
    have hand : Becomes values " AND ".toList " AND ".toList := inert_of_chars (by decide)
    have hle : Becomes values " <= ".toList " <= ".toList := inert_of_chars (by decide)
    have hwithin := (((((h.append hge).append (inert_numeral bounds.1)).append hand).append
      h).append hle).append (inert_numeral bounds.2)
    dsimp only
    split
    · exact ((inert_of_chars (by decide)).append hwithin).append (inert_of_chars (by decide))
    · exact ((inert_of_chars (by decide)).append hwithin).append (inert_of_chars (by decide))
  | none =>
    have hvalue : Inert values (threshold.value.elim "None".toList Number.text) := by
      cases threshold.value with
      | none => exact inert_of_chars (by decide)
      | some value => exact inert_numeral value
    have hoperator : Inert values
        ((violationOperators threshold.field).elim [] Comparison.text) := by
      cases threshold.field <;> exact inert_of_notMem (by decide)
    exact (((h.append (inert_of_chars (by decide))).append hoperator).append (inert_of_chars (by decide))).append
      hvalue

/-- The placeholder of the view becomes the name of the view. -/
theorem becomes_inputView {view : Text} (h : values "input_view".toList = some view) :
    Becomes values inputView view := by
  intro rest
  have hplaceholder : placeholderAt (inputView ++ rest) = some (" input_view ".toList, rest) := rfl
  have hname : placeholderName " input_view ".toList = "input_view".toList := by decide
  have hlength : ("\x7b input_view \x7d\x7d".toList ++ rest).length - rest.length =
      "\x7b input_view \x7d\x7d".toList.length := by
    rw [List.length_append]
    omega
  have hskip : ∀ a : Text, replaceFrom values a.length (a ++ rest) = replaceFrom values 0 rest := by
    intro a
    induction a with
    | nil => rfl
    | cons c a ih => exact ih
  have hcons : inputView ++ rest = '\x7b' :: ("\x7b input_view \x7d\x7d".toList ++ rest) := rfl
  rw [hcons] at hplaceholder ⊢
  rw [replaceFrom, hplaceholder]
  dsimp only
  rw [hname, h, hlength, hskip]
  rfl

/-- The literals of a measure have no two opening braces, and its columns none. -/
def Measure.Closed : Measure → Prop
  | .rowCount => True
  | .badRows predicate => predicate.Closed
  | .duplicateValues keyColumns => ∀ column ∈ keyColumns, '\x7b' ∉ column

theorem becomes_duplicateCount {keyColumns : List Text}
    (closed : ∀ column ∈ keyColumns, '\x7b' ∉ column) {view new : Text}
    (hview : Becomes values view new) :
    Becomes values (Measure.duplicateCount keyColumns view)
      (Measure.duplicateCount keyColumns new) := by
  have hquoted : ∀ column ∈ keyColumns.map sqlIdentifier, Inert values column := by
    intro column hcolumn
    obtain ⟨name, hname, rfl⟩ := List.mem_map.mp hcolumn
    exact inert_sqlIdentifier (closed name hname)
  have hnotNull : ∀ condition ∈ (keyColumns.map sqlIdentifier).map fun column =>
      column ++ " IS NOT NULL".toList, Inert values condition := by
    intro condition hcondition
    obtain ⟨column, hcolumn, rfl⟩ := List.mem_map.mp hcondition
    exact (hquoted column hcolumn).append (inert_of_chars (by decide))
  have hand : Inert values " AND ".toList := inert_of_chars (by decide)
  have hcomma : Inert values ", ".toList := inert_of_chars (by decide)
  have hconditions := hand.intercalate hnotNull
  have hcolumns := hcomma.intercalate hquoted
  exact ((((((inert_of_chars (by decide)).append hview).append (inert_of_chars (by decide))).append
    hconditions).append (inert_of_chars (by decide))).append hcolumns).append (inert_of_chars (by decide))

theorem becomes_conditionQuery {measure : Measure} (closed : measure.Closed) (unit : Text)
    (threshold : Threshold) {view new : Text} (hview : Becomes values view new) :
    Becomes values (measure.conditionQuery unit threshold view)
      (measure.conditionQuery unit threshold new) := by
  cases measure with
  | rowCount =>
    exact (((inert_of_chars (by decide)).append (becomes_violationSql threshold (inert_of_chars (by decide)))).append
      (inert_of_chars (by decide))).append hview
  | badRows predicate =>
    have hpredicate : Inert values predicate.sql := inert_predicate closed
    refine (((inert_of_chars (by decide)).append (becomes_violationSql threshold ?_)).append
      (inert_of_chars (by decide))).append hview
    split
    · exact ((inert_of_chars (by decide)).append hpredicate).append (inert_of_chars (by decide))
    · exact ((inert_of_chars (by decide)).append hpredicate).append (inert_of_chars (by decide))
  | duplicateValues keyColumns =>
    have hduplicates := becomes_duplicateCount closed hview
    unfold Measure.conditionQuery
    dsimp only
    refine ((inert_of_chars (by decide)).append (becomes_violationSql threshold ?_)).append
      (inert_of_chars (by decide))
    split
    · exact ((((inert_of_chars (by decide)).append hduplicates).append (inert_of_chars (by decide))).append
        hview).append (inert_of_chars (by decide))
    · exact hduplicates

/-- The placeholder of the view is the only one that is replaced in the query of a threshold. -/
def Kept (run : Run) (measure : Measure) (unit : Text) (threshold : Threshold) : Prop :=
  replaceTemplate (measure.conditionQuery unit threshold inputView) run.values =
    measure.conditionQuery unit threshold run.view

/-- Arguments without two opening braces are kept. -/
theorem kept_of_closed {run : Run} {measure : Measure} (closed : measure.Closed)
    (hreferences : run.references.lookup "input_view".toList = none) (unit : Text)
    (threshold : Threshold) : Kept run measure unit threshold := by
  refine (becomes_conditionQuery closed unit threshold (becomes_inputView ?_)).replaceTemplate
  rw [Run.values, hreferences]
  rfl

end Dqx.Contracts
