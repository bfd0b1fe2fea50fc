import Mathlib
import Dqx.Utils.SqlText

/-! The columns that the texts of column references stand for. -/

namespace Dqx.Utils

open Lib.Sql

/-- The words that are constants where an expression is read. -/
def constants : List Text := ["null".toList, "true".toList, "false".toList]

/-- A plain name: it can be written without quotes. -/
def isIdentifier : Text → Bool
  | [] => false
  | c :: rest =>
    (c.isAlpha || c = '_') && rest.all (fun d => d.isAlphanum || d = '_') &&
      !constants.contains ((c :: rest).map Char.toLower)

/-- A plain or dotted name. -/
def IsColumnName (name : Text) : Prop :=
  ∀ segment ∈ name.splitOn '.', isIdentifier segment = true

def segmentOf : Token → Option Text
  | .quotedName content => some (undouble content)
  | .word word => if isIdentifier word then some word else none
  | _ => none

def pathOf : List Token → Option (List Text)
  | [token] => (segmentOf token).map fun segment => [segment]
  | token :: .symbol ['.'] :: rest =>
    (segmentOf token).bind fun segment => (pathOf rest).map (segment :: ·)
  | _ => none

/-- The column, and the fields in it, that an expression refers to. -/
def columnPath (text : Text) : Option (List Text) := pathOf (lex text)

/-- A text that is read as one part of a path, wherever it stands in it. -/
structure Reads (text segment : Text) : Prop where
  alone : columnPath text = some [segment]
  dot : ∀ rest path, columnPath rest = some path →
    columnPath (text ++ '.' :: rest) = some (segment :: path)

theorem columnPath_intercalate {segments : List Text} (write : Text → Text)
    (reads : ∀ segment ∈ segments, Reads (write segment) segment) (nonempty : segments ≠ []) :
    columnPath (['.'].intercalate (segments.map write)) = some segments := by
  induction segments with
  | nil => exact absurd rfl nonempty
  | cons segment segments ih =>
    obtain ⟨hsegment, hsegments⟩ := List.forall_mem_cons.mp reads
    cases segments with
    | nil => simpa using hsegment.alone
    | cons next segments =>
      have hrest := ih hsegments (by simp)
      rw [List.map_cons, List.map_cons, List.intercalate_cons_cons, List.append_assoc]
      exact hsegment.dot _ _ hrest

theorem lex_dot (rest : Text) : lex ('.' :: rest) = .symbol ['.'] :: lex rest := by
  have hstep : step .start '.' = (.start, [.symbol ['.']]) := by decide
  rw [lex, scan_cons, hstep]
  rfl

theorem reads_of_lex {text segment : Text} {token : Token} (hlex : lex text = [token])
    (hends : step (ends text) '.' = flushWith (ends text) '.')
    (hsegment : segmentOf token = some segment) : Reads text segment := by
  refine ⟨by rw [columnPath, hlex, pathOf, hsegment]; rfl, fun rest path hpath => ?_⟩
  rw [columnPath, lex_append (.inr (.inr ⟨'.', rest, rfl, hends⟩)), hlex, lex_dot,
    List.singleton_append]
  have hrest : pathOf (lex rest) = some path := hpath
  rw [pathOf, hsegment, hrest]
  · rfl

theorem quoteColumnName_eq (name : Text) : quoteColumnName name = quoteName name := by
  have hpair : ∀ c : Char,
      (if c = '`' then ['`', '`'] else [c]) = if c = '`' then [c, c] else [c] := by
    intro c
    split
    · rename_i hc
      rw [hc]
    · rfl
  simp only [quoteColumnName, quoteName, replaceChar, double, hpair]

theorem reads_quoteColumnName (segment : Text) : Reads (quoteColumnName segment) segment := by
  rw [quoteColumnName_eq]
  refine reads_of_lex (lex_quoteName segment) ?_ (by rw [segmentOf, undouble_double])
  rw [ends_of_scan (scan_quoteName segment), step_nameClosed_dot]

theorem isWordChar_of_isAlphanum {c : Char} (h : (c.isAlphanum || c = '_') = true) :
    isWordChar c = true := by
  rw [isWordChar, h, Bool.true_or]

theorem of_isAlpha {c : Char} (h : (c.isAlpha || c = '_') = true) :
    c.isDigit = false ∧ c.isWhitespace = false := by
  by_cases hc : c = '_'
  · rw [hc]
    decide
  · have halpha : c.isAlpha = true := by simpa [hc] using h
    simp only [Char.isAlpha, Char.isUpper, Char.isLower, Bool.or_eq_true, Bool.and_eq_true,
      decide_eq_true_eq, UInt32.le_iff_toNat_le, ge_iff_le] at halpha
    simp only [Char.isDigit, Char.isWhitespace, Bool.and_eq_false_iff, Bool.or_eq_false_iff,
      decide_eq_false_iff_not, UInt32.le_iff_toNat_le, ge_iff_le, Char.ext_iff,
      ← UInt32.toNat_inj]
    simp at halpha ⊢
    omega

theorem reads_identifier {segment : Text} (h : isIdentifier segment = true) :
    Reads segment segment := by
  cases segment with
  | nil => cases h
  | cons c rest =>
    have hidentifier := h
    simp only [isIdentifier, Bool.and_eq_true] at h
    obtain ⟨⟨hc, hrest⟩, -⟩ := h
    have hword : isWordChar c = true := by
      refine isWordChar_of_isAlphanum ?_
      simp only [Bool.or_eq_true, Char.isAlphanum] at hc ⊢
      exact hc.imp_left .inl
    obtain ⟨hnodigit, hspace⟩ := of_isAlpha hc
    have hstep : step .start c = (.word [c], []) := by
      simp [step, startWith, hspace, hword]
    have hscan : scan .start (c :: rest) = (.word (c :: rest), []) := by
      rw [scan_cons_of_step hstep, scan_word]
      · rfl
      · rw [List.all_eq_true] at hrest ⊢
        exact fun d hd => isWordChar_of_isAlphanum (hrest d hd)
    refine reads_of_lex (lex_of_scan hscan) ?_ (by rw [segmentOf, if_pos hidentifier])
    have hextends : extendsWord (c :: rest) '.' = false := by
      simp [extendsWord, hnodigit, isWordChar]
    rw [ends_of_scan hscan, step, hextends]
    rfl

theorem isSimpleIdent_of_isIdentifier {segment : Text} (h : isIdentifier segment = true) :
    SqlUtils.isSimpleIdent segment = true := by
  cases segment with
  | nil => cases h
  | cons c rest =>
    simp only [isIdentifier, Bool.and_eq_true] at h
    obtain ⟨⟨hc, hrest⟩, -⟩ := h
    have hlast : (c :: rest).getLast? ≠ some '\n' := by
      intro hlast
      have hmem := List.mem_of_getLast? hlast
      rcases List.mem_cons.mp hmem with rfl | hmem
      · exact absurd hc (by decide)
      · exact absurd (List.all_eq_true.mp hrest _ hmem) (by decide)
    rw [SqlUtils.isSimpleIdent, SqlUtils.patternBody, if_neg hlast]
    simp only [Bool.and_eq_true]
    exact ⟨hc, hrest⟩

/-- The characters of a plain or dotted name. -/
theorem IsColumnName.mem {name : Text} (h : IsColumnName name) {c : Char} (hc : c ∈ name) :
    c = '.' ∨ (c.isAlphanum || c = '_') = true := by
  rcases Lib.mem_splitOnP (p := (· == '.')) hc with hdot | ⟨segment, hsegment, hc⟩
  · exact .inl (by simpa using hdot)
  · rw [← List.splitOn_eq_splitOnP] at hsegment
    have hidentifier := h segment hsegment
    cases segment with
    | nil => cases hc
    | cons d rest =>
      simp only [isIdentifier, Bool.and_eq_true] at hidentifier
      obtain ⟨⟨hd, hrest⟩, -⟩ := hidentifier
      rcases List.mem_cons.mp hc with rfl | hc
      · refine .inr ?_
        simp only [Bool.or_eq_true, Char.isAlphanum] at hd ⊢
        exact hd.imp_left .inl
      · exact .inr (List.all_eq_true.mp hrest c hc)

theorem hasExpressionOperator_eq_false {text : Text}
    (h : ∀ c ∈ text, "-+/%<>=!&|~^".toList.contains c = false) :
    hasExpressionOperator text = false := by
  induction text with
  | nil => rfl
  | cons c text ih =>
    obtain ⟨hc, htext⟩ := List.forall_mem_cons.mp h
    cases text with
    | nil => rfl
    | cons d text =>
      have hd := htext d List.mem_cons_self
      rw [hasExpressionOperator]
      simp only [hc, hd, Bool.false_and, Bool.and_false, Bool.false_or]
      exact ih htext

theorem IsColumnName.normalizeColumnExpr {name : Text} (h : IsColumnName name) :
    normalizeColumnExpr name = name := by
  have hchars : ∀ c ∈ name, "()[]\x7b\x7d,;'\"`*".toList.contains c = false ∧
      "-+/%<>=!&|~^".toList.contains c = false := by
    intro c hc
    have hplain := h.mem hc
    constructor
    · have hnone : ("()[]\x7b\x7d,;'\"`*".toList.all fun c =>
          !(c = '.' || (c.isAlphanum || c = '_'))) = true := by decide
      rw [← Bool.not_eq_true, List.contains_iff_mem]
      intro hmem
      have hother := List.all_eq_true.mp hnone c hmem
      simp only [Bool.not_eq_true', Bool.or_eq_false_iff, decide_eq_false_iff_not] at hother
      simp [hother] at hplain
    · have hnone : ("-+/%<>=!&|~^".toList.all fun c =>
          !(c = '.' || (c.isAlphanum || c = '_'))) = true := by decide
      rw [← Bool.not_eq_true, List.contains_iff_mem]
      intro hmem
      have hother := List.all_eq_true.mp hnone c hmem
      simp only [Bool.not_eq_true', Bool.or_eq_false_iff, decide_eq_false_iff_not] at hother
      simp [hother] at hplain
  have hstructure : hasExpressionStructure name = false := by
    rw [hasExpressionStructure, List.any_eq_false]
    intro c hc
    rw [(hchars c hc).1]
    exact Bool.false_ne_true
  have hoperator : hasExpressionOperator name = false :=
    hasExpressionOperator_eq_false fun c hc => (hchars c hc).2
  have hsegments : (name.splitOn '.').map (fun segment =>
      if SqlUtils.isSimpleIdent segment then segment else quoteColumnName segment) =
        name.splitOn '.' := by
    conv_rhs => rw [← List.map_id (name.splitOn '.')]
    refine List.map_congr_left fun segment hsegment => ?_
    rw [isSimpleIdent_of_isIdentifier (h segment hsegment)]
    rfl
  rw [Utils.normalizeColumnExpr, hstructure, hoperator, hsegments, List.intercalate_splitOn]
  rfl

/-- A plain or dotted name is read as its path where it is an expression. -/
theorem IsColumnName.columnPath {name : Text} (h : IsColumnName name) :
    columnPath (Utils.normalizeColumnExpr name) = some (name.splitOn '.') := by
  have hpath := columnPath_intercalate id
    (fun segment hsegment => reads_identifier (h segment hsegment)) (List.splitOn_ne_nil '.' name)
  rw [List.map_id, List.intercalate_splitOn] at hpath
  rw [h.normalizeColumnExpr, hpath]

end Dqx.Utils
