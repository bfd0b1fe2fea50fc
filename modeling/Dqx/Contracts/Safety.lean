import Dqx.Contracts.Checks

/-! The queries of the library metrics pass the search for destructive statements. -/

namespace Dqx.Contracts

open Lib.Sql Utils

variable {unicode : Unicode}

theorem Follows.append {a b : Text} (h : Follows a) (hne : a ≠ []) : Follows (a ++ b) := by
  cases a with
  | nil => exact absurd rfl hne
  | cons c a => exact h

/-- What stands between two values. -/
structure Between (unicode : Unicode) (text : Text) : Prop extends Fixed unicode text where
  follows : Follows text
  last : ∃ c ∈ text.getLast?, c = ' ' ∨ c = '(' ∨ c = '.'

/-- What a text begins with ends a value before it. -/
def beginsAfter (text : Text) : Bool :=
  text.head?.all fun c => c = ' ' || c = ')' || c = ',' || c = '.'

/-- What a text ends with can be followed by a value. -/
def endsBefore (text : Text) : Bool :=
  text.getLast?.any fun c => c = ' ' || c = '(' || c = '.'

theorem Follows.of_beginsAfter {text : Text} (h : beginsAfter text = true) : Follows text := by
  simp only [beginsAfter, Option.all_eq_true, Bool.or_eq_true, decide_eq_true_eq] at h
  intro c hc
  rcases h c hc with ((h | h) | h) | h <;> simp [h]

theorem exists_of_endsBefore {text : Text} (h : endsBefore text = true) :
    ∃ c ∈ text.getLast?, c = ' ' ∨ c = '(' ∨ c = '.' := by
  simp only [endsBefore, Option.any_eq_true_iff_get, Bool.or_eq_true, decide_eq_true_eq] at h
  obtain ⟨hsome, hc⟩ := h
  refine ⟨_, Option.get_mem hsome, ?_⟩
  rcases hc with (h | h) | h <;> simp [h]

def isBetween (text : Text) : Bool := isFixed text && beginsAfter text && endsBefore text

theorem Between.of_isBetween {text : Text} (h : isBetween text = true) : Between unicode text := by
  simp only [isBetween, Bool.and_eq_true] at h
  exact ⟨.of_isFixed h.1.1, Follows.of_beginsAfter h.1.2, exists_of_endsBefore h.2⟩

theorem Between.of_chars {chars : Text} (h : isBetween chars = true) :
    Between unicode (String.ofList chars).toList := by
  rw [String.toList_ofList]
  exact .of_isBetween h

theorem Follows.of_chars {chars : Text} (h : beginsAfter chars = true) :
    Follows (String.ofList chars).toList := by
  rw [String.toList_ofList]
  exact Follows.of_beginsAfter h

theorem exists_of_chars {chars : Text} (h : endsBefore chars = true) :
    ∃ c ∈ (String.ofList chars).toList.getLast?, c = ' ' ∨ c = '(' ∨ c = '.' := by
  rw [String.toList_ofList]
  exact exists_of_endsBefore h

theorem Between.ne_nil {text : Text} (h : Between unicode text) : text ≠ [] := by
  rintro rfl
  obtain ⟨c, hc, -⟩ := h.last
  cases hc

theorem Between.append {a : Text} (h : Between unicode a) {b : Text} (hb : Harmless unicode b) :
    Harmless unicode (a ++ b) ∧ Follows (a ++ b) :=
  ⟨h.toFixed.append h.last hb, Follows.append h.follows h.ne_nil⟩

theorem Between.join {p : Text} (h : Between unicode p) {a b : Text} (ha : Harmless unicode a)
    (hb : Harmless unicode b) : Harmless unicode (a ++ p ++ b) := by
  rw [List.append_assoc]
  exact ha.append (h.append hb).1 (h.append hb).2

theorem Between.intercalate {separator : Text} (h : Between unicode separator)
    {parts : List Text} (nonempty : parts ≠ [])
    (hparts : ∀ part ∈ parts, Harmless unicode part) :
    Harmless unicode (separator.intercalate parts) := by
  induction parts with
  | nil => exact absurd rfl nonempty
  | cons part parts ih =>
    obtain ⟨hpart, hrest⟩ := List.forall_mem_cons.mp hparts
    cases parts with
    | nil => simpa using hpart
    | cons next parts =>
      rw [List.intercalate_cons_cons]
      exact h.join hpart (ih (by simp) hrest)

theorem harmless_sqlIdentifier (column : Text) : Harmless unicode (sqlIdentifier column) := by
  have hdot : Between unicode ['.'] := .of_isBetween (by decide)
  refine hdot.intercalate (by simp) ?_
  intro part hpart
  obtain ⟨segment, -, rfl⟩ := List.mem_map.mp hpart
  exact harmless_name segment

theorem harmless_sqlLiteral (scalar : Scalar) : Harmless unicode (sqlLiteral scalar) := by
  cases scalar with
  | bool value =>
    cases value with
    | true => exact Fixed.harmless (.of_chars (by decide))
    | false => exact Fixed.harmless (.of_chars (by decide))
  | number n => exact harmless_numeral n.numeral
  | text value => exact harmless_literal value

theorem harmless_list {values : List Scalar} (nonempty : values ≠ []) :
    Harmless unicode (", ".toList.intercalate (values.map sqlLiteral)) := by
  have hcomma : Between unicode ", ".toList := .of_chars (by decide)
  refine hcomma.intercalate (by simpa using nonempty) ?_
  intro part hpart
  obtain ⟨scalar, -, rfl⟩ := List.mem_map.mp hpart
  exact harmless_sqlLiteral scalar

/-- A predicate whose lists have values. -/
def Predicate.Listed : Predicate → Prop
  | .isNull _ => True
  | .isIn _ values => values ≠ []
  | .notIn _ values => values ≠ []
  | .notRlike _ _ => True
  | .or a b => a.Listed ∧ b.Listed

theorem harmless_predicate {predicate : Predicate} (listed : predicate.Listed) :
    Harmless unicode predicate.sql := by
  have hclose : Fixed unicode ")".toList := .of_chars (by decide)
  induction predicate with
  | isNull column =>
    exact (harmless_sqlIdentifier column).append
      (Fixed.harmless (.of_chars (by decide))) (Follows.of_chars (by decide))
  | isIn column values =>
    have hin : Between unicode " IN (".toList := .of_chars (by decide)
    exact (hin.join (harmless_sqlIdentifier column) (harmless_list listed)).append
      hclose.harmless (Follows.of_chars (by decide))
  | notIn column values =>
    have hin : Between unicode " NOT IN (".toList := .of_chars (by decide)
    exact (hin.join (harmless_sqlIdentifier column) (harmless_list listed)).append
      hclose.harmless (Follows.of_chars (by decide))
  | notRlike column pattern =>
    have hnot : Fixed unicode "NOT (".toList := .of_chars (by decide)
    have hlike : Between unicode " RLIKE ".toList := .of_chars (by decide)
    have hcolumn := hnot.append (exists_of_chars (by decide))
      (harmless_sqlIdentifier column)
    exact (hlike.join hcolumn (harmless_sqlLiteral _)).append hclose.harmless
      (Follows.of_chars (by decide))
  | or a b iha ihb =>
    have hor : Between unicode " OR ".toList := .of_chars (by decide)
    exact hor.join (iha listed.1) (ihb listed.2)

theorem harmless_violationSql (threshold : Threshold) {measure : Text}
    (hmeasure : Harmless unicode measure) : Harmless unicode (threshold.violationSql measure) := by
  have hclose : Fixed unicode ")".toList := .of_chars (by decide)
  unfold Threshold.violationSql
  cases threshold.bounds with
  | some bounds =>
    have hge : Between unicode " >= ".toList := .of_chars (by decide)
    have hand : Between unicode " AND ".toList := .of_chars (by decide)
    have hle : Between unicode " <= ".toList := .of_chars (by decide)
    have hwithin := hle.join (hand.join (hge.join hmeasure (harmless_numeral bounds.1.numeral))
      hmeasure) (harmless_numeral bounds.2.numeral)
    have hopen : Fixed unicode "(".toList := .of_chars (by decide)
    have hnot : Fixed unicode "NOT (".toList := .of_chars (by decide)
    dsimp only
    split
    · exact (hopen.append (exists_of_chars (by decide)) hwithin).append hclose.harmless
        (Follows.of_chars (by decide))
    · exact (hnot.append (exists_of_chars (by decide)) hwithin).append hclose.harmless
        (Follows.of_chars (by decide))
  | none =>
    have hspace : Between unicode " ".toList := .of_chars (by decide)
    have hvalue : Harmless unicode (threshold.value.elim "None".toList Number.text) := by
      cases threshold.value with
      | none => exact Fixed.harmless (.of_chars (by decide))
      | some value => exact harmless_numeral value.numeral
    have hoperator : Harmless unicode
        ((violationOperators threshold.field).elim [] Comparison.text) := by
      cases threshold.field <;> exact Fixed.harmless (.of_isFixed (by decide))
    exact hspace.join (hspace.join hmeasure hoperator) hvalue

/-- A measure with values in its lists, and with key columns. -/
def Measure.Listed : Measure → Prop
  | .rowCount => True
  | .badRows predicate => predicate.Listed
  | .duplicateValues keyColumns => keyColumns ≠ []

theorem harmless_duplicateCount {keyColumns : List Text} (nonempty : keyColumns ≠ []) {view : Text}
    (hview : Harmless unicode view) :
    Harmless unicode (Measure.duplicateCount keyColumns view) := by
  have hselect : Fixed unicode "(SELECT COUNT(*) FROM (SELECT 1 FROM ".toList :=
    .of_chars (by decide)
  have hwhere : Between unicode " WHERE ".toList := .of_chars (by decide)
  have hgroup : Between unicode " GROUP BY ".toList := .of_chars (by decide)
  have hand : Between unicode " AND ".toList := .of_chars (by decide)
  have hcomma : Between unicode ", ".toList := .of_chars (by decide)
  have hhaving : Fixed unicode " HAVING COUNT(*) > 1) AS dqx_dup_groups)".toList :=
    .of_chars (by decide)
  have hquoted : ∀ column ∈ keyColumns.map sqlIdentifier, Harmless unicode column := by
    intro column hcolumn
    obtain ⟨name, -, rfl⟩ := List.mem_map.mp hcolumn
    exact harmless_sqlIdentifier name
  have hnotNull : ∀ condition ∈ (keyColumns.map sqlIdentifier).map fun column =>
      column ++ " IS NOT NULL".toList, Harmless unicode condition := by
    intro condition hcondition
    obtain ⟨column, hcolumn, rfl⟩ := List.mem_map.mp hcondition
    exact (hquoted column hcolumn).append (Fixed.harmless (.of_chars (by decide)))
      (Follows.of_chars (by decide))
  have hconditions := hand.intercalate (by simpa using nonempty) hnotNull
  have hcolumns := hcomma.intercalate (by simpa using nonempty) hquoted
  have hrows := hselect.append (exists_of_chars (by decide)) hview
  exact (hgroup.join (hwhere.join hrows hconditions) hcolumns).append hhaving.harmless
    (Follows.of_chars (by decide))

theorem harmless_conditionQuery {measure : Measure} (listed : measure.Listed) (unit : Text)
    (threshold : Threshold) {view : Text} (hview : Harmless unicode view) :
    Harmless unicode (measure.conditionQuery unit threshold view) := by
  have hselect : Fixed unicode "SELECT ".toList := .of_chars (by decide)
  have hfrom : Between unicode " AS condition FROM ".toList := .of_chars (by decide)
  have hquery : ∀ {value : Text}, Harmless unicode value → Harmless unicode
      ("SELECT ".toList ++ threshold.violationSql value ++ " AS condition FROM ".toList ++ view) :=
    fun hvalue => hfrom.join (hselect.append (exists_of_chars (by decide))
      (harmless_violationSql threshold hvalue)) hview
  cases measure with
  | rowCount => exact hquery (Fixed.harmless (.of_chars (by decide)))
  | badRows predicate =>
    have hpredicate : Harmless unicode predicate.sql := harmless_predicate listed
    unfold Measure.conditionQuery
    dsimp only
    refine hquery ?_
    split
    · have havg : Fixed unicode "COALESCE(AVG(CASE WHEN ".toList := .of_chars (by decide)
      exact (havg.append (exists_of_chars (by decide)) hpredicate).append
        (Fixed.harmless (.of_chars (by decide)))
        (Follows.of_chars (by decide))
    · have hcount : Fixed unicode "COUNT(CASE WHEN ".toList := .of_chars (by decide)
      exact (hcount.append (exists_of_chars (by decide)) hpredicate).append
        (Fixed.harmless (.of_chars (by decide)))
        (Follows.of_chars (by decide))
  | duplicateValues keyColumns =>
    have hduplicates := harmless_duplicateCount listed hview
    have hend : Fixed unicode " AS condition".toList := .of_chars (by decide)
    unfold Measure.conditionQuery
    dsimp only
    refine Harmless.append (hselect.append (exists_of_chars (by decide))
      (harmless_violationSql threshold ?_)) hend.harmless
      (Follows.of_chars (by decide))
    split
    · have hcoalesce : Fixed unicode "COALESCE(100.0 * ".toList := .of_chars (by decide)
      have hdivide : Between unicode " / NULLIF((SELECT COUNT(*) FROM ".toList :=
        .of_chars (by decide)
      have hshare := hcoalesce.append (exists_of_chars (by decide)) hduplicates
      exact (hdivide.join hshare hview).append
        (Fixed.harmless (.of_chars (by decide)))
        (Follows.of_chars (by decide))
    · exact hduplicates

theorem harmless_inputView : Harmless unicode inputView :=
  Fixed.harmless (.of_chars (by decide))

/-- The characters of a view's name. -/
def viewCharacters : Text := "query_condition_violation_input_view_0123456789abcdef".toList

theorem mem_viewCharacters (run : Run) {c : Char} (h : c ∈ run.view) : c ∈ viewCharacters := by
  have hcharacters : viewCharacters = viewPrefix ++ "0123456789abcdef".toList := by
    unfold viewCharacters viewPrefix
    repeat rw [String.toList_ofList]
    rfl
  rw [hcharacters, List.mem_append]
  exact (List.mem_append.mp h).imp_right fun h =>
    List.contains_iff_mem.mp (List.all_eq_true.mp run.hex c h)

theorem length_viewPrefix : 8 < viewPrefix.length := by decide +kernel

theorem isPlain_of_forall {text : Text} (h : ∀ c ∈ text, c ∉ "-'\"`/".toList) :
    isPlain text = true := by
  induction text with
  | nil => rfl
  | cons c text ih =>
    obtain ⟨hc, htext⟩ := List.forall_mem_cons.mp h
    have hspecial : c ≠ '-' ∧ c ≠ '\'' ∧ c ≠ '"' ∧ c ≠ '`' ∧ c ≠ '/' := by simpa using hc
    simp [isPlain, hspecial, ih htext]

/-- A view's name is one word, and longer than every keyword. -/
theorem fixed_view (run : Run) : Fixed unicode run.view := by
  have hview : (viewCharacters.all fun c => !"-'\"`/".toList.contains c && c.toNat < 128 &&
      c.toLower = c && (c.isAlphanum || c = '_')) = true := by decide +kernel
  have hchars : ∀ c ∈ run.view, c ∉ "-'\"`/".toList ∧ c.toNat < 128 ∧ c.toLower = c ∧
      (c.isAlphanum || c = '_') = true := by
    intro c hc
    have hall := List.all_eq_true.mp hview c (mem_viewCharacters run hc)
    simp only [Bool.and_eq_true, Bool.not_eq_true', decide_eq_true_eq] at hall
    obtain ⟨⟨⟨hplain, hlt⟩, hsame⟩, hletter⟩ := hall
    refine ⟨fun hmem => ?_, hlt, hsame, hletter⟩
    rw [List.contains_iff_mem.mpr hmem] at hplain
    cases hplain
  refine ⟨isPlain_of_forall fun c hc => (hchars c hc).1, ?_⟩
  have hlower : lower unicode run.view = run.view := by
    have hmap : run.view.flatMap (fun c => if c.toNat < 128 then [c.toLower] else unicode.lower c) =
        run.view.flatMap fun c => [c] := by
      refine List.flatMap_congr fun c hc => ?_
      obtain ⟨-, hlt, hsame, -⟩ := hchars c hc
      rw [if_pos hlt, hsame]
    rw [lower, hmap, List.flatMap_singleton']
  have hword : ∀ c ∈ run.view, (!isWord unicode c) = false := by
    intro c hc
    obtain ⟨-, hlt, -, hletter⟩ := hchars c hc
    rw [isWord, if_pos hlt, hletter]
    rfl
  have hlength : 8 < run.view.length := by
    rw [Run.view, List.length_append]
    exact Nat.lt_add_right _ length_viewPrefix
  have hshort : (forbiddenSqlKeywords.all fun keyword => keyword.length ≤ 8) = true := by
    rw [forbiddenSqlKeywords_eq]
    decide
  rw [hlower, hasForbiddenKeyword, List.splitOnP_eq_singleton hword, List.any_cons, List.any_nil,
    Bool.or_false, ← Bool.not_eq_true, List.contains_iff_mem]
  intro hmem
  have hkeyword : run.view.length ≤ 8 := by simpa using List.all_eq_true.mp hshort _ hmem
  omega

/-- The query of a threshold is safe, as it is built and as it runs. -/
theorem isSqlQuerySafe_conditionQuery {measure : Measure} (listed : measure.Listed) (unit : Text)
    (threshold : Threshold) (run : Run) :
    isSqlQuerySafe unicode (measure.conditionQuery unit threshold inputView) = true ∧
      isSqlQuerySafe unicode (measure.conditionQuery unit threshold run.view) = true :=
  ⟨(harmless_conditionQuery listed unit threshold harmless_inputView).isSqlQuerySafe,
    (harmless_conditionQuery listed unit threshold (fixed_view run).harmless).isSqlQuerySafe⟩

end Dqx.Contracts
