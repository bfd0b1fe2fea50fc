import Mathlib
import Dqx.Scheduler.TmpViews
import Dqx.Utils.SqlText

/-! Cross-table rules: the names under which their checks are materialized, and the queries that a
scheduled run of all approved checks submits. -/

namespace Dqx.Materializer

open Lib Lib.Sql LowCode SqlUtils Utils

section Names

variable (unicode : Unicode)

/-- `c.isalnum()` -/
def isAlnum (c : Char) : Bool := isWord unicode c && c ≠ '_'

def slugChars (value : Text) : Text :=
  (lower unicode (Scheduler.strip value)).map fun c => if isAlnum unicode c then c else '_'

def slugify (value : Text) : Text :=
  let slug := trim (· = '_') (slugChars unicode value)
  if slug.isEmpty then "check".toList else slug

def syntheticTablePrefix : Text := "__sql_check__".toList

structure RegistryRule where
  ruleId : Text

/-- A version of a rule without slots. `name` is the tag of this name, if it is a string. -/
structure RuleVersion where
  name : Option Text
  sqlQuery : Text

def getRuleName (version : RuleVersion) : Option Text :=
  version.name.filter fun name => !name.isEmpty

/-- The name that a cross-table rule goes by. -/
def ruleLabel (rule : RegistryRule) (version : RuleVersion) : Text :=
  (getRuleName version).getD rule.ruleId

def resolveTableFqn (tableFqn : Text) (isTableless : Bool) (rule : RegistryRule)
    (version : RuleVersion) : Text :=
  if !isTableless then tableFqn
  else syntheticTablePrefix ++ '/' :: slugify unicode (ruleLabel rule version)

end Names

/-- A check: its function, and the query among its arguments. -/
structure Check where
  function : Text
  query : Option Text

def sqlQueryFunction : Text := "sql_query".toList

/-- `render_check`, of a query without slots -/
def renderCheck (version : RuleVersion) : Check where
  function := sqlQueryFunction
  query := some version.sqlQuery

/-- A row of `dq_resolved_rules`. -/
structure Row where
  tableFqn : Text
  checks : List Check
  approved : Bool

/-- The checks of the approved rows of a table, in the order of the rows. -/
def getApprovedRule (rows : List Row) (tableFqn : Text) : Option (List Check) :=
  let mergedChecks :=
    (rows.filter fun row => row.tableFqn = tableFqn && row.approved).flatMap (·.checks)
  if mergedChecks.isEmpty then none else some mergedChecks

def extractSqlQuery (checks : List Check) : Option Text :=
  (checks.find? fun check => check.function = sqlQueryFunction).bind (·.query)

/-- The scope of a schedule for everything. -/
def resolveScope (rows : List Row) : List Text :=
  (((rows.filter (·.approved)).map (·.tableFqn)).dedup).filter fun fqn => !fqn.isEmpty

/-- A run that a schedule submits, with the query of a cross-table check. -/
def submission (rows : List Row) (tableFqn : Text) : Option (Text × Option Text) :=
  (getApprovedRule rows tableFqn).bind fun checks =>
    if Scheduler.sqlCheckPrefix.toList.isPrefixOf tableFqn then
      (extractSqlQuery checks).map fun query => (tableFqn, some query)
    else some (tableFqn, none)

def triggerRun (rows : List Row) : List (Text × Option Text) :=
  (resolveScope rows).filterMap (submission rows)

/-- A cross-table rule that is applied to a binding, in the version that is served there. -/
structure Application where
  tableFqn : Text
  rule : RegistryRule
  version : RuleVersion

namespace Application

variable (unicode : Unicode)

def fqn (application : Application) : Text :=
  resolveTableFqn unicode application.tableFqn true application.rule application.version

def label (application : Application) : Text :=
  ruleLabel application.rule application.version

def row (application : Application) : Row where
  tableFqn := application.fqn unicode
  checks := [renderCheck application.version]
  approved := true

/-- The rule has a valid name and its query is run. -/
structure Runs (applications : List Application) (application : Application) : Prop where
  valid : validateFqn (application.fqn unicode) = true
  submitted : (application.fqn unicode, some application.version.sqlQuery) ∈
    triggerRun (applications.map (row unicode))

end Application

/-! ### Which names are valid -/

variable {unicode : Unicode}

theorem mem_trim {p : Char → Bool} {text : Text} {c : Char} (hc : p c = false) :
    c ∈ trim p text ↔ c ∈ text := by
  have hdrop : ∀ text : Text, c ∈ text.dropWhile p ↔ c ∈ text := by
    intro text
    constructor
    · exact fun h => (List.dropWhile_sublist p).subset h
    · intro h
      rw [← List.takeWhile_append_dropWhile (p := p) (l := text), List.mem_append] at h
      refine h.resolve_left fun htake => ?_
      have htrue := List.mem_takeWhile_imp htake
      rw [hc] at htrue
      cases htrue
  rw [trim, List.mem_reverse, hdrop, List.mem_reverse, hdrop]

theorem isAlnum_underscore : isAlnum unicode '_' = false := by simp [isAlnum]

/-- The characters of a slug are underscores and the letters and digits of the name, or those of a
word that stands for an empty one. -/
theorem mem_slugify {value : Text} {c : Char} (h : c ∈ slugify unicode value) :
    c = '_' ∨ isAlnum unicode c = true ∧
      (c ∈ lower unicode (Scheduler.strip value) ∨ c.toNat < 128) := by
  rw [slugify] at h
  split at h
  · have hword : ∀ c ∈ "check".toList, (c.toNat < 128 && c.isAlphanum && c ≠ '_') = true :=
      List.all_eq_true.mp (by decide)
    have hc := hword c h
    simp only [Bool.and_eq_true, decide_eq_true_eq] at hc
    obtain ⟨⟨hascii, halnum⟩, hne⟩ := hc
    exact .inr ⟨by simp [isAlnum, isWord, hascii, halnum, hne], .inr hascii⟩
  · by_cases hc : c = '_'
    · exact .inl hc
    · obtain ⟨d, hd, heq⟩ := List.mem_map.mp ((mem_trim (by simpa using hc)).mp h)
      split at heq
      next halnum => exact .inr ⟨heq ▸ halnum, .inl (heq ▸ hd)⟩
      next => exact .inl heq.symm

theorem slugify_ne_nil (value : Text) : slugify unicode value ≠ [] := by
  rw [slugify]
  split
  · decide
  next h => exact fun hnil => h (by rw [hnil]; rfl)

/-- A letter or digit of a name is one of its slug. -/
theorem mem_slugify_of_isAlnum {value : Text} {c : Char}
    (hc : c ∈ lower unicode (Scheduler.strip value)) (halnum : isAlnum unicode c = true) :
    c ∈ slugify unicode value := by
  have hchars : c ∈ slugChars unicode value :=
    List.mem_map.mpr ⟨c, hc, by rw [halnum, if_pos rfl]⟩
  have hne : c ≠ '_' := by
    rintro rfl
    rw [isAlnum_underscore] at halnum
    cases halnum
  have htrim := (mem_trim (p := (· = '_')) (by simpa using hne)).mpr hchars
  rw [slugify, if_neg]
  · exact htrim
  · rw [List.isEmpty_iff]
    exact List.ne_nil_of_mem htrim

theorem isAlphanum_of_isAlnum {c : Char} (h : isAlnum unicode c = true) (hc : c.toNat < 128) :
    c.isAlphanum = true := by
  simp only [isAlnum, isWord, hc, if_true, Bool.and_eq_true, Bool.or_eq_true, decide_eq_true_eq] at h
  obtain ⟨halnum | hunderscore, hne⟩ := h
  · exact halnum
  · exact absurd hunderscore hne

theorem lt_of_isAlphanum {c : Char} (h : c.isAlphanum = true) : c.toNat < 128 := by
  have hle : ∀ d : Char, d.toNat < 128 → c.val ≤ d.val → c.toNat < 128 := fun d hd hcd =>
    Nat.lt_of_le_of_lt hcd hd
  simp only [Char.isAlphanum, Char.isAlpha, Char.isUpper, Char.isLower, Char.isDigit,
    Bool.or_eq_true, Bool.and_eq_true, decide_eq_true_eq] at h
  rcases h with (⟨-, h⟩ | ⟨-, h⟩) | ⟨-, h⟩
  · exact hle 'Z' (by decide) h
  · exact hle 'z' (by decide) h
  · exact hle '9' (by decide) h

def syntheticFqn (unicode : Unicode) (label : Text) : Text :=
  syntheticTablePrefix ++ '/' :: slugify unicode label

theorem syntheticFqn_eq (label : Text) :
    syntheticFqn unicode label = "__sql_check__/".toList ++ slugify unicode label := by
  have hkey : "__sql_check__/".toList = syntheticTablePrefix ++ ['/'] := by decide
  rw [hkey, List.append_assoc]
  rfl

theorem isSqlCheckKey_prefix {slug : Text} (h : '\n' ∉ slug) (hne : slug ≠ []) :
    isSqlCheckKey ("__sql_check__/".toList ++ slug) =
      slug.all fun c => c.isAlphanum || c = '_' || c = '-' := by
  have hbody : patternBody ("__sql_check__/".toList ++ slug) = "__sql_check__/".toList ++ slug := by
    rw [patternBody, if_neg]
    rw [List.getLast?_append_of_ne_nil _ hne]
    exact fun hlast => h (List.mem_of_getLast? hlast)
  have hlength : "__sql_check__/".toList.length = 14 := by decide
  rw [isSqlCheckKey, hbody, ← hlength, List.take_left, List.drop_left]
  simp [hne]

/-- A synthetic name is valid exactly if the name of its rule has no letters or digits but those of
ASCII. -/
theorem validateFqn_syntheticFqn (label : Text) :
    validateFqn (syntheticFqn unicode label) = true ↔
      ∀ c ∈ lower unicode (Scheduler.strip label), isAlnum unicode c = true → c.toNat < 128 := by
  have hslug : slugify unicode label ≠ [] := slugify_ne_nil label
  have hword : ∀ d : Char, isAlnum unicode d = false → d ≠ '_' → d ∉ slugify unicode label := by
    intro d hd hne hmem
    rcases mem_slugify hmem with heq | ⟨halnum, -⟩
    · exact hne heq
    · rw [hd] at halnum
      cases halnum
  have hnewline := hword '\n' rfl (by decide)
  have hdot := hword '.' rfl (by decide)
  have hparts : (syntheticFqn unicode label).splitOn '.' = [syntheticFqn unicode label] := by
    rw [syntheticFqn_eq]
    refine List.splitOn_eq_singleton fun hmem => ?_
    rcases List.mem_append.mp hmem with hkey | hmem
    · exact absurd hkey (by decide)
    · exact hdot hmem
  have hvalid : validateFqn (syntheticFqn unicode label) =
      (slugify unicode label).all fun c => c.isAlphanum || c = '_' || c = '-' := by
    have hnonempty : (syntheticFqn unicode label).isEmpty = false := by
      rw [syntheticFqn_eq]
      rfl
    rw [validateFqn, hparts, hnonempty, syntheticFqn_eq, isSqlCheckKey_prefix hnewline hslug]
    simp
  rw [hvalid, List.all_eq_true]
  constructor
  · intro hall c hc halnum
    have h := hall c (mem_slugify_of_isAlnum hc halnum)
    simp only [Bool.or_eq_true, decide_eq_true_eq] at h
    rcases h with (h | rfl) | rfl
    · exact lt_of_isAlphanum h
    · decide
    · decide
  · intro hascii c hc
    rcases mem_slugify hc with rfl | ⟨halnum, hmem⟩
    · rfl
    · have hsmall : c.toNat < 128 := hmem.elim (fun hlower => hascii c hlower halnum) id
      simp [isAlphanum_of_isAlnum halnum hsmall]

/-! ### Which queries are run -/

namespace Application

variable {applications : List Application}

theorem fqn_eq (application : Application) :
    application.fqn unicode = syntheticFqn unicode application.label := rfl

theorem getApprovedRule_rows (tableFqn : Text) :
    getApprovedRule (applications.map (row unicode)) tableFqn =
      let checks := (applications.filter fun application =>
        application.fqn unicode = tableFqn).map fun application => renderCheck application.version
      if checks.isEmpty then none else some checks := by
  have hrows : ((applications.map (row unicode)).filter fun row =>
      row.tableFqn = tableFqn && row.approved).flatMap (·.checks) =
      (applications.filter fun application => application.fqn unicode = tableFqn).map
        fun application => renderCheck application.version := by
    rw [List.filter_map, List.flatMap_map, List.map_eq_flatMap]
    simp only [row, Function.comp_def, Bool.and_true]
    rfl
  rw [getApprovedRule, hrows]

theorem extractSqlQuery_cons (version : RuleVersion) (checks : List Check) :
    extractSqlQuery (renderCheck version :: checks) = some version.sqlQuery := by
  have hfirst : decide ((renderCheck version).function = sqlQueryFunction) = true :=
    decide_eq_true rfl
  rw [extractSqlQuery, List.find?_cons, hfirst]
  rfl

/-- A run of a cross-table check has the query of the first application with its name. -/
theorem submission_eq {label : Text} : submission (applications.map (row unicode))
    (syntheticFqn unicode label) = (applications.find? fun application =>
      application.fqn unicode = syntheticFqn unicode label).map fun application =>
        (syntheticFqn unicode label, some application.version.sqlQuery) := by
  have hkey : Scheduler.sqlCheckPrefix.toList.isPrefixOf (syntheticFqn unicode label) = true := by
    rw [List.isPrefixOf_iff_prefix, syntheticFqn_eq]
    exact List.prefix_append _ _
  rw [submission, getApprovedRule_rows, ← List.head?_filter]
  cases applications.filter fun application =>
      application.fqn unicode = syntheticFqn unicode label with
  | nil => rfl
  | cons first rest =>
    simp only [List.map_cons, List.isEmpty_cons, Bool.false_eq_true, if_false, Option.bind_some,
      hkey, if_true, extractSqlQuery_cons, Option.map_some, List.head?_cons]

theorem mem_triggerRun {label query : Text} :
    (syntheticFqn unicode label, some query) ∈ triggerRun (applications.map (row unicode)) ↔
      ∃ first, (applications.find? fun application =>
        application.fqn unicode = syntheticFqn unicode label) = some first ∧
          first.version.sqlQuery = query := by
  have hsame : ∀ {rows tableFqn run}, submission rows tableFqn = some run → run.1 = tableFqn := by
    intro rows tableFqn run h
    obtain ⟨checks, -, h⟩ := Option.bind_eq_some_iff.mp h
    split at h
    · obtain ⟨query, -, rfl⟩ := Option.map_eq_some_iff.mp h
      rfl
    · rw [← Option.some.inj h]
  rw [triggerRun, List.mem_filterMap]
  constructor
  · rintro ⟨tableFqn, -, h⟩
    obtain rfl := hsame h
    rw [submission_eq] at h
    obtain ⟨first, hfirst, heq⟩ := Option.map_eq_some_iff.mp h
    exact ⟨first, hfirst, by simpa using heq⟩
  · rintro ⟨first, hfirst, rfl⟩
    refine ⟨syntheticFqn unicode label, ?_, by rw [submission_eq, hfirst]; rfl⟩
    have hmem := List.mem_of_find?_eq_some hfirst
    have hfqn : first.fqn unicode = syntheticFqn unicode label := by
      simpa using List.find?_some hfirst
    have hnonempty : (syntheticFqn unicode label).isEmpty = false := rfl
    simp only [resolveScope, List.mem_filter, List.mem_dedup, List.mem_map, hnonempty,
      Bool.not_false, and_true]
    exact ⟨_, ⟨⟨first, hmem, rfl⟩, rfl⟩, hfqn⟩

theorem syntheticFqn_inj {a b : Text} : syntheticFqn unicode a = syntheticFqn unicode b ↔
    slugify unicode a = slugify unicode b := by
  simp [syntheticFqn]

/-- Every cross-table rule has a valid name and is run exactly if the names have no letters or digits
but those of ASCII, and rules whose names have the same slug have the same query. -/
theorem runs_iff (unicode : Unicode) (applications : List Application) :
    (∀ application ∈ applications, Runs unicode applications application) ↔
      (∀ application ∈ applications, ∀ c ∈ lower unicode (Scheduler.strip application.label),
        isAlnum unicode c = true → c.toNat < 128) ∧
      ∀ a ∈ applications, ∀ b ∈ applications,
        slugify unicode a.label = slugify unicode b.label →
          a.version.sqlQuery = b.version.sqlQuery := by
  constructor
  · intro h
    refine ⟨fun application hmem => (validateFqn_syntheticFqn _).mp (h application hmem).valid, ?_⟩
    intro a ha b hb hslug
    obtain ⟨first, hfirst, hquery⟩ := mem_triggerRun.mp (fqn_eq a ▸ (h a ha).submitted)
    obtain ⟨first', hfirst', hquery'⟩ := mem_triggerRun.mp (fqn_eq b ▸ (h b hb).submitted)
    rw [syntheticFqn_inj.mpr hslug, hfirst'] at hfirst
    obtain rfl := Option.some.inj hfirst
    exact hquery.symm.trans hquery'
  · rintro ⟨hascii, hqueries⟩ application hmem
    refine ⟨(validateFqn_syntheticFqn _).mpr (hascii application hmem), mem_triggerRun.mpr ?_⟩
    have hsome : (applications.find? fun other =>
        other.fqn unicode = syntheticFqn unicode application.label).isSome = true := by
      rw [List.find?_isSome]
      exact ⟨application, hmem, by simp [fqn_eq]⟩
    obtain ⟨first, hfirst⟩ := Option.isSome_iff_exists.mp hsome
    have hfound := List.find?_some hfirst
    have hfqn : syntheticFqn unicode first.label = syntheticFqn unicode application.label :=
      of_decide_eq_true hfound
    exact ⟨first, hfirst, hqueries first (List.mem_of_find?_eq_some hfirst) application hmem
      (syntheticFqn_inj.mp hfqn)⟩

/-- Python's tables as far as the small u with an umlaut goes, which is a letter. -/
def umlaut : Unicode where
  isWord c := c = 'ü'
  lower c := [c]

def crossTable (ruleId name query : String) : Application where
  tableFqn := "main.sales.orders".toList
  rule := ⟨ruleId.toList⟩
  version := ⟨some name.toList, query.toList⟩

def totals : Application := crossTable "r1" "Order totals" "SELECT 1"

def totalsByDay : Application := crossTable "r2" "order-totals" "SELECT 2"

def umlautRule : Application := crossTable "r3" "Prüfung" "SELECT 3"

/-- The query of one of two rules with different names is not run, and a third has no valid name. -/
theorem totals_shadowed :
    [totals.label, totalsByDay.label, umlautRule.label].Nodup ∧
      (totalsByDay.fqn umlaut, some totalsByDay.version.sqlQuery) ∉
        triggerRun ([totals, totalsByDay, umlautRule].map (row umlaut)) ∧
      validateFqn (umlautRule.fqn umlaut) = false := by
  refine ⟨by decide, fun hmem => ?_, ?_⟩
  · obtain ⟨first, hfirst, hquery⟩ := mem_triggerRun.mp (fqn_eq totalsByDay ▸ hmem)
    have hslug : decide (totals.fqn umlaut = syntheticFqn umlaut totalsByDay.label) = true := by
      decide
    rw [List.find?_cons, hslug] at hfirst
    obtain rfl := Option.some.inj hfirst
    exact absurd hquery (by decide)
  · rw [fqn_eq, ← Bool.not_eq_true, validateFqn_syntheticFqn]
    intro hascii
    exact absurd (hascii 'ü' (by decide) (by decide)) (by decide)

end Application

end Dqx.Materializer
