import Dqx.ForeignKeys.Flags
import Dqx.Lib.SqlLexer

/-! The cache of reference projections that the foreign-key checks of a run share, and the condition
under which every check of a run reports what it is for. -/

namespace Dqx.ForeignKeys

open Lib Lib.Sql

variable {σ ρ α : Type}

theorem truthy_eq_some {text : Option Text} {name : Text} (h : truthy text = some name) :
    text = some name := (Option.filter_eq_some_iff.mp h).1

theorem eq_map_name_of_mapM {columns : List (ColumnInput σ ρ α)} {names : List Text}
    (h : columns.mapM ColumnInput.name? = some names) : columns = names.map ColumnInput.name := by
  have hnames := mapM_eq_some_iff_forall₂.mp h
  clear h
  induction hnames with
  | nil => rfl
  | @cons column name columns names hname _ ih =>
    cases column with
    | name n => rw [← Option.some.inj hname, List.map_cons, ← ih]
    | column n expression => cases hname

/-- A cache key spells out the reference columns, and the columns that name a struct's fields. -/
theorem referenceCacheKey_eq_some {columns refColumns : List (ColumnInput σ ρ α)} {nullSafe : Bool}
    {key : ReferenceKey} (h : referenceCacheKey columns refColumns nullSafe = some key) :
    refColumns = key.1.map ColumnInput.name ∧ nullSafe = key.2.1 ∧
      ((1 < columns.length ∨ nullSafe = true) → columns = key.2.2.map ColumnInput.name) := by
  obtain ⟨references, hreferences, hkey⟩ := Option.bind_eq_some_iff.mp h
  have hrefColumns := eq_map_name_of_mapM hreferences
  split at hkey
  · obtain ⟨names, hnames, hkey⟩ := Option.bind_eq_some_iff.mp hkey
    cases hkey
    exact ⟨hrefColumns, rfl, fun _ => eq_map_name_of_mapM hnames⟩
  · rename_i hstruct
    cases hkey
    refine ⟨hrefColumns, rfl, fun h => absurd ?_ hstruct⟩
    rwa [Bool.or_eq_true, decide_eq_true_eq]

namespace ForeignKey

variable {spark : Spark σ ρ α} {refs : References σ ρ} {check check' : ForeignKey σ ρ α}

/-- Where a check reads its reference keys. -/
theorem reference_cases (check : ForeignKey σ ρ α) :
    (∃ name, truthy check.refDfName = some name) ∨
      (truthy check.refDfName = none ∧ ∃ table, truthy check.refTable = some table) := by
  have hvalid := check.valid
  unfold validateRefParams at hvalid
  split at hvalid
  · cases hvalid
  split at hvalid
  · cases hvalid
  rename_i hreference
  rw [Bool.and_eq_true, Option.isNone_iff_eq_none, Option.isNone_iff_eq_none, not_and] at hreference
  cases hname : truthy check.refDfName with
  | some name => exact .inl ⟨name, rfl⟩
  | none => exact .inr ⟨rfl, Option.ne_none_iff_exists'.mp (hreference hname)⟩

theorem sourceKey_of_name (refs : References σ ρ) {name : Text}
    (h : truthy check.refDfName = some name) :
    sourceKey check.refDfName check.refTable = "dataframe:".toList ++ name ∧
      getRefDf refs check.refDfName check.refTable = refs.refDfs name := by
  rw [sourceKey, getRefDf, h]
  exact ⟨rfl, rfl⟩

theorem sourceKey_of_table (refs : References σ ρ) {table : Text}
    (hname : truthy check.refDfName = none)
    (h : truthy check.refTable = some table) :
    sourceKey check.refDfName check.refTable = "table:".toList ++ table ∧
      getRefDf refs check.refDfName check.refTable = refs.tables table := by
  rw [sourceKey, getRefDf, hname, h, truthy_eq_some h]
  exact ⟨rfl, rfl⟩

theorem dataframe_ne_table (name table : Text) :
    "dataframe:".toList ++ name ≠ "table:".toList ++ table := by
  intro h
  have hhead := congrArg List.head? h
  cases hhead

/-- Checks with one source key read one reference. -/
theorem getRefDf_eq_of_sourceKey_eq (h : sourceKey check.refDfName check.refTable =
    sourceKey check'.refDfName check'.refTable) :
    getRefDf refs check.refDfName check.refTable =
      getRefDf refs check'.refDfName check'.refTable := by
  rcases check.reference_cases with ⟨name, hname⟩ | ⟨hname, table, htable⟩ <;>
    rcases check'.reference_cases with ⟨name', hname'⟩ | ⟨hname', table', htable'⟩
  · obtain ⟨hkey, href⟩ := sourceKey_of_name refs hname
    obtain ⟨hkey', href'⟩ := sourceKey_of_name refs hname'
    rw [hkey, hkey'] at h
    rw [href, href', List.append_cancel_left h]
  · obtain ⟨hkey, -⟩ := sourceKey_of_name refs hname
    obtain ⟨hkey', -⟩ := sourceKey_of_table refs hname' htable'
    rw [hkey, hkey'] at h
    exact absurd h (dataframe_ne_table _ _)
  · obtain ⟨hkey, -⟩ := sourceKey_of_table refs hname htable
    obtain ⟨hkey', -⟩ := sourceKey_of_name refs hname'
    rw [hkey, hkey'] at h
    exact absurd h.symm (dataframe_ne_table _ _)
  · obtain ⟨hkey, href⟩ := sourceKey_of_table refs hname htable
    obtain ⟨hkey', href'⟩ := sourceKey_of_table refs hname' htable'
    rw [hkey, hkey'] at h
    rw [href, href', List.append_cancel_left h]

theorem key_referenceCacheKey (check : ForeignKey σ ρ α) : (check.key spark).referenceCacheKey =
    referenceCacheKey check.columns check.refColumns check.nullSafe := by
  rcases check.key_cases spark with ⟨hplain, column, refColumn, hcolumns, hrefColumns⟩ |
    ⟨hplain, hkey⟩
  · rw [check.key_plain spark hplain hcolumns hrefColumns]
  · rw [hkey]

/-- Checks with one cache key have one reference expression. -/
theorem referenceExpression_eq_of_key_eq {key : ReferenceKey}
    (h : (check.key spark).referenceCacheKey = some key)
    (h' : (check'.key spark).referenceCacheKey = some key) :
    (check.key spark).referenceExpression = (check'.key spark).referenceExpression := by
  rw [key_referenceCacheKey] at h h'
  obtain ⟨hrefColumns, hsafe, hcolumns⟩ := referenceCacheKey_eq_some h
  obtain ⟨hrefColumns', hsafe', hcolumns'⟩ := referenceCacheKey_eq_some h'
  have hlength : check.columns.length = check'.columns.length := by
    rw [check.sameLength, check'.sameLength, hrefColumns, hrefColumns']
  have hplain : check.isPlain = check'.isPlain := by rw [isPlain, isPlain, hlength, hsafe, hsafe']
  have hnames : check.isPlain = false → check.columns.map ColumnInput.nameOrAlias =
      check'.columns.map ColumnInput.nameOrAlias := by
    intro hstruct
    rw [isPlain, Bool.and_eq_false_iff, decide_eq_false_iff_not, Bool.not_eq_false'] at hstruct
    by_cases hbuilds : 1 < check.columns.length ∨ check.nullSafe = true
    · rw [hcolumns hbuilds, hcolumns' (by rw [← hlength, hsafe', ← hsafe]; exact hbuilds)]
    · have hempty : check.columns.length = 0 := by
        rcases hstruct with hne | hsafe
        · omega
        · exact absurd (.inr hsafe) hbuilds
      rw [List.eq_nil_of_length_eq_zero hempty,
        List.eq_nil_of_length_eq_zero (hlength.symm.trans hempty)]
  funext schema
  rw [referenceExpression_eq, referenceExpression_eq, keyColumns, keyColumns, hrefColumns,
    hrefColumns', hplain]
  refine Option.map_congr fun tuple _ => funext fun row => ?_
  unfold keyOf
  rw [hplain]
  split
  · rfl
  · rename_i hstruct
    rw [hnames (by rw [hplain]; exact Bool.eq_false_iff.mpr hstruct)]

end ForeignKey

variable [DecidableEq α]

/-- Each entry of the cache is what every check that finds it would project. -/
def CacheSound (spark : Spark σ ρ α) (refs : References σ ρ) (cache : Cache α) : Prop :=
  ∀ (check : ForeignKey σ ρ α) (key : ReferenceKey) (values : List (KeyValue α)),
    (check.key spark).referenceCacheKey = some key →
      cache.lookup (sourceKey check.refDfName check.refTable, key) = some values →
        project refs check.refDfName check.refTable (check.key spark).referenceExpression =
          some values

variable {spark : Spark σ ρ α} {refs : References σ ρ} {cache : Cache α}

theorem CacheSound.cons {check : ForeignKey σ ρ α} {key : ReferenceKey} {values : List (KeyValue α)}
    (h : CacheSound spark refs cache) (hkey : (check.key spark).referenceCacheKey = some key)
    (hvalues : project refs check.refDfName check.refTable (check.key spark).referenceExpression =
      some values) :
    CacheSound spark refs (((sourceKey check.refDfName check.refTable, key), values) :: cache) := by
  intro check' key' values' hkey' hlookup
  rw [List.lookup_cons] at hlookup
  split at hlookup
  · rename_i heq
    obtain ⟨hsource, rfl⟩ := Prod.mk.inj (eq_of_beq heq)
    cases hlookup
    rw [← hvalues, project, project, ForeignKey.getRefDf_eq_of_sourceKey_eq hsource,
      ForeignKey.referenceExpression_eq_of_key_eq hkey' hkey]
  · exact h check' key' values' hkey' hlookup

/-- A call with a sound cache gives what a call without one gives, and leaves a sound cache. -/
theorem getDistinctReferenceValues_spec (h : CacheSound spark refs cache)
    (check : ForeignKey σ ρ α) :
    ∃ cache', getDistinctReferenceValues refs check.refDfName check.refTable
        (check.key spark).referenceExpression (check.key spark).referenceCacheKey (some cache) =
      (project refs check.refDfName check.refTable (check.key spark).referenceExpression,
        some cache') ∧ CacheSound spark refs cache' := by
  unfold getDistinctReferenceValues
  cases hkey : (check.key spark).referenceCacheKey with
  | none => exact ⟨cache, rfl, h⟩
  | some key =>
    dsimp only
    split
    · rename_i values hlookup
      exact ⟨cache, by rw [h check key values hkey hlookup], h⟩
    · split
      · rename_i values hvalues
        exact ⟨_, by rw [hvalues], h.cons hkey hvalues⟩
      · rename_i hnone
        exact ⟨cache, by rw [hnone], h⟩

theorem ForeignKey.apply_some (h : CacheSound spark refs cache) (check : ForeignKey σ ρ α)
    (df : Table σ ρ) : ∃ cache', check.apply spark refs df (some cache) =
      ((check.apply spark refs df none).1, some cache') ∧ CacheSound spark refs cache' := by
  obtain ⟨cache', hvalues, hsound⟩ := getDistinctReferenceValues_spec h check
  refine ⟨cache', ?_, hsound⟩
  unfold apply
  rw [hvalues]
  rfl

/-- A run with a sound cache gives what the checks give on their own. -/
theorem applyAll_eq (h : CacheSound spark refs cache) (runs : List (ForeignKey σ ρ α × Table σ ρ)) :
    applyAll spark refs runs (some cache) =
      runs.map fun run => (run.1.apply spark refs run.2 none).1 := by
  induction runs generalizing cache with
  | nil => rfl
  | cons run runs ih =>
    obtain ⟨cache', hresult, hsound⟩ := run.1.apply_some h run.2
    rw [applyAll, hresult]
    exact congrArg _ (ih hsound)

/-- A cell of a demonstration table: a number or a text. -/
inductive Cell where
  | number (n : Nat)
  | text (chars : Text)
  deriving DecidableEq

/-- A text equals the number it reads as. -/
def cellEqual : Cell → Cell → Bool
  | .number n, .number m => decide (n = m)
  | .text chars, .text chars' => decide (chars = chars')
  | .number n, .text chars | .text chars, .number n =>
    decide (n = chars.foldl (fun value c => 10 * value + (c.toNat - '0'.toNat)) 0)

abbrev Row := List (Text × Option Cell)

def cellColumn (name : Text) : Column (List Text) Row Cell := fun schema =>
  if name ∈ schema then some fun row => (row.lookup name).join else none

def cellSpark : Spark (List Text) Row Cell where
  col := cellColumn
  expr := cellColumn
  equal := cellEqual

/-- `F.expr("coalesce(a, 0)").alias("a")` -/
def coalesced : ColumnInput (List Text) Row Cell :=
  .column "a".toList fun schema =>
    (cellColumn "a".toList schema).map fun cell row => (cell row).or (some (.number 0))

def codes : Table (List Text) Row where
  schema := ["x".toList, "y".toList]
  rows := [[("x".toList, some (.text "1".toList)), ("y".toList, some (.number 1))],
    [("x".toList, some (.text "01".toList)), ("y".toList, some (.number 1))]]

def codeRefs : References (List Text) Row where
  refDfs := fun name => if name = "codes".toList then some codes else none
  tables := fun _ => none

def compositeKey : ForeignKey (List Text) Row Cell where
  columns := [coalesced, .name "b".toList]
  refColumns := [.name "x".toList, .name "y".toList]
  refDfName := some "codes".toList
  refTable := none
  negate := false
  rowFilter := fun _ => some true
  nullSafe := false
  valid := rfl

def singleKey : ForeignKey (List Text) Row Cell where
  columns := [.name "b".toList]
  refColumns := [.name "x".toList]
  refDfName := some "codes".toList
  refTable := none
  negate := false
  rowFilter := fun _ => some true
  nullSafe := false
  valid := rfl

def orders : Table (List Text) Row where
  schema := ["a".toList, "b".toList]
  rows := [[("a".toList, none), ("b".toList, some (.number 1))]]

end Dqx.ForeignKeys
