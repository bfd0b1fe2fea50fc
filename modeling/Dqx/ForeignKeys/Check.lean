import Dqx.ForeignKeys.Key
import Dqx.Lib.Join
import Dqx.Lib.Traverse

/-! The foreign-key check: the join with the distinct reference keys, the rows it flags, and the
cache of reference projections that the checks of a run share. -/

namespace Dqx.ForeignKeys

open Lib Lib.Sql

variable {σ ρ α : Type}

inductive RefParamError where
  | bothReferences
  | noReference
  | differentLengths
  deriving DecidableEq

/-- A text that Python takes for true. -/
def truthy (text : Option Text) : Option Text := text.filter fun chars => !chars.isEmpty

def validateRefParams (columns refColumns : List (ColumnInput σ ρ α))
    (refDfName refTable : Option Text) : Except RefParamError Unit :=
  if refDfName.isSome && refTable.isSome then
    .error .bothReferences
  else if (truthy refDfName).isNone && (truthy refTable).isNone then
    .error .noReference
  else if columns.length ≠ refColumns.length then
    .error .differentLengths
  else
    .ok ()

/-- The arguments of `foreign_key`, as it accepts them. -/
structure ForeignKey (σ ρ α : Type) where
  columns : List (ColumnInput σ ρ α)
  refColumns : List (ColumnInput σ ρ α)
  refDfName : Option Text
  refTable : Option Text
  negate : Bool
  rowFilter : ρ → Truth
  nullSafe : Bool
  valid : validateRefParams columns refColumns refDfName refTable = .ok ()

/-- The DataFrames passed for a run and the tables of the catalog. -/
structure References (σ ρ : Type) where
  refDfs : Text → Option (Table σ ρ)
  tables : Text → Option (Table σ ρ)

def getRefDf (refs : References σ ρ) (refDfName refTable : Option Text) : Option (Table σ ρ) :=
  match truthy refDfName with
  | some name => refs.refDfs name
  | none => (truthy refTable).bind refs.tables

abbrev Cache (α : Type) := List ((Text × ReferenceKey) × List (KeyValue α))

def sourceKey (refDfName refTable : Option Text) : Text :=
  match truthy refDfName with
  | some name => "dataframe:".toList ++ name
  | none => "table:".toList ++ refTable.getD "None".toList

section Definitions

variable [DecidableEq α]

def project (refs : References σ ρ) (refDfName refTable : Option Text)
    (refColExpr : KeyColumn σ ρ α) : Option (List (KeyValue α)) := do
  let refDf ← getRefDf refs refDfName refTable
  let value ← refColExpr refDf.schema
  return (refDf.rows.map value).dedup

/-- The distinct reference values, and the cache after the call. -/
def getDistinctReferenceValues (refs : References σ ρ) (refDfName refTable : Option Text)
    (refColExpr : KeyColumn σ ρ α) (refColKey : Option ReferenceKey) (cache : Option (Cache α)) :
    Option (List (KeyValue α)) × Option (Cache α) :=
  match cache, refColKey with
  | some cache, some key =>
    let cacheKey := (sourceKey refDfName refTable, key)
    match cache.lookup cacheKey with
    | some values => (some values, some cache)
    | none =>
      match project refs refDfName refTable refColExpr with
      | some values => (some values, some ((cacheKey, values) :: cache))
      | none => (none, some cache)
  | _, _ => (project refs refDfName refTable refColExpr, cache)

namespace ForeignKey

def key (spark : Spark σ ρ α) (check : ForeignKey σ ρ α) : ForeignKeyColumns σ ρ α :=
  resolveForeignKeyColumns spark check.columns check.refColumns check.nullSafe

/-- The join condition of a row with a reference value. -/
def joins (spark : Spark σ ρ α) (check : ForeignKey σ ρ α) (value : ρ → KeyValue α) (row : ρ)
    (ref : KeyValue α) : Truth :=
  (Truth.and ((value row).equal spark ref) (some (value row).isNotNull)).and (check.rowFilter row)

def violation (check : ForeignKey σ ρ α) (value : ρ → KeyValue α) (notNull : ρ → Bool) (row : ρ)
    (ref : Option (KeyValue α)) : Truth :=
  let baseCondition : Truth :=
    (Truth.and (some (notNull row)) (some (value row).isNotNull)).and (check.rowFilter row)
  let matchSucceeded := ref.any KeyValue.isNotNull
  baseCondition.and (some (if check.negate then matchSucceeded else !matchSucceeded))

/-- Each row of the join with its condition, and the cache after the call. -/
def apply (spark : Spark σ ρ α) (refs : References σ ρ) (check : ForeignKey σ ρ α)
    (df : Table σ ρ) (cache : Option (Cache α)) :
    Option (List (ρ × Truth)) × Option (Cache α) :=
  let (refDfDistinct, cache) := getDistinctReferenceValues refs check.refDfName check.refTable
    (check.key spark).referenceExpression (check.key spark).referenceCacheKey cache
  (do
    let values ← refDfDistinct
    let value ← (check.key spark).sourceExpression df.schema
    let notNull ← (check.key spark).notNullCondition df.schema
    let joined := leftOuter (fun row ref => decide (check.joins spark value row ref = some true))
      df.rows values
    return joined.map fun row => (row.1, check.violation value notNull row.1 row.2), cache)

end ForeignKey

/-- Checks applied one after the other, each to a table of its own, with one cache. -/
def applyAll (spark : Spark σ ρ α) (refs : References σ ρ) :
    List (ForeignKey σ ρ α × Table σ ρ) → Option (Cache α) → List (Option (List (ρ × Truth)))
  | [], _ => []
  | run :: runs, cache =>
    let (result, cache) := run.1.apply spark refs run.2 cache
    result :: applyAll spark refs runs cache

end Definitions

/-! ### The key as a tuple -/

/-- Two cells of a key match if their values are equal, or if both are null where nulls match. -/
def CellsMatch (spark : Spark σ ρ α) (nullsMatch : Bool) : Option α → Option α → Prop
  | some a, some b => spark.equal a b = true
  | none, none => nullsMatch = true
  | _, _ => False

instance (spark : Spark σ ρ α) (nullsMatch : Bool) :
    DecidableRel (CellsMatch spark nullsMatch)
  | some a, some b => inferInstanceAs (Decidable (spark.equal a b = true))
  | none, none => inferInstanceAs (Decidable (nullsMatch = true))
  | some _, none => inferInstanceAs (Decidable False)
  | none, some _ => inferInstanceAs (Decidable False)

abbrev KeysMatch (spark : Spark σ ρ α) (nullsMatch : Bool) (key key' : List (Option α)) : Prop :=
  List.Forall₂ (CellsMatch spark nullsMatch) key key'

theorem CellsMatch.of_isSome {spark : Spark σ ρ α} {nullsMatch nullsMatch' : Bool}
    {a b : Option α} (ha : a.isSome = true) :
    CellsMatch spark nullsMatch a b ↔ CellsMatch spark nullsMatch' a b := by
  cases a with
  | none => cases ha
  | some a => cases b <;> exact Iff.rfl

theorem keysMatch_of_isSome {spark : Spark σ ρ α} {nullsMatch nullsMatch' : Bool}
    {key key' : List (Option α)} (hkey : ∀ cell ∈ key, cell.isSome = true)
    (h : KeysMatch spark nullsMatch key key') : KeysMatch spark nullsMatch' key key' := by
  induction h with
  | nil => exact .nil
  | cons hcell _ ih =>
    rw [List.forall_mem_cons] at hkey
    exact .cons ((CellsMatch.of_isSome hkey.1).mp hcell) (ih hkey.2)

namespace ForeignKey

variable (spark : Spark σ ρ α) (refs : References σ ρ) (check : ForeignKey σ ρ α)

/-- A single key that skips nulls is compared as it is, any other as a struct. -/
def isPlain : Bool := decide (check.columns.length = 1) && !check.nullSafe

/-- The expressions that make up one side of the key. -/
def keyColumns (columns : List (ColumnInput σ ρ α)) : List (Column σ ρ α) :=
  if check.isPlain then
    columns.map (ColumnInput.normalizedExpr spark)
  else
    columns.map (ColumnInput.field spark)

/-- The key tuple of each row of a table with the schema. -/
def sourceTuple : Analysed σ ρ (List (Option α)) := analyse (check.keyColumns spark check.columns)

/-- The key tuples of the reference rows. -/
def referenceTuples : Option (List (List (Option α))) := do
  let refDf ← getRefDf refs check.refDfName check.refTable
  let tuple ← analyse (check.keyColumns spark check.refColumns) refDf.schema
  return refDf.rows.map tuple

/-- The value that stands for a tuple in the join. -/
def keyOf (cells : List (Option α)) : KeyValue α :=
  if check.isPlain then
    .plain cells.head?.join
  else
    .struct ((check.columns.map ColumnInput.nameOrAlias).zip cells)

theorem sameLength : check.columns.length = check.refColumns.length := by
  have hvalid := check.valid
  unfold validateRefParams at hvalid
  split at hvalid
  · cases hvalid
  split at hvalid
  · cases hvalid
  split at hvalid
  · cases hvalid
  · rename_i hlength
    exact not_not.mp hlength

theorem length_of_analyse {columns : List (Column σ ρ α)} {schema : σ}
    {tuple : ρ → List (Option α)} (h : analyse columns schema = some tuple) (row : ρ) :
    (tuple row).length = columns.length := by
  obtain ⟨cells, hcells, rfl⟩ := Option.map_eq_some_iff.mp h
  rw [List.length_map]
  exact ((mapM_eq_some_iff_forall₂.mp hcells).length_eq).symm

theorem length_keyColumns (columns : List (ColumnInput σ ρ α)) :
    (check.keyColumns spark columns).length = columns.length := by
  unfold keyColumns
  split <;> rw [List.length_map]

theorem length_sourceTuple {schema : σ} {tuple : ρ → List (Option α)}
    (h : check.sourceTuple spark schema = some tuple) (row : ρ) :
    (tuple row).length = check.columns.length := by
  rw [length_of_analyse h, length_keyColumns]

theorem length_of_mem_referenceTuples {tuples : List (List (Option α))}
    (h : check.referenceTuples spark refs = some tuples) {cells : List (Option α)}
    (hcells : cells ∈ tuples) : cells.length = check.columns.length := by
  obtain ⟨refDf, -, hrows⟩ := Option.bind_eq_some_iff.mp h
  obtain ⟨tuple, htuple, hmap⟩ := Option.bind_eq_some_iff.mp hrows
  cases hmap
  obtain ⟨row, -, rfl⟩ := List.mem_map.mp hcells
  rw [length_of_analyse htuple, length_keyColumns, sameLength]

theorem isPlain_eq_true_iff : check.isPlain = true ↔
    check.columns.length = 1 ∧ check.nullSafe = false := by
  rw [isPlain, Bool.and_eq_true, decide_eq_true_eq, Bool.not_eq_true']

/-- Either a single key is resolved as it is, or the key structs are built. -/
theorem key_cases :
    (check.isPlain = true ∧ ∃ column refColumn, check.columns = [column] ∧
      check.refColumns = [refColumn]) ∨
    (check.isPlain = false ∧ check.key spark =
      { sourceExpression := buildFkCompositeKeyStruct spark check.columns
          (check.columns.map ColumnInput.nameOrAlias)
        referenceExpression := buildFkCompositeKeyStruct spark check.refColumns
          (check.columns.map ColumnInput.nameOrAlias)
        referenceCacheKey := referenceCacheKey check.columns check.refColumns check.nullSafe
        notNullCondition := (handleFkCompositeKeys spark check.columns check.refColumns
          check.nullSafe).2.2 }) := by
  cases hplain : check.isPlain with
  | true =>
    obtain ⟨hone, -⟩ := check.isPlain_eq_true_iff.mp hplain
    obtain ⟨column, hcolumn⟩ := List.length_eq_one_iff.mp hone
    obtain ⟨refColumn, hrefColumn⟩ := List.length_eq_one_iff.mp (check.sameLength ▸ hone)
    exact .inl ⟨rfl, column, refColumn, hcolumn, hrefColumn⟩
  | false =>
    refine .inr ⟨rfl, ?_⟩
    unfold key resolveForeignKeyColumns
    split
    · rename_i column refColumn hcolumns hrefColumns hsafe
      have htrue := check.isPlain_eq_true_iff.mpr ⟨by rw [hcolumns]; rfl, hsafe⟩
      rw [hplain] at htrue
      cases htrue
    · rfl

theorem key_plain {column refColumn : ColumnInput σ ρ α} (hplain : check.isPlain = true)
    (hcolumns : check.columns = [column]) (hrefColumns : check.refColumns = [refColumn]) :
    check.key spark =
      { sourceExpression := fun schema =>
          (column.normalizedExpr spark schema).map fun cell row => .plain (cell row)
        referenceExpression := fun schema =>
          (refColumn.normalizedExpr spark schema).map fun cell row => .plain (cell row)
        referenceCacheKey := referenceCacheKey check.columns check.refColumns check.nullSafe
        notNullCondition := fun _ => some fun _ => true } := by
  have hsafe := (check.isPlain_eq_true_iff.mp hplain).2
  rw [key, hcolumns, hrefColumns, hsafe]
  rfl

theorem analyse_singleton (column : Column σ ρ α) (schema : σ) :
    analyse [column] schema = (column schema).map fun cell row => [cell row] := by
  cases h : column schema with
  | none => simp [analyse, h]
  | some cell => simp [analyse, h]

theorem buildFkCompositeKeyStruct_eq (columns : List (ColumnInput σ ρ α)) {names : List Text}
    (hlength : names.length = columns.length) (schema : σ) :
    buildFkCompositeKeyStruct spark columns names schema =
      (analyse (columns.map (ColumnInput.field spark)) schema).map fun cells row =>
        .struct (names.zip (cells row)) := by
  have hcolumns : (names.zip columns).map (fun field => field.2.field spark) =
      columns.map (ColumnInput.field spark) := by
    show (names.zip columns).map (ColumnInput.field spark ∘ Prod.snd) = _
    rw [← List.map_map, List.map_snd_zip (le_of_eq hlength.symm)]
  rw [buildFkCompositeKeyStruct, hcolumns]

/-- The source expression is the value of the row's tuple. -/
theorem sourceExpression_eq (schema : σ) : (check.key spark).sourceExpression schema =
    (check.sourceTuple spark schema).map fun tuple row => check.keyOf (tuple row) := by
  rcases check.key_cases spark with ⟨hplain, column, refColumn, hcolumns, hrefColumns⟩ |
    ⟨hplain, hkey⟩
  · rw [check.key_plain spark hplain hcolumns hrefColumns, sourceTuple, keyColumns, if_pos hplain,
      hcolumns, List.map_singleton, analyse_singleton, Option.map_map]
    refine Option.map_congr fun cell _ => funext fun row => ?_
    rw [Function.comp_apply, keyOf, if_pos hplain]
    rfl
  · rw [hkey]
    show buildFkCompositeKeyStruct _ _ _ _ = _
    rw [buildFkCompositeKeyStruct_eq _ _ (List.length_map _), sourceTuple, keyColumns,
      if_neg (by rw [hplain]; decide)]
    refine Option.map_congr fun cells _ => funext fun row => ?_
    rw [keyOf, if_neg (by rw [hplain]; decide)]

theorem referenceExpression_eq (schema : σ) : (check.key spark).referenceExpression schema =
    (analyse (check.keyColumns spark check.refColumns) schema).map fun tuple row =>
      check.keyOf (tuple row) := by
  rcases check.key_cases spark with ⟨hplain, column, refColumn, hcolumns, hrefColumns⟩ |
    ⟨hplain, hkey⟩
  · rw [check.key_plain spark hplain hcolumns hrefColumns, keyColumns, if_pos hplain,
      hrefColumns, List.map_singleton, analyse_singleton, Option.map_map]
    refine Option.map_congr fun cell _ => funext fun row => ?_
    rw [Function.comp_apply, keyOf, if_pos hplain]
    rfl
  · rw [hkey]
    show buildFkCompositeKeyStruct _ _ _ _ = _
    rw [buildFkCompositeKeyStruct_eq _ _ ((List.length_map _).trans check.sameLength), keyColumns,
      if_neg (by rw [hplain]; decide)]
    refine Option.map_congr fun cells _ => funext fun row => ?_
    rw [keyOf, if_neg (by rw [hplain]; decide)]

end ForeignKey

theorem KeyValue.isNotNull_of_equal {spark : Spark σ ρ α} {value ref : KeyValue α}
    (h : value.equal spark ref = some true) : ref.isNotNull = true := by
  cases ref with
  | struct fields => rfl
  | plain b =>
    cases b with
    | some b => rfl
    | none =>
      cases value with
      | plain a => cases a <;> cases h
      | struct fields => cases h

theorem KeyValue.fieldsEqual_zip_iff {spark : Spark σ ρ α} {names : List Text}
    {key key' : List (Option α)} (hlength : key.length = names.length)
    (hlength' : key'.length = names.length) :
    fieldsEqual spark (names.zip key) (names.zip key') = true ↔ KeysMatch spark true key key' := by
  induction names generalizing key key' with
  | nil =>
    rw [List.eq_nil_of_length_eq_zero hlength, List.eq_nil_of_length_eq_zero hlength']
    exact ⟨fun _ => .nil, fun _ => rfl⟩
  | cons name names ih =>
    obtain ⟨a, key, rfl⟩ := List.exists_cons_of_length_eq_add_one hlength
    obtain ⟨b, key', rfl⟩ := List.exists_cons_of_length_eq_add_one hlength'
    have hrest := ih (Nat.succ.inj hlength) (Nat.succ.inj hlength')
    rw [KeysMatch, List.forall₂_cons, ← KeysMatch, ← hrest, List.zip_cons_cons, List.zip_cons_cons]
    cases a <;> cases b <;> simp [fieldsEqual, CellsMatch]

namespace ForeignKey

variable (spark : Spark σ ρ α) (refs : References σ ρ) (check : ForeignKey σ ρ α)

/-- The join compares tuples: nulls match in a struct only. -/
theorem equal_keyOf_iff {key key' : List (Option α)} (hlength : key.length = check.columns.length)
    (hlength' : key'.length = check.columns.length) :
    ((check.keyOf key).equal spark (check.keyOf key') = some true ∧
      (check.keyOf key).isNotNull = true) ↔ KeysMatch spark (!check.isPlain) key key' := by
  cases hplain : check.isPlain with
  | true =>
    obtain ⟨hone, -⟩ := check.isPlain_eq_true_iff.mp hplain
    obtain ⟨a, rfl⟩ := List.length_eq_one_iff.mp (hlength.trans hone)
    obtain ⟨b, rfl⟩ := List.length_eq_one_iff.mp (hlength'.trans hone)
    have hkey : ∀ cell, check.keyOf [cell] = .plain cell := fun cell => by
      rw [keyOf, if_pos hplain]
      rfl
    rw [hkey, hkey, KeysMatch, List.forall₂_cons]
    cases a <;> cases b <;> simp [KeyValue.equal, KeyValue.isNotNull, CellsMatch]
  | false =>
    have hkey : ∀ cells, check.keyOf cells =
        .struct ((check.columns.map ColumnInput.nameOrAlias).zip cells) := fun cells => by
      rw [keyOf, if_neg (by rw [hplain]; decide)]
    rw [hkey, hkey]
    have hnames : (check.columns.map ColumnInput.nameOrAlias).length = check.columns.length :=
      List.length_map _
    rw [Bool.not_false, ← KeyValue.fieldsEqual_zip_iff (hlength.trans hnames.symm)
      (hlength'.trans hnames.symm)]
    exact ⟨fun h => Option.some.inj h.1, fun h => ⟨congrArg some h, rfl⟩⟩

/-- Different tuples have different values. -/
theorem keyOf_inj {key key' : List (Option α)} (hlength : key.length = check.columns.length)
    (hlength' : key'.length = check.columns.length) (h : check.keyOf key = check.keyOf key') :
    key = key' := by
  unfold keyOf at h
  split at h
  · rename_i hplain
    obtain ⟨hone, -⟩ := check.isPlain_eq_true_iff.mp hplain
    obtain ⟨a, rfl⟩ := List.length_eq_one_iff.mp (hlength.trans hone)
    obtain ⟨b, rfl⟩ := List.length_eq_one_iff.mp (hlength'.trans hone)
    exact congrArg (fun cell => [cell]) (KeyValue.plain.inj h)
  · have hnames : (check.columns.map ColumnInput.nameOrAlias).length = check.columns.length :=
      List.length_map _
    have hzip := congrArg (List.map Prod.snd) (KeyValue.struct.inj h)
    rwa [List.map_snd_zip (le_of_eq (hlength.trans hnames.symm)),
      List.map_snd_zip (le_of_eq (hlength'.trans hnames.symm))] at hzip

/-- A row's guard against nulls: all columns of a name, where key structs are built. -/
def guard : Analysed σ ρ Bool := (check.key spark).notNullCondition

/-- Whether a row's tuple is among the reference tuples. -/
def Occurs (nullsMatch : Bool) (key : List (Option α)) (tuples : List (List (Option α))) : Prop :=
  ∃ cells ∈ tuples, KeysMatch spark nullsMatch key cells

instance (nullsMatch : Bool) (key : List (Option α)) (tuples : List (List (Option α))) :
    Decidable (Occurs spark nullsMatch key tuples) :=
  inferInstanceAs (Decidable (∃ cells ∈ tuples, KeysMatch spark nullsMatch key cells))

variable [DecidableEq α]

theorem project_eq :
    project refs check.refDfName check.refTable (check.key spark).referenceExpression =
      (check.referenceTuples spark refs).map fun tuples => (tuples.map check.keyOf).dedup := by
  unfold project referenceTuples
  cases getRefDf refs check.refDfName check.refTable with
  | none => rfl
  | some refDf =>
    show ((check.key spark).referenceExpression refDf.schema).bind _ =
      Option.map _ ((analyse (check.keyColumns spark check.refColumns) refDf.schema).bind _)
    rw [referenceExpression_eq]
    cases analyse (check.keyColumns spark check.refColumns) refDf.schema with
    | none => rfl
    | some tuple =>
      show some (refDf.rows.map fun row => check.keyOf (tuple row)).dedup =
        some ((refDf.rows.map tuple).map check.keyOf).dedup
      rw [List.map_map]
      rfl

/-- The rows of the join with the reference values they match. -/
def joined (tuples : List (List (Option α))) (tuple : ρ → List (Option α)) (rows : List ρ) :
    List (ρ × Option (KeyValue α)) :=
  leftOuter (fun row ref => decide
    (check.joins spark (fun row => check.keyOf (tuple row)) row ref = some true))
    rows (tuples.map check.keyOf).dedup

theorem apply_none (df : Table σ ρ) : (check.apply spark refs df none).1 =
    (check.referenceTuples spark refs).bind fun tuples =>
      (check.sourceTuple spark df.schema).bind fun tuple =>
        (check.guard spark df.schema).map fun notNull =>
          (check.joined spark tuples tuple df.rows).map fun row =>
            (row.1, check.violation (fun row => check.keyOf (tuple row)) notNull row.1 row.2) := by
  show Option.bind (project refs check.refDfName check.refTable
    (check.key spark).referenceExpression) _ = _
  rw [project_eq, sourceExpression_eq, Option.bind_map]
  cases check.referenceTuples spark refs with
  | none => rfl
  | some tuples =>
    show Option.bind (Option.map _ _) _ = Option.bind _ _
    rw [Option.bind_map]
    cases check.sourceTuple spark df.schema with
    | none => rfl
    | some tuple =>
      show Option.bind (check.guard spark df.schema) _ = Option.map _ (check.guard spark df.schema)
      cases check.guard spark df.schema <;> rfl

end ForeignKey

end Dqx.ForeignKeys
