import Dqx.Upserts.Literals

/-! When both executors do to a table what an upsert is for. -/

namespace Dqx.Upserts

open Lib Lib.Sql

/-- What a service asks for: the natural key of a row and its other columns, none of them twice. -/
structure Call where
  keyCols : List (Text × Value)
  valueCols : List (Text × Value)
  distinct : ((keyCols ++ valueCols).map Prod.fst).Nodup
  keys_ne_none : ∀ p ∈ keyCols, p.2 ≠ .none
  portable : ∀ p ∈ keyCols ++ valueCols, p.2.Portable

inductive Operation where
  | upsert
  | upsertWithAudit (preserveCreated : Bool) (incrementOnUpdate : Option Text)

/-! ### What an upsert is for -/

section Purpose

variable (op : Operation) (call : Call) (now : Int) (default : Row)

def Call.cols : List (Text × Value) := call.keyCols ++ call.valueCols

/-- The row that is inserted on a miss. -/
def Call.row : Row :=
  insertedRow default (call.cols.map fun (col, v) => (col, v.stored now))

/-- A row with this key. -/
def Call.finds (row : Row) : Bool :=
  call.keyCols.all fun (k, v) => (row k).same (v.stored now)

def Operation.preserving : Operation → Bool
  | .upsert => false
  | .upsertWithAudit preserveCreated _ => preserveCreated

def Operation.incremented : Operation → Option Text
  | .upsert => none
  | .upsertWithAudit _ incrementOnUpdate => incrementOnUpdate

/-- The columns that change on a hit. -/
def Operation.updates : List (Text × Value) :=
  call.valueCols.filter fun (col, _) => !preserves op.preserving col

def Operation.assignments : List (Text × Assignment) :=
  (op.updates call).map fun (col, v) =>
    (col, if some col = op.incremented then .increment else .set (v.stored now))

/-- The row with the key is updated, or a row is inserted. -/
def Operation.apply (rows : List Row) : Except SqlError (List Row) :=
  mergeInto (call.finds now) (assign (op.assignments call now)) (call.row now default) rows

/-- No two rows have the same key. -/
def Call.UniqueKeys (rows : List Row) : Prop :=
  rows.Pairwise fun a b => ¬∀ p ∈ call.keyCols, (a p.1).same (b p.1) = true

end Purpose

/-! ### The statements -/

section Statements

variable (op : Operation) (table : Text) (call : Call)

def Operation.merge : Except UpsertError Merge :=
  match op with
  | .upsert => SqlExecutor.upsert table call.keyCols call.valueCols
  | .upsertWithAudit preserveCreated incrementOnUpdate =>
    SqlExecutor.upsertWithAudit table call.keyCols call.valueCols preserveCreated incrementOnUpdate

def Operation.insert : Except UpsertError Insert :=
  match op with
  | .upsert => PgExecutor.upsert table call.keyCols call.valueCols
  | .upsertWithAudit preserveCreated incrementOnUpdate =>
    PgExecutor.upsertWithAudit table call.keyCols call.valueCols preserveCreated incrementOnUpdate

def Operation.name : Operation → String
  | .upsert => "upsert"
  | .upsertWithAudit .. => "upsert_with_audit"

/-- Why both executors refuse a call. -/
def Operation.rejection : Option UpsertError :=
  if call.keyCols.isEmpty then some (.noKey op.name)
  else (op.incremented.filter fun col => !(call.valueCols.map Prod.fst).contains col).map
    .unknownIncrement

def Operation.mergeOf : Merge where
  table
  on := call.keyCols.map fun (k, _) => k
  source := call.keyCols.map fun (k, v) => (k, renderValue v)
  updateSet := (op.updates call).map fun (col, v) =>
    (col, if some col = op.incremented then .increment else .value (renderValue v))
  insert := call.cols.map fun (k, v) => (k, renderValue v)

/-- The proposed row holds what an audited column is set to, so both ways say the same. -/
def Operation.pgAssigned (col : Text) (v : Value) : Assigned :=
  match op with
  | .upsert => .excluded
  | .upsertWithAudit _ incrementOnUpdate =>
    if some col = incrementOnUpdate then .increment else .value (pgRenderValue v)

def Operation.insertOf : Insert where
  table
  aliased := (op.updates call).any fun (col, _) => some col = op.incremented
  insert := call.cols.map fun (k, v) => (k, pgRenderValue v)
  conflict := call.keyCols.map fun (k, _) => k
  update := if (op.updates call).isEmpty then none
    else some ((op.updates call).map fun (col, v) => (col, op.pgAssigned col v))

theorem updates_upsert : Operation.updates .upsert call = call.valueCols :=
  List.filter_eq_self.mpr fun _ _ => rfl

theorem merge_eq : op.merge table call =
    match op.rejection call with
    | some e => .error e
    | none => .ok (op.mergeOf table call) := by
  cases op with
  | upsert =>
    simp only [Operation.merge, SqlExecutor.upsert, Operation.rejection, Operation.mergeOf,
      updates_upsert]
    split <;> rfl
  | upsertWithAudit preserveCreated incrementOnUpdate =>
    simp only [Operation.merge, SqlExecutor.upsertWithAudit, Operation.rejection]
    split
    · rfl
    · dsimp only [Operation.incremented]
      cases incrementOnUpdate.filter fun col => !(call.valueCols.map Prod.fst).contains col <;> rfl

theorem insert_eq : op.insert table call =
    match op.rejection call with
    | some e => .error e
    | none => .ok (op.insertOf table call) := by
  cases op with
  | upsert =>
    simp only [Operation.insert, PgExecutor.upsert, Operation.rejection, Operation.insertOf,
      updates_upsert]
    split
    · rfl
    · simp [Operation.incremented, Call.cols, Operation.pgAssigned]
  | upsertWithAudit preserveCreated incrementOnUpdate =>
    simp only [Operation.insert, PgExecutor.upsertWithAudit, Operation.rejection]
    split
    · rfl
    · dsimp only [Operation.incremented]
      cases incrementOnUpdate.filter fun col => !(call.valueCols.map Prod.fst).contains col
      · simp only [List.isEmpty_map]
        rfl
      · rfl

end Statements

/-! ### Runs -/

section Runs

variable {op : Operation} {table : Text} {call : Call} {now : Int} {default : Row} {rows : List Row}

theorem insertedRow_of_mem {values : List (Text × Cell)} (hdistinct : (values.map Prod.fst).Nodup)
    {col : Text} {cell : Cell} (hmem : (col, cell) ∈ values) :
    insertedRow default values col = cell := by
  obtain ⟨before, behind, rfl⟩ := List.append_of_mem hmem
  have hbefore : ∀ p ∈ before, (col != p.1) = true := by
    intro p hp
    rw [List.map_append, List.map_cons, List.nodup_append] at hdistinct
    have hne := hdistinct.2.2 p.1 (List.mem_map_of_mem hp) col List.mem_cons_self
    simpa using fun h => hne h.symm
  rw [insertedRow, List.lookup_eq_some_iff.mpr ⟨before, behind, rfl, hbefore⟩]
  rfl

theorem map_fst_stored (items : List (Text × Value)) :
    (items.map fun (col, v) => (col, v.stored now)).map Prod.fst = items.map Prod.fst := by
  rw [List.map_map]
  rfl

/-- The inserted row holds every value of the call. -/
theorem Call.row_of_mem {col : Text} {v : Value} (hmem : (col, v) ∈ call.cols) :
    call.row now default col = v.stored now := by
  refine insertedRow_of_mem ?_ (List.mem_map.mpr ⟨(col, v), hmem, rfl⟩)
  rw [map_fst_stored]
  exact call.distinct

theorem mapValuesM_render {evaluate : Text → Except SqlError Cell} {render : Value → Text}
    {items : List (Text × Value)}
    (h : ∀ p ∈ items, evaluate (render p.2) = .ok (p.2.stored now)) :
    mapValuesM evaluate (items.map fun (col, v) => (col, render v)) =
      .ok (items.map fun (col, v) => (col, v.stored now)) := by
  rw [mapValuesM_eq_ok_iff_forall₂, List.forall₂_map_left_iff, List.forall₂_map_right_iff,
    List.forall₂_same]
  exact fun p hp => ⟨rfl, h p hp⟩

theorem resolveAll_updates {evaluate : Text → Except SqlError Cell} {excluded : Row}
    {aliased : Bool} {assigned : Text → Value → Assigned}
    (h : ∀ p ∈ op.updates call, (assigned p.1 p.2).resolve evaluate excluded aliased p.1 =
      .ok (if some p.1 = op.incremented then .increment else .set (p.2.stored now))) :
    resolveAll evaluate excluded aliased
        ((op.updates call).map fun (col, v) => (col, assigned col v)) =
      .ok (op.assignments call now) := by
  rw [resolveAll, mapM_eq_ok_iff_forall₂, Operation.assignments, List.forall₂_map_left_iff,
    List.forall₂_map_right_iff, List.forall₂_same]
  intro p hp
  dsimp only
  rw [h p hp]
  rfl

theorem mem_cols_of_mem_updates {p : Text × Value} (hp : p ∈ op.updates call) : p ∈ call.cols :=
  List.mem_append_right _ (List.mem_of_mem_filter hp)

/-- The keys of a statement find the rows with the key of the call. -/
theorem all_keys_eq {source : Row}
    (h : ∀ p ∈ call.keyCols, source p.1 = p.2.stored now) (row : Row) :
    ((call.keyCols.map fun (k, _) => k).all fun k => (row k).same (source k)) =
      call.finds now row := by
  rw [Bool.eq_iff_iff, Call.finds, List.all_map, List.all_eq_true, List.all_eq_true]
  exact forall₂_congr fun p hp => by simp [h p hp]

theorem distinct_render (render : Value → Text) :
    ((call.cols.map fun (col, v) => (col, render v)).map Prod.fst).Nodup := by
  rw [List.map_map]
  exact call.distinct

/-- What the `MERGE` does when Databricks reads every string as it was passed. -/
theorem run_mergeOf (hupdates : op.updates call ≠ [])
    (hread : ∀ p ∈ call.cols, ∀ text, p.2 = .str text → Readable text) :
    (op.mergeOf table call).run now default rows = op.apply call now default rows := by
  have hvalue : ∀ p ∈ call.cols,
      Databricks.evaluate now (renderValue p.2) = .ok (p.2.stored now) := fun p hp =>
    Databricks.evaluate_renderValue (call.portable p hp) (hread p hp)
  have hassignments : resolveAll (Databricks.evaluate now) (fun _ => .null) true
      ((op.updates call).map fun (col, v) => (col,
        if some col = op.incremented then .increment else .value (renderValue v))) =
        .ok (op.assignments call now) := by
    refine @resolveAll_updates op call now _ _ _ (fun col v =>
      if some col = op.incremented then .increment else .value (renderValue v)) fun p hp => ?_
    split
    · rfl
    · rw [Assigned.resolve, hvalue p (mem_cols_of_mem_updates hp)]
      rfl
  have hrow : ∀ p ∈ call.keyCols, insertedRow (fun _ => .null)
      (call.keyCols.map fun (col, v) => (col, v.stored now)) p.1 = p.2.stored now := by
    intro p hp
    refine insertedRow_of_mem ?_ (List.mem_map.mpr ⟨p, hp, rfl⟩)
    rw [map_fst_stored]
    exact call.distinct.sublist ((List.sublist_append_left ..).map _)
  have hrun := @Merge.run_eq now default (op.mergeOf table call) _ _ _
    (by simpa [Operation.mergeOf] using hupdates) (distinct_render renderValue)
    (mapValuesM_render fun p hp => hvalue p (List.mem_append_left _ hp)) hassignments
    (mapValuesM_render hvalue) rows
  have hfound : (fun target : Row => (op.mergeOf table call).on.all fun k => (target k).same
      (insertedRow (fun _ => .null)
        (call.keyCols.map fun (col, v) => (col, v.stored now)) k)) = call.finds now :=
    funext (all_keys_eq hrow)
  rw [hrun, hfound]
  rfl

theorem pgAssigned_cases (col : Text) (v : Value) :
    op.incremented = none ∧ op.pgAssigned col v = .excluded ∨
      op.pgAssigned col v =
        if some col = op.incremented then .increment else .value (pgRenderValue v) := by
  cases op with
  | upsert => exact .inl ⟨rfl, rfl⟩
  | upsertWithAudit => exact .inr rfl

theorem pairwise_finds (hunique : call.UniqueKeys rows) : rows.Pairwise fun a b =>
    ¬(call.finds now a = true ∧ call.finds now b = true) := by
  refine hunique.imp fun hdiffer hboth => hdiffer fun p hp => ?_
  have ha := List.all_eq_true.mp hboth.1 p hp
  have hb := List.all_eq_true.mp hboth.2 p hp
  simp only [Cell.same, Bool.and_eq_true, decide_eq_true_eq] at ha hb ⊢
  exact ⟨ha.1, ha.2.trans hb.2.symm⟩

/-- What the `INSERT` does when Postgres takes every string. -/
theorem run_insertOf (hupdates : op.updates call ≠ [])
    (hread : ∀ p ∈ call.cols, ∀ text, p.2 = .str text → Char.ofNat 0 ∉ text)
    (hunique : call.UniqueKeys rows) :
    (op.insertOf table call).run now default rows = op.apply call now default rows := by
  have hvalue : ∀ p ∈ call.cols,
      Postgres.evaluate now (pgRenderValue p.2) = .ok (p.2.stored now) := fun p hp =>
    Postgres.evaluate_pgRenderValue (call.portable p hp) (hread p hp)
  have hupdate : (op.insertOf table call).update =
      some ((op.updates call).map fun (col, v) => (col, op.pgAssigned col v)) := by
    simp [Operation.insertOf, hupdates]
  have hassignments : resolveAll (Postgres.evaluate now) (call.row now default)
      (op.insertOf table call).aliased
      ((op.updates call).map fun (col, v) => (col, op.pgAssigned col v)) =
        .ok (op.assignments call now) := by
    refine resolveAll_updates fun p hp => ?_
    have hmem := mem_cols_of_mem_updates hp
    have haliased (hincrement : some p.1 = op.incremented) :
        (op.insertOf table call).aliased = true :=
      List.any_eq_true.mpr ⟨p, hp, decide_eq_true hincrement⟩
    rcases @pgAssigned_cases op p.1 p.2 with ⟨hnone, hexcluded⟩ | hassigned
    · rw [hexcluded, Assigned.resolve, Call.row_of_mem hmem, hnone, if_neg nofun]
    · rw [hassigned]
      split
      · next hincrement => rw [Assigned.resolve, if_pos (haliased hincrement)]
      · rw [Assigned.resolve, hvalue p hmem]
        rfl
  have hrun := Insert.run_eq hupdate (by simpa using hupdates) (distinct_render pgRenderValue)
    (mapValuesM_render hvalue) hassignments rows
  have hfound : (fun row : Row => (op.insertOf table call).conflict.all fun k =>
      (row k).same (call.row now default k)) = call.finds now :=
    funext (all_keys_eq fun p hp => Call.row_of_mem (List.mem_append_left _ hp))
  rw [hrun]
  change insertOnConflict (fun row : Row => (op.insertOf table call).conflict.all fun k =>
      (row k).same (call.row now default k)) _ (call.row now default) rows = _
  rw [hfound, ← mergeInto_eq_insertOnConflict (pairwise_finds hunique)]
  rfl

theorem apply_nil : op.apply call now default [] = .ok [call.row now default] := rfl

/-- A `MERGE` that inserts the row of the call has updates, and Databricks reads its strings as they
were passed. -/
theorem of_run_mergeOf_nil
    (h : (op.mergeOf table call).run now default [] = .ok [call.row now default]) :
    op.updates call ≠ [] ∧ ∀ p ∈ call.cols, ∀ text, p.2 = .str text → Readable text := by
  have hdistinct : ((op.mergeOf table call).insert.map Prod.fst).Nodup :=
    distinct_render renderValue
  rw [Merge.run] at h
  by_cases hempty : (op.mergeOf table call).updateSet.isEmpty = true
  · rw [if_pos hempty] at h
    cases h
  · rw [if_neg hempty, if_neg (not_not_intro hdistinct)] at h
    refine ⟨by simpa [Operation.mergeOf] using hempty, fun p hp text hstr => ?_⟩
    obtain ⟨source, _, hsource⟩ := bind_eq_ok.mp h
    obtain ⟨assignments, _, hassignments⟩ := bind_eq_ok.mp hsource
    obtain ⟨values, hvalues, hmerge⟩ := bind_eq_ok.mp hassignments
    have hrow : insertedRow default values = call.row now default := by
      simpa [mergeInto] using hmerge
    obtain ⟨⟨col, cell⟩, hcell, hcol, hevaluate⟩ := exists_of_forall₂_left
      (mapValuesM_eq_ok_iff_forall₂.mp hvalues) (List.mem_map_of_mem hp)
    obtain rfl : p.1 = col := hcol
    have hkeys : (values.map Prod.fst).Nodup := keys_eq_of_mapValuesM hvalues ▸ hdistinct
    have hstored : insertedRow default values p.1 = cell := insertedRow_of_mem hkeys hcell
    rw [hrow, Call.row_of_mem hp] at hstored
    rw [← hstored] at hevaluate
    dsimp only at hevaluate
    rw [hstr] at hevaluate
    exact Databricks.readable_of_evaluate hevaluate

/-- An `INSERT` that Postgres runs has no NUL in a string. -/
theorem of_run_insertOf {rows' : List Row}
    (h : (op.insertOf table call).run now default rows = .ok rows') :
    ∀ p ∈ call.cols, ∀ text, p.2 = .str text → Char.ofNat 0 ∉ text := by
  have hdistinct : ((op.insertOf table call).insert.map Prod.fst).Nodup :=
    distinct_render pgRenderValue
  rw [Insert.run] at h
  by_cases hempty : (op.insertOf table call).update.any List.isEmpty = true
  · rw [if_pos hempty] at h
    cases h
  · rw [if_neg hempty, if_neg (not_not_intro hdistinct)] at h
    obtain ⟨values, hvalues, -⟩ := bind_eq_ok.mp h
    intro p hp text hstr hnul
    obtain ⟨_, -, -, hevaluate⟩ := exists_of_forall₂_left
      (mapValuesM_eq_ok_iff_forall₂.mp hvalues) (List.mem_map_of_mem hp)
    dsimp only at hevaluate
    rw [hstr, Postgres.evaluate_str, if_pos hnul] at hevaluate
    cases hevaluate

end Runs

/-! ### Agreement -/

/-- A string that is read back in both dialects: no backslash but before a percent sign or an
underscore, and no NUL. -/
def Value.Plain : Value → Prop
  | .str text => Readable text ∧ Char.ofNat 0 ∉ text
  | _ => True

instance : (value : Value) → Decidable value.Plain
  | .str text => inferInstanceAs (Decidable (Readable text ∧ Char.ofNat 0 ∉ text))
  | .none | .bool _ | .int _ | .raw _ => inferInstanceAs (Decidable True)

section Agreement

variable (op : Operation) (table : Text) (call : Call)

/-- Both executors refuse the call, or both do to every table what it asks for. -/
def Agree : Prop :=
  (∃ e, op.merge table call = .error e ∧ op.insert table call = .error e) ∨
    ∃ merge insert, op.merge table call = .ok merge ∧ op.insert table call = .ok insert ∧
      ∀ (now : Int) (default : Row) (rows : List Row), call.UniqueKeys rows →
        merge.run now default rows = op.apply call now default rows ∧
          insert.run now default rows = op.apply call now default rows

/-- The call is refused, or a hit changes some column and every string is plain. -/
def Transfers : Prop :=
  (op.rejection call).isSome = true ∨ op.updates call ≠ [] ∧ ∀ p ∈ call.cols, p.2.Plain

instance : Decidable (Transfers op call) := by
  unfold Transfers
  infer_instance

variable {op table call}

theorem transfers_of_agree (h : Agree op table call) : Transfers op call := by
  rw [Agree, merge_eq, insert_eq] at h
  cases hrejection : op.rejection call with
  | some e => exact .inl (by rw [hrejection]; rfl)
  | none =>
    rw [hrejection] at h
    rcases h with ⟨_, h, -⟩ | ⟨_, _, hmerge, hinsert, hrun⟩
    · cases h
    · cases hmerge
      cases hinsert
      obtain ⟨hmerge, hinsert⟩ := hrun 0 (fun _ => .null) [] .nil
      obtain ⟨hupdates, hreadable⟩ := of_run_mergeOf_nil hmerge
      refine .inr ⟨hupdates, fun p hp => ?_⟩
      have hnul := of_run_insertOf hinsert p hp
      cases hvalue : p.2 with
      | str text => exact ⟨hreadable p hp text hvalue, hnul text hvalue⟩
      | _ => trivial

theorem agree_of_transfers (h : Transfers op call) : Agree op table call := by
  rw [Agree, merge_eq, insert_eq]
  cases hrejection : op.rejection call with
  | some e => exact .inl ⟨e, rfl, rfl⟩
  | none =>
    rw [Transfers, hrejection] at h
    obtain ⟨hupdates, hplain⟩ := h.resolve_left nofun
    have hstr : ∀ p ∈ call.cols, ∀ text, p.2 = .str text →
        Readable text ∧ Char.ofNat 0 ∉ text := by
      intro p hp text hvalue
      have hp := hplain p hp
      rwa [hvalue] at hp
    refine .inr ⟨_, _, rfl, rfl, fun now default rows hunique => ⟨?_, ?_⟩⟩
    · exact run_mergeOf hupdates fun p hp text hvalue => (hstr p hp text hvalue).1
    · exact run_insertOf hupdates (fun p hp text hvalue => (hstr p hp text hvalue).2) hunique

variable (op table call)

/-- Both executors do what a call asks for exactly if it is refused, or sets some column on a hit and
holds plain strings only. -/
theorem upsert_agree_iff : Agree op table call ↔ Transfers op call :=
  ⟨transfers_of_agree, agree_of_transfers⟩

end Agreement

/-- A path with backslashes as the key. -/
def pathCall : Call where
  keyCols := [("path".toList, .str "C:\\temp".toList)]
  valueCols := [("seen_at".toList, .raw "now()".toList)]
  distinct := by decide
  keys_ne_none := by decide
  portable := by decide

theorem not_all_upserts_agree : ¬∀ (op : Operation) (table : Text) (call : Call),
    Agree op table call := by
  intro h
  exact absurd (transfers_of_agree (h .upsert "runs".toList pathCall)) (by decide)

end Dqx.Upserts
