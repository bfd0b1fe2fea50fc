import Dqx.Checks.DataFrameConverter

/-! `LakebaseChecksStorageHandler`: the rows that it loads, and that they are those of the Delta
loader. The two look for the latest version in different sets of rows. -/

namespace Dqx.Checks

open Lib

variable {order order' : Arrangement (fun _ : CheckRow => ()) LaterFirst}

/-- The rows of `_load_checks_from_lakebase`. Rows without a fingerprint do not take part in the
search for the latest version. -/
def selectLakebaseRows (order : Arrangement (fun _ : CheckRow => ()) LaterFirst)
    (table : ChecksTable) (runConfigName : String) (ruleSetFingerprint : Option String) :
    List CheckRow :=
  let rows := table.rows.filter fun row => row.runConfigName = some runConfigName
  if table.versioned then
    match ruleSetFingerprint.filter (· ≠ "") with
    | some fingerprint => rows.filter fun row => row.ruleSetFingerprint = some fingerprint
    | none =>
      let latest := (order.run (rows.filter fun row => row.ruleSetFingerprint.isSome)).head?
      match latest.bind CheckRow.ruleSetFingerprint with
      | some fingerprint => rows.filter fun row => row.ruleSetFingerprint = some fingerprint
      | none => rows
  else rows

theorem laterFirst_refl (row : CheckRow) : LaterFirst row row :=
  (LaterFirst.total row row).elim id id

theorem head_laterFirst {rows : List CheckRow} {latest : CheckRow}
    (h : (order.run rows).head? = some latest) :
    latest ∈ rows ∧ ∀ row ∈ rows, LaterFirst latest row := by
  obtain ⟨hmem, hfirst⟩ := Arrangement.head_le h
  refine ⟨hmem, fun row hrow => ?_⟩
  rcases hfirst row hrow with rfl | hle
  · exact laterFirst_refl row
  · exact hle

/-- A row with a time comes before one without. -/
theorem createdAt_isSome_of_laterFirst {a b : CheckRow} (h : LaterFirst a b)
    (hb : b.createdAt.isSome) : a.createdAt.isSome := by
  have htime := h.1
  cases ha : a.createdAt with
  | some time => rfl
  | none =>
    obtain ⟨time, htime'⟩ := Option.isSome_iff_exists.mp hb
    rw [ha, htime'] at htime
    exact absurd htime id

/-- Two rows that come before each other are of one version. -/
theorem LaterFirst.fingerprint_eq {a b : CheckRow} (hab : LaterFirst a b) (hba : LaterFirst b a) :
    a.ruleSetFingerprint = b.ruleSetFingerprint := by
  have htime : a.createdAt = b.createdAt := DescNullsLast.antisymm _ _ hab.1 hba.1
  exact DescNullsLast.antisymm _ _ (hab.2 htime) (hba.2 htime.symm)

/-- Among rows whose fingerprint and time are given together, the first row is of the version of the
first row that has a fingerprint, if there is one. -/
theorem latest_fingerprint {rows : List CheckRow} {latest : CheckRow}
    (hnull : ∀ row ∈ rows, row.ruleSetFingerprint = none ↔ row.createdAt = none)
    (h : (order.run rows).head? = some latest) :
    latest.ruleSetFingerprint =
      (order'.run (rows.filter fun row => row.ruleSetFingerprint.isSome)).head?.bind
        CheckRow.ruleSetFingerprint := by
  obtain ⟨hmem, hfirst⟩ := head_laterFirst h
  cases hversioned : (order'.run (rows.filter fun row => row.ruleSetFingerprint.isSome)).head? with
  | none =>
    have hnone : latest.ruleSetFingerprint.isSome ≠ true :=
      List.filter_eq_nil_iff.mp (Arrangement.head_eq_none_iff.mp hversioned) latest hmem
    exact Option.not_isSome_iff_eq_none.mp hnone
  | some first =>
    obtain ⟨hfilter, hbefore⟩ := head_laterFirst hversioned
    obtain ⟨hfirstMem, hsome⟩ := List.mem_filter.mp hfilter
    have hlater : LaterFirst latest first := hfirst first hfirstMem
    -- the latest row has a time, since the first versioned one has
    have htime : first.createdAt.isSome := by
      rw [Option.isSome_iff_ne_none]
      intro hnone
      exact Option.isSome_iff_ne_none.mp hsome ((hnull first hfirstMem).mpr hnone)
    have hlatest : latest.ruleSetFingerprint.isSome := by
      rw [Option.isSome_iff_ne_none]
      intro hnone
      exact Option.isSome_iff_ne_none.mp (createdAt_isSome_of_laterFirst hlater htime)
        ((hnull latest hmem).mp hnone)
    exact hlater.fingerprint_eq (hbefore latest (List.mem_filter.mpr ⟨hmem, hlatest⟩))

/-- Both loaders select the same rows of a table, whatever order their engines give to rows that
compare alike. -/
theorem selectLakebaseRows_eq_selectRows {table : ChecksTable}
    (hnull : ∀ row ∈ table.rows, row.ruleSetFingerprint = none ↔ row.createdAt = none)
    (runConfigName : String) (ruleSetFingerprint : Option String) :
    selectLakebaseRows order' table runConfigName ruleSetFingerprint =
      selectRows order table runConfigName ruleSetFingerprint := by
  rw [selectLakebaseRows, selectRows]
  dsimp only
  generalize hrows : table.rows.filter (fun row => row.runConfigName = some runConfigName) = rows
  have hnull' : ∀ row ∈ rows, row.ruleSetFingerprint = none ↔ row.createdAt = none := by
    intro row hrow
    rw [← hrows] at hrow
    exact hnull row (List.mem_of_mem_filter hrow)
  split
  · cases ruleSetFingerprint.filter (· ≠ "") with
    | some fingerprint => rfl
    | none =>
      cases hhead : (order.run rows).head? with
      | none =>
        obtain rfl := Arrangement.head_eq_none_iff.mp hhead
        have hempty : order'.run ([] : List CheckRow) = [] := (order'.perm []).eq_nil
        simp [hempty]
      | some latest =>
        have hsame : latest.ruleSetFingerprint =
            (order'.run (rows.filter fun row => row.ruleSetFingerprint.isSome)).head?.bind
              CheckRow.ruleSetFingerprint := latest_fingerprint hnull' hhead
        dsimp only
        cases hfound : latest.ruleSetFingerprint with
        | none =>
          have hnone := hsame.symm.trans hfound
          simp only [hnone]
        | some fingerprint =>
          have hsome := hsame.symm.trans hfound
          simp only [hsome]
  · rfl

/-- A legacy row, and two versions. -/
def mixedTable : ChecksTable where
  versioned := true
  rows :=
    let row : CheckRow := {
      name := none, criticality := "error", function := "is_not_null", forEachColumn := [],
      arguments := none, filter := none, runConfigName := some "default", userMetadata := none,
      messageExpr := none, createdAt := none, ruleFingerprint := none, ruleSetFingerprint := none }
    [row, { row with createdAt := some 1, ruleSetFingerprint := some "v1" },
      { row with createdAt := some 2, ruleSetFingerprint := some "v2" }]

theorem selectLakebaseRows_mixedTable :
    selectLakebaseRows versionOrder mixedTable "default" none =
      selectRows versionOrder mixedTable "default" none :=
  selectLakebaseRows_eq_selectRows (by simp [mixedTable]) "default" none

end Dqx.Checks
