import Dqx.Checks.DataFrameConverter
import Dqx.Lib.History

/-! `TableChecksStorageHandler`: what a sequence of saves leaves in the table, and what a load then
returns. For one run configuration the table holds a history of rule sets under their
fingerprints. -/

namespace Dqx.Checks

open Lib

inductive WriteMode where
  | append
  | overwrite
  deriving DecidableEq

/-- The handler with what it works on: the characters that `\w` matches, the conversion of other
values to strings in an array column, and an order of rows by version. -/
structure TableChecksStorageHandler where
  env : Environment
  wordChar : Char → Bool
  other : Value → String
  order : Arrangement (fun _ : CheckRow => ()) LaterFirst

def ChecksTable.holds (table : ChecksTable) (runConfigName fingerprint : String) : Bool :=
  table.rows.any fun row =>
    row.runConfigName = some runConfigName && row.ruleSetFingerprint = some fingerprint

/-- The write of new rows; `replaceWhere` replaces those of the run configuration. -/
def ChecksTable.write (table : ChecksTable) (runConfigName : String) (mode : WriteMode)
    (rows : List CheckRow) : ChecksTable :=
  match mode with
  | .append => { table with rows := table.rows ++ rows }
  | .overwrite =>
    { table with rows := (table.rows.filter fun row => row.runConfigName ≠ some runConfigName) ++ rows }

namespace TableChecksStorageHandler

variable (handler : TableChecksStorageHandler)

/-- `re.fullmatch(r"[\w.\-]+", run_config_name)`. -/
def safeName (name : String) : Bool :=
  !name.toList.isEmpty && name.toList.all fun c => handler.wordChar c || c = '.' || c = '-'

/-- A save at time `now`, on a table that may not exist. A table from before versions were kept
gets its columns even when the save is then skipped. -/
def save (checks : List Check) (runConfigName : String) (mode : WriteMode) (now : Nat)
    (table : Option ChecksTable) : Except CheckError (Option ChecksTable) :=
  if checks.isEmpty then .ok table
  else if mode = .overwrite ∧ handler.safeName runConfigName = false then .error .unsafeSqlQuery
  else do
    let fingerprint ← computeRuleSetFingerprintByMetadata handler.env checks
    let rows ← toDataframe handler.env handler.other runConfigName fingerprint now checks
    match table with
    | none => .ok (some { versioned := true, rows })
    | some existing =>
      let existing := { existing with versioned := true }
      if existing.holds runConfigName fingerprint then .ok (some existing)
      else .ok (some (existing.write runConfigName mode rows))

def load (runConfigName : String) (ruleSetFingerprint : Option String)
    (table : Option ChecksTable) : Except CheckError (List Check) :=
  match table with
  | none => .error .notFound
  | some table => fromDataframe handler.order table runConfigName ruleSetFingerprint

end TableChecksStorageHandler

/-- A call of `save`, and the time at which it is made. -/
structure SaveCall where
  checks : List Check
  mode : WriteMode
  time : Nat

namespace TableChecksStorageHandler

variable (handler : TableChecksStorageHandler)

/-- Calls of `save` for one run configuration, one after the other. -/
def saveAll (runConfigName : String) (calls : List SaveCall) (table : Option ChecksTable) :
    Except CheckError (Option ChecksTable) :=
  calls.foldlM (fun table call =>
    handler.save call.checks runConfigName call.mode call.time table) table

end TableChecksStorageHandler

/-- The rows of a run configuration. -/
def rowsFor (runConfigName : String) (table : Option ChecksTable) : List CheckRow :=
  (table.elim [] ChecksTable.rows).filter fun row => row.runConfigName = some runConfigName

/-- A rule set as it was saved: the time, and the rows. -/
abbrev SavedVersion := Nat × List CheckRow

/-- The rows of the table for a run configuration are those of a history of rule sets, each with its
own fingerprint and a time later than those before it. -/
structure Represents (runConfigName : String) (table : Option ChecksTable)
    (history : History String SavedVersion) : Prop where
  rows : rowsFor runConfigName table = history.reverse.flatMap fun entry => entry.2.2
  versioned : history ≠ [] → ∃ t, table = some t ∧ t.versioned = true
  nonempty : ∀ entry ∈ history, entry.2.2 ≠ []
  columns : ∀ entry ∈ history, ∀ row ∈ entry.2.2, row.runConfigName = some runConfigName ∧
    row.createdAt = some entry.2.1 ∧ row.ruleSetFingerprint = some entry.1
  keys : (history.map Prod.fst).Nodup
  times : history.Pairwise fun newer older => older.2.1 < newer.2.1

/-- The rule set that a call saves. -/
structure Saves (handler : TableChecksStorageHandler) (runConfigName : String) (call : SaveCall)
    (s : Save String SavedVersion) : Prop where
  key : computeRuleSetFingerprintByMetadata handler.env call.checks = .ok s.key
  rows : toDataframe handler.env handler.other runConfigName s.key call.time call.checks =
    .ok s.version.2
  time : s.version.1 = call.time
  replaces : s.replaces = decide (call.mode = .overwrite)

theorem toRow_columns {env : Environment} {other : Value → String}
    {runConfigName fingerprint : String} {now : Nat} {check : Check} {row : CheckRow}
    (h : toRow env other runConfigName fingerprint now check = .ok row) :
    row.runConfigName = some runConfigName ∧ row.createdAt = some now ∧
      row.ruleSetFingerprint = some fingerprint := by
  rw [toRow] at h
  obtain ⟨normalized, -, h⟩ := bind_eq_ok.mp h
  obtain ⟨arguments, -, h⟩ := bind_eq_ok.mp h
  obtain ⟨⟨name, ruleFingerprint⟩, -, h⟩ := bind_eq_ok.mp h
  obtain ⟨userMetadata, -, h⟩ := bind_eq_ok.mp h
  cases h
  exact ⟨rfl, rfl, rfl⟩

/-- The columns that `to_dataframe` stamps on every row. -/
theorem toDataframe_columns {env : Environment} {other : Value → String}
    {runConfigName fingerprint : String} {now : Nat} {checks : List Check} {rows : List CheckRow}
    (h : toDataframe env other runConfigName fingerprint now checks = .ok rows) :
    rows.length = checks.length ∧ ∀ row ∈ rows, row.runConfigName = some runConfigName ∧
      row.createdAt = some now ∧ row.ruleSetFingerprint = some fingerprint := by
  obtain ⟨specs, -, hrows⟩ := bind_eq_ok.mp h
  have hforall := mapM_eq_ok_iff_forall₂.mp hrows
  refine ⟨hforall.length_eq.symm, fun row hrow => ?_⟩
  obtain ⟨check, -, hcheck⟩ := exists_of_forall₂_right hforall hrow
  exact toRow_columns hcheck

theorem mem_rowsFor {runConfigName : String} {table : ChecksTable} {row : CheckRow} :
    row ∈ rowsFor runConfigName (some table) ↔
      row ∈ table.rows ∧ row.runConfigName = some runConfigName := by
  simp [rowsFor]

theorem Represents.mem_rows {runConfigName : String} {table : Option ChecksTable}
    {history : History String SavedVersion} (h : Represents runConfigName table history)
    {row : CheckRow} :
    row ∈ rowsFor runConfigName table ↔ ∃ entry ∈ history, row ∈ entry.2.2 := by
  simp [h.rows]

theorem Represents.holds_iff {runConfigName : String} {table : ChecksTable}
    {history : History String SavedVersion} (h : Represents runConfigName (some table) history)
    (fingerprint : String) :
    table.holds runConfigName fingerprint = true ↔ history.Holds fingerprint := by
  rw [ChecksTable.holds, List.any_eq_true, History.Holds, List.mem_map]
  constructor
  · rintro ⟨row, hrow, hcolumns⟩
    simp only [Bool.and_eq_true, decide_eq_true_eq] at hcolumns
    obtain ⟨entry, hentry, hmem⟩ := h.mem_rows.mp (mem_rowsFor.mpr ⟨hrow, hcolumns.1⟩)
    have hfingerprint := (h.columns entry hentry row hmem).2.2
    exact ⟨entry, hentry, Option.some.inj (hfingerprint.symm.trans hcolumns.2)⟩
  · rintro ⟨entry, hentry, rfl⟩
    obtain ⟨row, hrow⟩ := List.exists_mem_of_ne_nil _ (h.nonempty entry hentry)
    obtain ⟨hname, -, hfingerprint⟩ := h.columns entry hentry row hrow
    refine ⟨row, (mem_rowsFor.mp (h.mem_rows.mpr ⟨entry, hentry, hrow⟩)).1, ?_⟩
    simp [hname, hfingerprint]

/-- A save either writes the rows of the checks under a new fingerprint, or finds the fingerprint
and leaves the rows as they are. -/
theorem TableChecksStorageHandler.save_cases {handler : TableChecksStorageHandler}
    {checks : List Check} {runConfigName : String} {mode : WriteMode} {now : Nat}
    {table table' : Option ChecksTable} (hchecks : checks ≠ [])
    (hsave : handler.save checks runConfigName mode now table = .ok table') :
    ∃ fingerprint rows,
      computeRuleSetFingerprintByMetadata handler.env checks = .ok fingerprint ∧
      toDataframe handler.env handler.other runConfigName fingerprint now checks = .ok rows ∧
      ((table = none ∧ table' = some { versioned := true, rows }) ∨
        ∃ existing, table = some existing ∧
          ((existing.holds runConfigName fingerprint = true ∧
              table' = some { existing with versioned := true }) ∨
            (existing.holds runConfigName fingerprint = false ∧
              table' = some (({ existing with versioned := true } : ChecksTable).write
                runConfigName mode rows)))) := by
  rw [TableChecksStorageHandler.save, if_neg (by simpa using hchecks)] at hsave
  split at hsave
  · cases hsave
  obtain ⟨fingerprint, hfingerprint, hsave⟩ := bind_eq_ok.mp hsave
  obtain ⟨rows, hrows, hsave⟩ := bind_eq_ok.mp hsave
  refine ⟨fingerprint, rows, hfingerprint, hrows, ?_⟩
  cases table with
  | none => exact .inl ⟨rfl, (Except.ok.inj hsave).symm⟩
  | some existing =>
    refine .inr ⟨existing, rfl, ?_⟩
    simp only at hsave
    split at hsave
    · rename_i hholds
      exact .inl ⟨hholds, (Except.ok.inj hsave).symm⟩
    · rename_i hholds
      have hfalse : existing.holds runConfigName fingerprint = false := Bool.not_eq_true _ ▸ hholds
      exact .inr ⟨hfalse, (Except.ok.inj hsave).symm⟩

/-- The rows of the run configuration after a write. -/
theorem rowsFor_write {runConfigName : String} {table : ChecksTable} {mode : WriteMode}
    {rows : List CheckRow} (hrows : ∀ row ∈ rows, row.runConfigName = some runConfigName) :
    rowsFor runConfigName (some (table.write runConfigName mode rows)) =
      (if mode = .overwrite then [] else rowsFor runConfigName (some table)) ++ rows := by
  have hall : rows.filter (fun row => row.runConfigName = some runConfigName) = rows := by
    rw [List.filter_eq_self]
    exact fun row hrow => by simpa using hrows row hrow
  cases mode with
  | append => simp [rowsFor, ChecksTable.write, hall]
  | overwrite =>
    simp [rowsFor, ChecksTable.write, hall]

/-- A rule set under a new fingerprint, saved after those of the history. -/
theorem Represents.write {runConfigName : String} {table : Option ChecksTable}
    {table' : ChecksTable} {history : History String SavedVersion} {s : Save String SavedVersion}
    (h : Represents runConfigName table history) (hnew : ¬history.Holds s.key)
    (hversioned : table'.versioned = true)
    (hrows : rowsFor runConfigName (some table') =
      (if s.replaces = true then [] else rowsFor runConfigName table) ++ s.version.2)
    (hnonempty : s.version.2 ≠ [])
    (hcolumns : ∀ row ∈ s.version.2, row.runConfigName = some runConfigName ∧
      row.createdAt = some s.version.1 ∧ row.ruleSetFingerprint = some s.key)
    (htimes : ∀ entry ∈ history, entry.2.1 < s.version.1) :
    Represents runConfigName (some table') (history.save s) := by
  have hkeys := history.save_nodup s h.keys
  rw [History.save, if_neg hnew] at hkeys ⊢
  split
  · rename_i hreplaces
    rw [if_pos hreplaces] at hkeys hrows
    exact {
      rows := by simpa using hrows
      versioned := fun _ => ⟨table', rfl, hversioned⟩
      nonempty := by simpa using hnonempty
      columns := by simpa using hcolumns
      keys := hkeys
      times := List.pairwise_singleton _ _ }
  · rename_i hreplaces
    rw [if_neg hreplaces] at hkeys hrows
    exact {
      rows := by rw [hrows, h.rows]; simp
      versioned := fun _ => ⟨table', rfl, hversioned⟩
      nonempty := List.forall_mem_cons.mpr ⟨hnonempty, h.nonempty⟩
      columns := List.forall_mem_cons.mpr ⟨hcolumns, h.columns⟩
      keys := hkeys
      times := List.pairwise_cons.mpr ⟨htimes, h.times⟩ }

theorem Represents.save {handler : TableChecksStorageHandler} {runConfigName : String}
    {table table' : Option ChecksTable} {history : History String SavedVersion} {call : SaveCall}
    (h : Represents runConfigName table history) (hchecks : call.checks ≠ [])
    (htimes : ∀ entry ∈ history, entry.2.1 < call.time)
    (hsave : handler.save call.checks runConfigName call.mode call.time table = .ok table') :
    ∃ s, Saves handler runConfigName call s ∧
      Represents runConfigName table' (History.save history s) := by
  obtain ⟨fingerprint, rows, hfingerprint, hrows, hcases⟩ :=
    TableChecksStorageHandler.save_cases hchecks hsave
  obtain ⟨hlength, hcolumns⟩ := toDataframe_columns hrows
  have hnonempty : rows ≠ [] := by
    rw [← List.length_pos_iff, hlength]
    exact List.length_pos_iff.mpr hchecks
  refine ⟨⟨fingerprint, (call.time, rows), decide (call.mode = .overwrite)⟩,
    ⟨hfingerprint, hrows, rfl, rfl⟩, ?_⟩
  rcases hcases with ⟨rfl, rfl⟩ | ⟨existing, rfl, ⟨hholds, rfl⟩ | ⟨hholds, rfl⟩⟩
  · -- the table is made
    have hnil : history = [] := by
      by_contra hne
      obtain ⟨t, ht, -⟩ := h.versioned hne
      cases ht
    subst hnil
    apply h.write List.not_mem_nil rfl _ hnonempty hcolumns htimes
    have hall : rows.filter (fun row => row.runConfigName = some runConfigName) = rows := by
      rw [List.filter_eq_self]
      exact fun row hrow => by simpa using (hcolumns row hrow).1
    simp [rowsFor, hall]
  · -- the fingerprint is found
    rw [History.save_of_holds ((h.holds_iff fingerprint).mp hholds)]
    exact { h with versioned := fun _ => ⟨_, rfl, rfl⟩ }
  · -- the rows are written
    have hnew : ¬history.Holds fingerprint := fun hmem => by
      rw [(h.holds_iff fingerprint).mpr hmem] at hholds
      cases hholds
    apply h.write hnew _ _ hnonempty hcolumns htimes
    · cases call.mode <;> rfl
    · rw [rowsFor_write fun row hrow => (hcolumns row hrow).1]
      simp [rowsFor]

/-- A sequence of saves runs the history through the rule sets of its calls. -/
theorem Represents.saveAll {handler : TableChecksStorageHandler} {runConfigName : String}
    {calls : List SaveCall} {table table' : Option ChecksTable}
    {history : History String SavedVersion} (h : Represents runConfigName table history)
    (hchecks : ∀ call ∈ calls, call.checks ≠ [])
    (hincreasing : calls.Pairwise fun earlier later => earlier.time < later.time)
    (htimes : ∀ entry ∈ history, ∀ call ∈ calls, entry.2.1 < call.time)
    (hsave : handler.saveAll runConfigName calls table = .ok table') :
    ∃ saves, List.Forall₂ (Saves handler runConfigName) calls saves ∧
      Represents runConfigName table' (history.run saves) := by
  induction calls generalizing table history with
  | nil =>
    obtain rfl : table = table' := Except.ok.inj hsave
    exact ⟨[], .nil, h⟩
  | cons call calls ih =>
    rw [TableChecksStorageHandler.saveAll, List.foldlM_cons] at hsave
    obtain ⟨middle, hfirst, hrest⟩ := bind_eq_ok.mp hsave
    obtain ⟨hlater, hincreasing⟩ := List.pairwise_cons.mp hincreasing
    obtain ⟨s, hs, hrepresents⟩ := h.save (hchecks call List.mem_cons_self)
      (fun entry hentry => htimes entry hentry call List.mem_cons_self) hfirst
    have htimes' : ∀ entry ∈ history.save s, ∀ later ∈ calls, entry.2.1 < later.time := by
      intro entry hentry later hmem
      rw [History.save] at hentry
      have hnew : entry = (s.key, s.version) → entry.2.1 < later.time := by
        rintro rfl
        rw [hs.time]
        exact hlater later hmem
      have hold : entry ∈ history → entry.2.1 < later.time := fun hold =>
        htimes entry hold later (List.mem_cons_of_mem _ hmem)
      split at hentry
      · exact hold hentry
      · split at hentry
        · exact hnew (List.mem_singleton.mp hentry)
        · rcases List.mem_cons.mp hentry with heq | hmem'
          · exact hnew heq
          · exact hold hmem'
    obtain ⟨saves, hforall, hrun⟩ := ih hrepresents
      (fun later hmem => hchecks later (List.mem_cons_of_mem _ hmem)) hincreasing htimes' hrest
    exact ⟨s :: saves, .cons hs hforall, hrun⟩

/-- The row that comes first by version belongs to the newest rule set. -/
theorem Represents.head_order {order : Arrangement (fun _ : CheckRow => ()) LaterFirst}
    {runConfigName : String} {table : Option ChecksTable} {newest : String × SavedVersion}
    {older : History String SavedVersion}
    (h : Represents runConfigName table (newest :: older)) :
    ∃ latest, (order.run (rowsFor runConfigName table)).head? = some latest ∧
      latest.ruleSetFingerprint = some newest.1 := by
  obtain ⟨row, hrow⟩ := List.exists_mem_of_ne_nil _ (h.nonempty newest List.mem_cons_self)
  obtain ⟨-, hcreated, -⟩ := h.columns newest List.mem_cons_self row hrow
  have hperm := order.perm (rowsFor runConfigName table)
  have hmem : row ∈ order.run (rowsFor runConfigName table) :=
    hperm.symm.subset (h.mem_rows.mpr ⟨newest, List.mem_cons_self, hrow⟩)
  have hsorted := order.sorted (rowsFor runConfigName table)
  cases horder : order.run (rowsFor runConfigName table) with
  | nil =>
    rw [horder] at hmem
    exact absurd hmem List.not_mem_nil
  | cons latest rest =>
    refine ⟨latest, rfl, ?_⟩
    rw [horder] at hmem hsorted hperm
    obtain ⟨entry, hentry, hin⟩ := h.mem_rows.mp (hperm.subset List.mem_cons_self)
    obtain ⟨-, htime, hfingerprint⟩ := h.columns entry hentry latest hin
    rcases List.mem_cons.mp hentry with rfl | hold
    · exact hfingerprint
    · -- a row of an older rule set would come after `row`
      have hlt := (List.pairwise_cons.mp h.times).1 entry hold
      rcases List.mem_cons.mp hmem with rfl | hmem
      · rw [hcreated, Option.some.injEq] at htime
        omega
      · have hle := ((List.pairwise_cons.mp hsorted).1 row hmem rfl).1
        rw [htime, hcreated] at hle
        have : newest.2.1 ≤ entry.2.1 := hle
        omega

/-- Of the rows of a history, those of one fingerprint are those of its rule set. -/
theorem filter_flatMap_newest {runConfigName : String} {table : Option ChecksTable}
    {newest : String × SavedVersion} {older : History String SavedVersion}
    (h : Represents runConfigName table (newest :: older)) :
    (rowsFor runConfigName table).filter (fun row => row.ruleSetFingerprint = some newest.1) =
      newest.2.2 := by
  have hnewest : newest.2.2.filter (fun row => row.ruleSetFingerprint = some newest.1) =
      newest.2.2 := by
    rw [List.filter_eq_self]
    exact fun row hrow => by simpa using (h.columns newest List.mem_cons_self row hrow).2.2
  have holder : ∀ row ∈ older.reverse.flatMap (fun entry => entry.2.2),
      ¬row.ruleSetFingerprint = some newest.1 := by
    intro row hrow heq
    obtain ⟨entry, hentry, hin⟩ := List.mem_flatMap.mp hrow
    have hold : entry ∈ older := List.mem_reverse.mp hentry
    have hfingerprint := (h.columns entry (List.mem_cons_of_mem _ hold) row hin).2.2
    have hkey : entry.1 = newest.1 := Option.some.inj (hfingerprint.symm.trans heq)
    exact (List.nodup_cons.mp h.keys).1 (List.mem_map.mpr ⟨entry, hold, hkey⟩)
  rw [h.rows, List.reverse_cons, List.flatMap_append, List.filter_append]
  have hnone : (older.reverse.flatMap fun entry => entry.2.2).filter
      (fun row => row.ruleSetFingerprint = some newest.1) = [] := by
    rw [List.filter_eq_nil_iff]
    exact fun row hrow => by simpa using holder row hrow
  rw [hnone]
  simpa using hnewest

/-- Without a fingerprint, the rows of the newest rule set are selected. -/
theorem Represents.selectRows_none {order : Arrangement (fun _ : CheckRow => ()) LaterFirst}
    {runConfigName : String} {table : ChecksTable} {newest : String × SavedVersion}
    {older : History String SavedVersion}
    (h : Represents runConfigName (some table) (newest :: older)) :
    selectRows order table runConfigName none = newest.2.2 := by
  obtain ⟨t, ht, hversioned⟩ := h.versioned (by simp)
  cases ht
  obtain ⟨latest, hhead, hfingerprint⟩ : ∃ latest, (order.run (rowsFor runConfigName _)).head? =
    some latest ∧ latest.ruleSetFingerprint = some newest.1 := h.head_order
  have hrows : rowsFor runConfigName (some table) =
    table.rows.filter fun row => row.runConfigName = some runConfigName := rfl
  rw [hrows] at hhead
  simp only [selectRows, hversioned, if_true, Option.filter_none, hhead, hfingerprint]
  rw [← hrows]
  exact filter_flatMap_newest h

theorem Saves.unique {handler : TableChecksStorageHandler} {runConfigName : String}
    {call : SaveCall} {s s' : Save String SavedVersion} (h : Saves handler runConfigName call s)
    (h' : Saves handler runConfigName call s') : s = s' := by
  obtain ⟨key, ⟨time, rows⟩, replaces⟩ := s
  obtain ⟨key', ⟨time', rows'⟩, replaces'⟩ := s'
  obtain rfl : key = key' := Except.ok.inj (h.key.symm.trans h'.key)
  obtain rfl : rows = rows' := Except.ok.inj (h.rows.symm.trans h'.rows)
  obtain rfl : time = time' := h.time.trans h'.time.symm
  obtain rfl : replaces = replaces' := h.replaces.trans h'.replaces.symm
  rfl

theorem Saves.rightUnique (handler : TableChecksStorageHandler) (runConfigName : String) :
    Relator.RightUnique (Saves handler runConfigName) := fun _ _ _ h h' => h.unique h'

theorem represents_nil {runConfigName : String} {table : Option ChecksTable}
    (hfresh : rowsFor runConfigName table = []) : Represents runConfigName table [] where
  rows := hfresh
  versioned := fun hne => absurd rfl hne
  nonempty := by simp
  columns := by simp
  keys := List.nodup_nil
  times := .nil

/-- A load after the calls returns the rule set of the last call that was not skipped: its
fingerprint was new to the table, and those of the calls after it were not. -/
def LoadsLastNew (handler : TableChecksStorageHandler) (runConfigName : String)
    (calls : List SaveCall) (table table' : Option ChecksTable) : Prop :=
  ∃ before call after fingerprint rows middle, calls = before ++ call :: after ∧
    computeRuleSetFingerprintByMetadata handler.env call.checks = .ok fingerprint ∧
    toDataframe handler.env handler.other runConfigName fingerprint call.time call.checks =
      .ok rows ∧
    handler.saveAll runConfigName before table = .ok middle ∧
    (∀ row ∈ rowsFor runConfigName middle, row.ruleSetFingerprint ≠ some fingerprint) ∧
    (∀ later ∈ after, ∃ stored,
      computeRuleSetFingerprintByMetadata handler.env later.checks = .ok stored ∧
      ∃ row ∈ rowsFor runConfigName table', row.ruleSetFingerprint = some stored) ∧
    handler.load runConfigName none table' =
      rows.mapM (fun row => denormalizeCheck (rowToCheck row)) ∧
    ∀ row ∈ rows, row.ruleSetFingerprint = some fingerprint

theorem loadsLastNew_of_saveAll {handler : TableChecksStorageHandler} {runConfigName : String}
    {calls : List SaveCall} {table table' : Option ChecksTable}
    (hfresh : rowsFor runConfigName table = []) (hne : calls ≠ [])
    (hchecks : ∀ call ∈ calls, call.checks ≠ [])
    (hincreasing : calls.Pairwise fun earlier later => earlier.time < later.time)
    (hsave : handler.saveAll runConfigName calls table = .ok table') :
    LoadsLastNew handler runConfigName calls table table' := by
  obtain ⟨saves, hforall, hrepresents⟩ :=
    (represents_nil hfresh).saveAll hchecks hincreasing (by simp) hsave
  have hsaves : saves ≠ [] := fun hnil =>
    hne (List.length_eq_zero_iff.mp (by rw [hforall.length_eq, hnil, List.length_nil]))
  obtain ⟨earlier, s, skipped, rfl, hnew, hskipped, hrun⟩ := History.run_eq_last_new hsaves
  obtain ⟨before, rest, rfl, hbefore, hrest⟩ := forall₂_append_right hforall
  cases hrest with
  | @cons call _ after _ hs hafter =>
    rw [hrun, History.run_append] at hrepresents
    have hhead := History.save_head_of_not_holds hnew
    obtain ⟨middle, hmiddle, hlast⟩ : ∃ middle,
        handler.saveAll runConfigName before table = .ok middle ∧
        handler.saveAll runConfigName (call :: after) middle = .ok table' := by
      rw [TableChecksStorageHandler.saveAll, List.foldlM_append] at hsave
      exact bind_eq_ok.mp hsave
    refine ⟨before, call, after, s.key, s.version.2, middle, rfl, hs.key, hs.rows, hmiddle, ?_, ?_,
      ?_, fun row hrow => ((toDataframe_columns hs.rows).2 row hrow).2.2⟩
    · -- the fingerprint is new to the table before the save
      obtain ⟨saves', hforall', hrepresents'⟩ := (represents_nil hfresh).saveAll
        (fun c hc => hchecks c (List.mem_append_left _ hc))
        (List.pairwise_append.mp hincreasing).1 (by simp) hmiddle
      obtain rfl : earlier = saves' :=
        List.right_unique_forall₂' (Saves.rightUnique _ _) hbefore hforall'
      intro row hrow hfingerprint
      obtain ⟨entry, hentry, hin⟩ := hrepresents'.mem_rows.mp hrow
      have hkey := (hrepresents'.columns entry hentry row hin).2.2
      exact hnew (List.mem_map.mpr
        ⟨entry, hentry, Option.some.inj (hkey.symm.trans hfingerprint)⟩)
    · -- those of the saves after it are in the table
      intro later hlater
      obtain ⟨s', hs', hsaves'⟩ := exists_of_forall₂_left hafter hlater
      have hheld := hskipped s' hs'
      rw [History.run_append] at hheld
      obtain ⟨entry, hentry, hkey⟩ := List.mem_map.mp hheld
      obtain ⟨row, hrow⟩ := List.exists_mem_of_ne_nil _ (hrepresents.nonempty entry hentry)
      refine ⟨s'.key, hsaves'.key, row, hrepresents.mem_rows.mpr ⟨entry, hentry, hrow⟩, ?_⟩
      rw [(hrepresents.columns entry hentry row hrow).2.2, hkey]
    · -- the load selects its rows
      have hstep : (History.run [] earlier).run [s] = (History.run [] earlier).save s := rfl
      rw [hstep] at hrepresents
      cases hhistory : (History.run [] earlier).save s with
      | nil =>
        rw [hhistory] at hhead
        cases hhead
      | cons newest older =>
        rw [hhistory] at hhead hrepresents
        obtain rfl : newest = (s.key, s.version) := Option.some.inj hhead
        obtain ⟨t, rfl, -⟩ := hrepresents.versioned (by simp)
        show fromDataframe handler.order t runConfigName none = _
        rw [fromDataframe, hrepresents.selectRows_none]

/-- A check function of one column. -/
def isNotNull : CheckFunction where
  name := "is_not_null"
  params := [⟨"column", true⟩]
  accepts _ _ := true
  condition bound := match bound with
    | [(_, .str column)] => .ok (column ++ "_is_null")
    | _ => .error .typeError

/-- A hash that tells rules apart by their names. -/
def nameHash : Json → String
  | .obj fields => match fields.lookup "name" with
    | some (.str name) => name
    | _ => ""
  | .arr [.str fingerprint] => fingerprint
  | _ => ""

def plainHandler : TableChecksStorageHandler where
  env := {
    resolveCheckFunction := fun name => if name = "is_not_null" then some isNotNull else none
    checkFuncRegistry := fun _ => some .row
    parses := fun _ => true
    sha256 := nameHash }
  wordChar := Char.isAlphanum
  other _ := ""
  order := versionOrder

def notNull (column : String) : Check where
  check := { function := "is_not_null", arguments := some (.dict [(.str "column", .str column)]) }

def resavedCalls : List SaveCall :=
  [⟨[notNull "a"], .append, 1⟩, ⟨[notNull "b"], .append, 2⟩]

def resavedTable : Option ChecksTable :=
  match plainHandler.saveAll "default" (resavedCalls ++ [⟨[notNull "a"], .append, 3⟩]) none with
  | .ok table => table
  | .error _ => none

theorem saveAll_resaved :
    plainHandler.saveAll "default" (resavedCalls ++ [⟨[notNull "a"], .append, 3⟩]) none =
      .ok resavedTable := by
  have hsaved : (plainHandler.saveAll "default" (resavedCalls ++ [⟨[notNull "a"], .append, 3⟩])
      none).isOk = true := by decide +kernel
  unfold resavedTable
  cases hrun : plainHandler.saveAll "default" (resavedCalls ++ [⟨[notNull "a"], .append, 3⟩])
    none with
  | ok table => rfl
  | error e =>
    rw [hrun] at hsaved
    cases hsaved

theorem loadsLastNew_resaved :
    LoadsLastNew plainHandler "default" (resavedCalls ++ [⟨[notNull "a"], .append, 3⟩]) none
      resavedTable :=
  loadsLastNew_of_saveAll rfl (by simp) (by simp [resavedCalls]) (by simp [resavedCalls])
    saveAll_resaved

/-- Saving a rule set, a second one, and the first again: the third save is skipped, and the second
rule set is loaded. -/
theorem resaved_rule_set_not_loaded :
    ¬∀ (handler : TableChecksStorageHandler) (runConfigName : String) (calls : List SaveCall)
      (last : SaveCall) (table' : Option ChecksTable),
      (∀ call ∈ calls ++ [last], call.checks ≠ []) →
      (calls ++ [last]).Pairwise (fun earlier later => earlier.time < later.time) →
      handler.saveAll runConfigName (calls ++ [last]) none = .ok table' →
      ∃ loaded, handler.load runConfigName none table' = .ok loaded ∧
        computeRuleSetFingerprintByMetadata handler.env loaded =
          computeRuleSetFingerprintByMetadata handler.env last.checks := by
  intro h
  obtain ⟨loaded, hload, hfingerprint⟩ := h plainHandler "default" resavedCalls
    ⟨[notNull "a"], .append, 3⟩ resavedTable (by simp [resavedCalls]) (by simp [resavedCalls])
    saveAll_resaved
  have hsecond : (plainHandler.load "default" none resavedTable >>=
      computeRuleSetFingerprintByMetadata plainHandler.env) = .ok "b_is_null" := by
    decide +kernel
  have hfirst : computeRuleSetFingerprintByMetadata plainHandler.env [notNull "a"] =
      .ok "a_is_null" := by decide +kernel
  rw [hload] at hsecond
  have hshown : computeRuleSetFingerprintByMetadata plainHandler.env loaded = .ok "b_is_null" :=
    hsecond
  rw [hshown, hfirst] at hfingerprint
  exact absurd (Except.ok.inj hfingerprint) (by decide)

end Dqx.Checks
