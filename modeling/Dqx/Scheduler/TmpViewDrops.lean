import Dqx.Scheduler.TmpViews

/-! What the statements that drop views name. The sweep drops the views of finished runs whatever they
are, and the row of a scheduled run holds the name of its source table. -/

namespace Dqx.Scheduler

open Lib Lib.Sql LowCode SqlUtils

/-- The identifiers of the view that a statement drops. -/
def dropTarget (statement : Text) : Option (List Text) :=
  match lex statement with
  | .word w :: .word x :: .word y :: .word z :: name =>
    if [w, x, y, z] = ["DROP".toList, "VIEW".toList, "IF".toList, "EXISTS".toList] then
      nameParts name
    else none
  | _ => none

/-- `tmp_view_<hex>` -/
def IsTmpName (name : Text) : Prop :=
  ∃ viewId, viewId ≠ [] ∧ viewId.all isHex = true ∧ name = tmpViewPrefix ++ viewId

/-- The identifiers of a view in the schema of temporary views, named as such. -/
def IsTmpView (tmp : TmpSchema) (ids : List Text) : Prop :=
  ∃ name, ids = [Python.unquoted tmp.catalog, Python.unquoted tmp.schema, name] ∧ IsTmpName name

def DropsTmpView (tmp : TmpSchema) (statement : Text) : Prop :=
  ∃ ids, dropTarget statement = some ids ∧ IsTmpView tmp ids

theorem dropTarget_dropView (viewFqn : Text) :
    dropTarget (dropView viewFqn) = some (identifiers viewFqn) := by
  have hlex : lex (dropView viewFqn) = lex "DROP VIEW IF EXISTS ".toList ++ lex (quoteFqn viewFqn) :=
    lex_append (.inl (by decide))
  have hwords : lex "DROP VIEW IF EXISTS ".toList = [.word "DROP".toList, .word "VIEW".toList,
      .word "IF".toList, .word "EXISTS".toList] := by decide
  rw [dropTarget, hlex, hwords]
  exact nameParts_lex_quoteFqn viewFqn

theorem dropsTmpView_dropView (tmp : TmpSchema) (viewFqn : Text) :
    DropsTmpView tmp (dropView viewFqn) ↔ IsTmpView tmp (identifiers viewFqn) := by
  simp [DropsTmpView, dropTarget_dropView]

/-! ### Names of temporary views -/

variable {tmp : TmpSchema}

theorem toNat_of_isHex {c : Char} (h : isHex c = true) : 48 ≤ c.toNat ∧ c.toNat ≤ 102 := by
  simp only [isHex, Bool.or_eq_true, Bool.and_eq_true, decide_eq_true_eq] at h
  rcases h with ⟨hlow, hhigh⟩ | ⟨hlow, hhigh⟩
  · have hlow' : 48 ≤ c.toNat := hlow
    have hhigh' : c.toNat ≤ 57 := hhigh
    omega
  · have hlow' : 97 ≤ c.toNat := hlow
    have hhigh' : c.toNat ≤ 102 := hhigh
    omega

theorem isHex_plain {c : Char} (h : isHex c = true) :
    c ≠ '.' ∧ c ≠ '\n' ∧ Python.spaces.contains c.toNat = false := by
  have hbounds := toNat_of_isHex h
  refine ⟨?_, ?_, ?_⟩
  · rintro rfl
    exact absurd hbounds.1 (by decide)
  · rintro rfl
    exact absurd hbounds.1 (by decide)
  · simp only [Python.spaces, List.contains_eq_mem, decide_eq_false_iff_not, List.mem_cons,
      List.not_mem_nil, or_false]
    omega

theorem trim_eq_self {p : Char → Bool} {text : Text} (hhead : ∀ c ∈ text.head?, p c = false)
    (hlast : ∀ c ∈ text.getLast?, p c = false) : trim p text = text := by
  have hdrop : ∀ xs : Text, (∀ c ∈ xs.head?, p c = false) → xs.dropWhile p = xs := by
    intro xs h
    cases xs with
    | nil => rfl
    | cons c xs => rw [List.dropWhile_cons_of_neg (by simp [h c rfl])]
  rw [trim, hdrop text hhead, hdrop _ (by rwa [List.head?_reverse]), List.reverse_reverse]

theorem unquoted_tmpViewPrefix (rest : Text) :
    Python.unquoted (tmpViewPrefix ++ rest) = tmpViewPrefix ++ rest := by
  rw [Python.unquoted, if_neg]
  rintro ⟨-, hhead, -⟩
  cases hhead

theorem not_dot_tmpViewPrefix {rest : Text} (h : '.' ∉ rest) : '.' ∉ tmpViewPrefix ++ rest := by
  rw [List.mem_append, not_or]
  exact ⟨by decide, h⟩

theorem not_dot_of_all_isHex {viewId : Text} (h : viewId.all isHex = true) : '.' ∉ viewId :=
  fun hmem => (isHex_plain (List.all_eq_true.mp h _ hmem)).1 rfl

theorem isTmpName_of_isHex {viewId : Text} (hne : viewId ≠ []) (h : viewId.all isHex = true) :
    IsTmpName (tmpViewPrefix ++ viewId) := ⟨viewId, hne, h, rfl⟩

theorem isTmpView_viewName (tmp : TmpSchema) {rest : Text} (h : '.' ∉ rest) :
    IsTmpView tmp (identifiers (tmp.viewName (tmpViewPrefix ++ rest))) ↔
      IsTmpName (tmpViewPrefix ++ rest) := by
  have hcatalog : '.' ∉ tmp.catalog := fun hmem => (tmp.catalog_plain _ hmem).1 rfl
  rw [TmpSchema.viewName, identifiers_join hcatalog tmp.schema_plain (not_dot_tmpViewPrefix h),
    unquoted_tmpViewPrefix]
  simp [IsTmpView]

/-- A view that the scheduler has created for the hex digits of a view id. -/
def Created (tmp : TmpSchema) (view : Text) : Prop :=
  ∃ viewId, viewId.length = 12 ∧ viewId.all isHex = true ∧ view = tmp.createView viewId

theorem Created.isTmpView {view : Text} (h : Created tmp view) :
    IsTmpView tmp (identifiers view) := by
  obtain ⟨viewId, hlength, hhex, rfl⟩ := h
  refine (isTmpView_viewName tmp (not_dot_of_all_isHex hhex)).mpr (isTmpName_of_isHex ?_ hhex)
  rintro rfl
  cases hlength

/-- No space stands around the name of a created view. -/
theorem Created.strip_eq {view : Text} (h : Created tmp view) : strip view = view := by
  obtain ⟨viewId, hlength, hhex, rfl⟩ := h
  apply trim_eq_self
  · intro c hc
    rw [TmpSchema.createView, TmpSchema.viewName] at hc
    cases hcatalog : tmp.catalog with
    | nil =>
      rw [hcatalog] at hc
      obtain rfl : '.' = c := Option.some.inj hc
      decide
    | cons d rest =>
      rw [hcatalog] at hc
      obtain rfl : d = c := Option.some.inj hc
      exact (tmp.catalog_plain d (by simp [hcatalog])).2
  · intro c hc
    have hne : viewId ≠ [] := by
      rintro rfl
      cases hlength
    have hlast : (tmp.createView viewId).getLast? = viewId.getLast? := by
      simp [TmpSchema.createView, TmpSchema.viewName, List.getLast?_append, List.getLast?_cons,
        List.getLast?_eq_some_getLast hne]
    rw [hlast] at hc
    exact (isHex_plain (List.all_eq_true.mp hhex c (List.mem_of_getLast? hc))).2.2

/-- The view of a scheduled run: the name of its source table. -/
def NamesSource (viewFqn : String) : Prop :=
  ∃ tableFqn, viewFqn.toList = viewFqnParam tableFqn

/-- The view of a run: one that the scheduler has created, or a source table. -/
def RunView (tmp : TmpSchema) (viewFqn : String) : Prop :=
  Created tmp viewFqn.toList ∨ NamesSource viewFqn

/-! ### The three ways to drop a view -/

theorem mem_view {row : RunRow} {view : Text} :
    view ∈ row.view ↔ ∃ viewFqn ∈ row.viewFqn, strip viewFqn.toList = view ∧ view ≠ [] := by
  simp only [RunRow.view, Option.mem_def, Option.filter_eq_some_iff, Option.map_eq_some_iff,
    Bool.not_eq_true', List.isEmpty_eq_false_iff]
  constructor
  · rintro ⟨⟨viewFqn, hview, rfl⟩, hne⟩
    exact ⟨viewFqn, hview, rfl, hne⟩
  · rintro ⟨viewFqn, hview, rfl, hne⟩
    exact ⟨⟨viewFqn, hview, rfl⟩, hne⟩

theorem mem_sweepStaleTmpViews {profiling validation : SweptTable} {jobs : Jobs} {statement : Text} :
    statement ∈ sweepStaleTmpViews profiling validation jobs ↔
      ∃ row ∈ profiling.swept jobs ++ validation.swept jobs, ∃ view ∈ row.view,
        statement = dropView view := by
  simp only [sweepStaleTmpViews, List.mem_map, List.mem_mergeSort, List.mem_dedup,
    List.mem_filterMap, Option.mem_def]
  constructor
  · rintro ⟨view, ⟨row, hrow, hview⟩, rfl⟩
    exact ⟨row, hrow, view, hview, rfl⟩
  · rintro ⟨row, hrow, view, hview, rfl⟩
    exact ⟨view, ⟨row, hrow, hview⟩, rfl⟩

/-- The sweep drops only temporary views exactly when the source tables named by the rows that it
collects are such views themselves. -/
theorem sweep_drops_tmpViews {profiling validation : SweptTable} {jobs : Jobs}
    (hviews : ∀ row ∈ profiling.swept jobs ++ validation.swept jobs, ∀ viewFqn ∈ row.viewFqn,
      RunView tmp viewFqn) :
    (∀ statement ∈ sweepStaleTmpViews profiling validation jobs, DropsTmpView tmp statement) ↔
      ∀ row ∈ profiling.swept jobs ++ validation.swept jobs, ∀ viewFqn ∈ row.viewFqn,
        NamesSource viewFqn → strip viewFqn.toList ≠ [] →
          IsTmpView tmp (identifiers (strip viewFqn.toList)) := by
  constructor
  · intro h row hrow viewFqn hview _ hblank
    rw [← dropsTmpView_dropView]
    exact h _ (mem_sweepStaleTmpViews.mpr
      ⟨row, hrow, _, mem_view.mpr ⟨viewFqn, hview, rfl, hblank⟩, rfl⟩)
  · intro h statement hstatement
    obtain ⟨row, hrow, view, hview, rfl⟩ := mem_sweepStaleTmpViews.mp hstatement
    obtain ⟨viewFqn, hviewFqn, rfl, hblank⟩ := mem_view.mp hview
    rw [dropsTmpView_dropView]
    rcases hviews row hrow viewFqn hviewFqn with hcreated | hsource
    · rw [hcreated.strip_eq]
      exact hcreated.isTmpView
    · exact h row hrow viewFqn hviewFqn hsource hblank

/-- A name that the pattern of temporary views matches is one, or one with a newline after it. -/
theorem isTmpViewName_cases {name : Text} (h : isTmpViewName name = true) :
    ∃ viewId, viewId ≠ [] ∧ viewId.all isHex = true ∧
      (name = tmpViewPrefix ++ viewId ∨ name = tmpViewPrefix ++ (viewId ++ ['\n'])) := by
  simp only [isTmpViewName, Bool.and_eq_true, decide_eq_true_eq, List.isPrefixOf_iff_prefix] at h
  obtain ⟨⟨⟨⟨viewId, hbody⟩, hlow⟩, -⟩, hhex⟩ := h
  rw [← hbody, List.drop_left] at hlow hhex
  refine ⟨viewId, ?_, hhex, ?_⟩
  · rintro rfl
    simp at hlow
  · rw [patternBody] at hbody
    split at hbody
    · rename_i hlast
      right
      rw [← List.append_assoc, hbody]
      exact (List.dropLast_append_getLast? '\n' hlast).symm
    · exact .inl hbody.symm

theorem getLast?_append_isHex {viewId : Text} (hne : viewId ≠ []) (h : viewId.all isHex = true) :
    (tmpViewPrefix ++ viewId).getLast? ≠ some '\n' := by
  intro hlast
  rw [List.getLast?_append_of_ne_nil _ hne] at hlast
  exact (isHex_plain (List.all_eq_true.mp h _ (List.mem_of_getLast? hlast))).2.1 rfl

/-- The collection of orphans drops only temporary views exactly when no name that it takes for one
ends in a newline. -/
theorem orphan_drops_tmpViews (tmp : TmpSchema) (listed : Option (List Text))
    (runs : Option (List RunRow)) :
    (∀ statement ∈ gcOrphanViews tmp listed runs, DropsTmpView tmp statement) ↔
      ∀ name ∈ orphans listed runs, name.getLast? ≠ some '\n' := by
  simp only [gcOrphanViews, List.forall_mem_map, dropsTmpView_dropView]
  refine forall₂_congr fun name hname => ?_
  have hmatch : isTmpViewName name = true := (List.mem_filter.mp (List.mem_filter.mp hname).1).2
  obtain ⟨viewId, hne, hhex, rfl | rfl⟩ := isTmpViewName_cases hmatch
  · rw [isTmpView_viewName tmp (not_dot_of_all_isHex hhex)]
    exact iff_of_true (isTmpName_of_isHex hne hhex) (getLast?_append_isHex hne hhex)
  · have hdot : '.' ∉ viewId ++ ['\n'] := by simp [not_dot_of_all_isHex hhex]
    have hlast : (tmpViewPrefix ++ (viewId ++ ['\n'])).getLast? = some '\n' := by simp
    rw [isTmpView_viewName tmp hdot]
    apply iff_of_false _ (not_not_intro hlast)
    rintro ⟨other, hother, hhex', hname⟩
    rw [hname] at hlast
    exact getLast?_append_isHex hother hhex' hlast

/-- The drops on completion name only temporary views exactly when the source tables that they would
drop are such views themselves. -/
theorem completion_drops_tmpViews {viewFqns : List String}
    (hviews : ∀ viewFqn ∈ viewFqns, RunView tmp viewFqn) :
    (∀ statement ∈ dropCompletedRunViews viewFqns, DropsTmpView tmp statement) ↔
      ∀ viewFqn ∈ viewFqns, NamesSource viewFqn → droppable viewFqn.toList = true →
        IsTmpView tmp (identifiers viewFqn.toList) := by
  simp only [dropCompletedRunViews, List.mem_map, List.mem_filter]
  constructor
  · intro h viewFqn hview _ hdrop
    rw [← dropsTmpView_dropView]
    exact h _ ⟨_, ⟨⟨viewFqn, hview, rfl⟩, hdrop⟩, rfl⟩
  · rintro h _ ⟨_, ⟨⟨viewFqn, hview, rfl⟩, hdrop⟩, rfl⟩
    rw [dropsTmpView_dropView]
    rcases hviews viewFqn hview with hcreated | hsource
    · exact hcreated.isTmpView
    · exact h viewFqn hview hsource hdrop

theorem mem_rows_of_mem_swept {table : SweptTable} {jobs : Jobs} {row : RunRow}
    (h : row ∈ table.swept jobs) : row ∈ table.rows := by
  rcases List.mem_append.mp h with h | h
  · rw [SweptTable.terminal] at h
    split at h
    · exact List.mem_of_mem_filter h
    · cases h
  · have hrunning := List.mem_of_mem_filter h
    rw [SweptTable.running] at hrunning
    split at hrunning
    · exact List.mem_of_mem_filter (List.mem_of_mem_take hrunning)
    · cases hrunning

/-- The views that a pass reads are those of rows of `dq_validation_runs`. -/
theorem exists_row_of_mem_views {s : ScoreRuns} {pass : ScorePass} {viewFqn : String}
    (h : viewFqn ∈ (s.refreshScoresForCompletedRuns pass).2.views) :
    ∃ row ∈ pass.table, viewFqn ∈ row.viewFqn := by
  obtain ⟨completed, hcompleted, hview⟩ := List.mem_filterMap.mp (List.mem_of_mem_filter h)
  have hterminal := List.mem_dedup.mp (List.mem_of_mem_filter hcompleted)
  obtain ⟨row, hrow, rfl⟩ := List.mem_map.mp hterminal
  exact ⟨row, List.mem_of_mem_filter hrow, hview⟩

/-- Every statement of a sweep, of a collection of orphans or of a pass over the tracked runs drops a
temporary view exactly when no source table is collected: by the sweep because it is the view of a
finished run, or on completion because its name contains `tmp_view_`. -/
theorem dropped_views_are_temporary (tmp : TmpSchema) {profiling validation : SweptTable}
    {jobs : Jobs} {listed : Option (List Text)} {runs : Option (List RunRow)} {s : ScoreRuns}
    {pass : ScorePass}
    (hviews : ∀ row ∈ profiling.rows ++ validation.rows ++ pass.table, ∀ viewFqn ∈ row.viewFqn,
      RunView tmp viewFqn) :
    ((∀ statement ∈ sweepStaleTmpViews profiling validation jobs, DropsTmpView tmp statement) ↔
      ∀ row ∈ profiling.swept jobs ++ validation.swept jobs, ∀ viewFqn ∈ row.viewFqn,
        NamesSource viewFqn → strip viewFqn.toList ≠ [] →
          IsTmpView tmp (identifiers (strip viewFqn.toList))) ∧
    ((∀ statement ∈ gcOrphanViews tmp listed runs, DropsTmpView tmp statement) ↔
      ∀ name ∈ orphans listed runs, name.getLast? ≠ some '\n') ∧
    ((∀ statement ∈ dropCompletedRunViews (s.refreshScoresForCompletedRuns pass).2.views,
        DropsTmpView tmp statement) ↔
      ∀ viewFqn ∈ (s.refreshScoresForCompletedRuns pass).2.views, NamesSource viewFqn →
        droppable viewFqn.toList = true → IsTmpView tmp (identifiers viewFqn.toList)) := by
  refine ⟨sweep_drops_tmpViews ?_, orphan_drops_tmpViews tmp listed runs,
    completion_drops_tmpViews ?_⟩
  · intro row hrow
    apply hviews row
    rw [List.append_assoc]
    rcases List.mem_append.mp hrow with hrow | hrow
    · exact List.mem_append_left _ (mem_rows_of_mem_swept hrow)
    · exact List.mem_append_right _ (List.mem_append_left _ (mem_rows_of_mem_swept hrow))
  · intro viewFqn hview
    obtain ⟨row, hrow, hviewFqn⟩ := exists_row_of_mem_views hview
    exact hviews row (List.mem_append_right _ hrow) viewFqn hviewFqn

theorem plain_main :
    ∀ c ∈ "main".toList, c ≠ '.' ∧ Python.spaces.contains c.toNat = false := by
  have h : ("main".toList.all fun c => c ≠ '.' && !Python.spaces.contains c.toNat) = true := by
    decide
  simpa using h

/-- An app whose schema of temporary views is `main.tmp`. -/
def mainTmp : TmpSchema := ⟨"main".toList, "tmp".toList, plain_main, by decide⟩

def finishedRow (viewFqn : String) : RunRow := ⟨"r1", "main.sales.orders", some viewFqn, .success, none⟩

def finishedRun (viewFqn : String) : SweptTable := ⟨[finishedRow viewFqn], true, true⟩

theorem dropped_views_are_temporary_created :
    dropView "main.tmp.tmp_view_0123456789ab".toList ∈
        sweepStaleTmpViews (finishedRun "main.tmp.tmp_view_0123456789ab") ⟨[], true, true⟩
          (fun _ => none) ∧
      DropsTmpView mainTmp (dropView "main.tmp.tmp_view_0123456789ab".toList) := by
  have hcreated : Created mainTmp "main.tmp.tmp_view_0123456789ab".toList :=
    ⟨"0123456789ab".toList, by decide +kernel, by decide +kernel, by decide +kernel⟩
  have hview : ∀ row ∈ (finishedRun "main.tmp.tmp_view_0123456789ab").rows,
      ∀ viewFqn ∈ row.viewFqn, Created mainTmp viewFqn.toList := by
    rintro row hrow viewFqn hviewFqn
    obtain rfl := List.mem_singleton.mp hrow
    obtain rfl := Option.some.inj hviewFqn
    exact hcreated
  have hswept : dropView "main.tmp.tmp_view_0123456789ab".toList ∈
      sweepStaleTmpViews (finishedRun "main.tmp.tmp_view_0123456789ab") ⟨[], true, true⟩
        (fun _ => none) := by
    rw [mem_sweepStaleTmpViews]
    exact ⟨finishedRow "main.tmp.tmp_view_0123456789ab", by decide +kernel,
      "main.tmp.tmp_view_0123456789ab".toList, by decide +kernel, rfl⟩
  refine ⟨hswept, (@dropped_views_are_temporary mainTmp _ _ _ none none ⟨[], ∅, ∅, ∅⟩
    ⟨0, none, [], true, []⟩ ?_).1.mpr ?_ _ hswept⟩
  · intro row hrow viewFqn hviewFqn
    exact .inl (hview row (by simpa using hrow) viewFqn hviewFqn)
  · intro row hrow viewFqn hviewFqn _ _
    rcases List.mem_append.mp hrow with hrow | hrow
    · have h := hview row (mem_rows_of_mem_swept hrow) viewFqn hviewFqn
      rw [h.strip_eq]
      exact h.isTmpView
    · cases hrow

theorem not_isTmpView {ids : List Text} (h : ids[1]? ≠ some (Python.unquoted tmp.schema)) :
    ¬IsTmpView tmp ids := by
  rintro ⟨name, rfl, -⟩
  exact h rfl

/-- The sweep drops the source table of a finished scheduled run, and a pass over the tracked runs does
too if its name contains `tmp_view_`. -/
theorem source_tables_dropped :
    (NamesSource "main.sales.orders" ∧
      dropView "main.sales.orders".toList ∈
        sweepStaleTmpViews ⟨[], true, true⟩ (finishedRun "main.sales.orders") (fun _ => none) ∧
      ¬DropsTmpView mainTmp (dropView "main.sales.orders".toList)) ∧
    NamesSource "main.sales.tmp_view_orders" ∧
      dropView "main.sales.tmp_view_orders".toList ∈
        dropCompletedRunViews (ScoreRuns.refreshScoresForCompletedRuns ⟨[("r1", 0)], ∅, ∅, ∅⟩
          ⟨minute, none, [], false, [finishedRow "main.sales.tmp_view_orders"]⟩).2.views ∧
      ¬DropsTmpView mainTmp (dropView "main.sales.tmp_view_orders".toList) := by
  refine ⟨⟨⟨"main.sales.orders".toList, by decide⟩, ?_, ?_⟩,
    ⟨"main.sales.tmp_view_orders".toList, by decide⟩, ?_, ?_⟩
  · rw [mem_sweepStaleTmpViews]
    exact ⟨finishedRow "main.sales.orders", by decide, "main.sales.orders".toList, by decide, rfl⟩
  · rw [dropsTmpView_dropView]
    exact not_isTmpView (by decide)
  · apply List.mem_map_of_mem
    decide
  · rw [dropsTmpView_dropView]
    exact not_isTmpView (by decide)

end Dqx.Scheduler
