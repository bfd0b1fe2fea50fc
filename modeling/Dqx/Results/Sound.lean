import Dqx.Lib.Traverse
import Dqx.Results.Chunks

/-! The rows that are returned are those of all chunks that were read, and no declared count denies
it. -/

namespace Dqx.Results

open Lib Lib.Sql

/-- The rows that a chunk carries. -/
def ResultData.rows (chunk : ResultData) : List (List Cell) := chunk.dataArray.getD []

/-- A chunk with rows, or one that some count declares empty. -/
def ResultManifest.Present (manifest : ResultManifest) (chunk : ResultData) (index : Int) : Prop :=
  chunk.dataArray ≠ none ∨ 0 ∈ declaredCounts manifest chunk index ∨
    manifest.totalRowCount = some 0 ∨ manifest.totalChunkCount = some 0 ∨ manifest.chunks = some []

section Steps

variable {columns : List Text} {manifest : ResultManifest} {chunk : ResultData} {index : Int}
  {complete : Complete} {before : List Int} {rows rows' : List Row}

theorem payloadOf_eq_ok {payload : List (List Cell)} :
    payloadOf manifest chunk index = .ok payload ↔
      manifest.Present chunk index ∧ payload = chunk.rows := by
  unfold payloadOf ResultManifest.Present ResultData.rows
  cases chunk.dataArray with
  | some data => simp [eq_comm]
  | none =>
    dsimp only
    split
    · next h => simp [h, eq_comm]
    · next h => simp [h]

theorem mapM_toRow_eq_ok {payload : List (List Cell)} :
    payload.mapM (toRow columns) = .ok rows ↔
      (∀ row ∈ payload, row.length = columns.length) ∧ rows = payload.map (columns.zip ·) := by
  induction payload generalizing rows with
  | nil => simp [pure, Except.pure, eq_comm]
  | cons row payload ih =>
    have hrow {r : Row} : toRow columns row = .ok r ↔
        row.length = columns.length ∧ r = columns.zip row := by
      unfold toRow
      split
      · next h => simp [h]
      · next h => simp [not_not.mp h, eq_comm]
    rw [mapM_cons_eq_ok]
    simp only [hrow, ih, List.forall_mem_cons, List.map_cons]
    constructor
    · rintro ⟨_, _, ⟨hlength, rfl⟩, ⟨hlengths, rfl⟩, rfl⟩
      exact ⟨⟨hlength, hlengths⟩, rfl⟩
    · rintro ⟨⟨hlength, hlengths⟩, rfl⟩
      exact ⟨_, _, ⟨hlength, rfl⟩, ⟨hlengths, rfl⟩, rfl⟩

/-- A chunk that can be read: it is the one that was asked for, it has as many rows as it declares,
and each of them has a value for every column. -/
structure Accepted (columns : List Text) (manifest : ResultManifest) (chunk : ResultData)
    (index : Int) : Prop where
  same : ∀ i ∈ chunk.chunkIndex, i = index
  present : manifest.Present chunk index
  counts : ∀ count ∈ declaredCounts manifest chunk index, count = chunk.rows.length
  widths : ∀ row ∈ chunk.rows, row.length = columns.length

theorem readChunk_eq_ok : readChunk columns manifest chunk index = .ok rows ↔
    Accepted columns manifest chunk index ∧ rows = chunk.rows.map (columns.zip ·) := by
  unfold readChunk
  split
  · next h =>
    obtain ⟨i, hi, hne⟩ := h
    exact ⟨nofun, fun ⟨accepted, _⟩ => absurd (accepted.same i hi) hne⟩
  · next hsame =>
    have hsame : ∀ i ∈ chunk.chunkIndex, i = index := by simpa using hsame
    rw [bind_eq_ok]
    constructor
    · rintro ⟨payload, hpayload, h⟩
      obtain ⟨hpresent, rfl⟩ := payloadOf_eq_ok.mp hpayload
      split at h
      · cases h
      · next hcounts =>
        obtain ⟨hwidths, hrows⟩ := mapM_toRow_eq_ok.mp h
        exact ⟨⟨hsame, hpresent, by simpa using hcounts, hwidths⟩, hrows⟩
    · rintro ⟨accepted, hrows⟩
      refine ⟨_, payloadOf_eq_ok.mpr ⟨accepted.present, rfl⟩, ?_⟩
      have hcounts : ¬∃ count ∈ declaredCounts manifest chunk index,
          count ≠ (chunk.rows.length : Int) := by simpa using accepted.counts
      rw [if_neg hcounts]
      exact mapM_toRow_eq_ok.mpr ⟨accepted.widths, hrows⟩

/-- Every declared count of the whole result fits the rows and the chunks that were read. -/
structure Whole (manifest : ResultManifest) (rows : List Row) (indexes : List Int) : Prop where
  totalRows : ∀ total ∈ manifest.totalRowCount, total = rows.length
  totalChunks : ∀ total ∈ manifest.totalChunkCount, total = (observed manifest rows indexes).length
  inRange : ∀ total ∈ manifest.totalChunkCount, ∀ index ∈ observed manifest rows indexes,
    0 ≤ index ∧ index < total
  chunks : ∀ infos ∈ manifest.chunks, ∀ index, index ∈ observed manifest rows indexes ↔
    ∃ info ∈ infos, info.chunkIndex = some index

theorem finish_eq_ok {indexes : List Int} : finish manifest rows indexes = .ok rows' ↔
    Whole manifest rows indexes ∧ rows' = rows := by
  have hchunks : ¬(manifest.chunks.isSome ∧ (observed manifest rows indexes).toFinset ≠
      (manifest.infos.filterMap BaseChunkInfo.chunkIndex).toFinset) ↔
      ∀ infos ∈ manifest.chunks, ∀ index, index ∈ observed manifest rows indexes ↔
        ∃ info ∈ infos, info.chunkIndex = some index := by
    unfold ResultManifest.infos
    cases manifest.chunks with
    | none => simp
    | some infos => simp [Finset.ext_iff]
  unfold finish
  split
  · next h =>
    obtain ⟨total, htotal, hne⟩ := h
    exact ⟨nofun, fun ⟨whole, _⟩ => absurd (whole.totalRows total htotal).symm hne⟩
  · next hrows =>
    split
    · next h =>
      obtain ⟨total, htotal, hlength | ⟨value, hvalue, hrange⟩⟩ := h
      · exact ⟨nofun, fun ⟨whole, _⟩ => absurd (whole.totalChunks total htotal).symm hlength⟩
      · exact ⟨nofun, fun ⟨whole, _⟩ => absurd (whole.inRange total htotal value hvalue) hrange⟩
    · next htotals =>
      have htotals : ∀ total ∈ manifest.totalChunkCount,
          ((observed manifest rows indexes).length : Int) = total ∧
            ∀ value ∈ observed manifest rows indexes, 0 ≤ value ∧ value < total := by
        refine fun total htotal => ⟨?_, fun value hvalue => ?_⟩
        · exact by_contra fun hlength => htotals ⟨total, htotal, .inl hlength⟩
        · exact by_contra fun hrange => htotals ⟨total, htotal, .inr ⟨value, hvalue, hrange⟩⟩
      split
      · next h => exact ⟨nofun, fun ⟨whole, _⟩ => absurd h (hchunks.mpr whole.chunks)⟩
      · next h =>
        refine ⟨fun h' => ⟨⟨?_, ?_, ?_, hchunks.mp h⟩, (Except.ok.inj h').symm⟩, ?_⟩
        · intro total htotal
          by_contra hne
          exact hrows ⟨total, htotal, fun heq => hne heq.symm⟩
        · exact fun total htotal => (htotals total htotal).1.symm
        · exact fun total htotal => (htotals total htotal).2
        · rintro ⟨-, rfl⟩
          rfl

theorem read_eq_ok_inl : read complete before rows index chunk = .ok (.inl rows') ↔
    Accepted complete.columns complete.manifest chunk index ∧ chunk.nextChunkIndex = none ∧
      rows' = rows ++ chunk.rows.map (complete.columns.zip ·) ∧
      Whole complete.manifest rows' (before ++ [index]) := by
  unfold read
  rw [bind_eq_ok]
  simp only [readChunk_eq_ok]
  cases chunk.nextChunkIndex with
  | none =>
    simp only [map_eq_ok, finish_eq_ok]
    constructor
    · rintro ⟨_, ⟨accepted, rfl⟩, _, ⟨whole, rfl⟩, h⟩
      cases h
      exact ⟨accepted, trivial, rfl, whole⟩
    · rintro ⟨accepted, -, rfl, whole⟩
      exact ⟨_, ⟨accepted, rfl⟩, _, ⟨whole, rfl⟩, rfl⟩
  | some next =>
    constructor
    · rintro ⟨_, _, h⟩
      dsimp only at h
      split at h <;> cases h
    · rintro ⟨-, h, -⟩
      cases h

theorem read_eq_ok_inr {next : Int} :
    read complete before rows index chunk = .ok (.inr (next, rows')) ↔
    Accepted complete.columns complete.manifest chunk index ∧ chunk.nextChunkIndex = some next ∧
      ¬(next < 0 ∨ complete.statementId.elim true List.isEmpty = true) ∧
      rows' = rows ++ chunk.rows.map (complete.columns.zip ·) := by
  unfold read
  rw [bind_eq_ok]
  simp only [readChunk_eq_ok]
  cases chunk.nextChunkIndex with
  | none =>
    constructor
    · rintro ⟨_, _, h⟩
      obtain ⟨_, -, h⟩ := map_eq_ok.mp h
      cases h
    · rintro ⟨-, h, -⟩
      cases h
  | some n =>
    constructor
    · rintro ⟨_, ⟨accepted, rfl⟩, h⟩
      dsimp only at h
      split at h
      · cases h
      · next hgoes =>
        cases h
        exact ⟨accepted, rfl, hgoes, rfl⟩
    · rintro ⟨accepted, h, hgoes, rfl⟩
      cases h
      exact ⟨_, ⟨accepted, rfl⟩, if_neg hgoes⟩

end Steps

/-! ### Whole walks -/

/-- The chunks of a walk, each named by the one before it. -/
inductive Linked (fetch : List Int → Int → Except String ResultData) :
    List Int → Int → ResultData → List (Int × ResultData) → Prop
  | last {before : List Int} {index : Int} {chunk : ResultData} : chunk.nextChunkIndex = none →
    Linked fetch before index chunk [(index, chunk)]
  | next {before : List Int} {index next : Int} {chunk chunk' : ResultData}
    {chunks : List (Int × ResultData)} : chunk.nextChunkIndex = some next →
    fetch (before ++ [index]) next = .ok chunk' →
    Linked fetch (before ++ [index]) next chunk' chunks →
    Linked fetch before index chunk ((index, chunk) :: chunks)

/-- The rows of some chunks, one after another. -/
def rowsOf (columns : List Text) (chunks : List (Int × ResultData)) : List Row :=
  chunks.flatMap fun p => p.2.rows.map (columns.zip ·)

theorem of_visits {complete : Complete} {fetch : List Int → Int → Except String ResultData}
    {before : List Int} {rows rows' : List Row} {index : Int} {chunk : ResultData}
    {chunks : List (Int × ResultData)}
    (h : Visits (read complete) fetch before rows index chunk chunks rows') :
    Linked fetch before index chunk chunks ∧
      rows' = rows ++ rowsOf complete.columns chunks ∧
      (∀ p ∈ chunks, Accepted complete.columns complete.manifest p.2 p.1) ∧
      Whole complete.manifest rows' (before ++ chunks.map Prod.fst) := by
  induction h with
  | done hread =>
    obtain ⟨accepted, hnext, rfl, whole⟩ := read_eq_ok_inl.mp hread
    exact ⟨.last hnext, by simp [rowsOf], by simpa using accepted, whole⟩
  | next hread hfetch hvisits ih =>
    obtain ⟨accepted, hnext, -, rfl⟩ := read_eq_ok_inr.mp hread
    obtain ⟨hlinked, rfl, haccepted, whole⟩ := ih
    refine ⟨.next hnext hfetch hlinked, by simp [rowsOf], ?_, by simpa using whole⟩
    exact List.forall_mem_cons.mpr ⟨accepted, haccepted⟩

/-- In a manifest that is not ambiguous, a metadata is the one of its index. -/
theorem metadata_eq {manifest : ResultManifest} (hclear : manifest.ambiguous = false)
    {info : BaseChunkInfo} (hinfo : info ∈ manifest.infos) {index : Int}
    (hindex : info.chunkIndex = some index) : manifest.metadata index = some info := by
  have hnodup : (manifest.infos.map BaseChunkInfo.chunkIndex).Nodup := by
    by_contra hrepeated
    rw [ResultManifest.ambiguous, decide_eq_false hrepeated] at hclear
    cases hclear
  unfold ResultManifest.metadata
  cases hfound : manifest.infos.find? fun info => info.chunkIndex = some index with
  | none => exact absurd hindex (by simpa using List.find?_eq_none.mp hfound info hinfo)
  | some other =>
    have hother := List.find?_some hfound
    have hsame : other.chunkIndex = info.chunkIndex := by
      rw [hindex]
      simpa using hother
    rw [List.inj_on_of_nodup_map hnodup (List.mem_of_find?_eq_some hfound) hinfo hsame]

/-- The rows are those of the chunks, and every count that is declared is theirs. -/
structure Vouched (complete : Complete) (chunks : List (Int × ResultData)) (rows : List Row) :
    Prop where
  rows_eq : rows = rowsOf complete.columns chunks
  widths : ∀ p ∈ chunks, ∀ row ∈ p.2.rows, row.length = complete.columns.length
  rowCounts : ∀ p ∈ chunks, ∀ count ∈ p.2.rowCount, count = p.2.rows.length
  metadata : ∀ p ∈ chunks, ∀ info ∈ complete.manifest.infos, info.chunkIndex = some p.1 →
    ∀ count ∈ info.rowCount, count = p.2.rows.length
  whole : Whole complete.manifest rows (chunks.map Prod.fst)

section Query

variable {casefold : Text → Text} {sql : String} {server : Server} {fuel : Nat} {indexes : List Int}

/-- No chunk is read twice. -/
theorem nodup_of_queryDicts {result : Except String (List Row)}
    (h : queryDicts casefold sql server fuel = some (indexes, result)) : indexes.Nodup := by
  unfold queryDicts at h
  split at h
  · cases h
    exact .nil
  · split at h
    · cases h
      exact .nil
    · exact nodup_of_follow (List.nodup_singleton _) h

/-- Rows that are returned are those of all chunks from the first result on. -/
theorem vouched_of_queryDicts {rows : List Row}
    (h : queryDicts casefold sql server fuel = some (indexes, .ok rows)) :
    ∃ complete chunks, (response sql server >>= schemaColumns casefold) = .ok complete ∧
      Linked (server.getStatementResultChunkN (complete.statementId.getD [])) []
        (complete.result.chunkIndex.getD 0) complete.result chunks ∧
      indexes = chunks.map Prod.fst ∧ Vouched complete chunks rows := by
  unfold queryDicts at h
  split at h
  · cases h
  · next complete hcomplete =>
    split at h
    · cases h
    · next hambiguous =>
      have hclear : complete.manifest.ambiguous = false := by simpa using hambiguous
      obtain ⟨chunks, hvisits, hindexes⟩ := visits_of_follow h
      obtain ⟨hlinked, hrows, haccepted, hwhole⟩ := of_visits hvisits
      refine ⟨complete, chunks, hcomplete, hlinked, hindexes, ⟨hrows,
        fun p hp => (haccepted p hp).widths, fun p hp count hcount => ?_,
        fun p hp info hinfo hindex count hcount => ?_, hwhole⟩⟩
      · exact (haccepted p hp).counts count (by simp [declaredCounts, Option.mem_def.mp hcount])
      · refine (haccepted p hp).counts count ?_
        simp [declaredCounts, metadata_eq hclear hinfo hindex, Option.mem_def.mp hcount]

/-- The chunks that the server names are among these. -/
structure Within (casefold : Text → Text) (sql : String) (server : Server) (keySet : Finset Int) :
    Prop where
  first : ∀ complete, (response sql server >>= schemaColumns casefold) = .ok complete →
    ∀ next ∈ complete.result.nextChunkIndex, next ∈ keySet
  later : ∀ sid before index chunk,
    server.getStatementResultChunkN sid before index = .ok chunk →
      ∀ next ∈ chunk.nextChunkIndex, next ∈ keySet

theorem exists_queryDicts {keySet : Finset Int} (within : Within casefold sql server keySet) :
    ∃ answer, queryDicts casefold sql server (keySet.card + 1) = some answer := by
  unfold queryDicts
  split
  · exact ⟨_, rfl⟩
  · next complete hcomplete =>
    split
    · exact ⟨_, rfl⟩
    · refine exists_follow (p := fun chunk => ∀ next ∈ chunk.nextChunkIndex, next ∈ keySet)
        (s := keySet) ?_ ?_ ?_ ?_
      · exact fun before index chunk h => within.later _ _ _ _ h
      · intro before rows index chunk next rows' hlinked hread
        exact hlinked next (read_eq_ok_inr.mp hread).2.1
      · exact within.first complete hcomplete
      · exact Nat.lt_succ_of_le (Finset.card_filter_le _ _)

end Query

end Dqx.Results
