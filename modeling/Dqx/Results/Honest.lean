import Dqx.Results.Sound

/-! Warehouses that tell the truth about a result, and the results among theirs that are returned. -/

namespace Dqx.Results

open Lib Lib.Sql

/-- A chunk that carries part `k` of `n` parts, and what it declares of it is true. Rows are left out
only if there are none. -/
structure ResultData.Truthful (chunk : ResultData) (k n : Nat) (part : List (List Cell)) : Prop where
  index : ∀ index ∈ chunk.chunkIndex, index = k
  count : ∀ count ∈ chunk.rowCount, count = part.length
  rows : chunk.rows = part
  next : chunk.nextChunkIndex = if k + 1 < n then some ((k + 1 : Nat) : Int) else none

/-- What is declared of part `k` is true. -/
structure BaseChunkInfo.Truthful (info : BaseChunkInfo) (p : List (List Cell) × Nat) : Prop where
  index : ∀ index ∈ info.chunkIndex, index = p.2
  count : ∀ count ∈ info.rowCount, count = p.1.length

/-- What the manifest declares is true. The metadata of the chunks may be in any order. -/
structure ResultManifest.Truthful (manifest : ResultManifest) (columns : List Text)
    (parts : List (List (List Cell))) : Prop where
  schema : ∃ names, manifest.schema = some names ∧
    (names.getD []).map (fun name => name.getD []) = columns
  truncated : manifest.truncated ≠ some true
  totalRows : ∀ total ∈ manifest.totalRowCount, total = parts.flatten.length
  totalChunks : ∀ total ∈ manifest.totalChunkCount, total = parts.length
  chunks : ∀ infos ∈ manifest.chunks, ∃ ordered, infos.Perm ordered ∧
    List.Forall₂ BaseChunkInfo.Truthful ordered parts.zipIdx

/-- A warehouse that answers a query with the columns and the rows that it has, in parts. A result
without any part comes as a placeholder chunk. -/
structure Honest (sql : String) (server : Server) (columns : List Text)
    (parts : List (List (List Cell))) (resp : StatementResponse) (manifest : ResultManifest)
    (chunks : List ResultData) : Prop where
  responds : response sql server = .ok resp
  succeeded : ∃ status, resp.status = some status ∧ status.state = some .succeeded
  manifest_eq : resp.manifest = some manifest
  manifest_true : manifest.Truthful columns parts
  result_eq : resp.result = chunks.head?
  length_eq : chunks.length = max 1 parts.length
  chunk_true : ∀ (k : Nat) (chunk : ResultData), chunks[k]? = some chunk →
    chunk.Truthful k parts.length (parts.getD k [])
  fetch : ∀ (before : List Int) (k : Nat) (chunk : ResultData), 0 < k → chunks[k]? = some chunk →
    server.getStatementResultChunkN (resp.statementId.getD []) before k = .ok chunk
  statementId : 1 < parts.length → resp.statementId.elim true List.isEmpty = false
  widths : ∀ part ∈ parts, ∀ row ∈ part, row.length = columns.length

/-- The columns have names, different ones even if case is ignored, every metadata of a chunk has its
index, and no chunk leaves its rows out without a count that says it has none. -/
structure Explicit (casefold : Text → Text) (columns : List Text) (manifest : ResultManifest)
    (chunks : List ResultData) : Prop where
  columns_ne_nil : columns ≠ []
  named : ∀ name ∈ columns, Scheduler.strip name ≠ []
  distinct : (columns.map casefold).Nodup
  indexed : ∀ info ∈ manifest.infos, info.chunkIndex ≠ none
  present : ∀ (k : Nat) (chunk : ResultData), chunks[k]? = some chunk → manifest.Present chunk k

section Manifest

variable {manifest : ResultManifest} {columns : List Text} {parts : List (List (List Cell))}

theorem info_truthful (h : manifest.Truthful columns parts) {info : BaseChunkInfo}
    (hinfo : info ∈ manifest.infos) : ∃ p ∈ parts.zipIdx, info.Truthful p := by
  cases hchunks : manifest.chunks with
  | none => simp [ResultManifest.infos, hchunks] at hinfo
  | some infos =>
    obtain ⟨ordered, hperm, htrue⟩ := h.chunks infos hchunks
    have hmem : info ∈ ordered := hperm.subset (by simpa [ResultManifest.infos, hchunks] using hinfo)
    exact exists_of_forall₂_left htrue hmem

theorem map_chunkIndex {infos : List BaseChunkInfo} {numbered : List (List (List Cell) × Nat)}
    (h : List.Forall₂ BaseChunkInfo.Truthful infos numbered)
    (hindexed : ∀ info ∈ infos, info.chunkIndex ≠ none) :
    infos.map BaseChunkInfo.chunkIndex = numbered.map fun p => some (p.2 : Int) := by
  induction h with
  | nil => rfl
  | @cons info p infos numbered htrue _ ih =>
    obtain ⟨hinfo, hrest⟩ := List.forall_mem_cons.mp hindexed
    obtain ⟨index, hindex⟩ := Option.ne_none_iff_exists'.mp hinfo
    rw [List.map_cons, List.map_cons, ih hrest, hindex, htrue.index index hindex]

/-- Indexed metadata has the indexes of the parts, each once. -/
theorem indexes_perm (h : manifest.Truthful columns parts)
    (hindexed : ∀ info ∈ manifest.infos, info.chunkIndex ≠ none) {infos : List BaseChunkInfo}
    (hinfos : manifest.chunks = some infos) :
    (infos.map BaseChunkInfo.chunkIndex).Perm
      ((List.range parts.length).map fun k : Nat => some (k : Int)) := by
  obtain ⟨ordered, hperm, htrue⟩ := h.chunks infos hinfos
  have hordered : ordered.map BaseChunkInfo.chunkIndex =
      parts.zipIdx.map fun p => some (p.2 : Int) := by
    refine map_chunkIndex htrue fun info hinfo => hindexed info ?_
    simpa [ResultManifest.infos, hinfos] using hperm.symm.subset hinfo
  have hrange : (List.range parts.length).map (fun k : Nat => some (k : Int)) =
      parts.zipIdx.map fun p => some (p.2 : Int) := by
    rw [List.range_eq_range', ← List.zipIdx_map_snd 0 parts, List.map_map]
    rfl
  rw [hrange, ← hordered]
  exact hperm.map _

/-- The metadata of a chunk counts its part. -/
theorem metadata_count (h : manifest.Truthful columns parts) {k : Nat} {info : BaseChunkInfo}
    (hinfo : manifest.metadata k = some info) :
    ∀ count ∈ info.rowCount, count = (parts.getD k []).length := by
  unfold ResultManifest.metadata at hinfo
  have hindex := List.find?_some hinfo
  obtain ⟨p, hp, htrue⟩ := info_truthful h (List.mem_of_find?_eq_some hinfo)
  have hk : p.2 = k := by
    have hsame := htrue.index k (by simpa using hindex)
    exact_mod_cast hsame.symm
  have hpart : parts.getD k [] = p.1 := by
    have hget := List.mem_zipIdx_iff_getElem?.mp hp
    rw [hk] at hget
    simp [hget]
  rw [hpart]
  exact htrue.count

/-- Truthful metadata is ambiguous only if an index is missing. -/
theorem ambiguous_eq_false (h : manifest.Truthful columns parts) :
    manifest.ambiguous = false ↔ ∀ info ∈ manifest.infos, info.chunkIndex ≠ none := by
  constructor
  · intro hclear info hinfo hnone
    have hany : manifest.infos.any (fun info => info.chunkIndex.elim true (· < 0)) = true :=
      List.any_eq_true.mpr ⟨info, hinfo, by rw [hnone]; rfl⟩
    rw [ResultManifest.ambiguous, hany, Bool.or_true] at hclear
    cases hclear
  · intro hindexed
    have hnodup : (manifest.infos.map BaseChunkInfo.chunkIndex).Nodup := by
      cases hchunks : manifest.chunks with
      | none => simp [ResultManifest.infos, hchunks]
      | some infos =>
        have hperm := indexes_perm h hindexed hchunks
        rw [ResultManifest.infos, hchunks, Option.getD_some, hperm.nodup_iff]
        refine List.nodup_range.map fun a b hab => ?_
        exact_mod_cast Option.some.inj hab
    have hnatural : ∀ info ∈ manifest.infos, info.chunkIndex.elim true (· < 0) = false := by
      intro info hinfo
      obtain ⟨index, hindex⟩ := Option.ne_none_iff_exists'.mp (hindexed info hinfo)
      obtain ⟨p, -, htrue⟩ := info_truthful h hinfo
      rw [hindex, Option.elim_some, htrue.index index hindex]
      simp
    rw [ResultManifest.ambiguous, decide_eq_true hnodup, List.any_eq_false.mpr]
    · rfl
    · exact fun info hinfo => by simp [hnatural info hinfo]

/-- The indexes of the first chunks. -/
def indexes (n : Nat) : List Int := (List.range n).map fun k : Nat => (k : Int)

theorem indexes_succ (n : Nat) : indexes (n + 1) = indexes n ++ [(n : Int)] := by
  rw [indexes, List.range_succ, List.map_append]
  rfl

theorem mem_indexes {n : Nat} {index : Int} : index ∈ indexes n ↔ 0 ≤ index ∧ index < n := by
  simp only [indexes, List.mem_map, List.mem_range]
  constructor
  · rintro ⟨k, hk, rfl⟩
    omega
  · rintro ⟨hlow, hhigh⟩
    exact ⟨index.toNat, by omega, by omega⟩

/-- A placeholder is no chunk, once the manifest says anything about its chunks. -/
theorem observed_eq (h : manifest.Truthful columns parts)
    (hindexed : ∀ info ∈ manifest.infos, info.chunkIndex ≠ none)
    (hdeclared : manifest.totalChunkCount ≠ none ∨ manifest.chunks ≠ none) :
    observed manifest (parts.flatten.map (columns.zip ·)) (indexes (max 1 parts.length)) =
      indexes parts.length := by
  have hzero (hcount : manifest.totalChunkCount = some 0 ∨ manifest.chunks = some []) :
      parts.length = 0 := by
    rcases hcount with htotal | hchunks
    · have hlength := h.totalChunks 0 htotal
      omega
    · have hperm := (indexes_perm h hindexed hchunks).length_eq
      simpa using hperm.symm
  unfold observed
  by_cases hparts : parts.length = 0
  · have hnil : parts = [] := List.eq_nil_of_length_eq_zero hparts
    have hcount : manifest.totalChunkCount = some 0 ∨ manifest.chunks = some [] := by
      rcases hdeclared with htotal | hchunks
      · obtain ⟨total, htotal⟩ := Option.ne_none_iff_exists'.mp htotal
        have hlength := h.totalChunks total htotal
        rw [hparts] at hlength
        exact .inl (by simpa [hlength] using htotal)
      · obtain ⟨infos, hinfos⟩ := Option.ne_none_iff_exists'.mp hchunks
        have hperm := (indexes_perm h hindexed hinfos).length_eq
        have hempty : infos = [] := List.eq_nil_of_length_eq_zero (by simpa [hparts] using hperm)
        exact .inr (hempty ▸ hinfos)
    subst hnil
    rw [if_pos ⟨rfl, rfl, hcount⟩]
    rfl
  · rw [if_neg fun hplaceholder => hparts (hzero hplaceholder.2.2), max_eq_right (by omega)]

/-- All rows, read from all parts, fit what a truthful manifest declares. -/
theorem whole_truthful (h : manifest.Truthful columns parts)
    (hindexed : ∀ info ∈ manifest.infos, info.chunkIndex ≠ none) :
    Whole manifest (parts.flatten.map (columns.zip ·)) (indexes (max 1 parts.length)) where
  totalRows total htotal := by rw [List.length_map, h.totalRows total htotal]
  totalChunks total htotal := by
    rw [observed_eq h hindexed (.inl (by rw [htotal]; nofun)), h.totalChunks total htotal]
    simp [indexes]
  inRange total htotal index hindex := by
    rw [observed_eq h hindexed (.inl (by rw [htotal]; nofun))] at hindex
    rw [h.totalChunks total htotal]
    exact mem_indexes.mp hindex
  chunks infos hinfos index := by
    rw [observed_eq h hindexed (.inr (by rw [hinfos]; nofun))]
    have hmem := (indexes_perm h hindexed hinfos).mem_iff (a := some index)
    simp only [List.mem_map, Option.some.injEq] at hmem
    rw [hmem, indexes, List.mem_map]

/-- A truthful chunk is accepted exactly if it is present. -/
theorem accepted_iff (h : manifest.Truthful columns parts) {chunk : ResultData} {k : Nat}
    (htrue : chunk.Truthful k parts.length (parts.getD k []))
    (hwidths : ∀ part ∈ parts, ∀ row ∈ part, row.length = columns.length) :
    Accepted columns manifest chunk k ↔ manifest.Present chunk k := by
  refine ⟨Accepted.present, fun hpresent => ⟨htrue.index, hpresent, ?_, ?_⟩⟩
  · intro count hcount
    rw [htrue.rows]
    simp only [declaredCounts, List.mem_filterMap, List.mem_cons, List.not_mem_nil, or_false,
      id_eq, exists_eq_or_imp, exists_eq_left] at hcount
    rcases hcount with hcount | hcount
    · exact htrue.count count hcount
    · obtain ⟨info, hinfo, hcount⟩ := Option.bind_eq_some_iff.mp hcount
      exact metadata_count h hinfo count hcount
  · intro row hrow
    rw [htrue.rows] at hrow
    cases hpart : parts[k]? with
    | none => simp [List.getD, hpart] at hrow
    | some part =>
      rw [List.getD, hpart, Option.getD_some] at hrow
      exact hwidths part (List.mem_of_getElem? hpart) row hrow

end Manifest

/-! ### The walk -/

section Walk

variable {sql : String} {server : Server} {columns : List Text} {parts : List (List (List Cell))}
  {resp : StatementResponse} {manifest : ResultManifest} {chunks : List ResultData}

/-- The walk from a chunk of an honest warehouse on. -/
theorem follow_honest (honest : Honest sql server columns parts resp manifest chunks)
    (hindexed : ∀ info ∈ manifest.infos, info.chunkIndex ≠ none) {complete : Complete}
    (hcomplete : complete.statementId = resp.statementId ∧ complete.manifest = manifest ∧
      complete.columns = columns) (repeated : String) {fuel k : Nat} {chunk : ResultData}
    (hchunk : chunks[k]? = some chunk) (hfuel : chunks.length = k + fuel) :
    ∃ answer, follow (read complete)
        (server.getStatementResultChunkN (complete.statementId.getD [])) repeated fuel (indexes k)
        ((parts.take k).flatten.map (columns.zip ·)) k chunk = some answer ∧
      ((∀ (j : Nat) (c : ResultData), k ≤ j → chunks[j]? = some c → manifest.Present c j) →
        answer.2 = .ok (parts.flatten.map (columns.zip ·))) ∧
      (∀ (j : Nat) (c : ResultData), k ≤ j → chunks[j]? = some c → ¬manifest.Present c j →
        ∃ e, answer.2 = .error e) := by
  obtain ⟨hid, rfl, rfl⟩ := hcomplete
  induction fuel generalizing k chunk with
  | zero =>
    have hlt := (List.getElem?_eq_some_iff.mp hchunk).1
    omega
  | succ fuel ih =>
    have htrue := honest.chunk_true k chunk hchunk
    have hlt := (List.getElem?_eq_some_iff.mp hchunk).1
    have hlength := honest.length_eq
    have haccepted := accepted_iff honest.manifest_true htrue honest.widths
    by_cases hpresent : complete.manifest.Present chunk k
    · have accepted := haccepted.mpr hpresent
      have hrows : (parts.take k).flatten.map (complete.columns.zip ·) ++
          chunk.rows.map (complete.columns.zip ·) =
            (parts.take (k + 1)).flatten.map (complete.columns.zip ·) := by
        rw [htrue.rows, ← List.map_append, List.take_add_one, List.flatten_append, List.getD]
        cases parts[k]? <;> simp
      by_cases hmore : k + 1 < parts.length
      · have hnext : chunk.nextChunkIndex = some ((k + 1 : Nat) : Int) := by
          rw [htrue.next, if_pos hmore]
        have hgoes : ¬(((k + 1 : Nat) : Int) < 0 ∨
            complete.statementId.elim true List.isEmpty = true) := by
          rintro (hnegative | hempty)
          · omega
          · rw [hid, honest.statementId (by omega)] at hempty
            cases hempty
        have hread : read complete (indexes k)
            ((parts.take k).flatten.map (complete.columns.zip ·)) k chunk =
              .ok (.inr (((k + 1 : Nat) : Int),
                (parts.take (k + 1)).flatten.map (complete.columns.zip ·))) :=
          read_eq_ok_inr.mpr ⟨accepted, hnext, hgoes, hrows.symm⟩
        have hfresh : ((k + 1 : Nat) : Int) ∉ indexes k ++ [(k : Int)] := by
          rw [← indexes_succ, mem_indexes]
          omega
        have hin : k + 1 < chunks.length := by omega
        have hchunk' : chunks[k + 1]? = some chunks[k + 1] := List.getElem?_eq_getElem hin
        have hfetch : server.getStatementResultChunkN (complete.statementId.getD [])
            (indexes k ++ [(k : Int)]) ((k + 1 : Nat) : Int) = .ok chunks[k + 1] := by
          rw [hid]
          exact honest.fetch _ _ _ (Nat.succ_pos k) hchunk'
        obtain ⟨answer, hfollow, hok, herror⟩ := ih hchunk' (by omega)
        rw [indexes_succ] at hfollow
        refine ⟨answer, ?_, fun hall => hok fun j c hj => hall j c (by omega), ?_⟩
        · rw [follow, hread]
          simp only [if_neg hfresh, hfetch]
          exact hfollow
        · intro j c hj hc habsent
          rcases Nat.eq_or_lt_of_le hj with rfl | hj
          · rw [hchunk] at hc
            cases hc
            exact absurd hpresent habsent
          · exact herror j c hj hc habsent
      · have hlast : k + 1 = chunks.length := by omega
        have htake : (parts.take (k + 1)).flatten = parts.flatten := by
          rw [List.take_of_length_le (by omega)]
        have hwhole := whole_truthful honest.manifest_true hindexed
        rw [← hlength, ← hlast, indexes_succ, ← htake] at hwhole
        have hread : read complete (indexes k)
            ((parts.take k).flatten.map (complete.columns.zip ·)) k chunk =
              .ok (.inl ((parts.take (k + 1)).flatten.map (complete.columns.zip ·))) :=
          read_eq_ok_inl.mpr ⟨accepted, by rw [htrue.next, if_neg hmore], hrows.symm, hwhole⟩
        refine ⟨_, by rw [follow, hread], fun _ => by rw [htake], ?_⟩
        intro j c hj hc habsent
        have hj' := (List.getElem?_eq_some_iff.mp hc).1
        obtain rfl : j = k := by omega
        rw [hchunk] at hc
        cases hc
        exact absurd hpresent habsent
    · have hread : ∃ e, read complete (indexes k)
          ((parts.take k).flatten.map (complete.columns.zip ·)) k chunk = .error e := by
        cases hchunk' : readChunk complete.columns complete.manifest chunk k with
        | ok more => exact absurd (haccepted.mp (readChunk_eq_ok.mp hchunk').1) hpresent
        | error e => exact ⟨e, by rw [read, hchunk']; rfl⟩
      obtain ⟨e, hread⟩ := hread
      refine ⟨_, by rw [follow, hread], fun hall => absurd (hall k chunk le_rfl hchunk) hpresent, ?_⟩
      exact fun _ _ _ _ _ => ⟨e, rfl⟩

variable {casefold : Text → Text}

/-- The schema of an honest warehouse is taken exactly if its columns can be told apart. -/
theorem schemaColumns_honest (honest : Honest sql server columns parts resp manifest chunks)
    {chunk : ResultData} (hchunk : chunks[0]? = some chunk) :
    (columns ≠ [] ∧ (∀ name ∈ columns, Scheduler.strip name ≠ []) ∧
        (columns.map casefold).Nodup ∧
        schemaColumns casefold resp = .ok ⟨resp.statementId, manifest, columns, chunk⟩) ∨
      (¬(columns ≠ [] ∧ (∀ name ∈ columns, Scheduler.strip name ≠ []) ∧
        (columns.map casefold).Nodup) ∧ ∃ e, schemaColumns casefold resp = .error e) := by
  obtain ⟨status, hstatus, hsucceeded⟩ := honest.succeeded
  obtain ⟨names, hnames, hcolumns⟩ := honest.manifest_true.schema
  have hresult : resp.result = some chunk := by
    rw [honest.result_eq, List.head?_eq_getElem?, hchunk]
  have hgood : ¬(status.state ≠ some .succeeded ∨ manifest.truncated = some true) := by
    rintro (h | h)
    · exact h hsucceeded
    · exact honest.manifest_true.truncated h
  unfold schemaColumns
  rw [hstatus, honest.manifest_eq, hresult]
  dsimp only
  rw [hnames]
  dsimp only
  rw [hcolumns, if_neg hgood]
  split
  · next h =>
    refine .inr ⟨?_, _, rfl⟩
    rintro ⟨hne, hnamed, hdistinct⟩
    rcases h with rfl | ⟨name, hname, hblank⟩ | hrepeated
    · exact hne rfl
    · exact hnamed name hname hblank
    · exact hrepeated hdistinct
  · next h =>
    obtain ⟨hne, h⟩ := not_or.mp h
    obtain ⟨hnamed, hdistinct⟩ := not_or.mp h
    refine .inl ⟨hne, fun name hname hblank => hnamed ⟨name, hname, hblank⟩, ?_, rfl⟩
    exact not_not.mp hdistinct

/-- An honest result is returned in full if it is explicit, and refused otherwise. -/
theorem queryDicts_honest (honest : Honest sql server columns parts resp manifest chunks) :
    ∃ answer, queryDicts casefold sql server chunks.length = some answer ∧
      (Explicit casefold columns manifest chunks →
        answer.2 = .ok (parts.flatten.map (columns.zip ·))) ∧
      (¬Explicit casefold columns manifest chunks → ∃ e, answer.2 = .error e) := by
  have hpos : 0 < chunks.length := by
    rw [honest.length_eq]
    omega
  have hchunk : chunks[0]? = some chunks[0] := List.getElem?_eq_getElem hpos
  rw [queryDicts, honest.responds]
  have hbind : (Except.ok resp >>= schemaColumns casefold) = schemaColumns casefold resp := rfl
  rw [hbind]
  rcases @schemaColumns_honest _ _ _ _ _ _ _ casefold honest _ hchunk with
    ⟨hne, hnamed, hdistinct, hschema⟩ | ⟨hbad, e, hschema⟩
  · rw [hschema]
    dsimp only
    cases hambiguous : manifest.ambiguous with
    | true =>
      refine ⟨_, rfl, fun explicit => ?_, fun _ => ⟨_, rfl⟩⟩
      have hclear := (ambiguous_eq_false honest.manifest_true).mpr explicit.indexed
      rw [hclear] at hambiguous
      cases hambiguous
    | false =>
      have hindexed := (ambiguous_eq_false honest.manifest_true).mp hambiguous
      have hindex : chunks[0].chunkIndex.getD 0 = ((0 : Nat) : Int) := by
        cases h : chunks[0].chunkIndex with
        | none => rfl
        | some index => exact (honest.chunk_true 0 _ hchunk).index index h
      let complete : Complete := ⟨resp.statementId, manifest, columns, chunks[0]⟩
      obtain ⟨answer, hfollow, hok, herror⟩ := @follow_honest _ _ _ _ _ _ _ honest hindexed complete
        ⟨rfl, rfl, rfl⟩ "Incomplete SQL query result chunks." _ _ _ hchunk (Nat.zero_add _).symm
      refine ⟨answer, ?_, fun explicit => hok fun j c _ => explicit.present j c, fun himplicit => ?_⟩
      · rw [if_neg Bool.false_ne_true, hindex]
        exact hfollow
      · by_contra hnone
        refine himplicit ⟨hne, hnamed, hdistinct, hindexed, fun j c hc => ?_⟩
        exact by_contra fun habsent => hnone (herror j c (Nat.zero_le j) hc habsent)
  · rw [hschema]
    refine ⟨_, rfl, fun explicit => ?_, fun _ => ⟨e, rfl⟩⟩
    exact absurd ⟨explicit.columns_ne_nil, explicit.named, explicit.distinct⟩ hbad

end Walk

/-! ### Complete results -/

section Query

variable (casefold : Text → Text) (sql : String) (server : Server)

/-- No chunk is read twice, so the walk ends where the server names finitely many of them. Rows that
are returned are those of all chunks, which fit every count that is declared. An honest result is
returned in full exactly if it is explicit, and refused otherwise. -/
theorem queryDicts_complete :
    (∀ fuel indexes result, queryDicts casefold sql server fuel = some (indexes, result) →
      indexes.Nodup ∧ ∀ rows, result = .ok rows → ∃ complete chunks,
        (response sql server >>= schemaColumns casefold) = .ok complete ∧
          Linked (server.getStatementResultChunkN (complete.statementId.getD [])) []
            (complete.result.chunkIndex.getD 0) complete.result chunks ∧
          indexes = chunks.map Prod.fst ∧ Vouched complete chunks rows) ∧
    (∀ keySet : Finset Int, Within casefold sql server keySet →
      ∃ answer, queryDicts casefold sql server (keySet.card + 1) = some answer) ∧
    ∀ columns parts resp manifest chunks,
      Honest sql server columns parts resp manifest chunks →
        ∃ answer, queryDicts casefold sql server chunks.length = some answer ∧
          (Explicit casefold columns manifest chunks →
            answer.2 = .ok (parts.flatten.map (columns.zip ·))) ∧
          (¬Explicit casefold columns manifest chunks → ∃ e, answer.2 = .error e) := by
  refine ⟨fun fuel indexes result h => ⟨nodup_of_queryDicts h, ?_⟩, ?_, ?_⟩
  · rintro rows rfl
    exact vouched_of_queryDicts h
  · exact fun keySet within => exists_queryDicts within
  · exact fun columns parts resp manifest chunks honest => queryDicts_honest honest

end Query

/-! ### Warehouses that declare no count -/

section Silent

/-- Chunks of some parts that name their successor only. -/
def silentChunks (parts : List (List (List Cell))) : List ResultData :=
  parts.zipIdx.map fun (part, k) =>
    ⟨none, none, some part, if k + 1 < parts.length then some ((k + 1 : Nat) : Int) else none⟩

def silentManifest (columns : List Text) : ResultManifest :=
  ⟨some (some (columns.map some)), none, none, none, none⟩

def silentResponse (columns : List Text) (parts : List (List (List Cell))) : StatementResponse where
  statementId := some "statement-1".toList
  status := some ⟨some .succeeded, none⟩
  manifest := some (silentManifest columns)
  result := (silentChunks parts).head?

def silentServer (columns : List Text) (parts : List (List (List Cell))) : Server where
  execute := .ok (silentResponse columns parts)
  waitForCompletion _ := .error "nothing to wait for"
  getStatement _ := .error "nothing to poll"
  getStatementResultChunkN _ _ index :=
    match (silentChunks parts)[index.toNat]? with
    | some chunk => .ok chunk
    | none => .error "no such chunk"

variable {columns : List Text} {parts : List (List (List Cell))}

theorem getElem?_silentChunks {k : Nat} {chunk : ResultData}
    (h : (silentChunks parts)[k]? = some chunk) : ∃ part, parts[k]? = some part ∧
      chunk = ⟨none, none, some part,
        if k + 1 < parts.length then some ((k + 1 : Nat) : Int) else none⟩ := by
  rw [silentChunks, List.getElem?_map, List.getElem?_zipIdx, Option.map_map] at h
  obtain ⟨part, hpart, rfl⟩ := Option.map_eq_some_iff.mp h
  exact ⟨part, hpart, by simp⟩

theorem honest_silent (sql : String) (hparts : parts ≠ [])
    (hwidths : ∀ part ∈ parts, ∀ row ∈ part, row.length = columns.length) :
    Honest sql (silentServer columns parts) columns parts (silentResponse columns parts)
      (silentManifest columns) (silentChunks parts) where
  responds := rfl
  succeeded := ⟨_, rfl, rfl⟩
  manifest_eq := rfl
  manifest_true := {
    schema := ⟨_, rfl, by simp⟩
    truncated := nofun
    totalRows := nofun
    totalChunks := nofun
    chunks := nofun }
  result_eq := rfl
  length_eq := by
    have hpos := List.length_pos_of_ne_nil hparts
    rw [silentChunks, List.length_map, List.length_zipIdx]
    omega
  chunk_true k chunk hchunk := by
    obtain ⟨part, hpart, rfl⟩ := getElem?_silentChunks hchunk
    exact ⟨nofun, nofun, by simp [ResultData.rows, hpart], rfl⟩
  fetch before k chunk _ hchunk := by
    simp only [silentServer, Int.toNat_natCast, hchunk]
  statementId _ := rfl
  widths := hwidths

end Silent

/-- Two rows in two chunks. -/
theorem queryDicts_complete_two_chunks :
    ∃ answer, queryDicts id "SELECT n FROM numbers"
        (silentServer ["n".toList] [[[some "1".toList]], [[some "2".toList]]]) 2 = some answer ∧
      answer.2 = .ok [[("n".toList, some "1".toList)], [("n".toList, some "2".toList)]] := by
  have honest := @honest_silent ["n".toList] [[[some "1".toList]], [[some "2".toList]]]
    "SELECT n FROM numbers" (by decide) (by decide)
  obtain ⟨answer, hanswer, hok, -⟩ := (queryDicts_complete id _ _).2.2 _ _ _ _ _ honest
  refine ⟨answer, hanswer, hok ⟨by decide, by decide, by decide, nofun, ?_⟩⟩
  intro k chunk hchunk
  obtain ⟨part, -, rfl⟩ := getElem?_silentChunks hchunk
  exact .inl nofun

/-- A column that comes twice is refused, although the warehouse is honest. -/
theorem not_all_honest_results_returned : ¬∀ (casefold : Text → Text) (sql : String)
    (server : Server) (columns : List Text) (parts : List (List (List Cell)))
    (resp : StatementResponse) (manifest : ResultManifest) (chunks : List ResultData),
    Honest sql server columns parts resp manifest chunks → ∃ fuel indexes,
      queryDicts casefold sql server fuel =
        some (indexes, .ok (parts.flatten.map (columns.zip ·))) := by
  intro h
  obtain ⟨fuel, indexes, hquery⟩ := h id "SELECT 1 AS n, 2 AS n" _ _ _ _ _ _
    (@honest_silent ["n".toList, "n".toList] [[[some "1".toList, some "2".toList]]] _ (by decide)
      (by decide))
  cases hquery

end Dqx.Results
