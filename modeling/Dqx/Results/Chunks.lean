import Dqx.Lib.Follow
import Dqx.Scheduler.TmpViews

/-! The rows of a query that has to be read completely: the response of the warehouse, its chunks one
after another, and the counts that they declare. -/

namespace Dqx.Results

open Lib Lib.Sql

abbrev Cell := Option Text

structure ResultData where
  chunkIndex : Option Int
  rowCount : Option Int
  dataArray : Option (List (List Cell))
  nextChunkIndex : Option Int
  deriving DecidableEq

structure BaseChunkInfo where
  chunkIndex : Option Int
  rowCount : Option Int
  deriving DecidableEq

/-- The schema gives the names of its columns, if it has any. -/
structure ResultManifest where
  schema : Option (Option (List (Option Text)))
  truncated : Option Bool
  totalRowCount : Option Int
  totalChunkCount : Option Int
  chunks : Option (List BaseChunkInfo)
  deriving DecidableEq

inductive StatementState where
  | pending
  | running
  | succeeded
  | failed
  | canceled
  | closed
  deriving DecidableEq

def StatementState.isTerminal : StatementState → Bool
  | .pending | .running => false
  | _ => true

def StatementState.text : StatementState → String
  | .pending => "StatementState.PENDING"
  | .running => "StatementState.RUNNING"
  | .succeeded => "StatementState.SUCCEEDED"
  | .failed => "StatementState.FAILED"
  | .canceled => "StatementState.CANCELED"
  | .closed => "StatementState.CLOSED"

structure StatementStatus where
  state : Option StatementState
  error : Option String
  deriving DecidableEq

structure StatementResponse where
  statementId : Option Text
  status : Option StatementStatus
  manifest : Option ResultManifest
  result : Option ResultData
  deriving DecidableEq

/-- What the warehouse answers. The answer for a chunk may depend on the ones asked for before. -/
structure Server where
  execute : Except String StatementResponse
  waitForCompletion : Text → Except String StatementStatus
  getStatement : Text → Except String StatementResponse
  getStatementResultChunkN : Text → List Int → Int → Except String ResultData

/-- A dictionary of the columns of a row, which are distinct. -/
abbrev Row := List (Text × Cell)

section Response

variable (sql : String) (server : Server)

/-- The response once the statement has succeeded. -/
def settle (status : StatementStatus) (resp : StatementResponse) :
    Except String StatementResponse :=
  if status.state = some .failed then
    .error ("SQL query failed: " ++ status.error.getD "Unknown error" ++ "\nSQL: " ++ sql)
  else if status.state ≠ some .succeeded then
    .error ("SQL query ended in unexpected state " ++
      status.state.elim "None" StatementState.text ++ "\nSQL: " ++ sql)
  else .ok resp

def response : Except String StatementResponse := do
  let resp ← server.execute
  match resp.status with
  | none => .error ("SQL query returned no status\nSQL: " ++ sql)
  | some status =>
    match resp.statementId.filter fun sid => !sid.isEmpty with
    | some sid =>
      if status.state.any StatementState.isTerminal then settle sql status resp
      else do
        let status ← server.waitForCompletion sid
        let resp ← if status.state = some .succeeded then server.getStatement sid else .ok resp
        settle sql status resp
    | none => settle sql status resp

end Response

section Complete

variable (casefold : Text → Text)

/-- The parts of a response that can be read completely. -/
structure Complete where
  statementId : Option Text
  manifest : ResultManifest
  columns : List Text
  result : ResultData

def schemaColumns (resp : StatementResponse) : Except String Complete :=
  match resp.status, resp.manifest, resp.result with
  | some status, some manifest, some result =>
    match manifest.schema with
    | none => .error "Incomplete SQL query result."
    | some names =>
      let columns := (names.getD []).map fun name => name.getD []
      if status.state ≠ some .succeeded ∨ manifest.truncated = some true then
        .error "Incomplete SQL query result."
      else if columns = [] ∨ (∃ name ∈ columns, Scheduler.strip name = []) ∨
          ¬(columns.map casefold).Nodup then
        .error "Unknown SQL query result schema."
      else .ok ⟨resp.statementId, manifest, columns, result⟩
  | _, _, _ => .error "Incomplete SQL query result."

/-- `manifest.chunks or []` -/
def ResultManifest.infos (manifest : ResultManifest) : List BaseChunkInfo :=
  manifest.chunks.getD []

def ResultManifest.ambiguous (manifest : ResultManifest) : Bool :=
  !(manifest.infos.map BaseChunkInfo.chunkIndex).Nodup ||
    manifest.infos.any fun info => info.chunkIndex.elim true (· < 0)

/-- `chunk_metadata.get(index)` -/
def ResultManifest.metadata (manifest : ResultManifest) (index : Int) : Option BaseChunkInfo :=
  manifest.infos.find? fun info => info.chunkIndex = some index

section Chunk

variable (columns : List Text) (manifest : ResultManifest) (chunk : ResultData) (index : Int)

def declaredCounts : List Int :=
  [chunk.rowCount, (manifest.metadata index).bind BaseChunkInfo.rowCount].filterMap id

/-- A chunk without rows has to be declared empty. -/
def payloadOf : Except String (List (List Cell)) :=
  match chunk.dataArray with
  | some payload => .ok payload
  | none =>
    if 0 ∈ declaredCounts manifest chunk index ∨ manifest.totalRowCount = some 0 ∨
        manifest.totalChunkCount = some 0 ∨ manifest.chunks = some [] then .ok []
    else .error "Missing SQL query result payload."

def toRow (row : List Cell) : Except String Row :=
  if row.length ≠ columns.length then .error "Malformed SQL query result row."
  else .ok (columns.zip row)

def readChunk : Except String (List Row) :=
  if ∃ i ∈ chunk.chunkIndex, i ≠ index then .error "Unexpected SQL query result chunk."
  else do
    let payload ← payloadOf manifest chunk index
    if ∃ count ∈ declaredCounts manifest chunk index, count ≠ (payload.length : Int) then
      .error "Incomplete SQL query chunk rows."
    else payload.mapM (toRow columns)

end Chunk

/-- The indexes that count as chunks. An explicitly empty result can have a placeholder even when the
manifest declares no actual data chunks. -/
def observed (manifest : ResultManifest) (rows : List Row) (seen : List Int) : List Int :=
  if rows = [] ∧ seen = [0] ∧ (manifest.totalChunkCount = some 0 ∨ manifest.chunks = some []) then []
  else seen

def finish (manifest : ResultManifest) (rows : List Row) (seen : List Int) :
    Except String (List Row) :=
  if ∃ total ∈ manifest.totalRowCount, (rows.length : Int) ≠ total then
    .error "Incomplete SQL query result rows."
  else if ∃ total ∈ manifest.totalChunkCount, ((observed manifest rows seen).length : Int) ≠ total ∨
      ∃ value ∈ observed manifest rows seen, ¬(0 ≤ value ∧ value < total) then
    .error "Incomplete SQL query result chunks."
  else if manifest.chunks.isSome ∧ (observed manifest rows seen).toFinset ≠
      (manifest.infos.filterMap BaseChunkInfo.chunkIndex).toFinset then
    .error "Incomplete SQL query manifest chunks."
  else .ok rows

def read (complete : Complete) (before : List Int) (rows : List Row) (index : Int)
    (chunk : ResultData) : Except String (List Row ⊕ Int × List Row) := do
  let more ← readChunk complete.columns complete.manifest chunk index
  let rows := rows ++ more
  match chunk.nextChunkIndex with
  | none => (finish complete.manifest rows (before ++ [index])).map .inl
  | some next =>
    if next < 0 ∨ complete.statementId.elim true List.isEmpty then
      .error "Incomplete SQL query result chunks."
    else .ok (.inr (next, rows))

/-- The chunks that are read, the first of them being the result of the response, and the rows. -/
def queryDicts (sql : String) (server : Server) (fuel : Nat) :
    Option (List Int × Except String (List Row)) :=
  match response sql server >>= schemaColumns casefold with
  | .error e => some ([], .error e)
  | .ok complete =>
    if complete.manifest.ambiguous then some ([], .error "Ambiguous SQL query chunk metadata.")
    else follow (read complete)
      (server.getStatementResultChunkN (complete.statementId.getD []))
      "Incomplete SQL query result chunks." fuel [] [] (complete.result.chunkIndex.getD 0)
      complete.result

end Complete

end Dqx.Results
