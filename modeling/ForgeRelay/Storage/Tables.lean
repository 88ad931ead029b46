import ForgeRelay.Lib.Table
import ForgeRelay.Storage.Types
import Mathlib.Algebra.Group.Int.Defs
import Mathlib.Algebra.Group.Nat.Defs
import Mathlib.Algebra.Ring.Int.Defs
import Mathlib.Data.List.Sort

/-!
# The metadata tables

The tables of the schema that storage uses, and the SQL statements on them. A column holds the
value that the code casts to and from SQLite's 64-bit integers; the enumerated texts are
enumerations. A statement that violates a constraint fails and changes nothing.
-/

namespace ForgeRelay

/-- The texts of `chunk.state`. -/
inductive ChunkState
  | active | pendingDelete
  deriving DecidableEq, Repr

/-- A row of `chunk`. -/
structure ChunkRow where
  digest : Bytes
  rawSize : Int64
  storedSize : Int64
  state : ChunkState
  pendingAt : Option Int64
  createdAt : Int64
  deriving DecidableEq, Repr

/-- A row of `artifact`; the code never sets `note`. -/
structure ArtifactRow where
  id : Nat
  ns : Bytes
  name : Bytes
  version : Bytes
  size : UInt64
  digest : Bytes
  chunkSize : UInt64
  creator : Bytes
  createdAt : Int64
  deriving DecidableEq, Repr

/-- A row of `artifact_chunk`. -/
structure ArtifactChunkRow where
  artifactId : Nat
  entry : ManifestEntry
  deriving DecidableEq, Repr

/-- A row of `upload_part`. -/
structure PartRow where
  sessionId : Bytes
  ordinal : Int64
  digest : Bytes
  length : UInt64
  deriving DecidableEq, Repr

/-- The tables; `artifactSeq` is the largest id that `AUTOINCREMENT` has given out. -/
structure Db where
  artifact : List ArtifactRow
  artifactSeq : Nat
  artifactChunk : List ArtifactChunkRow
  chunk : List ChunkRow
  uploadSession : List SessionInfo
  uploadPart : List PartRow
  deriving DecidableEq, Repr

/-- The database that the first migration creates. -/
def Db.empty : Db := ⟨[], 0, [], [], [], []⟩

/-- The exception of a failing `Statement::step`. -/
def stepError (message : String) : Error := .of .eIo ("step: " ++ message)

/-- `SELECT ... FROM upload_session WHERE id=?1`. -/
def Db.session? (db : Db) (id : Bytes) : Option SessionInfo :=
  db.uploadSession.find? (·.id == id)

/-- `SELECT COUNT(*) FROM upload_session WHERE owner=?1 AND state='OPEN'`. -/
def Db.countOpenSessions (db : Db) (owner : Bytes) : Nat :=
  db.uploadSession.countP fun s => s.owner == owner && s.state == .open

/-- `INSERT INTO upload_session`. -/
def Db.insertSession (db : Db) (row : SessionInfo) : Except Error Db :=
  if db.uploadSession.any (·.id == row.id) then
    .error (stepError "UNIQUE constraint failed: upload_session.id")
  else .ok { db with uploadSession := db.uploadSession ++ [row] }

/-- `UPDATE upload_session SET state=?1 WHERE` a condition on the row. -/
def Db.setSessionState (db : Db) (cond : SessionInfo → Bool) (state : SessionState) : Db :=
  { db with
    uploadSession := Table.update cond (fun s => { s with state := state }) db.uploadSession }

/-- `sqlite3_changes` after that update. -/
def Db.countSessions (db : Db) (cond : SessionInfo → Bool) : Nat := db.uploadSession.countP cond

/-- `SELECT id FROM upload_session WHERE state IN ('EXPIRED','ABORTED')`. -/
def Db.terminalSessions (db : Db) : List Bytes :=
  (db.uploadSession.filter fun s => s.state == .expired || s.state == .aborted).map (·.id)

/-- `SELECT digest FROM upload_part WHERE session_id=?1 AND ordinal=?2`. -/
def Db.partDigest? (db : Db) (sessionId : Bytes) (ordinal : Int64) : Option Bytes :=
  (db.uploadPart.find? fun p => p.sessionId == sessionId && p.ordinal == ordinal).map (·.digest)

/-- `SELECT digest FROM upload_part WHERE session_id=?1`. -/
def Db.partDigests (db : Db) (sessionId : Bytes) : List Bytes :=
  (db.uploadPart.filter (·.sessionId == sessionId)).map (·.digest)

/-- `SELECT ordinal, digest, length FROM upload_part WHERE session_id=?1 ORDER BY ordinal`. -/
def Db.partsByOrdinal (db : Db) (sessionId : Bytes) : List PartRow :=
  (db.uploadPart.filter (·.sessionId == sessionId)).insertionSort fun a b =>
    a.ordinal.toInt ≤ b.ordinal.toInt

/-- `INSERT INTO upload_part`. -/
def Db.insertPart (db : Db) (row : PartRow) : Except Error Db :=
  if db.uploadPart.any (fun p => p.sessionId == row.sessionId && p.ordinal == row.ordinal) then
    .error (stepError "UNIQUE constraint failed: upload_part.session_id, upload_part.ordinal")
  else if db.uploadSession.any (·.id == row.sessionId) then
    .ok { db with uploadPart := db.uploadPart ++ [row] }
  else .error (stepError "FOREIGN KEY constraint failed")

/-- `DELETE FROM upload_part WHERE session_id=?1`. -/
def Db.deleteParts (db : Db) (sessionId : Bytes) : Db :=
  { db with uploadPart := Table.delete (·.sessionId == sessionId) db.uploadPart }

/-- `SELECT COUNT(*) FROM artifact_chunk WHERE digest=?1`, compared with 0. -/
def Db.inManifest (db : Db) (digest : Bytes) : Bool :=
  db.artifactChunk.any (·.entry.digest == digest)

/-- The states in which a session holds on to its chunks. -/
def SessionState.live : SessionState → Bool
  | .open | .committing => true
  | _ => false

/-- `SELECT COUNT(*) FROM upload_part p JOIN upload_session s ON s.id = p.session_id WHERE
p.digest=?1 AND s.state IN ('OPEN','COMMITTING')`, compared with 0. -/
def Db.inLivePart (db : Db) (digest : Bytes) : Bool :=
  db.uploadPart.any fun p => p.digest == digest &&
    db.uploadSession.any fun s => s.id == p.sessionId && s.state.live

/-- `INSERT OR IGNORE INTO chunk`. -/
def Db.insertChunkOrIgnore (db : Db) (row : ChunkRow) : Db :=
  if db.chunk.any (·.digest == row.digest) then db else { db with chunk := db.chunk ++ [row] }

/-- `UPDATE chunk SET state='ACTIVE', pending_at=NULL WHERE` a condition on the row. -/
def Db.reactivate (db : Db) (cond : ChunkRow → Bool) : Db :=
  { db with
    chunk := Table.update cond (fun c => { c with state := .active, pendingAt := none }) db.chunk }

/-- The condition of most reactivations. -/
def ChunkRow.isPending (digest : Bytes) (c : ChunkRow) : Bool :=
  c.digest == digest && c.state == .pendingDelete

/-- The condition of the marking. -/
def ChunkRow.isActive (digest : Bytes) (c : ChunkRow) : Bool :=
  c.digest == digest && c.state == .active

/-- The row with the mark of `mark_unreferenced_parts`. -/
def ChunkRow.mark (now : Int64) (c : ChunkRow) : ChunkRow :=
  { c with state := .pendingDelete, pendingAt := some now }

/-- `UPDATE chunk SET state='PENDING_DELETE', pending_at=?1 WHERE digest=?2 AND
state='ACTIVE'`. -/
def Db.markPending (db : Db) (now : Int64) (digest : Bytes) : Db :=
  { db with
    chunk := Table.update (ChunkRow.isActive digest)
      (fun c => { c with state := .pendingDelete, pendingAt := some now }) db.chunk }

/-- `SELECT digest, raw_size, pending_at FROM chunk WHERE state='PENDING_DELETE' AND pending_at
IS NOT NULL`. -/
def Db.pendingChunks (db : Db) : List (Bytes × Int64 × Int64) :=
  db.chunk.filterMap fun c =>
    if c.state = .pendingDelete then c.pendingAt.map (c.digest, c.rawSize, ·) else none

/-- `DELETE FROM chunk WHERE digest=?1`. -/
def Db.deleteChunk (db : Db) (digest : Bytes) : Db :=
  { db with chunk := Table.delete (·.digest == digest) db.chunk }

/-- `COALESCE(SUM(raw_size),0)` over these rows; SQLite reports an overflow of the sum. -/
def sumRawSize (rows : List ChunkRow) : Except Error Int64 :=
  let sum := (rows.map (·.rawSize.toInt)).sum
  if -2^63 ≤ sum ∧ sum < 2^63 then .ok (Int64.ofInt sum) else .error (stepError "integer overflow")

/-- `SELECT COALESCE(SUM(raw_size),0) FROM chunk WHERE state='ACTIVE'`. -/
def Db.sumActive (db : Db) : Except Error Int64 := sumRawSize (db.chunk.filter (·.state == .active))

/-- The identity by which an artifact is addressed. -/
def ArtifactRow.ref (a : ArtifactRow) : Bytes × Bytes × Bytes := (a.ns, a.name, a.version)

/-- The condition of the statements that address an artifact. -/
def ArtifactRow.hasRef (ns name version : Bytes) (a : ArtifactRow) : Bool :=
  a.ns == ns && a.name == name && a.version == version

/-- `SELECT ... FROM artifact WHERE namespace=?1 AND name=?2 AND version=?3`. -/
def Db.artifact? (db : Db) (ns name version : Bytes) : Option ArtifactRow :=
  db.artifact.find? (·.hasRef ns name version)

/-- `SELECT ... FROM artifact_chunk WHERE artifact_id=?1 ORDER BY ordinal`. -/
def Db.manifest (db : Db) (artifactId : Nat) : List ManifestEntry :=
  ((db.artifactChunk.filter (·.artifactId == artifactId)).map (·.entry)).insertionSort
    fun a b => a.ordinal.toInt ≤ b.ordinal.toInt

/-- The bound of a rowid. -/
def maxRowid : Nat := 2^63 - 1

/-- `INSERT INTO artifact`, with the id that `sqlite3_last_insert_rowid` then returns. The `id`
of the given row is not used. -/
def Db.insertArtifact (db : Db) (row : ArtifactRow) : Except Error (Nat × Db) :=
  if db.artifact.any (·.hasRef row.ns row.name row.version) then
    .error (stepError
      "UNIQUE constraint failed: artifact.namespace, artifact.name, artifact.version")
  else if db.artifactSeq < maxRowid then
    let id := db.artifactSeq + 1
    .ok (id, { db with artifact := db.artifact ++ [{ row with id := id }], artifactSeq := id })
  else .error (stepError "database or disk is full")

/-- `INSERT INTO artifact_chunk`. -/
def Db.insertArtifactChunk (db : Db) (row : ArtifactChunkRow) : Except Error Db :=
  if db.artifactChunk.any (fun r =>
      r.artifactId == row.artifactId && r.entry.ordinal == row.entry.ordinal) then
    .error (stepError
      "UNIQUE constraint failed: artifact_chunk.artifact_id, artifact_chunk.ordinal")
  else .ok { db with artifactChunk := db.artifactChunk ++ [row] }

/-- `DELETE FROM artifact WHERE id=?1`, which cascades to the manifest. -/
def Db.deleteArtifact (db : Db) (id : Nat) : Db :=
  { db with
    artifact := Table.delete (·.id == id) db.artifact
    artifactChunk := Table.delete (·.artifactId == id) db.artifactChunk }

end ForgeRelay
