import ForgeRelay.Storage.ChunkStore

/-!
# Upload sessions

The operations of `Storage` on upload sessions. Each takes the configuration and what the world
outside decides; a statement is one step, and a `Tx` is one step with all its statements.
-/

namespace ForgeRelay

open Program

/-- One SQL statement. -/
def stmt {α : Type} (f : Db → Except Error (α × Db)) : StorageM α := .lift .plain fun s =>
  match f s.db with
  | .ok (a, db) => (.ok a, { s with db := db })
  | .error e => (.error e, s)

/-- A statement that only reads. -/
def select {α : Type} (f : Db → α) : StorageM α := stmt fun db => .ok (f db, db)

/-- A statement that writes and cannot violate a constraint. -/
def exec (f : Db → Db) : StorageM Unit := stmt fun db => .ok ((), f db)

/-- A `Tx`. -/
def tx {α : Type} (body : StorageM α) : StorageM α := .transaction .plain body

def loadSession (sessionId : Bytes) : StorageM SessionInfo := do
  match ← select (·.session? sessionId) with
  | some session => pure session
  | none => throw (.of .eNotfound "session not found")

def chunkReferenced (digest : Bytes) : StorageM Bool := do
  if ← select (·.inManifest digest) then pure true else select (·.inLivePart digest)

/-- The body of the loop of `mark_unreferenced_parts`. -/
def markIfUnreferenced (now : Int64) (digest : Bytes) : StorageM Unit := do
  if ← chunkReferenced digest then pure () else exec (·.markPending now digest)

/-- The loop of `mark_unreferenced_parts`. -/
def markAllUnreferenced (now : Int64) : List Bytes → StorageM Unit
  | [] => pure ()
  | digest :: rest => do
    (markIfUnreferenced now digest).labelled (.marking (digest :: rest))
    markAllUnreferenced now rest

def markUnreferencedParts (sessionId : Bytes) (now : Int64) : StorageM Unit := do
  let digests ← select (·.partDigests sessionId)
  exec (·.deleteParts sessionId)
  markAllUnreferenced now digests

def expireSessionIfDue (session : SessionInfo) (now : Int64) : StorageM Unit :=
  if session.state = .open ∧ session.expiresAt ≤ now then do
    exec (·.setSessionState (fun s => s.id == session.id && s.state == .open) .expired)
    markUnreferencedParts session.id now
  else pure ()

/-- The store after an `UPDATE` of the states of sessions behind which the source asks for the
number of rows. -/
def Store.updateSessions (s : Store) (cond : SessionInfo → Bool) (state : SessionState) : Store :=
  { s with
    db := s.db.setSessionState cond state
    changes := s.db.countSessions cond }

/-- `UPDATE upload_session SET state=?1 WHERE` a condition on the row. -/
def updateSessions (cond : SessionInfo → Bool) (state : SessionState) : StorageM Nat :=
  .lift .plain fun s => (.ok (s.db.countSessions cond), s.updateSessions cond state)

/-- `db_changes` behind an update of `rows` rows. `sqlite3_changes` cannot fail, so where every step
may fail this one answers `rows` instead. -/
def dbChanges (label : Label) (rows : Nat) : StorageM Nat :=
  tryCatchThe Error (.lift label fun s => (.ok s.changes, s)) fun _ => pure rows

/-- `transition`: whether the last statement of the connection has changed a row. -/
def transition (sessionId : Bytes) (source target : SessionState) : StorageM Bool := do
  let rows ← updateSessions (fun s => s.id == sessionId && s.state == source) target
  let changes ← dbChanges (.counting sessionId target) rows
  return decide (0 < changes)

/-- The number of chunks of a session; the sum wraps around like the source's. -/
def chunkCount (session : SessionInfo) : UInt64 :=
  if session.expectedSize = 0 then 0
  else (session.expectedSize + session.chunkSize - 1) / session.chunkSize

/-- `new_session_id`: a clock reading in nanoseconds and a counter. -/
def newSessionId (nowNs seq : UInt64) : Bytes :=
  frHexEncode (frStoreBe64 nowNs) ++ frHexEncode (frStoreBe32 seq.toUInt32)

/-- The row of a new session. -/
def newSession (cfg : StorageConfig) (env : CallEnv) (ns name version : Bytes)
    (expectedSize : UInt64) (expectedDigest owner : Bytes) : SessionInfo where
  id := env.newSessionId
  owner := owner
  state := .open
  ns := ns
  name := name
  version := version
  expectedSize := expectedSize
  expectedDigest := expectedDigest
  chunkSize := cfg.chunkSize
  createdAt := env.now
  expiresAt := env.now + cfg.sessionHours.toInt64 * 3600

def createSession (cfg : StorageConfig) (env : CallEnv) (ns name version : Bytes)
    (expectedSize : UInt64) (expectedDigest owner : Bytes) : StorageM SessionInfo :=
  if ¬(frIdentValidComponent ns ∧ frIdentValidComponent name ∧ frIdentValidVersion version) then
    throw (.of .eArg "invalid artifact identifier")
  else if owner = [] then throw (.of .eArg "owner must not be empty")
  else if frDigestHexValid expectedDigest = false then
    throw (.of .eArg "expected digest must be 64 lowercase hex chars")
  else tx do
    let active ← select (·.countOpenSessions owner)
    if cfg.maxSessionsPerOwner.toInt ≤ active then
      throw (.of .eLimit "per-owner active session limit reached")
    else do
      let used ← stmt fun db => db.sumActive.map (·, db)
      if cfg.capacityBytes * cfg.highWatermarkPercent.toInt64.toUInt64 / 100 ≤ used.toUInt64 then
        throw (.of .eLimit "storage high watermark reached")
      else do
        let info := newSession cfg env ns name version expectedSize expectedDigest owner
        stmt fun db => (db.insertSession info).map ((), ·)
        return info

/-- The transaction of `put_chunk`: the part's registration. -/
def registerPart (now : Int64) (sessionId : Bytes) (ordinal : UInt64) (data digestHex : Bytes) :
    StorageM ChunkAccept := do
  match ← select (·.partDigest? sessionId ordinal.toInt64) with
  | some existing =>
    if existing = digestHex then return { digest := digestHex, reused := true }
    else throw (.of .eConflict "chunk ordinal already used with different content")
  | none =>
    let len := UInt64.ofNat data.length
    exec (·.insertChunkOrIgnore ⟨digestHex, len.toInt64, len.toInt64, .active, none, now⟩)
    exec (·.reactivate (ChunkRow.isPending digestHex))
    stmt fun db => (db.insertPart ⟨sessionId, ordinal.toInt64, digestHex, len⟩).map ((), ·)
    return { digest := digestHex, reused := false }

def putChunk (sha : Sha256) (env : CallEnv) (sessionId : Bytes) (ordinal : UInt64)
    (data : Bytes) : StorageM ChunkAccept := do
  let session ← loadSession sessionId
  expireSessionIfDue session env.now
  let session ← loadSession sessionId
  if session.state = .expired then throw (.of .eExpired "upload session expired")
  else if session.state ≠ .open then throw (.of .eState "session is not OPEN")
  else if chunkCount session ≤ ordinal then
    throw (.of .eRange "chunk ordinal beyond expectation")
  else if data.length = 0 ∨ session.chunkSize.toNat < data.length then
    throw (.of .eRange "chunk length must be within (0, chunk_size]")
  else do
    let digestHex := sha.hex data
    chunkStorePut sha env.tmpTag data digestHex
    tx (registerPart env.now sessionId ordinal data digestHex)

def rollbackToOpen (sessionId : Bytes) : StorageM Unit := do
  let _ ← transition sessionId .committing .open

/-- `vector::max_size` of the manifest: entries of 56 bytes below `PTRDIFF_MAX`. -/
def maxManifestEntries : Nat := (2^63 - 1) / 56

/-- `manifest.reserve`, where there is memory for every vector below its `max_size`; `bad_alloc` is
a failure of this step. -/
def reserveManifest (count : UInt64) : StorageM Unit := .lift .plain fun s =>
  if maxManifestEntries < count.toNat then (.error (.std (ascii "vector::reserve")), s)
  else (.ok (), s)

/-- The loop over the parts in `commit_session`: the manifest in reverse, and the total length. -/
def scanParts (chunkSize : UInt64) :
    Int64 → UInt64 → List ManifestEntry → List PartRow → Except Error (List ManifestEntry × UInt64)
  | _, total, acc, [] => .ok (acc.reverse, total)
  | expectedOrdinal, total, acc, part :: parts =>
    if part.ordinal ≠ expectedOrdinal then
      .error (.of .eState "chunk ordinals are not contiguous")
    else if chunkSize < part.length then .error (.of .eState "chunk length exceeds chunk_size")
    else
      scanParts chunkSize (expectedOrdinal + 1) (total + part.length)
        (⟨part.ordinal, total, part.length, part.digest⟩ :: acc) parts

/-- The streaming loop of `commit_session`: the content of all chunks in order. -/
def readChunks : List ManifestEntry → StorageM Bytes
  | [] => pure []
  | entry :: entries => do
    let data ← chunkStoreGet entry.digest
    let rest ← readChunks entries
    return data ++ rest

/-- The row that `commit_session` inserts into `artifact`. -/
def SessionInfo.artifactRow (session : SessionInfo) (now : Int64) : ArtifactRow where
  id := 0
  ns := session.ns
  name := session.name
  version := session.version
  size := session.expectedSize
  digest := session.expectedDigest
  chunkSize := session.chunkSize
  creator := session.owner
  createdAt := now

/-- The publishing transaction of `commit_session`; `none` if the artifact exists already. -/
def publish (now : Int64) (session : SessionInfo) (manifest : List ManifestEntry) :
    StorageM (Option Nat) := do
  if (← select (·.artifact? session.ns session.name session.version)).isSome then return none
  else do
    let artifactId ← stmt (·.insertArtifact (session.artifactRow now))
    manifest.forM fun entry => do
      exec (·.reactivate (ChunkRow.isPending entry.digest))
      stmt fun db => (db.insertArtifactChunk ⟨artifactId, entry⟩).map ((), ·)
    exec (·.setSessionState (·.id == session.id) .completed)
    return some artifactId

/-- The way out of a failed check: the session goes back to OPEN. -/
def rollbackAndThrow {α : Type} (sessionId : Bytes) (e : Error) : StorageM α := do
  rollbackToOpen sessionId
  throw e

/-- `commit_session` behind the transition to COMMITTING. Up to the publishing transaction its
steps say for which session they stand. -/
def commitBody (sha : Sha256) (now : Int64) (session : SessionInfo) : StorageM ArtifactInfo := do
  let count := chunkCount session
  (reserveManifest count).labelled (.committing session.id)
  let parts ← (select (·.partsByOrdinal session.id)).labelled (.committing session.id)
  match scanParts session.chunkSize 0 0 [] parts with
  | .error e => rollbackAndThrow session.id e
  | .ok (manifest, total) =>
    if manifest.length ≠ count.toNat then
      rollbackAndThrow session.id (.fr .eState (ascii ("chunk count mismatch: got " ++
        toString manifest.length ++ ", want " ++ toString count.toNat)))
    else if total ≠ session.expectedSize then
      rollbackAndThrow session.id (.of .eState "total chunk length mismatch")
    else do
      let content ← tryCatchThe Error ((readChunks manifest).labelled (.committing session.id))
        (rollbackAndThrow session.id)
      if sha.hex content ≠ session.expectedDigest then
        rollbackAndThrow session.id (.of .eConflict "overall digest mismatch")
      else
        match ← (tx (publish now session manifest)).labelled (.committing session.id) with
        | none =>
          rollbackAndThrow session.id
            (.of .eExists "artifact already exists and cannot be overwritten")
        | some _ => return {
            ns := session.ns, name := session.name, version := session.version,
            size := session.expectedSize, digest := session.expectedDigest,
            chunkSize := session.chunkSize, creator := session.owner, createdAt := now,
            note := [], chunks := manifest }

def commitSession (sha : Sha256) (env : CallEnv) (sessionId : Bytes) : StorageM ArtifactInfo := do
  let session ← loadSession sessionId
  expireSessionIfDue session env.now
  if ← transition sessionId .open .committing then
    commitBody sha env.now session
  else do
    let session ← loadSession sessionId
    if session.state = .expired then throw (.of .eExpired "upload session expired")
    else throw (.of .eState "session is not OPEN")

def abortSession (env : CallEnv) (sessionId : Bytes) : StorageM Unit := do
  let session ← loadSession sessionId
  if session.state = .aborted ∨ session.state = .expired ∨ session.state = .completed then pure ()
  else
    (tx do
      let _ ← transition sessionId session.state .aborted
      markUnreferencedParts sessionId env.now).labelled (.aborting sessionId session.state)

end ForgeRelay
