import ForgeRelay.Storage.Sessions

/-!
# Artifacts and maintenance

The operations of `Storage` on published artifacts, the garbage collection, the maintenance that
also runs when a storage root is opened, and the queries.
-/

namespace ForgeRelay

open Program

/-- `ArtifactInfo` of a row; the note is always NULL and reads as the empty string. -/
def ArtifactRow.info (a : ArtifactRow) (chunks : List ManifestEntry) : ArtifactInfo where
  ns := a.ns
  name := a.name
  version := a.version
  size := a.size
  digest := a.digest
  chunkSize := a.chunkSize
  creator := a.creator
  createdAt := a.createdAt
  note := []
  chunks := chunks

/-- `Storage::show_artifact`. The second statement looks the id up again. -/
def showArtifact (ns name version : Bytes) : StorageM ArtifactInfo := do
  match ← select (·.artifact? ns name version) with
  | none => throw (.of .eNotfound "artifact not found")
  | some row =>
    let chunks ← select fun db =>
      match db.artifact? ns name version with
      | some a => db.manifest a.id
      | none => []
    return row.info chunks

/-- The loop of `read_artifact`: what goes to the sink, and how many bytes that are. -/
def readEntries : UInt64 → UInt64 → List ManifestEntry → StorageM (Bytes × UInt64)
  | _, _, [] => pure ([], 0)
  | offset, remaining, entry :: entries =>
    let chunkEnd := entry.offset + entry.length
    if remaining = 0 then pure ([], 0)
    else if chunkEnd ≤ offset then readEntries offset remaining entries
    else if offset + remaining ≤ entry.offset then pure ([], 0)
    else do
      let localOffset := if entry.offset < offset then offset - entry.offset else 0
      let available := chunkEnd - (if entry.offset < offset then offset else entry.offset)
      let take := if remaining < available then remaining else available
      let data ← chunkStoreGetRange entry.digest localOffset take
      let (rest, sent) ← readEntries (offset + take) (remaining - take) entries
      return (data ++ rest, take + sent)

/-- `Storage::read_artifact`: all that the sink receives. -/
def readArtifact (ns name version : Bytes) (offset length : UInt64) : StorageM Bytes := do
  let info ← showArtifact ns name version
  if info.size < offset then throw (.of .eRange "read offset beyond artifact size")
  else
    let remaining := if info.size - offset < length then info.size - offset else length
    let (data, _) ← readEntries offset remaining info.chunks
    return data

/-- The loop of `read_artifact_slice`: what each call of the sink gets, and the number of bytes
counted as sent. -/
def readSliceEntries : UInt64 → UInt64 → List ManifestEntry → StorageM (List Bytes × UInt64)
  | _, _, [] => pure ([], 0)
  | offset, remaining, entry :: entries =>
    let chunkEnd := entry.offset + entry.length
    if remaining = 0 then pure ([], 0)
    else if chunkEnd ≤ offset then readSliceEntries offset remaining entries
    else if offset + remaining ≤ entry.offset then pure ([], 0)
    else do
      let localOffset := if entry.offset < offset then offset - entry.offset else 0
      let available := chunkEnd - (if entry.offset < offset then offset else entry.offset)
      let take := if remaining < available then remaining else available
      let data ← chunkStoreGetRange entry.digest localOffset take
      let (rest, sent) ← readSliceEntries (offset + take) (remaining - take) entries
      return (data :: rest, take + sent)

/-- `Storage::read_artifact_slice`: the calls of the sink, and the number of bytes sent. -/
def readArtifactSlice (ns name version : Bytes) (offset maxLen : UInt64) :
    StorageM (List Bytes × UInt64) := do
  let info ← showArtifact ns name version
  if info.size < offset then throw (.of .eRange "read offset beyond artifact size")
  else
    let remaining := if maxLen < info.size - offset then maxLen else info.size - offset
    readSliceEntries offset remaining info.chunks

/-- `SELECT ... FROM artifact` with the given filters, `ORDER BY created_at DESC, id DESC LIMIT
?9 OFFSET ?10`. -/
def Db.listArtifacts (db : Db) (ns name : Option Bytes) (limit offset : Nat) :
    List ArtifactRow :=
  let rows := db.artifact.filter fun a => ns.all (· == a.ns) && name.all (· == a.name)
  let sorted := rows.insertionSort fun a b =>
    b.createdAt.toInt < a.createdAt.toInt ∨ b.createdAt.toInt = a.createdAt.toInt ∧ b.id ≤ a.id
  (sorted.drop offset).take limit

def listArtifacts (ns name : Option Bytes) (limit offset : Int64) :
    StorageM (List ArtifactInfo) :=
  if limit < 0 ∨ offset < 0 then throw (.of .eArg "pagination must be non-negative")
  else do
    let rows ← select (·.listArtifacts ns name limit.toInt.toNat offset.toInt.toNat)
    return rows.map (·.info [])

/-- `SELECT ... FROM upload_session ORDER BY created_at DESC`, with the condition `state=?1` if
there is one: then the rows come out of the index on `(state, expires_at)`. -/
def Db.listSessions (db : Db) (state : Option SessionState) : List SessionInfo :=
  let rows := state.elim db.uploadSession fun state =>
    (db.uploadSession.filter (·.state == state)).insertionSort fun a b =>
      a.expiresAt.toInt ≤ b.expiresAt.toInt
  rows.insertionSort fun a b => b.createdAt.toInt ≤ a.createdAt.toInt

def listSessions (state : Option SessionState) : StorageM (List SessionInfo) :=
  select fun db => db.listSessions state

def usedBytes : StorageM UInt64 := do
  let used ← stmt fun db => db.sumActive.map (·, db)
  return used.toUInt64

def artifactCount : StorageM Int64 := select fun db => Int64.ofNat db.artifact.length

def sessionProgress (sessionId : Bytes) : StorageM SessionProgress := do
  let session ← loadSession sessionId
  let parts ← select (·.partsByOrdinal sessionId)
  return { chunkCount := chunkCount session,
           presentOrdinals := parts.map (·.ordinal.toUInt64) }

/-- The body of the loop of `delete_artifact`: how many rows the marking has changed. -/
def markDeleted (now : Int64) (digest : Bytes) : StorageM Nat := do
  if ← chunkReferenced digest then pure 0
  else stmt fun db => .ok (db.chunk.countP (ChunkRow.isActive digest), db.markPending now digest)

/-- The loop of `delete_artifact`. -/
def markAllDeleted (now : Int64) : List Bytes → StorageM Nat
  | [] => pure 0
  | digest :: rest => do
    let marked ← markDeleted now digest
    let others ← markAllDeleted now rest
    return marked + others

/-- `Storage::delete_artifact`: the number of chunks marked. -/
def deleteArtifact (env : CallEnv) (ns name version : Bytes) : StorageM Int64 := tx do
  match ← select (·.artifact? ns name version) with
  | none => throw (.of .eNotfound "artifact not found")
  | some row =>
    let manifest ← select (·.manifest row.id)
    exec (·.deleteArtifact row.id)
    let marked ← markAllDeleted env.now (manifest.map (·.digest))
    return Int64.ofNat marked

/-- The body of the loop of `collect_garbage` for one candidate. -/
def collectCandidate (cfg : StorageConfig) (env : CallEnv) (dryRun : Bool)
    (candidate : Bytes × Int64 × Int64) (report : GcReport) : StorageM GcReport := do
  let (digest, rawSize, pendingAt) := candidate
  if env.now - cfg.gcGraceSeconds.toInt64 < pendingAt then return report
  else if ← chunkReferenced digest then do
    exec (·.reactivate (·.digest == digest))
    return report
  else do
    let report := { report with
      deletedCount := report.deletedCount + 1
      deletedBytes := report.deletedBytes + rawSize }
    if dryRun then return report
    else do
      chunkStoreRemove digest
      exec (·.deleteChunk digest)
      return report

/-- The loop of `collect_garbage`. -/
def collectCandidates (cfg : StorageConfig) (env : CallEnv) (dryRun : Bool) :
    List (Bytes × Int64 × Int64) → GcReport → StorageM GcReport
  | [], report => pure report
  | candidate :: rest, report => do
    let report ← collectCandidate cfg env dryRun candidate report
    collectCandidates cfg env dryRun rest report

def collectGarbage (cfg : StorageConfig) (env : CallEnv) (dryRun : Bool) : StorageM GcReport := do
  let candidates ← select (·.pendingChunks)
  collectCandidates cfg env dryRun candidates ⟨Int64.ofNat candidates.length, 0, 0⟩

/-- The sessions that the maintenance expires. -/
def isOverdue (now : Int64) (s : SessionInfo) : Bool :=
  s.state == .open && decide (s.expiresAt ≤ now)

/-- The sessions that the maintenance rolls back. -/
def isCommitting (s : SessionInfo) : Bool := s.state == .committing

def runMaintenance (env : CallEnv) : StorageM RecoveryReport := do
  let tempFilesRemoved ← cleanupTempFiles
  let expired ← (updateSessions (isOverdue env.now) .expired).labelled (.expiring env.now)
  let sessionsExpired ← dbChanges .plain expired
  let rolledBack ← updateSessions isCommitting .open
  let sessionsRolledBack ← dbChanges .plain rolledBack
  let terminal ← select (·.terminalSessions)
  terminal.forM fun id => markUnreferencedParts id env.now
  return { tempFilesRemoved, sessionsExpired, sessionsRolledBack }

/-- What `Storage::open` checks of its configuration. -/
def checkConfig (cfg : StorageConfig) : Except Error Unit :=
  if cfg.rootEmpty then .error (.of .eArg "storage root must not be empty")
  else if cfg.highWatermarkPercent < 1 ∨ 100 < cfg.highWatermarkPercent then
    .error (.of .eArg "high_watermark_percent must be within [1, 100]")
  else if cfg.chunkSize < 1024 * 1024 ∨ 8 * 1024 * 1024 < cfg.chunkSize then
    .error (.of .eArg "chunk_size must be within [1 MiB, 8 MiB]")
  else if cfg.sessionHours < 1 ∨ 168 < cfg.sessionHours then
    .error (.of .eArg "session_hours must be within [1, 168]")
  else .ok ()

theorem checkConfig_ok {cfg : StorageConfig} (h : checkConfig cfg = .ok ()) :
    (1024 * 1024 ≤ cfg.chunkSize.toNat ∧ cfg.chunkSize.toNat ≤ 8 * 1024 * 1024) ∧
      1 ≤ cfg.highWatermarkPercent.toInt ∧ cfg.highWatermarkPercent.toInt ≤ 100 := by
  unfold checkConfig at h
  split at h
  · cases h
  split at h
  · cases h
  rename_i hpercent
  split at h
  · cases h
  rename_i hchunk
  obtain ⟨hlow, hhigh⟩ := not_or.mp hchunk
  obtain ⟨hleast, hmost⟩ := not_or.mp hpercent
  exact ⟨⟨UInt64.le_iff_toNat_le.mp (UInt64.not_lt.mp hlow),
    UInt64.le_iff_toNat_le.mp (UInt64.not_lt.mp hhigh)⟩,
    Int32.le_iff_toInt_le.mp (Int32.not_lt.mp hleast),
    Int32.le_iff_toInt_le.mp (Int32.not_lt.mp hmost)⟩

theorem checkConfig_chunkSize {cfg : StorageConfig} (h : checkConfig cfg = .ok ()) :
    1024 * 1024 ≤ cfg.chunkSize.toNat := (checkConfig_ok h).1.1

/-- `Storage::open` on a root that has its directories and tables. -/
def openStorage (cfg : StorageConfig) (env : CallEnv) : StorageM Unit := do
  Prog.ofExcept (checkConfig cfg)
  let _ ← runMaintenance env

end ForgeRelay
