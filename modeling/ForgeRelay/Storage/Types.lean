import ForgeRelay.Core.Status

/-!
# Types of the storage facade

What `Storage` takes and returns. Integers have the widths of the source; strings are byte
strings. The clock is not part of the configuration: every operation is given its reading.
-/

namespace ForgeRelay

inductive SessionState
  | open | committing | completed | aborted | expired
  deriving DecidableEq, Repr

/-- The enumerator's number, as the wire carries it. -/
def SessionState.toU8 : SessionState → UInt8
  | .open => 0
  | .committing => 1
  | .completed => 2
  | .aborted => 3
  | .expired => 4

/-- `SessionInfo`, also a row of `upload_session`. -/
structure SessionInfo where
  id : Bytes
  owner : Bytes
  state : SessionState
  ns : Bytes
  name : Bytes
  version : Bytes
  expectedSize : UInt64
  expectedDigest : Bytes
  chunkSize : UInt64
  createdAt : Int64
  expiresAt : Int64
  deriving DecidableEq, Repr

structure ManifestEntry where
  ordinal : Int64
  offset : UInt64
  length : UInt64
  digest : Bytes
  deriving DecidableEq, Repr

structure ArtifactInfo where
  ns : Bytes
  name : Bytes
  version : Bytes
  size : UInt64
  digest : Bytes
  chunkSize : UInt64
  creator : Bytes
  createdAt : Int64
  note : Bytes
  chunks : List ManifestEntry
  deriving DecidableEq, Repr

structure ChunkAccept where
  digest : Bytes
  reused : Bool
  deriving DecidableEq, Repr

structure GcReport where
  scanned : Int64
  deletedCount : Int64
  deletedBytes : Int64
  deriving DecidableEq, Repr

structure RecoveryReport where
  tempFilesRemoved : Nat
  sessionsExpired : Nat
  sessionsRolledBack : Nat
  deriving DecidableEq, Repr

structure SessionProgress where
  chunkCount : UInt64
  presentOrdinals : List UInt64
  deriving DecidableEq, Repr

/-- `StorageConfig`, as far as storage computes with it. -/
structure StorageConfig where
  rootEmpty : Bool
  chunkSize : UInt64
  capacityBytes : UInt64
  highWatermarkPercent : Int32
  sessionHours : Int32
  gcGraceSeconds : Int32
  maxSessionsPerOwner : Int32
  deriving DecidableEq, Repr

/-- What the world outside gives to one call: the clock's reading, the id that a new session
gets, and the tag in the name of a temporary file. -/
structure CallEnv where
  now : Int64
  newSessionId : Bytes
  tmpTag : Bytes
  deriving DecidableEq, Repr

end ForgeRelay
