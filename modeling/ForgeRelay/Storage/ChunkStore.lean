import ForgeRelay.Core.ByteOrder
import ForgeRelay.Core.Crc32
import ForgeRelay.Core.Hex
import ForgeRelay.Core.Path
import ForgeRelay.Lib.Program
import ForgeRelay.Storage.Tables

/-!
# The content-addressed chunk store

A chunk file is a 32-byte header and the data. It is written under a temporary name and renamed
into place. The state of storage is the database and the files; a step is one SQL statement, one
transaction or one file operation, and file descriptors and directories are not part of it.
-/

namespace ForgeRelay

open Program

/-- The database, the files below `chunks/` by their path, the files in `tmp/`, and the answer of
`sqlite3_changes`, which belongs to the one connection of all threads. Only the statements behind
which the source asks for it set it; what the others leave is the other threads' turn to say. -/
structure Store where
  db : Db
  files : Bytes → Option Bytes
  tmp : List (Bytes × Bytes)
  changes : Nat

/-- A fresh storage root. -/
def Store.empty : Store := ⟨.empty, fun _ => none, [], 0⟩

/-- Where a program stands, for those steps that later statements refer to. -/
inductive Label
  /-- No particular place. -/
  | plain
  /-- The parts that held these digests are deleted; whether to mark the chunks is still open. -/
  | marking (digests : List Bytes)
  /-- The session is COMMITTING for this program and not yet published. -/
  | committing (sessionId : Bytes)
  /-- The next step aborts the session if it is still in the state in which it was loaded. -/
  | aborting (sessionId : Bytes) (loaded : SessionState)
  /-- The next step expires all overdue sessions. -/
  | expiring (now : Int64)
  /-- The next step asks how many rows the transition of the session has changed. -/
  | counting (sessionId : Bytes) (target : SessionState)
  deriving DecidableEq, Repr

abbrev StorageM := Prog Store Label Error

/-- One file operation. -/
def fileStep {α : Type} (act : Store → Except Error α × Store) : StorageM α := .lift .plain act

/-- Whatever fails here is ignored. -/
def attempt (p : StorageM Unit) : StorageM Unit := tryCatchThe Error p fun _ => pure ()

/-- `kChunkHeaderSize`. -/
def chunkHeaderSize : Nat := 32

/-- `kChunkFormatVersion`. -/
def chunkFormatVersion : UInt8 := 1

def storeHeader (rawLen : Nat) (crc : UInt32) : Bytes :=
  ascii "FRCH" ++ [chunkFormatVersion, 0] ++ frStoreBe64 (UInt64.ofNat rawLen) ++
    frStoreBe64 (UInt64.ofNat rawLen) ++ frStoreBe32 crc ++ frStoreBe32 0 ++ [0, 0]

structure ChunkMeta where
  rawLen : UInt64
  storedLen : UInt64
  crc : UInt32
  deriving DecidableEq, Repr

def parseHeader (header : Bytes) : Except Error ChunkMeta :=
  if header.take 4 ≠ ascii "FRCH" then .error (.of .eIo "chunk file magic mismatch")
  else if header.getD 4 0 ≠ chunkFormatVersion then
    .error (.of .eIo "chunk file version mismatch")
  else if header.getD 5 0 ≠ 0 then .error (.of .eIo "chunk file reserved byte nonzero")
  else if frLoadBe32 (header.drop 26) ≠ 0 then
    .error (.of .eIo "chunk file reserved field nonzero")
  else
    let rawLen := frLoadBe64 (header.drop 6)
    let storedLen := frLoadBe64 (header.drop 14)
    if rawLen ≠ storedLen then
      .error (.of .eIo "chunk stored length mismatch (compression unsupported)")
    else .ok ⟨rawLen, storedLen, frLoadBe32 (header.drop 22)⟩

/-- The content of a complete chunk file. -/
def chunkFile (data : Bytes) : Bytes := storeHeader data.length (frCrc32 data) ++ data

/-- The part of `get_range` behind the opening of the file. -/
def chunkFileRange (content : Bytes) (offset len : UInt64) : Except Error Bytes := do
  if content.length < chunkHeaderSize then
    throw (.fr .eIo (ascii ("read chunk header: read_full: got " ++ toString content.length ++
      " of 32 bytes")))
  let info ← parseHeader (content.take chunkHeaderSize)
  if info.rawLen < offset then throw (.of .eRange "chunk range out of bounds")
  let available := info.rawLen - offset
  let remaining := if available < len then available else len
  let data := (content.drop (chunkHeaderSize + offset.toNat)).take remaining.toNat
  if data.length < remaining.toNat then
    throw (.fr .eEof (ascii ("read chunk data: read_full: got " ++ toString data.length ++ " of " ++
      toString remaining.toNat ++ " bytes")))
  if offset = 0 ∧ remaining = info.rawLen ∧ frCrc32 data ≠ info.crc then
    throw (.of .eIo "chunk crc mismatch (corrupted chunk file)")
  return data

/-- `chunk_path`, below `chunks/`. -/
def chunkPath (digestHex : Bytes) : StorageM Bytes :=
  match frChunkRelPath digestHex with
  | .ok path => pure path
  | .error _ => throw (.of .eArg "invalid digest for chunk path")

/-- `std::filesystem::exists` on a path below `chunks/`. -/
def fileExists (path : Bytes) : StorageM Bool :=
  fileStep fun s => (.ok (s.files path).isSome, s)

/-- The name that `fr_tmpfile_create` settles on; the tag is the process id, the time and the
counter. -/
def tmpFileName (tag : Bytes) : Bytes := ascii "frtmp-chunk-" ++ tag ++ ascii ".part"

/-- `fr_tmpfile_create`: the file must not exist. -/
def tmpFileCreate (name : Bytes) : StorageM Unit := fileStep fun s =>
  if s.tmp.any (·.1 == name) then
    (.error (.of .eIo "create temp chunk: tmpfile: retries exhausted"), s)
  else (.ok (), { s with tmp := (name, []) :: s.tmp })

/-- `fr_fd_write_all` on a temporary file. -/
def tmpFileWrite (name data : Bytes) : StorageM Unit := fileStep fun s =>
  (.ok (), { s with tmp := Table.update (·.1 == name) (fun f => (f.1, f.2 ++ data)) s.tmp })

/-- `fr_file_unlink` on a temporary file. -/
def tmpFileUnlink (name : Bytes) : StorageM Unit := fileStep fun s =>
  (.ok (), { s with tmp := Table.delete (·.1 == name) s.tmp })

/-- The error of a rename whose source is not there, with the text of `strerror(ENOENT)`. -/
def renameLost : Error :=
  .of .eNotfound "rename chunk into place: rename: No such file or directory (errno=2)"

/-- `fr_file_rename` of a temporary file into place. -/
def tmpFileRename (name target : Bytes) : StorageM Unit := fileStep fun s =>
  match s.tmp.find? (·.1 == name) with
  | none => (.error renameLost, s)
  | some (_, content) =>
    (.ok (), { s with
      files := Function.update s.files target (some content)
      tmp := Table.delete (·.1 == name) s.tmp })

/-- An operation on a file descriptor or a directory, which the state does not show. -/
def silentStep : StorageM Unit := fileStep fun s => (.ok (), s)

/-- The steps of `write_chunk_file` that fill the temporary file. -/
def tmpFileFill (name data : Bytes) : StorageM Unit := do
  tmpFileWrite name (storeHeader data.length (frCrc32 data))
  (if data.length ≠ 0 then tmpFileWrite name data else pure ())
  silentStep -- fsync
  silentStep -- close
  silentStep -- create the fan-out directory

/-- `ChunkStore::write_chunk_file`. A look at the target that fails leaves the temporary file;
every other failure behind its creation unlinks it. -/
def writeChunkFile (tag target data : Bytes) : StorageM Unit := do
  let name := tmpFileName tag
  tmpFileCreate name
  tryCatchThe Error (tmpFileFill name data) fun e => do
    attempt (tmpFileUnlink name)
    throw e
  if ← fileExists target then attempt (tmpFileUnlink name)
  else tryCatchThe Error (tmpFileRename name target) fun e => do
    attempt (tmpFileUnlink name)
    if ← fileExists target then pure () else throw e

/-- `ChunkStore::put`. -/
def chunkStorePut (sha : Sha256) (tag data digestHex : Bytes) : StorageM Unit :=
  if frDigestHexValid digestHex = false then throw (.of .eArg "chunk put: invalid digest")
  else if sha.hex data ≠ digestHex then
    throw (.of .eConflict "chunk put: digest does not match content")
  else do
    let target ← chunkPath digestHex
    if ← fileExists target then pure () else writeChunkFile tag target data

/-- `ChunkStore::get_range`: the bytes it appends. -/
def chunkStoreGetRange (digestHex : Bytes) (offset len : UInt64) : StorageM Bytes :=
  if frDigestHexValid digestHex = false then throw (.of .eArg "chunk get: bad arguments")
  else do
    let path ← chunkPath digestHex
    fileStep fun s =>
      match s.files path with
      | none => (.error (.of .eNotfound "chunk file missing"), s)
      | some content => (chunkFileRange content offset len, s)

/-- `ChunkStore::get`, with `SIZE_MAX` as the length. -/
def chunkStoreGet (digestHex : Bytes) : StorageM Bytes :=
  chunkStoreGetRange digestHex 0 (UInt64.ofNat (2^64 - 1))

/-- `ChunkStore::remove`; a file that does not exist counts as removed. -/
def chunkStoreRemove (digestHex : Bytes) : StorageM Unit := do
  let path ← chunkPath digestHex
  fileStep fun s => (.ok (), { s with files := Function.update s.files path none })

/-- The loop of `cleanup_temp_files`: the number of files removed; failures are ignored. -/
def unlinkTempFiles : List Bytes → StorageM Nat
  | [] => pure 0
  | name :: rest => do
    let removed ← (if (ascii "frtmp-").isPrefixOf name then
      tryCatchThe Error (do tmpFileUnlink name; pure 1) fun _ => pure 0 else pure 0)
    let others ← unlinkTempFiles rest
    return removed + others

def cleanupTempFiles : StorageM Nat := do
  let names ← fileStep fun s => (.ok (s.tmp.map (·.1)), s)
  unlinkTempFiles names

end ForgeRelay
