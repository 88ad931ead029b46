import ForgeRelay.Core.Frame
import ForgeRelay.Lib.Codec
import ForgeRelay.Storage.Types

/-!
# Message payloads

The `put_*` and `get_*` primitives and the `encode_X` / `decode_X` pairs of `fr::msg`. An encoder
appends to its buffer, whose growth is taken to succeed; a decoder reads a frame's payload.
`std::string` fields are byte strings, and session states and roles travel as their number.
-/

namespace ForgeRelay

/-- `kMaxStringLen`. -/
def maxStringLen : Nat := 512

/-- `kDigestHexLen`. -/
def digestHexLen : Nat := 64

/-- What `protocol_error` throws. -/
def protocolError (what : String) : Error := .of .eProtocol ("payload: " ++ what)

abbrev MsgEncoder := Codec.Encoder UInt8 Error Unit
abbrev MsgDecoder (α : Type) := Codec.Decoder FrBufReader Error α

/-- `fr_buf_append` on a message under construction. -/
def putBytes (value : Bytes) : MsgEncoder := fun out => .ok ((), out ++ value)

/-- A read of the buffer layer whose failure is the protocol error `what`. -/
def getOr (what : String) {α : Type} (read : FrBufReader → Except FrStatus (α × FrBufReader)) :
    MsgDecoder α := fun r =>
  match read r with
  | .ok result => .ok result
  | .error _ => .error (protocolError what)

def putU8 (value : UInt8) : MsgEncoder := putBytes [value]
def putU16 (value : UInt16) : MsgEncoder := putBytes (frStoreBe16 value)
def putU32 (value : UInt32) : MsgEncoder := putBytes (frStoreBe32 value)
def putU64 (value : UInt64) : MsgEncoder := putBytes (frStoreBe64 value)
def putI32 (value : Int32) : MsgEncoder := putU32 value.toUInt32
def putI64 (value : Int64) : MsgEncoder := putU64 value.toUInt64

def getU8 : MsgDecoder UInt8 := getOr "u8 truncated" frBufReaderU8
def getU32 : MsgDecoder UInt32 := getOr "u32 truncated" frBufReaderU32be
def getU64 : MsgDecoder UInt64 := getOr "u64 truncated" frBufReaderU64be

def getI32 : MsgDecoder Int32 := do
  let value ← getU32
  return value.toInt32

def getI64 : MsgDecoder Int64 := do
  let value ← getU64
  return value.toInt64

def putStr (value : Bytes) : MsgEncoder :=
  if maxStringLen < value.length then
    throw (.of .eArg "string field exceeds protocol limit")
  else do
    putU16 (UInt16.ofNat value.length)
    putBytes value

def getStr : MsgDecoder Bytes := do
  let len ← getOr "string length invalid" frBufReaderU16be
  if maxStringLen < len.toNat then throw (protocolError "string length invalid")
  else getOr "string truncated" (frBufReaderRead · len.toNat)

def putDigest (hex : Bytes) : MsgEncoder :=
  if hex.length ≠ digestHexLen then throw (.of .eArg "digest must be 64 hex chars")
  else putBytes hex

def getDigest : MsgDecoder Bytes := getOr "digest truncated" (frBufReaderRead · digestHexLen)

/-- The rest of the payload. -/
def getRest : MsgDecoder Bytes := fun r =>
  getOr "rest truncated" (frBufReaderRead · (frBufReaderRemaining r)) r

def putBool (value : Bool) : MsgEncoder := putU8 (if value then 1 else 0)

def getBool : MsgDecoder Bool := do
  let value ← getU8
  return value != 0

/-- `reader_of` and a decoder: the value a frame's payload decodes to, or the error. -/
def decodeFrame {α : Type} (dec : MsgDecoder α) (frame : FrFrame) : Except Error α :=
  (dec.run (frBufReaderInit frame.payload)).map Prod.fst

/-- `ArtifactRef`: the identity of an artifact. -/
structure ArtifactRef where
  ns : Bytes
  name : Bytes
  version : Bytes
  deriving DecidableEq, Repr

def putRef (ref : ArtifactRef) : MsgEncoder := do
  putStr ref.ns
  putStr ref.name
  putStr ref.version

def getRef : MsgDecoder ArtifactRef := do
  let ns ← getStr
  let name ← getStr
  let version ← getStr
  return { ns, name, version }

structure HelloReq where
  protocolVersion : UInt8
  client : Bytes
  deriving DecidableEq, Repr

def frProtocolVersion : UInt8 := 1

def encodeHelloReq (req : HelloReq) : MsgEncoder := do
  putU8 req.protocolVersion
  putStr req.client

def decodeHelloReq : MsgDecoder HelloReq := do
  let protocolVersion ← getU8
  if protocolVersion ≠ frProtocolVersion then
    throw (protocolError "unsupported protocol version")
  else do
    let client ← getStr
    return { protocolVersion, client }

structure AuthReq where
  token : Bytes
  deriving DecidableEq, Repr

def encodeAuthReq (req : AuthReq) : MsgEncoder := putStr req.token

def decodeAuthReq : MsgDecoder AuthReq := do
  let token ← getStr
  return { token }

structure AuthOk where
  username : Bytes
  role : UInt8
  deriving DecidableEq, Repr

def encodeAuthOk (ok : AuthOk) : MsgEncoder := do
  putStr ok.username
  putU8 ok.role

def decodeAuthOk : MsgDecoder AuthOk := do
  let username ← getStr
  let role ← getU8
  return { username, role }

structure CreateUploadReq where
  ref : ArtifactRef
  expectedSize : UInt64
  expectedDigest : Bytes
  deriving DecidableEq, Repr

def encodeCreateUploadReq (req : CreateUploadReq) : MsgEncoder := do
  putRef req.ref
  putU64 req.expectedSize
  putDigest req.expectedDigest

def decodeCreateUploadReq : MsgDecoder CreateUploadReq := do
  let ref ← getRef
  let expectedSize ← getU64
  let expectedDigest ← getDigest
  return { ref, expectedSize, expectedDigest }

structure CreateUploadOk where
  sessionId : Bytes
  chunkSize : UInt64
  expiresAt : Int64
  deriving DecidableEq, Repr

def encodeCreateUploadOk (ok : CreateUploadOk) : MsgEncoder := do
  putStr ok.sessionId
  putU64 ok.chunkSize
  putI64 ok.expiresAt

def decodeCreateUploadOk : MsgDecoder CreateUploadOk := do
  let sessionId ← getStr
  let chunkSize ← getU64
  let expiresAt ← getI64
  return { sessionId, chunkSize, expiresAt }

structure PutChunkReq where
  sessionId : Bytes
  ordinal : UInt64
  data : Bytes
  deriving DecidableEq, Repr

def encodePutChunkReq (req : PutChunkReq) : MsgEncoder := do
  putStr req.sessionId
  putU64 req.ordinal
  putBytes req.data

def decodePutChunkReq : MsgDecoder PutChunkReq := do
  let sessionId ← getStr
  let ordinal ← getU64
  let data ← getRest
  return { sessionId, ordinal, data }

structure PutChunkOk where
  digest : Bytes
  reused : Bool
  deriving DecidableEq, Repr

def encodePutChunkOk (ok : PutChunkOk) : MsgEncoder := do
  putDigest ok.digest
  putBool ok.reused

def decodePutChunkOk : MsgDecoder PutChunkOk := do
  let digest ← getDigest
  let reused ← getBool
  return { digest, reused }

structure QueryUploadOk where
  state : UInt8
  chunkCount : UInt64
  presentBitmap : Bytes
  deriving DecidableEq, Repr

/-- The limit of the presence bitmap, which both directions check. -/
def maxBitmapLen : Nat := 1024 * 1024

def encodeQueryUploadOk (ok : QueryUploadOk) : MsgEncoder := do
  putU8 ok.state
  putU64 ok.chunkCount
  if maxBitmapLen < ok.presentBitmap.length then
    throw (.of .eRange "present bitmap exceeds 1 MiB protocol limit")
  else do
    putU32 (UInt32.ofNat ok.presentBitmap.length)
    putBytes ok.presentBitmap

def decodeQueryUploadOk : MsgDecoder QueryUploadOk := do
  let state ← getU8
  let chunkCount ← getU64
  let bitmapLen ← getU32
  if maxBitmapLen < bitmapLen.toNat then throw (protocolError "bitmap too large")
  else do
    let presentBitmap ← getOr "bitmap truncated" (frBufReaderRead · bitmapLen.toNat)
    return { state, chunkCount, presentBitmap }

structure CommitUploadOk where
  ref : ArtifactRef
  size : UInt64
  digest : Bytes
  deriving DecidableEq, Repr

def encodeCommitUploadOk (ok : CommitUploadOk) : MsgEncoder := do
  putRef ok.ref
  putU64 ok.size
  putDigest ok.digest

def decodeCommitUploadOk : MsgDecoder CommitUploadOk := do
  let ref ← getRef
  let size ← getU64
  let digest ← getDigest
  return { ref, size, digest }

structure GetArtifactReq where
  ref : ArtifactRef
  offset : UInt64
  length : UInt64
  deriving DecidableEq, Repr

def encodeGetArtifactReq (req : GetArtifactReq) : MsgEncoder := do
  putRef req.ref
  putU64 req.offset
  putU64 req.length

def decodeGetArtifactReq : MsgDecoder GetArtifactReq := do
  let ref ← getRef
  let offset ← getU64
  let length ← getU64
  return { ref, offset, length }

structure DataPayload where
  data : Bytes
  deriving DecidableEq, Repr

def encodeData (payload : DataPayload) : MsgEncoder := putBytes payload.data

def decodeData : MsgDecoder DataPayload := do
  let data ← getRest
  return { data }

structure GetArtifactOk where
  bytesSent : UInt64
  deriving DecidableEq, Repr

def encodeGetArtifactOk (ok : GetArtifactOk) : MsgEncoder := putU64 ok.bytesSent

def decodeGetArtifactOk : MsgDecoder GetArtifactOk := do
  let bytesSent ← getU64
  return { bytesSent }

/-- An optional filter: a flag, then the string when there is one. -/
def putOptStr : Option Bytes → MsgEncoder
  | none => putBool false
  | some value => do
    putBool true
    putStr value

def getOptStr : MsgDecoder (Option Bytes) := do
  let present ← getBool
  if present then do
    let value ← getStr
    return some value
  else return none

structure ListArtifactsReq where
  ns : Option Bytes
  name : Option Bytes
  limit : UInt32
  offset : UInt32
  deriving DecidableEq, Repr

def encodeListArtifactsReq (req : ListArtifactsReq) : MsgEncoder := do
  putOptStr req.ns
  putOptStr req.name
  putU32 req.limit
  putU32 req.offset

def decodeListArtifactsReq : MsgDecoder ListArtifactsReq := do
  let ns ← getOptStr
  let name ← getOptStr
  let limit ← getU32
  let offset ← getU32
  return { ns, name, limit, offset }

structure ArtifactSummary where
  ns : Bytes
  name : Bytes
  version : Bytes
  size : UInt64
  digest : Bytes
  creator : Bytes
  createdAt : Int64
  deriving DecidableEq, Repr

def encodeArtifactSummary (item : ArtifactSummary) : MsgEncoder := do
  putStr item.ns
  putStr item.name
  putStr item.version
  putU64 item.size
  putDigest item.digest
  putStr item.creator
  putI64 item.createdAt

def decodeArtifactSummary : MsgDecoder ArtifactSummary := do
  let ns ← getStr
  let name ← getStr
  let version ← getStr
  let size ← getU64
  let digest ← getDigest
  let creator ← getStr
  let createdAt ← getI64
  return { ns, name, version, size, digest, creator, createdAt }

/-! ## Lists

The four list answers have one shape: a 32-bit count and the items. Only the decoder bounds the
count. -/

/-- The bound of every list decoder. -/
def maxListCount : Nat := 4096

def encodeItems {α : Type} (item : α → MsgEncoder) (items : List α) : MsgEncoder := do
  putU32 (UInt32.ofNat items.length)
  items.forM item

def decodeItemsUpTo (limit : Nat) (what : String) {α : Type} (item : MsgDecoder α) :
    MsgDecoder (List α) := do
  let count ← getU32
  if limit < count.toNat then throw (protocolError what)
  else Codec.decodeItems item count.toNat

structure ListArtifactsOk where
  items : List ArtifactSummary
  deriving DecidableEq, Repr

def encodeListArtifactsOk (ok : ListArtifactsOk) : MsgEncoder :=
  encodeItems encodeArtifactSummary ok.items

def decodeListArtifactsOk : MsgDecoder ListArtifactsOk := do
  let items ← decodeItemsUpTo maxListCount "list count too large" decodeArtifactSummary
  return { items }

structure UserItem where
  username : Bytes
  role : UInt8
  enabled : Bool
  createdAt : Int64
  deriving DecidableEq, Repr

def encodeUserItem (item : UserItem) : MsgEncoder := do
  putStr item.username
  putU8 item.role
  putBool item.enabled
  putI64 item.createdAt

def decodeUserItem : MsgDecoder UserItem := do
  let username ← getStr
  let role ← getU8
  let enabled ← getBool
  let createdAt ← getI64
  return { username, role, enabled, createdAt }

structure UserListOk where
  items : List UserItem
  deriving DecidableEq, Repr

def encodeUserListOk (ok : UserListOk) : MsgEncoder := encodeItems encodeUserItem ok.items

def decodeUserListOk : MsgDecoder UserListOk := do
  let items ← decodeItemsUpTo maxListCount "list count too large" decodeUserItem
  return { items }

structure TokenItem where
  id : UInt64
  username : Bytes
  createdAt : Int64
  expiresAt : Int64
  revoked : Bool
  deriving DecidableEq, Repr

def encodeTokenItem (item : TokenItem) : MsgEncoder := do
  putU64 item.id
  putStr item.username
  putI64 item.createdAt
  putI64 item.expiresAt
  putBool item.revoked

def decodeTokenItem : MsgDecoder TokenItem := do
  let id ← getU64
  let username ← getStr
  let createdAt ← getI64
  let expiresAt ← getI64
  let revoked ← getBool
  return { id, username, createdAt, expiresAt, revoked }

structure TokenListOk where
  items : List TokenItem
  deriving DecidableEq, Repr

def encodeTokenListOk (ok : TokenListOk) : MsgEncoder := encodeItems encodeTokenItem ok.items

def decodeTokenListOk : MsgDecoder TokenListOk := do
  let items ← decodeItemsUpTo maxListCount "list count too large" decodeTokenItem
  return { items }

structure SessionItem where
  sessionId : Bytes
  owner : Bytes
  state : UInt8
  ns : Bytes
  name : Bytes
  version : Bytes
  expectedSize : UInt64
  createdAt : Int64
  deriving DecidableEq, Repr

def encodeSessionItem (item : SessionItem) : MsgEncoder := do
  putStr item.sessionId
  putStr item.owner
  putU8 item.state
  putStr item.ns
  putStr item.name
  putStr item.version
  putU64 item.expectedSize
  putI64 item.createdAt

def decodeSessionItem : MsgDecoder SessionItem := do
  let sessionId ← getStr
  let owner ← getStr
  let state ← getU8
  let ns ← getStr
  let name ← getStr
  let version ← getStr
  let expectedSize ← getU64
  let createdAt ← getI64
  return { sessionId, owner, state, ns, name, version, expectedSize, createdAt }

structure SessionListOk where
  items : List SessionItem
  deriving DecidableEq, Repr

def encodeSessionListOk (ok : SessionListOk) : MsgEncoder :=
  encodeItems encodeSessionItem ok.items

def decodeSessionListOk : MsgDecoder SessionListOk := do
  let items ← decodeItemsUpTo maxListCount "list count too large" decodeSessionItem
  return { items }

/-- `ShowArtifactOk`: the storage layer's metadata with the manifest. -/
structure ShowArtifactOk where
  info : ArtifactInfo
  deriving DecidableEq, Repr

/-- The ordinal is narrowed to 32 bits on its way out. -/
def encodeManifestEntry (entry : ManifestEntry) : MsgEncoder := do
  putU32 entry.ordinal.toUInt64.toUInt32
  putU64 entry.offset
  putU64 entry.length
  putDigest entry.digest

def decodeManifestEntry : MsgDecoder ManifestEntry := do
  let ordinal ← getU32
  let offset ← getU64
  let length ← getU64
  let digest ← getDigest
  return { ordinal := ordinal.toUInt64.toInt64, offset, length, digest }

/-- The bound of the manifest decoder. -/
def maxManifestCount : Nat := 1024 * 1024

def encodeShowArtifactOk (ok : ShowArtifactOk) : MsgEncoder := do
  putStr ok.info.ns
  putStr ok.info.name
  putStr ok.info.version
  putU64 ok.info.size
  putDigest ok.info.digest
  putU64 ok.info.chunkSize
  putStr ok.info.creator
  putI64 ok.info.createdAt
  putStr ok.info.note
  encodeItems encodeManifestEntry ok.info.chunks

def decodeShowArtifactOk : MsgDecoder ShowArtifactOk := do
  let ns ← getStr
  let name ← getStr
  let version ← getStr
  let size ← getU64
  let digest ← getDigest
  let chunkSize ← getU64
  let creator ← getStr
  let createdAt ← getI64
  let note ← getStr
  let chunks ← decodeItemsUpTo maxManifestCount "manifest count too large" decodeManifestEntry
  return ⟨{ ns, name, version, size, digest, chunkSize, creator, createdAt, note, chunks }⟩

structure StatusOk where
  version : Bytes
  uptimeSeconds : UInt64
  connections : UInt32
  activeSessions : UInt32
  artifacts : UInt64
  usedBytes : UInt64
  capacityBytes : UInt64
  highWatermarkPercent : UInt8
  deriving DecidableEq, Repr

def encodeStatusOk (ok : StatusOk) : MsgEncoder := do
  putStr ok.version
  putU64 ok.uptimeSeconds
  putU32 ok.connections
  putU32 ok.activeSessions
  putU64 ok.artifacts
  putU64 ok.usedBytes
  putU64 ok.capacityBytes
  putU8 ok.highWatermarkPercent

def decodeStatusOk : MsgDecoder StatusOk := do
  let version ← getStr
  let uptimeSeconds ← getU64
  let connections ← getU32
  let activeSessions ← getU32
  let artifacts ← getU64
  let usedBytes ← getU64
  let capacityBytes ← getU64
  let highWatermarkPercent ← getU8
  return { version, uptimeSeconds, connections, activeSessions, artifacts, usedBytes,
           capacityBytes, highWatermarkPercent }

structure DeleteArtifactOk where
  markedChunks : Int64
  deriving DecidableEq, Repr

def encodeDeleteArtifactOk (ok : DeleteArtifactOk) : MsgEncoder := putI64 ok.markedChunks

def decodeDeleteArtifactOk : MsgDecoder DeleteArtifactOk := do
  let markedChunks ← getI64
  return { markedChunks }

structure RunGcReq where
  dryRun : Bool
  deriving DecidableEq, Repr

def encodeRunGcReq (req : RunGcReq) : MsgEncoder := putBool req.dryRun

def decodeRunGcReq : MsgDecoder RunGcReq := do
  let dryRun ← getBool
  return { dryRun }

structure RunGcOk where
  scanned : Int64
  deletedCount : Int64
  deletedBytes : Int64
  deriving DecidableEq, Repr

def encodeRunGcOk (ok : RunGcOk) : MsgEncoder := do
  putI64 ok.scanned
  putI64 ok.deletedCount
  putI64 ok.deletedBytes

def decodeRunGcOk : MsgDecoder RunGcOk := do
  let scanned ← getI64
  let deletedCount ← getI64
  let deletedBytes ← getI64
  return { scanned, deletedCount, deletedBytes }

structure UserAddReq where
  username : Bytes
  role : UInt8
  deriving DecidableEq, Repr

def encodeUserAddReq (req : UserAddReq) : MsgEncoder := do
  putStr req.username
  putU8 req.role

def decodeUserAddReq : MsgDecoder UserAddReq := do
  let username ← getStr
  let role ← getU8
  return { username, role }

structure TokenCreateReq where
  username : Bytes
  ttlHours : UInt32
  deriving DecidableEq, Repr

def encodeTokenCreateReq (req : TokenCreateReq) : MsgEncoder := do
  putStr req.username
  putU32 req.ttlHours

def decodeTokenCreateReq : MsgDecoder TokenCreateReq := do
  let username ← getStr
  let ttlHours ← getU32
  return { username, ttlHours }

structure TokenCreateOk where
  token : Bytes
  deriving DecidableEq, Repr

def encodeTokenCreateOk (ok : TokenCreateOk) : MsgEncoder := putStr ok.token

def decodeTokenCreateOk : MsgDecoder TokenCreateOk := do
  let token ← getStr
  return { token }

structure ErrorPayload where
  code : Int32
  message : Bytes
  deriving DecidableEq, Repr

def encodeErrorPayload (payload : ErrorPayload) : MsgEncoder := do
  putI32 payload.code
  putStr payload.message

def decodeErrorPayload : MsgDecoder ErrorPayload := do
  let code ← getI32
  let message ← getStr
  return { code, message }

def decodeRef : MsgDecoder ArtifactRef := getRef

end ForgeRelay
