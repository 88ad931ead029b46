import ForgeRelay.Core.FrameHeader
import ForgeRelay.Service.Auth
import ForgeRelay.Storage.Machine

/-!
# The dispatcher

Requests as programs over the state of the service. A step is what is done in one critical
section: with the dispatcher's mutex held, in one operation of the registry, which has a mutex of
its own, or in the one call of storage that is made without a mutex. Logging is left out.
-/

namespace ForgeRelay

open Program

structure GetState where
  ns : Bytes
  name : Bytes
  version : Bytes
  offset : UInt64
  remaining : UInt64
  sent : UInt64
  reqId : UInt32
  deriving DecidableEq, Repr

structure IpStat where
  failures : Nat
  windowStart : Int64
  blockedUntil : Int64
  deriving DecidableEq, Repr

/-- Storage, the registry and what the dispatcher keeps. -/
structure Service where
  store : Store
  auth : AuthDb
  gets : Bytes → Option GetState
  getSeq : UInt64
  ipStats : Bytes → Option IpStat

/-- A service that has just been started on this storage and this registry. -/
def Service.start (store : Store) (auth : AuthDb) : Service where
  store := store
  auth := auth
  gets := fun _ => none
  getSeq := 0
  ipStats := fun _ => none

structure ClientSession where
  helloDone : Bool
  authenticated : Bool
  username : Bytes
  role : Role
  authFailures : Nat
  deriving DecidableEq, Repr

def ClientSession.fresh : ClientSession := ⟨false, false, [], .reader, 0⟩

/-- What the settings and the world outside give to one request. -/
structure RequestEnv where
  cfg : StorageConfig
  call : CallEnv
  /-- `steady_clock`. -/
  monotonic : Int64
  /-- What `random_bytes` returns. -/
  random : Bytes
  /-- `StatusHub`: the connections, and the start of the server. -/
  hub : Option (UInt32 × UInt64)

/-- `HandleResult`, with the frames that `fr_frame_encode` has written to `out`. -/
structure HandleResult where
  out : List FrFrame
  closeConnection : Bool
  hasMore : Bool
  continuationKey : Bytes
  deriving DecidableEq, Repr

def HandleResult.empty : HandleResult := ⟨[], false, false, []⟩

/-- Where a request stands: the critical section that comes next. -/
inductive Section
  | mutex
  | registry
  | unlocked
  /-- The second section of DELETE_ARTIFACT, for this session. -/
  | deleting (session : ClientSession) (ref : ArtifactRef)
  deriving DecidableEq, Repr

abbrev ServiceM := Prog Service Section Error

/-- A call of storage in the given section. -/
def onStore {α : Type} (sec : Section) (p : StorageM α) : ServiceM α := .lift sec fun s =>
  ((p.run s.store).1, { s with store := (p.run s.store).2 })

/-- Calls of storage with the mutex held. -/
def locked {α : Type} (p : StorageM α) : ServiceM α := onStore .mutex p

/-- A query of the registry. -/
def registry {α : Type} (f : AuthDb → Except Error α) : ServiceM α := .lift .registry fun s =>
  (f s.auth, s)

/-- An operation of the registry that changes it. -/
def registryUpdate {α : Type} (f : AuthDb → Except Error (α × AuthDb)) : ServiceM α :=
  .lift .registry fun s =>
    match f s.auth with
    | .ok (a, auth) => (.ok a, { s with auth := auth })
    | .error e => (.error e, s)

/-- `AuthRegistry::audit` with the result `ok`. -/
def auditOk (env : RequestEnv) (session : ClientSession) (action target : Bytes) (auth : AuthDb) :
    AuthDb :=
  auth.audit env.call.now session.username action target (ascii "ok")

/-- The same as a step. -/
def audit (env : RequestEnv) (session : ClientSession) (action target : Bytes) : ServiceM Unit :=
  registryUpdate fun auth => .ok ((), auditOk env session action target auth)

/-- The payload that an encoder writes to an empty buffer. -/
def payloadOf (enc : MsgEncoder) : Except Error Bytes := (enc.run []).map Prod.snd

/-- `fr_frame_encode` to `out`, whose status nobody looks at. -/
def emit (out : List FrFrame) (type : FrMsgType) (reqId : UInt32) (payload : Bytes) :
    List FrFrame :=
  if (encodeFrame ⟨type.toByte, 0, reqId, payload⟩).isSome then
    out ++ [⟨type.toByte, 0, reqId, payload⟩]
  else out

def outReqId (frame : FrFrame) : UInt32 := if frame.reqId = 0 then 1 else frame.reqId

def makeOk (frame : FrFrame) (payload : Bytes) : HandleResult :=
  { HandleResult.empty with out := emit [] .ok (outReqId frame) payload }

/-- `make_ok` of an encoded answer. -/
def replyOk (frame : FrFrame) (enc : MsgEncoder) : ServiceM HandleResult := do
  let payload ← Prog.ofExcept (payloadOf enc)
  return makeOk frame payload

def okEmpty (frame : FrFrame) : HandleResult := makeOk frame []

/-- A payload that is decoded. -/
def decode {α : Type} (dec : MsgDecoder α) (frame : FrFrame) : ServiceM α :=
  Prog.ofExcept (decodeFrame dec frame)

def requireRole (session : ClientSession) (required : Role) : Except Error Unit :=
  if session.authenticated = false then
    .error (.of .eUnauthenticated "authentication required")
  else if session.role = .admin then .ok ()
  else if required = .admin then .error (.of .eForbidden "admin role required")
  else if required = .publisher ∧ session.role = .reader then
    .error (.of .eForbidden "publisher role required")
  else .ok ()

def requireSessionAllowed (session : ClientSession) (info : SessionInfo) : Except Error Unit := do
  requireRole session .publisher
  if session.role ≠ .admin ∧ info.owner ≠ session.username then
    .error (.of .eForbidden "not the owner of this session")
  else .ok ()

def requireDeleteAllowed (session : ClientSession) (ref : ArtifactRef) : StorageM Unit := do
  Prog.ofExcept (requireRole session .reader)
  if session.role = .admin then pure ()
  else if session.role ≠ .publisher then
    throw (.of .eForbidden "publisher role required")
  else do
    let info ← showArtifact ref.ns ref.name ref.version
    if info.creator ≠ session.username then
      throw (.of .eForbidden "only the creator may delete this artifact")
    else pure ()

/-- `kDataSliceBytes`. -/
def dataSliceBytes : UInt64 := 1024 * 1024

/-- What both copies of the slice code do with the state of a download: the state after the
slice, its DATA frames, and the number of bytes. Reading does not change storage. -/
def sendSlice (store : Store) (state : GetState) :
    Except Error (GetState × List FrFrame × UInt64) :=
  let slice := if dataSliceBytes < state.remaining then dataSliceBytes else state.remaining
  if slice = 0 then .ok (state, [], 0)
  else
    match ((readArtifactSlice state.ns state.name state.version state.offset slice).run store).1
    with
    | .ok (pieces, sent) =>
      .ok ({ state with
          offset := state.offset + sent
          remaining := state.remaining - sent
          sent := state.sent + sent },
        pieces.foldl (fun out data => emit out .data state.reqId data) [], sent)
    | .error e => .error e

/-- The OK frame that ends a download. -/
def endOfGet (out : List FrFrame) (reqId : UInt32) (state : GetState) : Except Error HandleResult :=
  (payloadOf (encodeGetArtifactOk ⟨state.sent⟩)).map fun payload =>
    { HandleResult.empty with out := emit out .ok reqId payload }

/-- `"get-" + std::to_string(conn_id) + "-" + std::to_string(get_seq)`. -/
def getKey (connId : Nat) (seq : UInt64) : Bytes :=
  ascii ("get-" ++ toString connId ++ "-" ++ toString seq.toNat)

/-- The critical section of GET_ARTIFACT. A slice that fails leaves the new state behind. -/
def startGet (connId : Nat) (frame : FrFrame) (req : GetArtifactReq) :
    ServiceM HandleResult := .lift .mutex fun s =>
  let key := getKey connId s.getSeq
  let state := (s.gets key).getD ⟨req.ref.ns, req.ref.name, req.ref.version, req.offset,
    req.length, 0, outReqId frame⟩
  let s := { s with getSeq := s.getSeq + 1, gets := Function.update s.gets key (some state) }
  match sendSlice s.store state with
  | .error e => (.error e, s)
  | .ok (state, out, _) =>
    if state.remaining = 0 then
      (endOfGet out (outReqId frame) state, { s with gets := Function.update s.gets key none })
    else
      (.ok { HandleResult.empty with out := out, hasMore := true, continuationKey := key },
        { s with gets := Function.update s.gets key (some state) })

def handleGetContinue (key : Bytes) : ServiceM HandleResult := .lift .mutex fun s =>
  match s.gets key with
  | none => (.ok .empty, s)
  | some state =>
    match sendSlice s.store state with
    | .error e => (.error e, s)
    | .ok (state, out, sent) =>
      if state.remaining = 0 ∨ sent = 0 then
        (endOfGet out state.reqId state, { s with gets := Function.update s.gets key none })
      else
        (.ok { HandleResult.empty with out := out, hasMore := true, continuationKey := key },
          { s with gets := Function.update s.gets key (some state) })

def onConnectionClosed (connId : Nat) (s : Service) : Service :=
  { s with
    gets := fun key =>
      if (ascii ("get-" ++ toString connId ++ "-")).isPrefixOf key then none else s.gets key }

/-- The presence bitmap of QUERY_UPLOAD. -/
def presentBitmap (progress : SessionProgress) : Bytes :=
  progress.presentOrdinals.foldl
    (fun bitmap ordinal => bitmap.modify (ordinal / 8).toNat
      (· ||| ((1 : UInt8) <<< (ordinal % 8).toUInt8)))
    (List.replicate ((progress.chunkCount + 7) / 8).toNat 0)

def refToString (ref : ArtifactRef) : Bytes :=
  ref.ns ++ ascii "/" ++ ref.name ++ ascii ":" ++ ref.version

def handleCreateUpload (env : RequestEnv) (session : ClientSession) (frame : FrFrame) :
    ServiceM HandleResult := do
  Prog.ofExcept (requireRole session .publisher)
  let req ← decode decodeCreateUploadReq frame
  let created ← locked (createSession env.cfg env.call req.ref.ns req.ref.name req.ref.version
    req.expectedSize req.expectedDigest session.username)
  replyOk frame (encodeCreateUploadOk ⟨created.id, created.chunkSize, created.expiresAt⟩)

/-- The check of the session that PUT_CHUNK, QUERY_UPLOAD, COMMIT_UPLOAD and ABORT_UPLOAD make. -/
def getAllowedSession (session : ClientSession) (sessionId : Bytes) : StorageM SessionInfo := do
  let info ← loadSession sessionId
  Prog.ofExcept (requireSessionAllowed session info)
  return info

/-- The check and the upload are two critical sections. -/
def handlePutChunk (sha : Sha256) (env : RequestEnv) (session : ClientSession) (frame : FrFrame) :
    ServiceM HandleResult := do
  let req ← decode decodePutChunkReq frame
  let _ ← locked (getAllowedSession session req.sessionId)
  let accept ← locked (putChunk sha env.call req.sessionId req.ordinal req.data)
  replyOk frame (encodePutChunkOk ⟨accept.digest, accept.reused⟩)

def handleQueryUpload (session : ClientSession) (frame : FrFrame) : ServiceM HandleResult := do
  let sessionId ← decode getStr frame
  let (info, progress) ← locked do
    let info ← getAllowedSession session sessionId
    let progress ← sessionProgress sessionId
    return (info, progress)
  if 1024 * 1024 < (progress.chunkCount + 7) / 8 then
    throw (.of .eRange "session chunk count exceeds QUERY bitmap limit")
  else
    replyOk frame
      (encodeQueryUploadOk ⟨info.state.toU8, progress.chunkCount, presentBitmap progress⟩)

def handleCommitUpload (sha : Sha256) (env : RequestEnv) (session : ClientSession)
    (frame : FrFrame) : ServiceM HandleResult := do
  let sessionId ← decode getStr frame
  let published ← locked do
    let _ ← getAllowedSession session sessionId
    commitSession sha env.call sessionId
  replyOk frame (encodeCommitUploadOk
    ⟨⟨published.ns, published.name, published.version⟩, published.size, published.digest⟩)

/-- Here the mutex is held until the audit is written. -/
def handleAbortUpload (env : RequestEnv) (session : ClientSession) (frame : FrFrame) :
    ServiceM HandleResult := do
  let sessionId ← decode getStr frame
  .lift .mutex fun s =>
    match (getAllowedSession session sessionId >>= fun _ => abortSession env.call sessionId).run
      s.store with
    | (.ok _, store) => (.ok (), { s with
        store := store
        auth := auditOk env session (ascii "session.abort") sessionId s.auth })
    | (.error e, store) => (.error e, { s with store := store })
  return okEmpty frame

def handleGetArtifact (connId : Nat) (session : ClientSession) (frame : FrFrame) :
    ServiceM HandleResult := do
  Prog.ofExcept (requireRole session .reader)
  let req ← decode decodeGetArtifactReq frame
  startGet connId frame req

/-- `ArtifactSummary` of an `ArtifactInfo`. -/
def ArtifactInfo.summary (info : ArtifactInfo) : ArtifactSummary :=
  ⟨info.ns, info.name, info.version, info.size, info.digest, info.creator, info.createdAt⟩

def handleListArtifacts (session : ClientSession) (frame : FrFrame) : ServiceM HandleResult := do
  Prog.ofExcept (requireRole session .reader)
  let req ← decode decodeListArtifactsReq frame
  let items ← locked (listArtifacts req.ns req.name req.limit.toUInt64.toInt64
    req.offset.toUInt64.toInt64)
  replyOk frame (encodeListArtifactsOk ⟨items.map (·.summary)⟩)

def handleShowArtifact (session : ClientSession) (frame : FrFrame) : ServiceM HandleResult := do
  Prog.ofExcept (requireRole session .reader)
  let ref ← decode decodeRef frame
  let info ← locked (showArtifact ref.ns ref.name ref.version)
  replyOk frame (encodeShowArtifactOk ⟨info⟩)

/-- `"forgerelayd "` and `fr_core_version_string()`. -/
def serverVersion : Bytes := ascii "forgerelayd libfrcore 0.1.0"

def uptimeSeconds (env : RequestEnv) : UInt64 :=
  match env.hub with
  | none => 0
  | some (_, start) => if start = 0 then 0 else (env.monotonic - start.toInt64).toUInt64

def handleStatus (env : RequestEnv) (session : ClientSession) (frame : FrFrame) :
    ServiceM HandleResult := do
  Prog.ofExcept (requireRole session .reader)
  let (artifacts, used) ← locked do
    let artifacts ← artifactCount
    let used ← usedBytes
    return (artifacts, used)
  let active ← (.lift .registry fun s => (.ok (activeSessionCount s.store.db), s) : ServiceM Int64)
  replyOk frame (encodeStatusOk {
    version := serverVersion
    uptimeSeconds := uptimeSeconds env
    connections := (env.hub.map Prod.fst).getD 0
    activeSessions := active.toUInt64.toUInt32
    artifacts := artifacts.toUInt64
    usedBytes := used
    capacityBytes := env.cfg.capacityBytes
    highWatermarkPercent := env.cfg.highWatermarkPercent.toUInt32.toUInt8 })

/-- The check and the deletion are two critical sections. -/
def handleDeleteArtifact (env : RequestEnv) (session : ClientSession) (frame : FrFrame) :
    ServiceM HandleResult := do
  let ref ← decode decodeRef frame
  locked (requireDeleteAllowed session ref)
  let marked ← onStore (.deleting session ref) (deleteArtifact env.call ref.ns ref.name ref.version)
  audit env session (ascii "artifact.delete") (refToString ref)
  replyOk frame (encodeDeleteArtifactOk ⟨marked⟩)

def handleRunGc (env : RequestEnv) (session : ClientSession) (frame : FrFrame) :
    ServiceM HandleResult := do
  Prog.ofExcept (requireRole session .admin)
  let req ← decode decodeRunGcReq frame
  let report ← locked (collectGarbage env.cfg env.call req.dryRun)
  audit env session (if req.dryRun then ascii "gc.dry_run" else ascii "gc.run") (ascii "storage")
  replyOk frame (encodeRunGcOk ⟨report.scanned, report.deletedCount, report.deletedBytes⟩)

def handleUserAdd (env : RequestEnv) (session : ClientSession) (frame : FrFrame) :
    ServiceM HandleResult := do
  Prog.ofExcept (requireRole session .admin)
  let req ← decode decodeUserAddReq frame
  registryUpdate fun auth =>
    (auth.userAdd env.call.now req.username (Role.ofU8 req.role)).map ((), ·)
  audit env session (ascii "user.add") req.username
  return okEmpty frame

def handleUserDisable (env : RequestEnv) (session : ClientSession) (frame : FrFrame) :
    ServiceM HandleResult := do
  Prog.ofExcept (requireRole session .admin)
  let username ← decode getStr frame
  registryUpdate fun auth => (auth.userDisable username).map ((), ·)
  audit env session (ascii "user.disable") username
  return okEmpty frame

def handleUserList (session : ClientSession) (frame : FrFrame) : ServiceM HandleResult := do
  Prog.ofExcept (requireRole session .admin)
  let items ← registry fun auth => .ok auth.userList
  replyOk frame (encodeUserListOk ⟨items⟩)

def handleTokenCreate (sha : Sha256) (env : RequestEnv) (session : ClientSession)
    (frame : FrFrame) : ServiceM HandleResult := do
  Prog.ofExcept (requireRole session .admin)
  let req ← decode decodeTokenCreateReq frame
  let token ← registryUpdate fun auth =>
    auth.tokenCreate sha env.call.now env.random req.username req.ttlHours
  audit env session (ascii "token.create") req.username
  replyOk frame (encodeTokenCreateOk ⟨token⟩)

def handleTokenRevoke (env : RequestEnv) (session : ClientSession) (frame : FrFrame) :
    ServiceM HandleResult := do
  Prog.ofExcept (requireRole session .admin)
  let tokenId ← decode getU64 frame
  registryUpdate fun auth => (auth.tokenRevoke env.call.now tokenId).map ((), ·)
  audit env session (ascii "token.revoke") (ascii (toString tokenId.toNat))
  return okEmpty frame

def handleTokenList (session : ClientSession) (frame : FrFrame) : ServiceM HandleResult := do
  Prog.ofExcept (requireRole session .admin)
  let username ← decode getStr frame
  let items ← registry fun auth => .ok (auth.tokenList username)
  replyOk frame (encodeTokenListOk ⟨items⟩)

/-- `SessionItem` of a `SessionInfo`. -/
def SessionInfo.item (info : SessionInfo) : SessionItem :=
  ⟨info.id, info.owner, info.state.toU8, info.ns, info.name, info.version, info.expectedSize,
    info.createdAt⟩

def handleSessionList (session : ClientSession) (frame : FrFrame) : ServiceM HandleResult := do
  Prog.ofExcept (requireRole session .admin)
  let sessions ← locked (listSessions none)
  replyOk frame (encodeSessionListOk ⟨sessions.map (·.item)⟩)

/-- The one handler that calls storage without the mutex. -/
def handleSessionAbort (env : RequestEnv) (session : ClientSession) (frame : FrFrame) :
    ServiceM HandleResult := do
  Prog.ofExcept (requireRole session .admin)
  let sessionId ← decode getStr frame
  onStore .unlocked (abortSession env.call sessionId)
  audit env session (ascii "session.abort") sessionId
  return okEmpty frame

def dispatchBusiness (sha : Sha256) (env : RequestEnv) (connId : Nat) (session : ClientSession)
    (frame : FrFrame) : ServiceM HandleResult :=
  match FrMsgType.ofByte frame.type with
  | some .createUpload => handleCreateUpload env session frame
  | some .putChunk => handlePutChunk sha env session frame
  | some .queryUpload => handleQueryUpload session frame
  | some .commitUpload => handleCommitUpload sha env session frame
  | some .abortUpload => handleAbortUpload env session frame
  | some .getArtifact => handleGetArtifact connId session frame
  | some .listArtifacts => handleListArtifacts session frame
  | some .showArtifact => handleShowArtifact session frame
  | some .status => handleStatus env session frame
  | some .deleteArtifact => handleDeleteArtifact env session frame
  | some .runGc => handleRunGc env session frame
  | some .userAdd => handleUserAdd env session frame
  | some .userDisable => handleUserDisable env session frame
  | some .userList => handleUserList session frame
  | some .tokenCreate => handleTokenCreate sha env session frame
  | some .tokenRevoke => handleTokenRevoke env session frame
  | some .tokenList => handleTokenList session frame
  | some .sessionList => handleSessionList session frame
  | some .sessionAbort => handleSessionAbort env session frame
  | _ => throw (.of .eProtocol "unhandled message type")

def ipOf (peer : Bytes) : Bytes :=
  if 58 ∈ peer then ((peer.reverse.dropWhile (· ≠ 58)).drop 1).reverse else peer

def checkPeerNotBlocked (env : RequestEnv) (peer : Bytes) : ServiceM Unit := .lift .mutex fun s =>
  match s.ipStats (ipOf peer) with
  | some stat =>
    if env.monotonic < stat.blockedUntil then
      (.error (.of .eUnauthenticated "too many auth failures from your address"), s)
    else (.ok (), s)
  | none => (.ok (), s)

def ipFailureWindowSeconds : Int64 := 60
def ipFailureThreshold : Nat := 20
def ipBlockSeconds : Int64 := 60
def authFailuresBeforeClose : Nat := 5

/-- The record of an address after one more failure. -/
def IpStat.note (now : Int64) (stat : IpStat) : IpStat :=
  let stat := if stat.windowStart = 0 ∨ ipFailureWindowSeconds < now - stat.windowStart then
    { stat with windowStart := now, failures := 0 } else stat
  let stat := { stat with failures := stat.failures + 1 }
  if ipFailureThreshold ≤ stat.failures then
    { stat with blockedUntil := now + ipBlockSeconds, failures := 0 }
  else stat

def noteAuthFailure (env : RequestEnv) (peer : Bytes) : ServiceM Unit := .lift .mutex fun s =>
  let stat := ((s.ipStats (ipOf peer)).getD ⟨0, 0, 0⟩).note env.monotonic
  (.ok (), { s with ipStats := Function.update s.ipStats (ipOf peer) (some stat) })

/-- `Dispatcher::allow_peer`, with the reading of `system_clock`. -/
def allowPeer (now : Int64) (peer : Bytes) (s : Service) : Bool :=
  match s.ipStats (ipOf peer) with
  | some stat => decide (stat.blockedUntil ≤ now)
  | none => true

/-- Up to the verification of the token. -/
def verifyAuth (sha : Sha256) (env : RequestEnv) (peer : Bytes) (frame : FrFrame) :
    ServiceM AuthOk := do
  checkPeerNotBlocked env peer
  let req ← decode decodeAuthReq frame
  registry fun auth => auth.verify sha env.call.now req.token

theorem checkPeerNotBlocked_state (env : RequestEnv) (peer : Bytes) (s : Service) :
    ((checkPeerNotBlocked env peer).run s).2 = s := by
  rw [checkPeerNotBlocked, Prog.run_lift]
  split
  · split <;> rfl
  · rfl

theorem verifyAuth_state (sha : Sha256) (env : RequestEnv) (peer : Bytes) (frame : FrFrame)
    (s : Service) : ((verifyAuth sha env peer frame).run s).2 = s := by
  have hcheck := checkPeerNotBlocked_state env peer s
  rw [verifyAuth, Prog.run_bind]
  rcases hrun : (checkPeerNotBlocked env peer).run s with ⟨e | u, s'⟩
  · rw [hrun] at hcheck
    exact hcheck
  · rw [hrun] at hcheck
    subst hcheck
    change (Prog.run (decode decodeAuthReq frame >>= _) _).2 = _
    rw [decode]
    cases decodeFrame decodeAuthReq frame with
    | error e => rfl
    | ok req =>
      change ((registry fun auth => auth.verify sha env.call.now req.token).run s').2 = s'
      rw [registry, Prog.run_lift]

/-- The session after a successful AUTH. -/
def ClientSession.authenticate (session : ClientSession) (ok : AuthOk) : ClientSession :=
  { session with
    authenticated := true, username := ok.username, role := Role.ofU8 ok.role, authFailures := 0 }

/-- The outcome of a program as a value. -/
def outcome {α : Type} (p : ServiceM α) : ServiceM (Except Error α) :=
  tryCatchThe Error (p >>= fun a => pure (.ok a)) fun e => pure (.error e)

theorem outcome_run {α : Type} (p : ServiceM α) (s : Service) :
    (outcome p).run s = (.ok (p.run s).1, (p.run s).2) := by
  rw [outcome, Prog.run_tryCatch, Prog.run_bind]
  rcases p.run s with ⟨r | a, s'⟩ <;> rfl

/-- The `switch` of `handle`: the session, which keeps what has been written to it when an
exception comes later, and the result. -/
def handleFrame (sha : Sha256) (env : RequestEnv) (connId : Nat) (peer : Bytes)
    (session : ClientSession) (frame : FrFrame) :
    ServiceM (ClientSession × Except Error HandleResult) :=
  match FrMsgType.ofByte frame.type with
  | some .hello =>
    match decodeFrame decodeHelloReq frame with
    | .ok _ => return ({ session with helloDone := true },
        (payloadOf (putStr serverVersion)).map (makeOk frame))
    | .error e => return (session, .error e)
  | some .auth => do
    match ← outcome (verifyAuth sha env peer frame) with
    | .ok ok => return (session.authenticate ok, (payloadOf (encodeAuthOk ok)).map (makeOk frame))
    | .error e => return (session, .error e)
  | some .ping => return (session, (decodeFrame decodeData frame).map fun _ => okEmpty frame)
  | some .close => return (session, .ok { okEmpty frame with closeConnection := true })
  | _ => do
    let result ← outcome (if session.authenticated = false then
      throw (.of .eUnauthenticated "authentication required")
      else dispatchBusiness sha env connId session frame)
    return (session, result)

/-- The handler of `handle` for `fr::Error`. An exception of its own leaves `handle`. -/
def replyError (env : RequestEnv) (peer : Bytes) (session : ClientSession) (frame : FrFrame)
    (code : FrStatus) (what : Bytes) : ServiceM (HandleResult × ClientSession) := do
  let failedAuth := code = .eUnauthenticated ∧ FrMsgType.ofByte frame.type = some .auth
  let session := if failedAuth then { session with authFailures := session.authFailures + 1 }
    else session
  if failedAuth then noteAuthFailure env peer else pure ()
  let payload ← Prog.ofExcept (payloadOf (encodeErrorPayload ⟨code.code, what⟩))
  return ({ HandleResult.empty with
    out := emit [] .error (outReqId frame) payload
    closeConnection := decide (failedAuth ∧ authFailuresBeforeClose ≤ session.authFailures) },
    session)

/-- `Dispatcher::handle`: the result, and the session after it. -/
def handle (sha : Sha256) (env : RequestEnv) (connId : Nat) (peer : Bytes)
    (session : ClientSession) (frame : FrFrame) : ServiceM (HandleResult × ClientSession) := do
  let (session, result) ← handleFrame sha env connId peer session frame
  match result with
  | .ok result => return (result, session)
  | .error (.fr code what) => replyError env peer session frame code what
  | .error (.std what) => throw (.std what)

end ForgeRelay
