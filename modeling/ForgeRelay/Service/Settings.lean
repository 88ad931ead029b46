import ForgeRelay.Core.FrameStream
import ForgeRelay.Service.Dispatch
import ForgeRelay.Storage.Steps

/-!
# The settings of the server, and the chunks that can be sent

The check of the settings allows a chunk size of up to the limit of a frame's payload, but the
payload of a PUT_CHUNK request also holds the session's id and the ordinal.
-/

namespace ForgeRelay

open Program Prog

structure TlsSettings where
  enabled : Bool
  certificate : Bytes
  privateKey : Bytes
  deriving DecidableEq, Repr

structure LogSettings where
  level : Bytes
  format : Bytes
  file : Bytes
  maxFileBytes : UInt64
  keepFiles : Int32
  deriving DecidableEq, Repr

/-- `ServerSettings`, as far as they are loaded or checked. -/
structure ServerSettings where
  listen : Bytes
  maxConnections : Int32
  workerThreads : Int32
  requestTimeoutSeconds : Int32
  tls : TlsSettings
  log : LogSettings
  storage : StorageConfig
  databasePath : Bytes
  deriving DecidableEq, Repr

/-- The loop of `parse_listen_address` over the digits of the port. -/
def parsePort : Nat → Bytes → Option UInt16
  | value, [] => some (UInt16.ofNat value)
  | value, c :: rest =>
    if c < 48 ∨ 57 < c then none
    else
      let value := value * 10 + (c.toNat - 48)
      if 65535 < value then none else parsePort value rest

/-- `parse_listen_address`: the host and the port around the last colon. -/
def parseListenAddress (text : Bytes) : Option (Bytes × UInt16) :=
  let port := (text.reverse.takeWhile (· ≠ 58)).reverse
  let colon := text.length - port.length - 1
  if 58 ∉ text ∨ colon = 0 ∨ port = [] ∨ 5 < port.length then none
  else (parsePort 0 port).map (text.take colon, ·)

/-- The names that `log_level_from` knows. -/
def logLevels : List Bytes :=
  [ascii "trace", ascii "debug", ascii "info", ascii "warn", ascii "error"]

def validateServerSettings (settings : ServerSettings) : Except Error Unit :=
  if parseListenAddress settings.listen = none then
    .error (.ofMessage .eArg (ascii "config: [server].listen must be \"host:port\", got: " ++
      settings.listen))
  else if settings.maxConnections < 16 ∨ 1024 < settings.maxConnections then
    .error (.of .eArg "config: [server].max_connections must be within [16, 1024]")
  else if settings.workerThreads < 1 ∨ 32 < settings.workerThreads then
    .error (.of .eArg "config: [server].worker_threads must be within [1, 32]")
  else if settings.requestTimeoutSeconds ≤ 0 then
    .error (.of .eArg "config: request_timeout_seconds must be positive")
  else if settings.tls.enabled ∧ (settings.tls.certificate = [] ∨ settings.tls.privateKey = []) then
    .error (.of .eArg "config: [tls].certificate/private_key are required when enabled")
  else if settings.log.level ∉ logLevels then
    .error (.of .eArg "config: [logging].level must be one of trace/debug/info/warn/error")
  else if settings.log.format ≠ ascii "json" then
    .error (.of .eArg "config: [logging].format: only \"json\" is supported")
  else if settings.storage.rootEmpty then
    .error (.of .eArg "config: [storage].root is required")
  else if settings.storage.capacityBytes = 0 then
    .error (.of .eArg "config: [storage].capacity_bytes must be positive")
  else if settings.storage.highWatermarkPercent < 1 ∨
      100 < settings.storage.highWatermarkPercent then
    .error (.of .eArg "config: [storage].high_watermark_percent must be within [1, 100]")
  else if settings.storage.sessionHours < 1 ∨ 168 < settings.storage.sessionHours then
    .error (.of .eArg "config: [storage].upload_session_hours must be within [1, 168]")
  else if settings.storage.chunkSize < 1024 * 1024 ∨
      8 * 1024 * 1024 < settings.storage.chunkSize then
    .error (.of .eArg "config: [storage].chunk_size must be within [1 MiB, 8 MiB]")
  else if settings.storage.gcGraceSeconds < 0 then
    .error (.of .eArg "config: [storage].gc_grace_seconds must be >= 0")
  else if settings.storage.maxSessionsPerOwner < 1 ∨ 64 < settings.storage.maxSessionsPerOwner then
    .error (.of .eArg "config: [storage].max_sessions_per_owner must be within [1, 64]")
  else if settings.log.maxFileBytes = 0 ∨ settings.log.keepFiles < 1 then
    .error (.of .eArg "config: [logging] rotation settings are invalid")
  else .ok ()

/-- The texts of the settings are accepted. -/
def ServerSettings.TextsValid (settings : ServerSettings) : Prop :=
  parseListenAddress settings.listen ≠ none ∧
    (settings.tls.enabled → settings.tls.certificate ≠ [] ∧ settings.tls.privateKey ≠ []) ∧
    settings.log.level ∈ logLevels ∧ settings.log.format = ascii "json" ∧
    settings.storage.rootEmpty = false

/-- The numbers of the settings are in their ranges. -/
def ServerSettings.NumbersValid (settings : ServerSettings) : Prop :=
  (16 ≤ settings.maxConnections ∧ settings.maxConnections ≤ 1024) ∧
    (1 ≤ settings.workerThreads ∧ settings.workerThreads ≤ 32) ∧
    0 < settings.requestTimeoutSeconds ∧ settings.storage.capacityBytes ≠ 0 ∧
    (1 ≤ settings.storage.highWatermarkPercent ∧ settings.storage.highWatermarkPercent ≤ 100) ∧
    (1 ≤ settings.storage.sessionHours ∧ settings.storage.sessionHours ≤ 168) ∧
    (1024 * 1024 ≤ settings.storage.chunkSize ∧ settings.storage.chunkSize ≤ 8 * 1024 * 1024) ∧
    0 ≤ settings.storage.gcGraceSeconds ∧
    (1 ≤ settings.storage.maxSessionsPerOwner ∧ settings.storage.maxSessionsPerOwner ≤ 64) ∧
    settings.log.maxFileBytes ≠ 0 ∧ 1 ≤ settings.log.keepFiles

private theorem guard_ok_iff {α : Type} {c : Prop} [Decidable c] {e : Error} {k : Except Error α}
    {a : α} : (if c then .error e else k) = .ok a ↔ ¬ c ∧ k = .ok a := by
  by_cases hc : c
  · rw [if_pos hc]
    exact iff_of_false nofun fun h => h.1 hc
  · rw [if_neg hc]
    exact (and_iff_right hc).symm

theorem validateServerSettings_iff {settings : ServerSettings} :
    validateServerSettings settings = .ok () ↔
      settings.TextsValid ∧ settings.NumbersValid := by
  unfold validateServerSettings ServerSettings.TextsValid ServerSettings.NumbersValid
  simp only [guard_ok_iff, not_or, not_and_or, Int32.not_lt, Int32.not_le, UInt64.not_lt, not_not,
    Bool.not_eq_true]
  grind

private theorem guard_error {α : Type} {c : Prop} [Decidable c] {e : Error} {k : Except Error α}
    {P : Error → Prop} (he : P e) (hk : ∀ e', k = .error e' → P e') :
    ∀ e', (if c then .error e else k) = .error e' → P e' := by
  intro e' h
  by_cases hc : c
  · rw [if_pos hc] at h
    exact Except.error.inj h ▸ he
  · rw [if_neg hc] at h
    exact hk e' h

theorem validateServerSettings_error {settings : ServerSettings} :
    ∀ e, validateServerSettings settings = .error e → ∃ what, e = .fr .eArg what := by
  unfold validateServerSettings
  repeat refine guard_error ⟨_, rfl⟩ ?_
  nofun

private theorem validateServerSettings_checkConfig {settings : ServerSettings}
    (h : validateServerSettings settings = .ok ()) : checkConfig settings.storage = .ok () := by
  obtain ⟨⟨-, -, -, -, hroot⟩, -, -, -, -, hwatermark, hhours, hchunk, -⟩ :=
    validateServerSettings_iff.mp h
  rw [checkConfig, if_neg (by rw [hroot]; decide),
    if_neg (not_or.mpr ⟨Int32.not_lt.mpr hwatermark.1, Int32.not_lt.mpr hwatermark.2⟩),
    if_neg (not_or.mpr ⟨UInt64.not_lt.mpr hchunk.1, UInt64.not_lt.mpr hchunk.2⟩),
    if_neg (not_or.mpr ⟨Int32.not_lt.mpr hhours.1, Int32.not_lt.mpr hhours.2⟩)]

@[simp] theorem newSessionId_length (nowNs seq : UInt64) :
    (newSessionId nowNs seq).length = 24 := by
  simp [newSessionId]

/-- The PUT_CHUNK request for the chunk can be framed, and the frame parser of the server hands it
out, however the bytes arrive. -/
def Sendable (sessionId : Bytes) (ordinal : UInt64) (data : Bytes) (reqId : UInt32) : Prop :=
  ∃ payload bytes, payloadOf (encodePutChunkReq ⟨sessionId, ordinal, data⟩) = .ok payload ∧
    encodeFrame ⟨FrMsgType.putChunk.toByte, 0, reqId, payload⟩ = some bytes ∧
    ∀ segments, segments.flatten = bytes →
      ∃ q, feedSegments (fun _ => true) frFrameParserInit segments =
        ⟨[⟨FrMsgType.putChunk.toByte, 0, reqId, payload⟩], .ok, q⟩ ∧ q.Initial

private theorem payloadOf_putChunkReq {sessionId : Bytes} (hid : sessionId.length ≤ maxStringLen)
    (ordinal : UInt64) (data : Bytes) :
    payloadOf (encodePutChunkReq ⟨sessionId, ordinal, data⟩) = .ok (frStoreBe16
      (UInt16.ofNat sessionId.length) ++ sessionId ++ frStoreBe64 ordinal ++ data) := by
  rw [payloadOf, encodePutChunkReq, putStr, if_neg (Nat.not_lt.mpr hid)]
  simp only [putU16, putU64]
  rfl

private theorem sendable_iff {sessionId : Bytes} (hid : sessionId.length ≤ maxStringLen)
    (ordinal : UInt64) (data : Bytes) {reqId : UInt32} (hreq : reqId ≠ 0) :
    Sendable sessionId ordinal data reqId ↔
      sessionId.length + data.length + 10 ≤ frFrameMaxPayload := by
  have hpayload := payloadOf_putChunkReq hid ordinal data
  constructor
  · rintro ⟨payload, bytes, hrun, hframe, -⟩
    rw [hpayload] at hrun
    cases hrun
    have hle := (encodeFrame_eq_some hframe).1.payload_le
    simp only [List.length_append, frStoreBe16_length, frStoreBe64_length] at hle
    omega
  · intro hle
    have hencodable : FrFrame.Encodable ⟨FrMsgType.putChunk.toByte, 0, reqId, frStoreBe16
        (UInt16.ofNat sessionId.length) ++ sessionId ++ frStoreBe64 ordinal ++ data⟩ := by
      refine ⟨rfl, rfl, hreq, ?_⟩
      simp only [List.length_append, frStoreBe16_length, frStoreBe64_length]
      omega
    refine ⟨_, _, hpayload, encodeFrame_of_encodable hencodable, fun segments hsegments => ?_⟩
    refine feedSegments_stream segments _ (.header frFrameParserInit_initial.inHeader) [_]
      (List.forall_mem_singleton.mpr hencodable) ?_
    rw [frFrameParserInit_initial.pending, List.nil_append, hsegments, List.flatMap_singleton]

/-- Under accepted settings, a chunk of a new session can be sent if and only if it is 34 bytes
shorter than the limit of a payload; so all of them can if and only if the chunk size is. -/
theorem putChunk_sendable_iff {settings : ServerSettings} {env : CallEnv} {nowNs seq : UInt64}
    {ns name version : Bytes} {size : UInt64} {digest owner : Bytes} {s s' : Store}
    {session : SessionInfo} (hsettings : validateServerSettings settings = .ok ())
    (hid : env.newSessionId = newSessionId nowNs seq)
    (hcreate : (createSession settings.storage env ns name version size digest owner).run s =
      (.ok session, s')) :
    (∀ (ordinal : UInt64) (data : Bytes) (reqId : UInt32), reqId ≠ 0 → 1 ≤ data.length →
      data.length ≤ session.chunkSize.toNat →
        (Sendable session.id ordinal data reqId ↔ data.length + 34 ≤ frFrameMaxPayload)) ∧
    ((∀ (ordinal : UInt64) (data : Bytes) (reqId : UInt32), reqId ≠ 0 → 1 ≤ data.length →
      data.length ≤ session.chunkSize.toNat → Sendable session.id ordinal data reqId) ↔
        session.chunkSize.toNat + 34 ≤ frFrameMaxPayload) := by
  obtain rfl := createSession_ok hcreate
  have hlength : env.newSessionId.length = 24 := by rw [hid, newSessionId_length]
  have heach : ∀ (ordinal : UInt64) (data : Bytes) (reqId : UInt32), reqId ≠ 0 →
      (Sendable env.newSessionId ordinal data reqId ↔ data.length + 34 ≤ frFrameMaxPayload) := by
    intro ordinal data reqId hreq
    rw [sendable_iff (by rw [hlength]; decide) ordinal data hreq]
    omega
  have hmin := checkConfig_chunkSize (validateServerSettings_checkConfig hsettings)
  refine ⟨fun ordinal data reqId hreq _ _ => heach ordinal data reqId hreq, fun hall => ?_,
    fun hsize ordinal data reqId hreq _ hmax => (heach ordinal data reqId hreq).mpr ?_⟩
  · have hlast := (heach 0 (List.replicate settings.storage.chunkSize.toNat 0) 1 (by decide)).mp
      (hall 0 _ 1 (by decide) (by rw [List.length_replicate]; omega)
        (by rw [List.length_replicate]; rfl))
    rwa [List.length_replicate] at hlast
  · change data.length ≤ settings.storage.chunkSize.toNat at hmax
    change settings.storage.chunkSize.toNat + 34 ≤ frFrameMaxPayload at hsize
    omega

/-- The default settings, with this chunk size. -/
def sampleSettings (chunkSize : UInt64) : ServerSettings where
  listen := ascii "127.0.0.1:7443"
  maxConnections := 128
  workerThreads := 4
  requestTimeoutSeconds := 120
  tls := ⟨false, [], []⟩
  log := ⟨ascii "info", ascii "json", [], 100 * 1024 * 1024, 5⟩
  storage := { sampleConfig with chunkSize := chunkSize }
  databasePath := []

/-- What the world outside gives to the creation of the sample session. -/
def sampleCreation : CallEnv := ⟨0, newSessionId 1 1, []⟩

/-- Creating a session in a fresh root. -/
def sampleNewSession (chunkSize : UInt64) : Except Error SessionInfo × Store :=
  (createSession (sampleSettings chunkSize).storage sampleCreation (ascii "team") (ascii "app")
    (ascii "1.0") 1 (sampleSha.hex (ascii "a")) (ascii "alice")).run .empty

theorem putChunk_sendable_iff_sample : ∃ session s',
    sampleNewSession (4 * 1024 * 1024) = (.ok session, s') ∧
      ∀ ordinal data reqId, reqId ≠ 0 → 1 ≤ data.length → data.length ≤ session.chunkSize.toNat →
        (Sendable session.id ordinal data reqId ↔ data.length + 34 ≤ frFrameMaxPayload) := by
  have hsettings : validateServerSettings (sampleSettings (4 * 1024 * 1024)) = .ok () := by
    decide +kernel
  have hid : sampleCreation.newSessionId = newSessionId 1 1 := rfl
  obtain ⟨session, s', hcreate⟩ : ∃ session s',
      sampleNewSession (4 * 1024 * 1024) = (.ok session, s') := ⟨_, _, rfl⟩
  exact ⟨session, s', hcreate, (putChunk_sendable_iff hsettings hid hcreate).1⟩

/-- A chunk size of 8 MiB is accepted, and a chunk of that size cannot be sent. -/
theorem largest_chunk_not_sendable : ¬ ∀ {settings : ServerSettings} {env : CallEnv}
    {nowNs seq : UInt64} {ns name version : Bytes} {size : UInt64} {digest owner : Bytes}
    {s s' : Store} {session : SessionInfo}, validateServerSettings settings = .ok () →
    checkConfig settings.storage = .ok () → env.newSessionId = newSessionId nowNs seq →
    (createSession settings.storage env ns name version size digest owner).run s =
      (.ok session, s') →
    ∀ (ordinal : UInt64) (data : Bytes) (reqId : UInt32), reqId ≠ 0 → 1 ≤ data.length →
      data.length ≤ session.chunkSize.toNat → Sendable session.id ordinal data reqId := by
  intro hall
  have hsettings : validateServerSettings (sampleSettings (8 * 1024 * 1024)) = .ok () := by
    decide +kernel
  have hid : sampleCreation.newSessionId = newSessionId 1 1 := rfl
  obtain ⟨session, s', hcreate⟩ : ∃ session s',
      sampleNewSession (8 * 1024 * 1024) = (.ok session, s') := ⟨_, _, rfl⟩
  obtain rfl := createSession_ok hcreate
  have hsend := hall hsettings (validateServerSettings_checkConfig hsettings) hid hcreate 0
    (List.replicate (8 * 1024 * 1024) 0) 1 (by decide) (by rw [List.length_replicate]; decide)
    (by rw [List.length_replicate]; decide)
  have hle := (sendable_iff (by decide +kernel) _ _ (by decide)).mp hsend
  rw [List.length_replicate] at hle
  exact absurd hle (by decide +kernel)

end ForgeRelay
