import ForgeRelay.Client.Dialogue

/-!
# Uploads at the client

`frctl upload` reads the file twice. What it reads first goes into the digest that it announces,
and what it reads then is sent chunk by chunk, of the size that the server says.
-/

namespace ForgeRelay

/-- What the system gives of the file: whether it can be opened, where its end is, and what there
is to read the first and the second time. And how far a buffer can grow. -/
structure LocalFile where
  path : Bytes
  opens : Bool
  size : UInt64
  first : Bytes
  second : Bytes
  memory : UInt64

/-- The size of the buffer before the server has been asked. -/
def readBlock : Nat := 1024 * 1024

/-- The loop that computes the digest of a file of this size: the bytes that go into it, if there
are enough. Every turn reads a byte at least. -/
def hashLoop (size : UInt64) : Nat → UInt64 → Bytes → Option Bytes
  | 0, _, _ => none
  | fuel + 1, hashed, rest =>
    if hashed < size then
      let block := rest.take readBlock
      if block = [] then none
      else
        (hashLoop size fuel (hashed + UInt64.ofNat block.length) (rest.drop readBlock)).map
          (block ++ ·)
    else some []

/-- The bytes whose digest is announced. -/
def LocalFile.hashed (file : LocalFile) : Option Bytes :=
  hashLoop file.size (file.first.length + 1) 0 file.first

namespace Client

def createUpload (ref : ArtifactRef) (expectedSize : UInt64) (expectedDigest : Bytes) :
    ClientM CreateUploadOk :=
  ask .createUpload (encodeCreateUploadReq ⟨ref, expectedSize, expectedDigest⟩) decodeCreateUploadOk

def putChunk (sessionId : Bytes) (ordinal : UInt64) (data : Bytes) : ClientM PutChunkOk :=
  ask .putChunk (encodePutChunkReq ⟨sessionId, ordinal, data⟩) decodePutChunkOk

def commitUpload (sessionId : Bytes) : ClientM CommitUploadOk :=
  ask .commitUpload (putStr sessionId) decodeCommitUploadOk

end Client

/-- The failure of a read. -/
def LocalFile.readFailed (file : LocalFile) : CommandFailure :=
  .command 7 (ascii "read failed: " ++ file.path)

/-- `want`. -/
def wanted (size sent chunkSize : UInt64) : UInt64 :=
  if size - sent < chunkSize then size - sent else chunkSize

/-- The loop of `cmd_upload` that sends the chunks. Every turn takes a frame. -/
def uploadLoop (file : LocalFile) (session : CreateUploadOk) :
    Nat → UInt64 → UInt64 → Bytes → ClientM Unit
  | 0, _, _, _ => fun conn => .error (.client conn.lost)
  | fuel + 1, ordinal, sent, rest =>
    if sent < file.size then
      let want := wanted file.size sent session.chunkSize
      let data := rest.take want.toNat
      if data.length ≠ want.toNat then throw file.readFailed
      else do
        let _ ← Client.putChunk session.sessionId ordinal data
        uploadLoop file session fuel (ordinal + 1) (sent + want) (rest.drop want.toNat)
    else return

/-- The loop from its start. -/
def sendChunks (file : LocalFile) (session : CreateUploadOk) : ClientM Unit := fun conn =>
  uploadLoop file session (conn.frames.length + 1) 0 0 file.second conn

/-- `buffer.resize`. -/
def resizeBuffer (file : LocalFile) (chunkSize : UInt64) : ClientM Unit :=
  if readBlock < chunkSize.toNat ∧ file.memory < chunkSize then
    throw (.client (.std (ascii "std::bad_alloc")))
  else return

def cmdUpload (sha : Sha256) (file : LocalFile) (token : Bytes) (ref : ArtifactRef) :
    ClientM CommitUploadOk :=
  if file.opens = false then throw (.command 7 (ascii "cannot open local file: " ++ file.path))
  else
    match file.hashed with
    | none => throw file.readFailed
    | some bytes => do
      Client.connect token
      let session ← Client.createUpload ref file.size (sha.hex bytes)
      resizeBuffer file session.chunkSize
      sendChunks file session
      Client.commitUpload session.sessionId

private theorem hashLoop_whole {size : UInt64} {fuel : Nat} {hashed : UInt64} {rest : Bytes}
    (hfuel : rest.length < fuel) (hsize : hashed.toNat + rest.length = size.toNat) :
    hashLoop size fuel hashed rest = some rest := by
  induction fuel generalizing hashed rest with
  | zero => exact absurd hfuel (Nat.not_lt_zero _)
  | succ fuel ih =>
    have hbound := size.toNat_lt
    rw [hashLoop]
    by_cases hmore : hashed < size
    · rw [if_pos hmore]
      have hlt := UInt64.lt_iff_toNat_lt.mp hmore
      have hlength : (rest.take readBlock).length = min readBlock rest.length := List.length_take
      have hblock : 0 < readBlock := by decide
      have hsome : rest.take readBlock ≠ [] := by
        intro hnone
        rw [hnone, List.length_nil] at hlength
        omega
      have hcount : (UInt64.ofNat (rest.take readBlock).length).toNat =
          (rest.take readBlock).length :=
        UInt64.toNat_ofNat_of_lt' (by simp only [UInt64.size]; omega)
      have hadd : (hashed + UInt64.ofNat (rest.take readBlock).length).toNat =
          hashed.toNat + (rest.take readBlock).length := by
        rw [UInt64.toNat_add, hcount]
        omega
      dsimp only
      rw [if_neg hsome, ih ?_ ?_, Option.map_some, List.take_append_drop]
      · rw [List.length_drop]
        omega
      · rw [hadd, List.length_drop]
        omega
    · rw [if_neg hmore]
      rw [UInt64.lt_iff_toNat_lt] at hmore
      have hnone : rest = [] := List.eq_nil_of_length_eq_zero (by omega)
      rw [hnone]

theorem LocalFile.hashed_whole {file : LocalFile} (h : file.first.length = file.size.toNat) :
    file.hashed = some file.first := by
  apply hashLoop_whole (Nat.lt_succ_self _)
  rw [UInt64.toNat_zero, Nat.zero_add]
  exact h

theorem uploadLoop_fuel (file : LocalFile) (session : CreateUploadOk) {fuel : Nat}
    {ordinal sent : UInt64} {rest : Bytes} {conn : ClientConn} (h : conn.frames.length < fuel) :
    (uploadLoop file session fuel ordinal sent rest).run conn =
      (uploadLoop file session (fuel + 1) ordinal sent rest).run conn := by
  induction fuel generalizing ordinal sent rest conn with
  | zero => exact absurd h (Nat.not_lt_zero _)
  | succ fuel ih =>
    rw [uploadLoop, uploadLoop]
    split
    swap
    · rfl
    dsimp only
    split
    · rfl
    rw [StateT.run_bind, StateT.run_bind]
    cases hput : (Client.putChunk session.sessionId ordinal (rest.take _)).run conn with
    | error e => rfl
    | ok r =>
      obtain ⟨ok, conn'⟩ := r
      obtain ⟨dialogue, hhad, payload, reply, -, ⟨request, rfl, -⟩, -⟩ :=
        talks_ask _ _ _ conn conn' ok hput
      have hframes := congrArg List.length hhad.frames
      rw [List.length_append, List.length_map, List.length_singleton] at hframes
      apply ih
      change conn'.frames.length < fuel
      omega

private theorem uploadLoop_converses (file : LocalFile) (session : CreateUploadOk) (fuel : Nat)
    (ordinal sent : UInt64) (rest : Bytes) :
    Converses (uploadLoop file session fuel ordinal sent rest) := by
  induction fuel generalizing ordinal sent rest with
  | zero =>
    intro conn conn' a hrun
    cases hrun
  | succ fuel ih =>
    unfold uploadLoop
    split
    swap
    · exact (Talks.pure ()).converses
    dsimp only
    split
    · exact (Talks.throw _).converses
    · exact .seq (talks_ask _ _ _).converses fun _ => ih _ _ _

private theorem sendChunks_converses (file : LocalFile) (session : CreateUploadOk) :
    Converses (sendChunks file session) := by
  intro conn conn' u hrun
  exact uploadLoop_converses file session _ 0 0 file.second conn conn' u hrun

private theorem resizeBuffer_converses (file : LocalFile) (chunkSize : UInt64) :
    Converses (resizeBuffer file chunkSize) := by
  unfold resizeBuffer
  split
  · exact (Talks.throw _).converses
  · exact (Talks.pure ()).converses

theorem talks_cmdUpload (sha : Sha256) (file : LocalFile) (token : Bytes) (ref : ArtifactRef) :
    Talks (cmdUpload sha file token ref) fun dialogue published =>
      ∃ bytes handshake created session chunks committed,
        dialogue = handshake ++ (created ++ (chunks ++ committed)) ∧ file.hashed = some bytes ∧
        Answered .createUpload (encodeCreateUploadReq ⟨ref, file.size, sha.hex bytes⟩)
          decodeCreateUploadOk created session ∧
        Answered .commitUpload (putStr session.sessionId) decodeCommitUploadOk committed
          published := by
  unfold cmdUpload
  split
  · exact (Talks.throw _).mono fun _ _ => False.elim
  cases hbytes : file.hashed with
  | none => exact (Talks.throw _).mono fun _ _ => False.elim
  | some bytes =>
    dsimp only
    have htalks := (connect_converses token).bind fun _ =>
      (talks_ask .createUpload (encodeCreateUploadReq ⟨ref, file.size, sha.hex bytes⟩)
        decodeCreateUploadOk).bind fun session =>
      (resizeBuffer_converses file session.chunkSize).bind fun _ =>
      (sendChunks_converses file session).bind fun _ =>
      talks_ask .commitUpload (putStr session.sessionId) decodeCommitUploadOk
    apply htalks.mono
    rintro _ published ⟨handshake, _, _, rfl, -, created, session, _, rfl, hcreated, resized, _, _,
      rfl, -, chunks, _, committed, rfl, -, hcommitted⟩
    refine ⟨bytes, handshake, created, session, resized ++ chunks, committed, ?_, rfl, hcreated,
      hcommitted⟩
    rw [List.append_assoc]

end ForgeRelay
