import ForgeRelay.Lib.Bitmap
import ForgeRelay.Lib.Words
import ForgeRelay.Service.Authorization
import ForgeRelay.Storage.ChunkCounts
import ForgeRelay.Storage.PartOrdinals

/-!
# The resume bitmap

QUERY_UPLOAD answers with one bit for each chunk of a session. The ordinals of the parts are in
range, so every bit is written inside the bitmap, and the client reads back which chunks are
there.
-/

namespace ForgeRelay

open Program Prog

/-- There is a row with this ordinal for the session. -/
def Db.HasPart (db : Db) (sessionId : Bytes) (ordinal : Nat) : Prop :=
  ∃ part ∈ db.uploadPart, part.sessionId = sessionId ∧ part.ordinal.toInt = ordinal

private theorem presentBitmap_eq (progress : SessionProgress) :
    presentBitmap progress = (progress.presentOrdinals.map UInt64.toNat).foldl Bitmap.set
      (List.replicate ((progress.chunkCount + 7) / 8).toNat 0) := by
  rw [presentBitmap, List.foldl_map]
  rfl

section

variable {db : Db} {row : SessionInfo}

private theorem chunkCount_lt (hchunk : 1024 * 1024 ≤ row.chunkSize.toNat) :
    (chunkCount row).toNat < 2^44 := by
  have hmul := chunkCount_mul_lt row
  have hle := Nat.mul_le_mul_left (chunkCount row).toNat hchunk
  omega

/-- The rounding up to whole bytes does not wrap around. -/
private theorem bitmapLength_toNat (hchunk : 1024 * 1024 ≤ row.chunkSize.toNat) :
    ((chunkCount row + 7) / 8).toNat = (chunkCount row).toNat ⌈/⌉ 8 := by
  have hlt := chunkCount_lt hchunk
  rw [Nat.ceilDiv_eq_add_pred_div, UInt64.toNat_div, UInt64.toNat_add]
  change ((chunkCount row).toNat + 7) % 2^64 / 8 = _
  rw [Nat.mod_eq_of_lt (by omega)]
  rfl

theorem SessionInfo.Expects.toInt {ordinal : Int64} (h : row.Expects ordinal)
    (hchunk : 1024 * 1024 ≤ row.chunkSize.toNat) :
    ordinal.toInt = ordinal.toUInt64.toNat ∧ ordinal.toUInt64 < chunkCount row := by
  obtain ⟨n, rfl, hlt⟩ := h
  have hcount := chunkCount_lt hchunk
  have hn : n.toNat < (chunkCount row).toNat := UInt64.lt_iff_toNat_lt.mp hlt
  rw [UInt64.toUInt64_toInt64]
  exact ⟨by rw [Casts.toInt_toInt64, if_pos (by omega)], hlt⟩

private theorem mem_progress (hdb : db.Ranged) (hrow : row ∈ db.uploadSession) (n : Nat) :
    n ∈ (row.progress db).presentOrdinals.map UInt64.toNat ↔ db.HasPart row.id n := by
  have hexpects : ∀ part ∈ db.uploadPart, part.sessionId = row.id → row.Expects part.ordinal := by
    intro part hpart hid
    obtain ⟨row', hrow', hid', hexpects⟩ := hdb.parts part hpart
    obtain rfl : row' = row := Table.eq_of_key hdb.keys hrow' hrow (hid'.trans hid)
    exact hexpects
  have hchunk := hdb.chunkSize row hrow
  rw [SessionInfo.progress, List.map_map]
  constructor
  · intro hn
    obtain ⟨part, hpart, rfl⟩ := List.mem_map.mp hn
    obtain ⟨hmem, hid⟩ := Db.mem_partsByOrdinal.mp hpart
    exact ⟨part, hmem, hid, ((hexpects part hmem hid).toInt hchunk).1⟩
  · rintro ⟨part, hmem, hid, hn⟩
    refine List.mem_map.mpr ⟨part, Db.mem_partsByOrdinal.mpr ⟨hmem, hid⟩, ?_⟩
    rw [((hexpects part hmem hid).toInt hchunk).1] at hn
    exact Int.ofNat.inj hn

private theorem progress_lt (hdb : db.Ranged) (hrow : row ∈ db.uploadSession) :
    ∀ ordinal ∈ (row.progress db).presentOrdinals, ordinal < chunkCount row := by
  intro ordinal hordinal
  obtain ⟨part, hpart, rfl⟩ := List.mem_map.mp hordinal
  obtain ⟨hmem, hid⟩ := Db.mem_partsByOrdinal.mp hpart
  obtain ⟨row', hrow', hid', hexpects⟩ := hdb.parts part hmem
  obtain rfl : row' = row := Table.eq_of_key hdb.keys hrow' hrow (hid'.trans hid)
  exact (hexpects.toInt (hdb.chunkSize row' hrow)).2

private theorem progress_inside (hdb : db.Ranged) (hrow : row ∈ db.uploadSession) :
    ∀ ordinal ∈ (row.progress db).presentOrdinals,
      (ordinal / 8).toNat < ((chunkCount row + 7) / 8).toNat := by
  intro ordinal hordinal
  have hlt := UInt64.lt_iff_toNat_lt.mp (progress_lt hdb hrow ordinal hordinal)
  rw [bitmapLength_toNat (hdb.chunkSize row hrow), Nat.ceilDiv_eq_add_pred_div, UInt64.toNat_div]
  change ordinal.toNat / 8 < _
  omega

private theorem length_presentBitmap (progress : SessionProgress) :
    (presentBitmap progress).length = ((progress.chunkCount + 7) / 8).toNat := by
  rw [presentBitmap_eq, Bitmap.length_foldl, List.length_replicate]

private theorem bit_presentBitmap (hdb : db.Ranged) (hrow : row ∈ db.uploadSession) (n : Nat) :
    Bitmap.bit (presentBitmap (row.progress db)) n = true ↔ db.HasPart row.id n := by
  have hinside : ∀ i ∈ (row.progress db).presentOrdinals.map UInt64.toNat,
      i / 8 < (List.replicate ((chunkCount row + 7) / 8).toNat (0 : UInt8)).length := by
    intro i hi
    obtain ⟨ordinal, hordinal, rfl⟩ := List.mem_map.mp hi
    rw [List.length_replicate]
    exact progress_inside hdb hrow ordinal hordinal
  rw [presentBitmap_eq]
  change
    Bitmap.bit (List.foldl _ (List.replicate ((chunkCount row + 7) / 8).toNat 0) _) n = true ↔ _
  rw [Bitmap.bit_foldl hinside, Bitmap.bit_replicate, Bool.false_or, decide_eq_true_iff]
  exact mem_progress hdb hrow n

end

/-- What the client is to read of the progress of a session. -/
structure ExactProgress (db : Db) (row : SessionInfo) (ok : QueryUploadOk) : Prop where
  state : ok.state = row.state.toU8
  chunkCount : ok.chunkCount = ForgeRelay.chunkCount row
  length : ok.presentBitmap.length = ok.chunkCount.toNat ⌈/⌉ 8
  /-- A bit is set if and only if there is a part with this ordinal. -/
  bit : ∀ i, Bitmap.bit ok.presentBitmap i = true ↔ db.HasPart row.id i
  beyond : ∀ i, ok.chunkCount.toNat ≤ i → Bitmap.bit ok.presentBitmap i = false

section

variable {sha : Sha256} {env : RequestEnv} {connId : Nat} {peer : Bytes} {session : ClientSession}
  {frame : FrFrame} {s : Service} {sessionId : Bytes} {row : SessionInfo}

private theorem exactProgress (hdb : s.store.db.Ranged) (hrow : row ∈ s.store.db.uploadSession) :
    ExactProgress s.store.db row
      ⟨row.state.toU8, chunkCount row, presentBitmap (row.progress s.store.db)⟩ := by
  refine ⟨rfl, rfl, ?_, bit_presentBitmap hdb hrow, fun i hi => ?_⟩
  · rw [length_presentBitmap]
    exact bitmapLength_toNat (hdb.chunkSize row hrow)
  · refine Bool.eq_false_iff.mpr fun hbit => ?_
    obtain ⟨ordinal, hordinal, rfl⟩ :=
      List.mem_map.mp ((mem_progress hdb hrow i).mpr ((bit_presentBitmap hdb hrow i).mp hbit))
    have hlt := UInt64.lt_iff_toNat_lt.mp (progress_lt hdb hrow ordinal hordinal)
    exact absurd hi (Nat.not_le.mpr hlt)

private theorem handleQueryUpload_run (hdecode : decodeFrame getStr frame = .ok sessionId)
    (hrow : s.store.db.session? sessionId = some row)
    (hallowed : requireSessionAllowed session row = .ok ()) :
    (handleQueryUpload session frame).run s =
      if 1024 * 1024 < (chunkCount row + 7) / 8 then
        (.error (.of .eRange "session chunk count exceeds QUERY bitmap limit"), s)
      else (replyOk frame (encodeQueryUploadOk
        ⟨row.state.toU8, chunkCount row, presentBitmap (row.progress s.store.db)⟩)).run s := by
  obtain ⟨-, rfl⟩ := Db.session?_some hrow
  have hsection : (getAllowedSession session row.id >>= fun info =>
      sessionProgress row.id >>= fun progress => Pure.pure (info, progress) :
      StorageM (SessionInfo × SessionProgress)).run s.store =
        (.ok (row, row.progress s.store.db), s.store) := by
    rw [getAllowedSession, run_bind, run_bind, loadSession_run hrow]
    dsimp only
    rw [run_bind, hallowed]
    change (sessionProgress row.id >>= _).run s.store = _
    rw [run_bind, sessionProgress_run hrow]
    rfl
  unfold handleQueryUpload
  rw [decode, hdecode]
  change ((locked _ >>= _).run s) = _
  rw [run_bind, locked, onStore, run_lift, hsection]
  change (if 1024 * 1024 < (chunkCount row + 7) / 8 then _ else _ : ServiceM HandleResult).run s = _
  by_cases hlarge : 1024 * 1024 < (chunkCount row + 7) / 8
  · rw [if_pos hlarge, if_pos hlarge]
    rfl
  · rw [if_neg hlarge, if_neg hlarge]
    rfl

private theorem payloadOf_queryUploadOk (ok : QueryUploadOk)
    (hlen : ok.presentBitmap.length ≤ maxBitmapLen) :
    ∃ payload, payloadOf (encodeQueryUploadOk ok) = .ok payload ∧
      payload.length = 13 + ok.presentBitmap.length := by
  unfold payloadOf encodeQueryUploadOk
  rw [if_neg (Nat.not_lt.mpr hlen)]
  refine ⟨_, rfl, ?_⟩
  simp only [List.length_append, List.length_singleton, List.length_nil, frStoreBe64_length,
    frStoreBe32_length]

variable (env connId peer session frame s) in
/-- For every session of a state that the storage can be in, and a client that may query it. -/
theorem queryUpload_exact {events : List Event} {config : Option StorageConfig}
    (hrun : Trace.Run (System.Step sha anywhere) .initial events ⟨s.store, config⟩)
    (htype : FrMsgType.ofByte frame.type = some .queryUpload)
    (hdecode : decodeFrame getStr frame = .ok sessionId)
    (hrow : s.store.db.session? sessionId = some row)
    (hallowed : requireSessionAllowed session row = .ok ()) :
    (∀ progress, ((sessionProgress sessionId).run s.store).1 = .ok progress →
      ∀ ordinal ∈ progress.presentOrdinals,
        (ordinal / 8).toNat < ((progress.chunkCount + 7) / 8).toNat) ∧
    ∃ reply, (handle sha env connId peer session frame).run s =
        (.ok ({ HandleResult.empty with out := [reply] }, session), s) ∧
      if 1024 * 1024 < (chunkCount row).toNat ⌈/⌉ 8 then
        reply.type = FrMsgType.error.toByte ∧
        decodeFrame decodeErrorPayload reply = .ok ⟨FrStatus.eRange.code,
          ascii "session chunk count exceeds QUERY bitmap limit"⟩
      else
        reply.type = FrMsgType.ok.toByte ∧
        ∃ ok, decodeFrame decodeQueryUploadOk reply = .ok ok ∧ ExactProgress s.store.db row ok := by
  have hdb : s.store.db.Ranged := System.run_ranged hrun
  obtain ⟨hmem, rfl⟩ := Db.session?_some hrow
  refine ⟨fun progress hprogress => ?_, ?_⟩
  · rw [sessionProgress_run hrow] at hprogress
    cases hprogress
    exact progress_inside hdb hmem
  have hauth : session.authenticated = true := by
    obtain ⟨hrole, -⟩ := requireSessionAllowed_ok hallowed
    unfold requireRole at hrole
    split at hrole
    · cases hrole
    · rename_i hnot
      exact eq_true_of_ne_false hnot
  have hbusiness : frame.isBusiness = true := by rw [FrFrame.isBusiness, htype]
  have hdispatch : dispatchBusiness sha env connId session frame =
      handleQueryUpload session frame := by rw [dispatchBusiness, htype]
  have hlength := bitmapLength_toNat (hdb.chunkSize row hmem)
  have hlimit : 1024 * 1024 < (chunkCount row + 7) / 8 ↔
      1024 * 1024 < (chunkCount row).toNat ⌈/⌉ 8 := by
    rw [UInt64.lt_iff_toNat_lt, hlength]
    rfl
  rw [handle_business hbusiness hauth, hdispatch, handleQueryUpload_run hdecode hrow hallowed]
  by_cases hlarge : 1024 * 1024 < (chunkCount row).toNat ⌈/⌉ 8
  · rw [if_pos (hlimit.mpr hlarge)]
    refine ⟨_, replyError_run (fun h => absurd h.1 (by decide)) (by decide), ?_⟩
    rw [if_pos hlarge]
    exact ⟨rfl, decode_errorFrame (by decide)⟩
  · have hexact : ExactProgress s.store.db row _ := exactProgress hdb hmem
    have hshort : (presentBitmap (row.progress s.store.db)).length ≤ maxBitmapLen := by
      rw [length_presentBitmap]
      exact (hlength ▸ not_lt.mp hlarge : ((chunkCount row + 7) / 8).toNat ≤ 1024 * 1024)
    obtain ⟨payload, hpayload, hsize⟩ := payloadOf_queryUploadOk
      ⟨row.state.toU8, chunkCount row, presentBitmap (row.progress s.store.db)⟩ hshort
    rw [if_neg fun h => hlarge (hlimit.mp h), replyOk, hpayload]
    have hout : emit [] .ok (outReqId frame) payload =
        [⟨FrMsgType.ok.toByte, 0, outReqId frame, payload⟩] := by
      have hmax : 13 + maxBitmapLen ≤ frFrameMaxPayload := by decide
      exact emit_of_le [] .ok (outReqId_ne_zero frame)
        (hsize.trans_le ((Nat.add_le_add_left hshort 13).trans hmax))
    refine ⟨⟨FrMsgType.ok.toByte, 0, outReqId frame, payload⟩, ?_, ?_⟩
    · rw [← hout]
      rfl
    · rw [if_neg hlarge]
      exact ⟨rfl, _, decodeFrame_of_roundTrips (queryUploadOk_roundTrips _) hpayload, hexact⟩

end

/-- Storage with the session `s1` of `alice`, of which the only chunk has been uploaded. -/
def uploadedStore : Store := (played sampleSha sampleUpload).2.store

/-- The session as `alice` has it. -/
def uploadedSession : SessionInfo :=
  ⟨ascii "s1", ascii "alice", .open, ascii "team", ascii "app", ascii "1.0", 1,
    sampleSha.hex (ascii "a"), 4 * 1024 * 1024, 0, 24 * 3600⟩

/-- `alice` asks for the progress of the upload. -/
theorem queryUpload_exact_sample :
    let alice : ClientSession := ⟨true, true, ascii "alice", .publisher, 0⟩
    let query := sampleFrame .queryUpload (putStr (ascii "s1"))
    ∃ reply ok, (handle sampleSha (sampleRequestEnv 2) 1 [] alice query).run
        (.start uploadedStore .empty) =
        (.ok ({ HandleResult.empty with out := [reply] }, alice), .start uploadedStore .empty) ∧
      decodeFrame decodeQueryUploadOk reply = .ok ok ∧
      ExactProgress uploadedStore.db uploadedSession ok := by
  intro alice query
  have hrun : Trace.Run (System.Step sampleSha anywhere) .initial (played sampleSha sampleUpload).1
      (played sampleSha sampleUpload).2 :=
    played_run (fun _ _ => .inr fun _ _ => trivial) (by decide +kernel)
  have hrow : uploadedStore.db.session? (ascii "s1") = some uploadedSession := by decide +kernel
  obtain ⟨-, reply, hreply, hresult⟩ := queryUpload_exact (sampleRequestEnv 2) 1 [] alice query
    (.start uploadedStore .empty) hrun (by decide) (by decide +kernel) hrow (by decide +kernel)
  rw [if_neg (by decide +kernel)] at hresult
  obtain ⟨-, ok, hdecoded, hexact⟩ := hresult
  exact ⟨reply, ok, hreply, hdecoded, hexact⟩

end ForgeRelay
