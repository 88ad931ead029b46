import ForgeRelay.Service.Messages

/-!
# What the message codecs agree on

Each field written by an encoder is read back by its decoder; the records follow field by field.
Two kinds of message are the exception: a list which is longer than its decoder admits, and a
manifest whose ordinals do not fit the 32 bits they are sent in.
-/

namespace ForgeRelay

open Codec

/-- `Codec.Inverts` for message payloads. -/
abbrev RoundTrips {α : Type} (tail : Bytes) (enc : MsgEncoder) (dec : MsgDecoder α) (a : α) :
    Prop :=
  Inverts FrBufReader.rest tail enc dec a

theorem putBytes_roundTrips {α : Type} {tail value : Bytes} {dec : MsgDecoder α} {a : α}
    (h : Reads FrBufReader.rest tail dec value a) : RoundTrips tail (putBytes value) dec a := by
  intro out out' hrun
  cases hrun
  exact ⟨value, rfl, h⟩

private theorem getOr_reads {α : Type} {tail taken : Bytes} {a : α} (what : String)
    {read : FrBufReader → Except FrStatus (α × FrBufReader)}
    (h : ∀ r : FrBufReader, r.rest = taken ++ tail →
      ∃ r', read r = .ok (a, r') ∧ r'.rest = tail) :
    Reads FrBufReader.rest tail (getOr what read) taken a := by
  intro r hr
  obtain ⟨r', hread, hrest⟩ := h r hr
  exact ⟨r', by simp only [StateT.run, getOr, hread], hrest⟩

private theorem getOr_read_reads (what : String) (tail taken : Bytes) :
    Reads FrBufReader.rest tail (getOr what (frBufReaderRead · taken.length)) taken taken :=
  getOr_reads what fun _ hr => frBufReaderRead_rest hr

theorem getU16_reads (what : String) (tail : Bytes) (value : UInt16) :
    Reads FrBufReader.rest tail (getOr what frBufReaderU16be) (frStoreBe16 value) value := by
  refine getOr_reads what fun r hr => ?_
  obtain ⟨r', hread, hrest⟩ := frBufReaderRead_rest hr
  rw [frStoreBe16_length] at hread
  refine ⟨r', ?_, hrest⟩
  have hload : frLoadBe16 (frStoreBe16 value) = value := by
    simpa using frLoadBe16_store value []
  simp only [frBufReaderU16be, hread, bind, Except.bind, pure, Except.pure, hload]

theorem putU8_roundTrips (tail : Bytes) (value : UInt8) :
    RoundTrips tail (putU8 value) getU8 value := by
  refine putBytes_roundTrips (getOr_reads _ fun r hr => ?_)
  obtain ⟨r', hread, hrest⟩ := frBufReaderRead_rest hr
  exact ⟨r', by simp only [frBufReaderU8, List.length_singleton ▸ hread]; rfl, hrest⟩

theorem putU32_roundTrips (tail : Bytes) (value : UInt32) :
    RoundTrips tail (putU32 value) getU32 value := by
  refine putBytes_roundTrips (getOr_reads _ fun r hr => ?_)
  obtain ⟨r', hread, hrest⟩ := frBufReaderRead_rest hr
  rw [frStoreBe32_length] at hread
  refine ⟨r', ?_, hrest⟩
  have hload : frLoadBe32 (frStoreBe32 value) = value := by
    simpa using frLoadBe32_store value []
  simp only [frBufReaderU32be, hread, bind, Except.bind, pure, Except.pure, hload]

theorem putU64_roundTrips (tail : Bytes) (value : UInt64) :
    RoundTrips tail (putU64 value) getU64 value := by
  refine putBytes_roundTrips (getOr_reads _ fun r hr => ?_)
  obtain ⟨r', hread, hrest⟩ := frBufReaderRead_rest hr
  rw [frStoreBe64_length] at hread
  refine ⟨r', ?_, hrest⟩
  have hload : frLoadBe64 (frStoreBe64 value) = value := by
    simpa using frLoadBe64_store value []
  simp only [frBufReaderU64be, hread, bind, Except.bind, pure, Except.pure, hload]

theorem putI32_roundTrips (tail : Bytes) (value : Int32) :
    RoundTrips tail (putI32 value) getI32 value := by
  have h := (putU32_roundTrips tail value.toUInt32).map UInt32.toInt32
  rwa [Int32.toInt32_toUInt32] at h

theorem putI64_roundTrips (tail : Bytes) (value : Int64) :
    RoundTrips tail (putI64 value) getI64 value := by
  have h := (putU64_roundTrips tail value.toUInt64).map UInt64.toInt64
  rwa [Int64.toInt64_toUInt64] at h

theorem putBool_roundTrips (tail : Bytes) (value : Bool) :
    RoundTrips tail (putBool value) getBool value := by
  have h := (putU8_roundTrips tail (if value then 1 else 0)).map (· != 0)
  cases value <;> exact h

theorem putDigest_roundTrips (tail : Bytes) (hex : Bytes) :
    RoundTrips tail (putDigest hex) getDigest hex := by
  intro out out' hrun
  unfold putDigest at hrun
  split at hrun
  · cases hrun
  · rename_i hlen
    have hread := getOr_read_reads "digest truncated" tail hex
    rw [not_not.mp hlen] at hread
    exact putBytes_roundTrips hread out out' hrun

theorem putStr_roundTrips (tail : Bytes) (value : Bytes) :
    RoundTrips tail (putStr value) getStr value := by
  intro out out' hrun
  unfold putStr at hrun
  split at hrun
  · cases hrun
  · rename_i hlen
    have hlen' : (UInt16.ofNat value.length).toNat = value.length := by
      have hsize : value.length < UInt16.size := by
        have h512 : maxStringLen < UInt16.size := by decide
        omega
      exact UInt16.toNat_ofNat_of_lt' hsize
    have hbody : RoundTrips tail (putBytes value)
        (if maxStringLen < (UInt16.ofNat value.length).toNat then
          throw (protocolError "string length invalid")
        else getOr "string truncated" (frBufReaderRead · (UInt16.ofNat value.length).toNat))
        value := by
      rw [hlen', if_neg hlen]
      exact putBytes_roundTrips (getOr_read_reads _ tail value)
    have hlength : ∀ t, RoundTrips t (putU16 (UInt16.ofNat value.length))
        (getOr "string length invalid" frBufReaderU16be) (UInt16.ofNat value.length) :=
      fun t => putBytes_roundTrips (getU16_reads _ t _)
    exact Inverts.bind hlength hbody out out' hrun

private theorem putBytes_getRest (data : Bytes) : RoundTrips [] (putBytes data) getRest data := by
  refine putBytes_roundTrips fun r hr => ?_
  have hremaining : frBufReaderRemaining r = data.length := by
    have hlen := congrArg List.length hr
    rwa [List.append_nil, FrBufReader.rest, List.length_drop] at hlen
  have hread := getOr_read_reads "rest truncated" [] data r hr
  obtain ⟨r', hrun, hrest⟩ := hread
  refine ⟨r', ?_, hrest⟩
  rw [← hremaining] at hrun
  exact hrun

theorem putOptStr_roundTrips (tail : Bytes) (value : Option Bytes) :
    RoundTrips tail (putOptStr value) getOptStr value := by
  cases value with
  | none =>
    intro out out' hrun
    obtain ⟨taken, hout, hreads⟩ := putBool_roundTrips tail false out out' hrun
    refine ⟨taken, hout, ?_⟩
    rw [← List.append_nil taken]
    exact Reads.bind hreads (Reads.pure none)
  | some value =>
    exact Inverts.bind (fun t => putBool_roundTrips t true)
      ((putStr_roundTrips tail value).map some)

theorem putRef_roundTrips (tail : Bytes) (ref : ArtifactRef) :
    RoundTrips tail (putRef ref) getRef ref :=
  .bind (putStr_roundTrips · _) <| .bind (putStr_roundTrips · _) <|
    (putStr_roundTrips tail _).map _

theorem helloReq_roundTrips (req : HelloReq) (hversion : req.protocolVersion = frProtocolVersion) :
    RoundTrips [] (encodeHelloReq req) decodeHelloReq req := by
  refine .bind (putU8_roundTrips · _) ?_
  rw [if_neg (not_not.mpr hversion)]
  exact (putStr_roundTrips [] _).map _

theorem authReq_roundTrips (req : AuthReq) : RoundTrips [] (encodeAuthReq req) decodeAuthReq req :=
  (putStr_roundTrips [] _).map _

theorem authOk_roundTrips (ok : AuthOk) : RoundTrips [] (encodeAuthOk ok) decodeAuthOk ok :=
  .bind (putStr_roundTrips · _) <| (putU8_roundTrips [] _).map _

theorem createUploadReq_roundTrips (req : CreateUploadReq) :
    RoundTrips [] (encodeCreateUploadReq req) decodeCreateUploadReq req :=
  .bind (putRef_roundTrips · _) <| .bind (putU64_roundTrips · _) <|
    (putDigest_roundTrips [] _).map _

theorem createUploadOk_roundTrips (ok : CreateUploadOk) :
    RoundTrips [] (encodeCreateUploadOk ok) decodeCreateUploadOk ok :=
  .bind (putStr_roundTrips · _) <| .bind (putU64_roundTrips · _) <| (putI64_roundTrips [] _).map _

theorem putChunkReq_roundTrips (req : PutChunkReq) :
    RoundTrips [] (encodePutChunkReq req) decodePutChunkReq req :=
  .bind (putStr_roundTrips · _) <| .bind (putU64_roundTrips · _) <| (putBytes_getRest _).map _

theorem putChunkOk_roundTrips (ok : PutChunkOk) :
    RoundTrips [] (encodePutChunkOk ok) decodePutChunkOk ok :=
  .bind (putDigest_roundTrips · _) <| (putBool_roundTrips [] _).map _

theorem queryUploadOk_roundTrips (ok : QueryUploadOk) :
    RoundTrips [] (encodeQueryUploadOk ok) decodeQueryUploadOk ok := by
  refine .bind (putU8_roundTrips · _) <| .bind (putU64_roundTrips · _) ?_
  by_cases hlong : maxBitmapLen < ok.presentBitmap.length
  · intro out out' hrun
    rw [if_pos hlong] at hrun
    cases hrun
  · rw [if_neg hlong]
    have hlen : (UInt32.ofNat ok.presentBitmap.length).toNat = ok.presentBitmap.length := by
      have hmax : maxBitmapLen < UInt32.size := by decide
      exact UInt32.toNat_ofNat_of_lt' (by omega)
    refine .bind (putU32_roundTrips · _) ?_
    rw [hlen, if_neg hlong]
    exact (putBytes_roundTrips (getOr_read_reads _ [] _)).map _

theorem commitUploadOk_roundTrips (ok : CommitUploadOk) :
    RoundTrips [] (encodeCommitUploadOk ok) decodeCommitUploadOk ok :=
  .bind (putRef_roundTrips · _) <| .bind (putU64_roundTrips · _) <|
    (putDigest_roundTrips [] _).map _

theorem getArtifactReq_roundTrips (req : GetArtifactReq) :
    RoundTrips [] (encodeGetArtifactReq req) decodeGetArtifactReq req :=
  .bind (putRef_roundTrips · _) <| .bind (putU64_roundTrips · _) <| (putU64_roundTrips [] _).map _

theorem data_roundTrips (payload : DataPayload) :
    RoundTrips [] (encodeData payload) decodeData payload :=
  (putBytes_getRest _).map _

theorem getArtifactOk_roundTrips (ok : GetArtifactOk) :
    RoundTrips [] (encodeGetArtifactOk ok) decodeGetArtifactOk ok :=
  (putU64_roundTrips [] _).map _

theorem listArtifactsReq_roundTrips (req : ListArtifactsReq) :
    RoundTrips [] (encodeListArtifactsReq req) decodeListArtifactsReq req :=
  .bind (putOptStr_roundTrips · _) <| .bind (putOptStr_roundTrips · _) <|
    .bind (putU32_roundTrips · _) <| (putU32_roundTrips [] _).map _

theorem artifactSummary_roundTrips (tail : Bytes) (item : ArtifactSummary) :
    RoundTrips tail (encodeArtifactSummary item) decodeArtifactSummary item :=
  .bind (putStr_roundTrips · _) <| .bind (putStr_roundTrips · _) <|
    .bind (putStr_roundTrips · _) <| .bind (putU64_roundTrips · _) <|
    .bind (putDigest_roundTrips · _) <| .bind (putStr_roundTrips · _) <|
    (putI64_roundTrips tail _).map _

theorem userItem_roundTrips (tail : Bytes) (item : UserItem) :
    RoundTrips tail (encodeUserItem item) decodeUserItem item :=
  .bind (putStr_roundTrips · _) <| .bind (putU8_roundTrips · _) <|
    .bind (putBool_roundTrips · _) <| (putI64_roundTrips tail _).map _

theorem tokenItem_roundTrips (tail : Bytes) (item : TokenItem) :
    RoundTrips tail (encodeTokenItem item) decodeTokenItem item :=
  .bind (putU64_roundTrips · _) <| .bind (putStr_roundTrips · _) <|
    .bind (putI64_roundTrips · _) <| .bind (putI64_roundTrips · _) <|
    (putBool_roundTrips tail _).map _

theorem sessionItem_roundTrips (tail : Bytes) (item : SessionItem) :
    RoundTrips tail (encodeSessionItem item) decodeSessionItem item :=
  .bind (putStr_roundTrips · _) <| .bind (putStr_roundTrips · _) <|
    .bind (putU8_roundTrips · _) <| .bind (putStr_roundTrips · _) <|
    .bind (putStr_roundTrips · _) <| .bind (putStr_roundTrips · _) <|
    .bind (putU64_roundTrips · _) <| (putI64_roundTrips tail _).map _

/-- A manifest entry as the receiver sees it: its ordinal keeps its low 32 bits only. -/
def ManifestEntry.received (entry : ManifestEntry) : ManifestEntry :=
  { entry with ordinal := entry.ordinal.toUInt64.toUInt32.toUInt64.toInt64 }

theorem manifestEntry_roundTrips (tail : Bytes) (entry : ManifestEntry) :
    RoundTrips tail (encodeManifestEntry entry) decodeManifestEntry entry.received :=
  .bind (putU32_roundTrips · _) <| .bind (putU64_roundTrips · _) <|
    .bind (putU64_roundTrips · _) <| (putDigest_roundTrips tail _).map _

theorem statusOk_roundTrips (ok : StatusOk) :
    RoundTrips [] (encodeStatusOk ok) decodeStatusOk ok :=
  .bind (putStr_roundTrips · _) <| .bind (putU64_roundTrips · _) <|
    .bind (putU32_roundTrips · _) <| .bind (putU32_roundTrips · _) <|
    .bind (putU64_roundTrips · _) <| .bind (putU64_roundTrips · _) <|
    .bind (putU64_roundTrips · _) <| (putU8_roundTrips [] _).map _

theorem deleteArtifactOk_roundTrips (ok : DeleteArtifactOk) :
    RoundTrips [] (encodeDeleteArtifactOk ok) decodeDeleteArtifactOk ok :=
  (putI64_roundTrips [] _).map _

theorem runGcReq_roundTrips (req : RunGcReq) :
    RoundTrips [] (encodeRunGcReq req) decodeRunGcReq req :=
  (putBool_roundTrips [] _).map _

theorem runGcOk_roundTrips (ok : RunGcOk) : RoundTrips [] (encodeRunGcOk ok) decodeRunGcOk ok :=
  .bind (putI64_roundTrips · _) <| .bind (putI64_roundTrips · _) <| (putI64_roundTrips [] _).map _

theorem userAddReq_roundTrips (req : UserAddReq) :
    RoundTrips [] (encodeUserAddReq req) decodeUserAddReq req :=
  .bind (putStr_roundTrips · _) <| (putU8_roundTrips [] _).map _

theorem tokenCreateReq_roundTrips (req : TokenCreateReq) :
    RoundTrips [] (encodeTokenCreateReq req) decodeTokenCreateReq req :=
  .bind (putStr_roundTrips · _) <| (putU32_roundTrips [] _).map _

theorem tokenCreateOk_roundTrips (ok : TokenCreateOk) :
    RoundTrips [] (encodeTokenCreateOk ok) decodeTokenCreateOk ok :=
  (putStr_roundTrips [] _).map _

theorem errorPayload_roundTrips (payload : ErrorPayload) :
    RoundTrips [] (encodeErrorPayload payload) decodeErrorPayload payload :=
  .bind (putI32_roundTrips · _) <| (putStr_roundTrips [] _).map _

theorem run_of_encode {enc : MsgEncoder} {payload : Bytes}
    (henc : (enc.run []).map Prod.snd = .ok payload) : enc.run [] = .ok ((), payload) := by
  cases hrun : enc.run [] with
  | error e => rw [hrun] at henc; cases henc
  | ok r => rw [hrun] at henc; cases henc; rfl

theorem decodeFrame_of_roundTrips {α : Type} {enc : MsgEncoder} {dec : MsgDecoder α}
    {a : α} {frame : FrFrame} (h : RoundTrips [] enc dec a)
    (henc : (enc.run []).map Prod.snd = .ok frame.payload) : decodeFrame dec frame = .ok a := by
  obtain ⟨taken, hpayload, hreads⟩ := h _ _ (run_of_encode henc)
  obtain ⟨r', hrun, -⟩ := hreads (frBufReaderInit frame.payload) (by
    rw [hpayload]
    simp [FrBufReader.rest, frBufReaderInit])
  rw [decodeFrame, hrun]
  rfl

end ForgeRelay
