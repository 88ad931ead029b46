import ForgeRelay.Service.MessageKinds

/-!
# Truncated payloads

A decoder checks every read, so a payload that ends before its message does is rejected with a
protocol error. Only the data of a chunk and of a DATA frame, which run to the end of the payload,
can be cut without notice.
-/

namespace ForgeRelay

open Codec

/-- A protocol error of the message layer. -/
def IsProtocolError (e : Error) : Prop := ∃ what, e = .fr .eProtocol what

private theorem protocolError_isProtocolError (what : String) :
    IsProtocolError (protocolError what) :=
  ⟨_, rfl⟩

/-- `Codec.Cuts` for message payloads. -/
abbrev MsgCuts {α : Type} (enc : MsgEncoder) (dec : MsgDecoder α) : Prop :=
  Cuts FrBufReader.rest IsProtocolError enc dec

/-- `Codec.Delimits` for message payloads. -/
abbrev MsgDelimits {α : Type} (enc : MsgEncoder) (dec : MsgDecoder α) (a : α) : Prop :=
  Delimits FrBufReader.rest IsProtocolError enc dec a

private theorem frBufReaderRead_short {r : FrBufReader} {n : Nat} (h : r.rest.length < n) :
    frBufReaderRead r n = .error .eRange := by
  rw [FrBufReader.rest, List.length_drop] at h
  exact if_pos h

private theorem putBytes_cuts {α : Type} (value : Bytes) (what : String)
    {read : FrBufReader → Except FrStatus (α × FrBufReader)}
    (h : ∀ r : FrBufReader, r.rest.length < value.length → read r = .error .eRange) :
    MsgCuts (putBytes value) (getOr what read) := by
  intro out out' hrun
  cases hrun
  refine ⟨value, rfl, fun r missing hr hne => ⟨_, ?_, protocolError_isProtocolError what⟩⟩
  have hlength := congrArg List.length hr
  rw [List.length_append] at hlength
  have := List.length_pos_of_ne_nil hne
  simp only [StateT.run, getOr, h r (by omega)]

private theorem getOr_read_cuts (what : String) (value : Bytes) :
    MsgCuts (putBytes value) (getOr what (frBufReaderRead · value.length)) :=
  putBytes_cuts value what fun _ h => frBufReaderRead_short h

private theorem putU8_delimits (value : UInt8) : MsgDelimits (putU8 value) getU8 value :=
  ⟨(putU8_roundTrips · value), putBytes_cuts _ _ fun r h => by
    rw [List.length_singleton] at h
    rw [frBufReaderU8, frBufReaderRead_short h]
    rfl⟩

private theorem putU16_delimits (value : UInt16) (what : String) :
    MsgDelimits (putU16 value) (getOr what frBufReaderU16be) value :=
  ⟨fun t => putBytes_roundTrips (getU16_reads what t value), putBytes_cuts _ _ fun r h => by
    rw [frStoreBe16_length] at h
    rw [frBufReaderU16be, frBufReaderRead_short h]
    rfl⟩

private theorem putU32_delimits (value : UInt32) : MsgDelimits (putU32 value) getU32 value :=
  ⟨(putU32_roundTrips · value), putBytes_cuts _ _ fun r h => by
    rw [frStoreBe32_length] at h
    rw [frBufReaderU32be, frBufReaderRead_short h]
    rfl⟩

private theorem putU64_delimits (value : UInt64) : MsgDelimits (putU64 value) getU64 value :=
  ⟨(putU64_roundTrips · value), putBytes_cuts _ _ fun r h => by
    rw [frStoreBe64_length] at h
    rw [frBufReaderU64be, frBufReaderRead_short h]
    rfl⟩

private theorem putI32_delimits (value : Int32) : MsgDelimits (putI32 value) getI32 value :=
  ⟨(putI32_roundTrips · value), (putU32_delimits _).cuts.map _⟩

private theorem putI64_delimits (value : Int64) : MsgDelimits (putI64 value) getI64 value :=
  ⟨(putI64_roundTrips · value), (putU64_delimits _).cuts.map _⟩

private theorem putBool_delimits (value : Bool) : MsgDelimits (putBool value) getBool value :=
  ⟨(putBool_roundTrips · value), (putU8_delimits _).cuts.map _⟩

private theorem putDigest_delimits (hex : Bytes) : MsgDelimits (putDigest hex) getDigest hex := by
  refine ⟨(putDigest_roundTrips · hex), fun out out' hrun => ?_⟩
  unfold putDigest at hrun
  split at hrun
  · cases hrun
  · rename_i hlen
    have hcuts := getOr_read_cuts "digest truncated" hex
    rw [not_not.mp hlen] at hcuts
    exact hcuts out out' hrun

private theorem putStr_delimits (value : Bytes) : MsgDelimits (putStr value) getStr value := by
  refine ⟨(putStr_roundTrips · value), fun out out' hrun => ?_⟩
  unfold putStr at hrun
  split at hrun
  · cases hrun
  · rename_i hlen
    have hlen' : (UInt16.ofNat value.length).toNat = value.length := by
      have h512 : maxStringLen < UInt16.size := by decide
      exact UInt16.toNat_ofNat_of_lt' (by omega)
    refine Cuts.bind (putU16_delimits _ _) ?_ out out' hrun
    rw [hlen', if_neg hlen]
    exact getOr_read_cuts _ value

private theorem putOptStr_delimits (value : Option Bytes) :
    MsgDelimits (putOptStr value) getOptStr value := by
  refine ⟨(putOptStr_roundTrips · value), ?_⟩
  cases value with
  | none =>
    intro out out' hrun
    obtain ⟨taken, hout, hfails⟩ := (putBool_delimits false).cuts out out' hrun
    exact ⟨taken, hout, hfails.bind_left _⟩
  | some value => exact .bind (putBool_delimits true) ((putStr_delimits value).cuts.map some)

private theorem putRef_delimits (ref : ArtifactRef) : MsgDelimits (putRef ref) getRef ref :=
  ⟨(putRef_roundTrips · ref), .bind (putStr_delimits _) <| .bind (putStr_delimits _) <|
    (putStr_delimits _).cuts.map _⟩

private theorem artifactSummary_delimits (item : ArtifactSummary) :
    MsgDelimits (encodeArtifactSummary item) decodeArtifactSummary item :=
  ⟨(artifactSummary_roundTrips · item), .bind (putStr_delimits _) <| .bind (putStr_delimits _) <|
    .bind (putStr_delimits _) <| .bind (putU64_delimits _) <| .bind (putDigest_delimits _) <|
    .bind (putStr_delimits _) <| (putI64_delimits _).cuts.map _⟩

private theorem userItem_delimits (item : UserItem) :
    MsgDelimits (encodeUserItem item) decodeUserItem item :=
  ⟨(userItem_roundTrips · item), .bind (putStr_delimits _) <| .bind (putU8_delimits _) <|
    .bind (putBool_delimits _) <| (putI64_delimits _).cuts.map _⟩

private theorem tokenItem_delimits (item : TokenItem) :
    MsgDelimits (encodeTokenItem item) decodeTokenItem item :=
  ⟨(tokenItem_roundTrips · item), .bind (putU64_delimits _) <| .bind (putStr_delimits _) <|
    .bind (putI64_delimits _) <| .bind (putI64_delimits _) <| (putBool_delimits _).cuts.map _⟩

private theorem sessionItem_delimits (item : SessionItem) :
    MsgDelimits (encodeSessionItem item) decodeSessionItem item :=
  ⟨(sessionItem_roundTrips · item), .bind (putStr_delimits _) <| .bind (putStr_delimits _) <|
    .bind (putU8_delimits _) <| .bind (putStr_delimits _) <| .bind (putStr_delimits _) <|
    .bind (putStr_delimits _) <| .bind (putU64_delimits _) <| (putI64_delimits _).cuts.map _⟩

private theorem manifestEntry_delimits (entry : ManifestEntry) :
    MsgDelimits (encodeManifestEntry entry) decodeManifestEntry entry.received :=
  ⟨(manifestEntry_roundTrips · entry), .bind (putU32_delimits _) <| .bind (putU64_delimits _) <|
    .bind (putU64_delimits _) <| (putDigest_delimits _).cuts.map _⟩

private theorem protocolError_run {α : Type} (what : String) (r : FrBufReader) :
    ∃ e, (throw (protocolError what) : MsgDecoder α).run r = .error e ∧ IsProtocolError e :=
  ⟨_, rfl, protocolError_isProtocolError what⟩

/-- A list whose count fits its field: too long a list is rejected by the count, others by the item
that is cut. -/
private theorem encodeItems_cuts {α : Type} {item : α → MsgEncoder} {dec : MsgDecoder α}
    {items : List α}
    {f : α → α} (limit : Nat) (what : String) (hitem : ∀ x, MsgDelimits (item x) dec (f x))
    (hcount : items.length < 2^32) :
    MsgCuts (encodeItems item items) (decodeItemsUpTo limit what dec) := by
  have hnarrow : (UInt32.ofNat items.length).toNat = items.length :=
    UInt32.toNat_ofNat_of_lt' hcount
  refine .bind (putU32_delimits _) ?_
  rw [hnarrow]
  split
  · exact (Cuts.items hitem).of_error (protocolError_run what)
  · exact Cuts.items hitem

/-- The count of a list answer fits its field, because no item is empty. -/
private theorem encodeItems_count {α : Type} {item : α → MsgEncoder} {items : List α} {n : Nat}
    {payload : Bytes} (hwrites : ∀ x, Writes (n + 1) (item x))
    (henc : ((encodeItems item items).run []).map Prod.snd = .ok payload)
    (hsize : payload.length < 2^32) : items.length < 2^32 := by
  have hlength := encodeItems_length (fun x _ => hwrites x) (run_of_encode henc)
  have hone : items.length ≤ items.length * (n + 1) := Nat.le_mul_of_pos_right _ (by omega)
  omega

private theorem listOk_cuts {α β : Type} {item : α → MsgEncoder} {dec : MsgDecoder α}
    {items : List α}
    {n : Nat} {payload : Bytes} (pack : List α → β) (hitem : ∀ x, MsgDelimits (item x) dec x)
    (hwrites : ∀ x, Writes (n + 1) (item x))
    (henc : ((encodeItems item items).run []).map Prod.snd = .ok payload)
    (hsize : payload.length < 2^32) :
    MsgCuts (encodeItems item items)
      (decodeItemsUpTo maxListCount "list count too large" dec >>= fun items =>
        pure (pack items)) :=
  (encodeItems_cuts (f := id) _ _ hitem (encodeItems_count hwrites henc hsize)).map pack

private theorem queryUploadOk_cuts (ok : QueryUploadOk) :
    MsgCuts (encodeQueryUploadOk ok) decodeQueryUploadOk := by
  refine .bind (putU8_delimits _) <|
    .bind (putU64_delimits _) ?_
  by_cases hlong : maxBitmapLen < ok.presentBitmap.length
  · intro out out' hrun
    rw [if_pos hlong] at hrun
    cases hrun
  · rw [if_neg hlong]
    have hlen : (UInt32.ofNat ok.presentBitmap.length).toNat = ok.presentBitmap.length := by
      have hmax : maxBitmapLen < UInt32.size := by decide
      exact UInt32.toNat_ofNat_of_lt' (by omega)
    refine .bind (putU32_delimits _) ?_
    rw [hlen, if_neg hlong]
    exact (getOr_read_cuts _ _).map _

private theorem helloReq_cuts (req : HelloReq) : MsgCuts (encodeHelloReq req) decodeHelloReq := by
  refine .bind (putU8_delimits _) ?_
  split
  · exact (putStr_delimits _).cuts.of_error (protocolError_run _)
  · exact (putStr_delimits _).cuts.map _

private theorem showArtifactOk_cuts (ok : ShowArtifactOk) (hcount : ok.info.chunks.length < 2^32) :
    MsgCuts (encodeShowArtifactOk ok) decodeShowArtifactOk :=
  .bind (putStr_delimits _) <| .bind (putStr_delimits _) <|
    .bind (putStr_delimits _) <|
    .bind (putU64_delimits _) <|
    .bind (putDigest_delimits _) <|
    .bind (putU64_delimits _) <|
    .bind (putStr_delimits _) <|
    .bind (putI64_delimits _) <|
    .bind (putStr_delimits _) <|
    (encodeItems_cuts _ _ manifestEntry_delimits hcount).map _

theorem MessageKind.cuts (kind : MessageKind) (value : kind.Value) {payload : Bytes}
    (henc : kind.encode value = .ok payload) (hsize : payload.length < 2^32)
    (hchunk : kind ≠ .putChunkReq) (hdata : kind ≠ .data) :
    MsgCuts (kind.encoder value) kind.decoder := by
  cases kind with
  | putChunkReq => exact absurd rfl hchunk
  | data => exact absurd rfl hdata
  | listArtifactsOk =>
    exact listOk_cuts _ artifactSummary_delimits artifactSummary_writes henc hsize
  | userListOk => exact listOk_cuts _ userItem_delimits userItem_writes henc hsize
  | tokenListOk => exact listOk_cuts _ tokenItem_delimits tokenItem_writes henc hsize
  | sessionListOk => exact listOk_cuts _ sessionItem_delimits sessionItem_writes henc hsize
  | showArtifactOk =>
    refine showArtifactOk_cuts value ?_
    have hlength := showArtifactOk_writes value _ _ (run_of_encode henc)
    omega
  | ref => exact (putRef_delimits value).cuts
  | helloReq => exact helloReq_cuts value
  | authReq => exact (putStr_delimits _).cuts.map _
  | authOk => exact .bind (putStr_delimits _) ((putU8_delimits _).cuts.map _)
  | createUploadReq =>
    exact .bind (putRef_delimits _) <| .bind (putU64_delimits _) <|
      (putDigest_delimits _).cuts.map _
  | createUploadOk =>
    exact .bind (putStr_delimits _) <| .bind (putU64_delimits _) <|
      (putI64_delimits _).cuts.map _
  | putChunkOk => exact .bind (putDigest_delimits _) <| (putBool_delimits _).cuts.map _
  | queryUploadOk => exact queryUploadOk_cuts value
  | commitUploadOk =>
    exact .bind (putRef_delimits _) <| .bind (putU64_delimits _) <|
      (putDigest_delimits _).cuts.map _
  | getArtifactReq =>
    exact .bind (putRef_delimits _) <| .bind (putU64_delimits _) <|
      (putU64_delimits _).cuts.map _
  | getArtifactOk => exact (putU64_delimits _).cuts.map _
  | listArtifactsReq =>
    exact .bind (putOptStr_delimits _) <| .bind (putOptStr_delimits _) <|
      .bind (putU32_delimits _) <| (putU32_delimits _).cuts.map _
  | artifactSummary => exact (artifactSummary_delimits value).cuts
  | statusOk =>
    exact .bind (putStr_delimits _) <| .bind (putU64_delimits _) <| .bind (putU32_delimits _) <|
      .bind (putU32_delimits _) <| .bind (putU64_delimits _) <| .bind (putU64_delimits _) <|
      .bind (putU64_delimits _) <| (putU8_delimits _).cuts.map _
  | deleteArtifactOk => exact (putI64_delimits _).cuts.map _
  | runGcReq => exact (putBool_delimits _).cuts.map _
  | runGcOk =>
    exact .bind (putI64_delimits _) <| .bind (putI64_delimits _) <|
      (putI64_delimits _).cuts.map _
  | userAddReq => exact .bind (putStr_delimits _) <| (putU8_delimits _).cuts.map _
  | userItem => exact (userItem_delimits value).cuts
  | tokenCreateReq => exact .bind (putStr_delimits _) <| (putU32_delimits _).cuts.map _
  | tokenCreateOk => exact (putStr_delimits _).cuts.map _
  | tokenItem => exact (tokenItem_delimits value).cuts
  | sessionItem => exact (sessionItem_delimits value).cuts
  | errorPayload => exact .bind (putI32_delimits _) <| (putStr_delimits _).cuts.map _

/-- How many bytes of a payload its layout delimits: all of them, unless data run to its end. -/
def MessageKind.delimited : (kind : MessageKind) → kind.Value → Bytes → Nat
  | .putChunkReq, req, _ => 2 + req.sessionId.length + 8
  | .data, _, _ => 0
  | _, _, payload => payload.length

private theorem decodeFrame_of_fails {α : Type} {dec : MsgDecoder α} {taken missing : Bytes}
    {frame : FrFrame} (h : Fails FrBufReader.rest IsProtocolError dec taken)
    (hsplit : frame.payload ++ missing = taken) (hne : missing ≠ []) :
    ∃ what, decodeFrame dec frame = .error (.fr .eProtocol what) := by
  obtain ⟨e, hrun, what, rfl⟩ := h (frBufReaderInit frame.payload) missing
    (by simpa [FrBufReader.rest, frBufReaderInit] using hsplit) hne
  exact ⟨what, by rw [decodeFrame, hrun]; rfl⟩

private theorem putStr_run {value out out' : Bytes} (h : (putStr value).run out = .ok ((), out')) :
    ∃ field, out' = out ++ field ∧ field.length = 2 + value.length := by
  unfold putStr at h
  split at h
  · cases h
  · cases h
    refine ⟨frStoreBe16 (UInt16.ofNat value.length) ++ value, List.append_assoc _ _ _, ?_⟩
    rw [List.length_append, frStoreBe16_length]

private theorem putChunkReq_fails {req : PutChunkReq} {payload : Bytes}
    (henc : ((encodePutChunkReq req).run []).map Prod.snd = .ok payload) :
    2 + req.sessionId.length + 8 ≤ payload.length ∧
      Fails FrBufReader.rest IsProtocolError decodePutChunkReq
        (payload.take (2 + req.sessionId.length + 8)) := by
  obtain ⟨mid, hid, hrest⟩ := run_seq_ok (run_of_encode henc)
  obtain ⟨mid', hordinal, hdata⟩ := run_seq_ok hrest
  obtain ⟨id, hmid, hidfails⟩ := (putStr_delimits _).cuts _ _ hid
  obtain ⟨ordinal, hmid', hordinalfails⟩ := (putU64_delimits _).cuts _ _ hordinal
  obtain ⟨_, hfield, hidlen⟩ := putStr_run hid
  obtain rfl := List.append_cancel_left (hmid.symm.trans hfield)
  have hordinallen : ordinal.length = 8 := by
    cases hordinal
    rw [← List.append_cancel_left hmid', frStoreBe64_length]
  have hpayload : payload = id ++ ordinal ++ req.data := by
    cases hdata
    rw [hmid', hmid, List.nil_append]
  have htake : payload.take (2 + req.sessionId.length + 8) = id ++ ordinal := by
    rw [hpayload, List.take_left' (by rw [List.length_append]; omega)]
  rw [htake, hpayload, List.length_append, List.length_append]
  refine ⟨by omega, .bind (a := req.sessionId) (fun t => ?_) hidfails (hordinalfails.bind_left _)⟩
  obtain ⟨taken, htaken, hreads⟩ := (putStr_delimits _).inverts t _ _ hid
  rwa [List.append_cancel_left (hmid.symm.trans htaken)]

private theorem putChunkReq_truncated {req : PutChunkReq} {payload : Bytes} {n : Nat}
    {frame : FrFrame} (henc : ((encodePutChunkReq req).run []).map Prod.snd = .ok payload)
    (hn : n < 2 + req.sessionId.length + 8) (hframe : frame.payload = payload.take n) :
    ∃ what, decodeFrame decodePutChunkReq frame = .error (.fr .eProtocol what) := by
  obtain ⟨hlength, hfails⟩ := putChunkReq_fails henc
  have htake : payload.take n = (payload.take (2 + req.sessionId.length + 8)).take n := by
    rw [List.take_take, Nat.min_eq_left hn.le]
  have hsplit : frame.payload ++ (payload.take (2 + req.sessionId.length + 8)).drop n =
      payload.take (2 + req.sessionId.length + 8) := by
    rw [hframe, htake, List.take_append_drop]
  refine decodeFrame_of_fails hfails hsplit (List.ne_nil_of_length_pos ?_)
  rw [List.length_drop, List.length_take]
  omega

/-- Whatever a message is, a payload that ends before its delimited part does is rejected with a
protocol error. -/
theorem decode_truncated (kind : MessageKind) (value : kind.Value) {payload : Bytes}
    (henc : kind.encode value = .ok payload) (hsize : payload.length < 2^32) {n : Nat}
    (hn : n < kind.delimited value payload) (frame : FrFrame)
    (hframe : frame.payload = payload.take n) :
    ∃ what, kind.decode frame = .error (.fr .eProtocol what) := by
  have hclosed (hchunk : kind ≠ .putChunkReq) (hdata : kind ≠ .data) (hn : n < payload.length) :
      ∃ what, kind.decode frame = .error (.fr .eProtocol what) := by
    obtain ⟨taken, htaken, hfails⟩ := kind.cuts value henc hsize hchunk hdata _ _
      (run_of_encode henc)
    have hsplit : frame.payload ++ payload.drop n = payload := by
      rw [hframe, List.take_append_drop]
    refine decodeFrame_of_fails hfails (hsplit.trans htaken) (List.ne_nil_of_length_pos ?_)
    rw [List.length_drop]
    omega
  cases kind with
  | putChunkReq => exact putChunkReq_truncated henc hn hframe
  | data => cases hn
  | _ => exact hclosed nofun nofun hn

/-- The reply to a created upload, cut within its chunk size. -/
theorem decode_truncated_createUploadOk : ∃ what,
    MessageKind.decode .createUploadOk ⟨18, 0, 7, [0, 1, 97, 0, 0, 0, 0, 0]⟩ =
      .error (.fr .eProtocol what) :=
  have hpayload : MessageKind.encode .createUploadOk ⟨[97], 4194304, 1700000000⟩ =
      .ok [0, 1, 97, 0, 0, 0, 0, 0, 64, 0, 0, 0, 0, 0, 0, 101, 83, 241, 0] := by decide +kernel
  decode_truncated .createUploadOk _ hpayload (by decide) (n := 8) (by decide) _ rfl

end ForgeRelay
