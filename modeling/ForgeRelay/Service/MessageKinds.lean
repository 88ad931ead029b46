import ForgeRelay.Service.MessageRoundTrip

/-!
# All message codecs together

The encoder/decoder pairs as one family, and the exact set of values on which a pair agrees
when the encoded payload fits one frame.
-/

namespace ForgeRelay

open Codec

private theorem putBytes_writes (value : Bytes) : Writes value.length (putBytes value) := by
  intro out out' hrun
  cases hrun
  rw [List.length_append]

private theorem putU32_writes (value : UInt32) : Writes 4 (putU32 value) :=
  frStoreBe32_length value ▸ putBytes_writes (frStoreBe32 value)

private theorem putU64_writes (value : UInt64) : Writes 8 (putU64 value) :=
  frStoreBe64_length value ▸ putBytes_writes (frStoreBe64 value)

private theorem putDigest_writes (hex : Bytes) : Writes digestHexLen (putDigest hex) := by
  intro out out' hrun
  unfold putDigest at hrun
  split at hrun
  · cases hrun
  · rename_i hlen
    rw [← not_not.mp hlen]
    exact putBytes_writes hex out out' hrun

private theorem putStr_writes (value : Bytes) : Writes 2 (putStr value) := by
  intro out out' hrun
  unfold putStr at hrun
  split at hrun
  · cases hrun
  · have hlength : Writes 2 (putU16 (UInt16.ofNat value.length)) :=
      frStoreBe16_length (UInt16.ofNat value.length) ▸ putBytes_writes (frStoreBe16 _)
    have hboth := (hlength.bind (putBytes_writes value)) out out' hrun
    omega

private theorem putU8_writes (value : UInt8) : Writes 1 (putU8 value) := putBytes_writes [value]

theorem artifactSummary_writes (item : ArtifactSummary) :
    Writes 88 (encodeArtifactSummary item) :=
  (putStr_writes _).bind <| (putStr_writes _).bind <| (putStr_writes _).bind <|
    (putU64_writes _).bind <| (putDigest_writes _).bind <| (putStr_writes _).bind <|
    putU64_writes _

theorem userItem_writes (item : UserItem) : Writes 12 (encodeUserItem item) :=
  (putStr_writes _).bind <| (putU8_writes _).bind <| (putU8_writes _).bind <| putU64_writes _

theorem tokenItem_writes (item : TokenItem) : Writes 27 (encodeTokenItem item) :=
  (putU64_writes _).bind <| (putStr_writes _).bind <| (putU64_writes _).bind <|
    (putU64_writes _).bind <| putU8_writes _

theorem sessionItem_writes (item : SessionItem) : Writes 27 (encodeSessionItem item) :=
  (putStr_writes _).bind <| (putStr_writes _).bind <| (putU8_writes _).bind <|
    (putStr_writes _).bind <| (putStr_writes _).bind <| (putStr_writes _).bind <|
    (putU64_writes _).bind <| putU64_writes _

private theorem manifestEntry_writes (entry : ManifestEntry) :
    Writes 84 (encodeManifestEntry entry) :=
  (putU32_writes _).bind <| (putU64_writes _).bind <| (putU64_writes _).bind <|
    putDigest_writes _

section Lists

variable {α : Type} {item : α → MsgEncoder} {items : List α} {dec : MsgDecoder α} {f : α → α}
  {limit : Nat} {what : String}

private theorem encodeItems_roundTrips (what : String) (tail : Bytes)
    (hitem : ∀ x ∈ items, ∀ t, RoundTrips t (item x) dec (f x)) (hcount : items.length ≤ limit)
    (hlimit : limit < UInt32.size) :
    RoundTrips tail (encodeItems item items) (decodeItemsUpTo limit what dec)
      (items.map f) := by
  have hnarrow : (UInt32.ofNat items.length).toNat = items.length :=
    UInt32.toNat_ofNat_of_lt' (by omega)
  refine .bind (putU32_roundTrips · _) ?_
  rw [hnarrow, if_neg (Nat.not_lt.mpr hcount)]
  exact Inverts.items _ hitem

theorem encodeItems_length {n : Nat} (hitem : ∀ x ∈ items, Writes n (item x)) {out out' : Bytes}
    (hrun : (encodeItems item items).run out = .ok ((), out')) :
    out.length + (4 + items.length * n) ≤ out'.length :=
  (putU32_writes _).bind (Writes.items items hitem) out out' hrun

private theorem encodeItems_overlong (tail : Bytes)
    (hitem : ∀ x ∈ items, ∀ t, RoundTrips t (item x) dec (f x)) (hcount : limit < items.length)
    (hsize : items.length < UInt32.size) {out out' : Bytes}
    (hrun : (encodeItems item items).run out = .ok ((), out')) :
    ∃ taken, out' = out ++ taken ∧ ∀ r : FrBufReader, r.rest = taken ++ tail →
      (decodeItemsUpTo limit what dec).run r = .error (protocolError what) := by
  have hnarrow : (UInt32.ofNat items.length).toNat = items.length :=
    UInt32.toNat_ofNat_of_lt' hsize
  obtain ⟨mid, hhead, hitems⟩ := run_seq_ok hrun
  obtain ⟨body, hout', -⟩ := Inverts.items tail hitem _ _ hitems
  obtain ⟨head, hmid, hread⟩ := putU32_roundTrips (body ++ tail) _ _ _ hhead
  refine ⟨head ++ body, by rw [hout', hmid, List.append_assoc], fun r hr => ?_⟩
  rw [List.append_assoc] at hr
  obtain ⟨r', hcounted, -⟩ := hread r hr
  rw [decodeItemsUpTo, StateT.run_bind, hcounted]
  change (if limit < (UInt32.ofNat items.length).toNat then
    throw (protocolError what) else decodeItems dec _ : MsgDecoder (List α)).run r' = _
  rw [hnarrow, if_pos hcount]
  rfl

end Lists

/-- The encoder/decoder pairs of `fr::msg`. -/
inductive MessageKind
  | ref | helloReq | authReq | authOk | createUploadReq | createUploadOk | putChunkReq
  | putChunkOk | queryUploadOk | commitUploadOk | getArtifactReq | data | getArtifactOk
  | listArtifactsReq | artifactSummary | listArtifactsOk | showArtifactOk | statusOk
  | deleteArtifactOk | runGcReq | runGcOk | userAddReq | userItem | userListOk | tokenCreateReq
  | tokenCreateOk | tokenItem | tokenListOk | sessionItem | sessionListOk | errorPayload
  deriving DecidableEq, Repr

/-- The values of a kind of message. -/
abbrev MessageKind.Value : MessageKind → Type
  | .ref => ArtifactRef
  | .helloReq => HelloReq
  | .authReq => AuthReq
  | .authOk => AuthOk
  | .createUploadReq => CreateUploadReq
  | .createUploadOk => CreateUploadOk
  | .putChunkReq => PutChunkReq
  | .putChunkOk => PutChunkOk
  | .queryUploadOk => QueryUploadOk
  | .commitUploadOk => CommitUploadOk
  | .getArtifactReq => GetArtifactReq
  | .data => DataPayload
  | .getArtifactOk => GetArtifactOk
  | .listArtifactsReq => ListArtifactsReq
  | .artifactSummary => ArtifactSummary
  | .listArtifactsOk => ListArtifactsOk
  | .showArtifactOk => ShowArtifactOk
  | .statusOk => StatusOk
  | .deleteArtifactOk => DeleteArtifactOk
  | .runGcReq => RunGcReq
  | .runGcOk => RunGcOk
  | .userAddReq => UserAddReq
  | .userItem => UserItem
  | .userListOk => UserListOk
  | .tokenCreateReq => TokenCreateReq
  | .tokenCreateOk => TokenCreateOk
  | .tokenItem => TokenItem
  | .tokenListOk => TokenListOk
  | .sessionItem => SessionItem
  | .sessionListOk => SessionListOk
  | .errorPayload => ErrorPayload

def MessageKind.encoder : (kind : MessageKind) → kind.Value → MsgEncoder
  | .ref => putRef
  | .helloReq => encodeHelloReq
  | .authReq => encodeAuthReq
  | .authOk => encodeAuthOk
  | .createUploadReq => encodeCreateUploadReq
  | .createUploadOk => encodeCreateUploadOk
  | .putChunkReq => encodePutChunkReq
  | .putChunkOk => encodePutChunkOk
  | .queryUploadOk => encodeQueryUploadOk
  | .commitUploadOk => encodeCommitUploadOk
  | .getArtifactReq => encodeGetArtifactReq
  | .data => encodeData
  | .getArtifactOk => encodeGetArtifactOk
  | .listArtifactsReq => encodeListArtifactsReq
  | .artifactSummary => encodeArtifactSummary
  | .listArtifactsOk => encodeListArtifactsOk
  | .showArtifactOk => encodeShowArtifactOk
  | .statusOk => encodeStatusOk
  | .deleteArtifactOk => encodeDeleteArtifactOk
  | .runGcReq => encodeRunGcReq
  | .runGcOk => encodeRunGcOk
  | .userAddReq => encodeUserAddReq
  | .userItem => encodeUserItem
  | .userListOk => encodeUserListOk
  | .tokenCreateReq => encodeTokenCreateReq
  | .tokenCreateOk => encodeTokenCreateOk
  | .tokenItem => encodeTokenItem
  | .tokenListOk => encodeTokenListOk
  | .sessionItem => encodeSessionItem
  | .sessionListOk => encodeSessionListOk
  | .errorPayload => encodeErrorPayload

def MessageKind.decoder : (kind : MessageKind) → MsgDecoder kind.Value
  | .ref => decodeRef
  | .helloReq => decodeHelloReq
  | .authReq => decodeAuthReq
  | .authOk => decodeAuthOk
  | .createUploadReq => decodeCreateUploadReq
  | .createUploadOk => decodeCreateUploadOk
  | .putChunkReq => decodePutChunkReq
  | .putChunkOk => decodePutChunkOk
  | .queryUploadOk => decodeQueryUploadOk
  | .commitUploadOk => decodeCommitUploadOk
  | .getArtifactReq => decodeGetArtifactReq
  | .data => decodeData
  | .getArtifactOk => decodeGetArtifactOk
  | .listArtifactsReq => decodeListArtifactsReq
  | .artifactSummary => decodeArtifactSummary
  | .listArtifactsOk => decodeListArtifactsOk
  | .showArtifactOk => decodeShowArtifactOk
  | .statusOk => decodeStatusOk
  | .deleteArtifactOk => decodeDeleteArtifactOk
  | .runGcReq => decodeRunGcReq
  | .runGcOk => decodeRunGcOk
  | .userAddReq => decodeUserAddReq
  | .userItem => decodeUserItem
  | .userListOk => decodeUserListOk
  | .tokenCreateReq => decodeTokenCreateReq
  | .tokenCreateOk => decodeTokenCreateOk
  | .tokenItem => decodeTokenItem
  | .tokenListOk => decodeTokenListOk
  | .sessionItem => decodeSessionItem
  | .sessionListOk => decodeSessionListOk
  | .errorPayload => decodeErrorPayload

/-- The payload of a message: what its encoder appends to an empty buffer. -/
def MessageKind.encode (kind : MessageKind) (value : kind.Value) : Except Error Bytes :=
  ((kind.encoder value).run []).map Prod.snd

/-- The value that a frame's payload decodes to. -/
def MessageKind.decode (kind : MessageKind) (frame : FrFrame) : Except Error kind.Value :=
  decodeFrame kind.decoder frame

/-- A HELLO request speaks the protocol version of this build. -/
def MessageKind.Speaks : (kind : MessageKind) → kind.Value → Prop
  | .helloReq, req => req.protocolVersion = frProtocolVersion
  | _, _ => True

/-- Lists stay within the bound of their decoder, and ordinals within 32 bits. -/
def MessageKind.Receivable : (kind : MessageKind) → kind.Value → Prop
  | .listArtifactsOk, ok => ok.items.length ≤ maxListCount
  | .userListOk, ok => ok.items.length ≤ maxListCount
  | .tokenListOk, ok => ok.items.length ≤ maxListCount
  | .sessionListOk, ok => ok.items.length ≤ maxListCount
  | .showArtifactOk, ok => ∀ entry ∈ ok.info.chunks, entry.ordinal.toUInt64.toNat < 2^32
  | _, _ => True

private theorem maxPayload_lt : frFrameMaxPayload < UInt32.size := by decide

private theorem maxListCount_lt : maxListCount < UInt32.size := by decide

private theorem maxManifestCount_lt : maxManifestCount < UInt32.size := by decide

section ListAnswers

variable {α β : Type} {item : α → MsgEncoder} {dec : MsgDecoder α} {items : List α}
  {frame : FrFrame} {n : Nat}

/-- A list answer beyond the decoder's bound is rejected, although it has been written. -/
private theorem listOk_overlong (pack : List α → β) (hitem : ∀ x t, RoundTrips t (item x) dec x)
    (hwrites : ∀ x, Writes (n+1) (item x))
    (henc : ((encodeItems item items).run []).map Prod.snd = .ok frame.payload)
    (hfit : frame.payload.length ≤ frFrameMaxPayload) (hcount : maxListCount < items.length) :
    decodeFrame (decodeItemsUpTo maxListCount "list count too large" dec >>= fun items =>
      pure (pack items)) frame = .error (protocolError "list count too large") := by
  have hrun := run_of_encode henc
  have hlength := encodeItems_length (fun x _ => hwrites x) hrun
  have hsize : items.length < UInt32.size := by
    have hmax := maxPayload_lt
    have hone : items.length ≤ items.length * (n+1) := Nat.le_mul_of_pos_right _ (by omega)
    omega
  obtain ⟨taken, hpayload, hreject⟩ := encodeItems_overlong (f := id) [] (fun x _ t => hitem x t)
    hcount hsize hrun
  have hrejected := hreject (frBufReaderInit frame.payload) (by
    rw [hpayload]
    simp [FrBufReader.rest, frBufReaderInit])
  rw [decodeFrame, StateT.run_bind, hrejected]
  rfl

private theorem listOk_iff (pack : List α → β) (hitem : ∀ x t, RoundTrips t (item x) dec x)
    (hwrites : ∀ x, Writes (n+1) (item x))
    (henc : ((encodeItems item items).run []).map Prod.snd = .ok frame.payload)
    (hfit : frame.payload.length ≤ frFrameMaxPayload) :
    decodeFrame (decodeItemsUpTo maxListCount "list count too large" dec >>= fun items =>
        pure (pack items)) frame = .ok (pack items) ↔ items.length ≤ maxListCount := by
  refine ⟨fun hdec => ?_, fun hcount => ?_⟩
  · by_contra hcount
    rw [listOk_overlong pack hitem hwrites henc hfit (Nat.not_le.mp hcount)] at hdec
    cases hdec
  · refine decodeFrame_of_roundTrips (Inverts.map pack ?_) henc
    have hitems := encodeItems_roundTrips (f := id) "list count too large" []
      (fun x _ t => hitem x t) hcount maxListCount_lt
    rwa [List.map_id] at hitems

end ListAnswers

private theorem received_eq_iff (entry : ManifestEntry) :
    entry.received = entry ↔ entry.ordinal.toUInt64.toNat < 2^32 := by
  have hwiden : entry.ordinal.toUInt64.toUInt32.toUInt64.toNat =
      entry.ordinal.toUInt64.toNat % 2^32 := by simp
  constructor
  · intro h
    have hordinal := congrArg (fun e => e.ordinal.toUInt64.toNat) h
    simp only [ManifestEntry.received, UInt64.toUInt64_toInt64, hwiden] at hordinal
    omega
  · intro h
    have hsame : entry.ordinal.toUInt64.toUInt32.toUInt64 = entry.ordinal.toUInt64 :=
      UInt64.toNat_inj.mp (by rw [hwiden, Nat.mod_eq_of_lt h])
    simp only [ManifestEntry.received, hsame, Int64.toInt64_toUInt64]

theorem showArtifactOk_writes (ok : ShowArtifactOk) :
    Writes (ok.info.chunks.length * 84) (encodeShowArtifactOk ok) := by
  intro out out' hrun
  have hlength := ((putStr_writes _).bind <| (putStr_writes _).bind <| (putStr_writes _).bind <|
    (putU64_writes _).bind <| (putDigest_writes _).bind <| (putU64_writes _).bind <|
    (putStr_writes _).bind <| (putU64_writes _).bind <| (putStr_writes _).bind <|
    (putU32_writes _).bind <| Writes.items _ fun entry _ => manifestEntry_writes entry)
    out out' hrun
  omega

/-- A manifest that fits one frame has too few entries to reach the decoder's bound, so the
receiver gets every entry, with its ordinal narrowed. -/
theorem showArtifactOk_received {ok : ShowArtifactOk} {frame : FrFrame}
    (henc : ((encodeShowArtifactOk ok).run []).map Prod.snd = .ok frame.payload)
    (hfit : frame.payload.length ≤ frFrameMaxPayload) :
    decodeFrame decodeShowArtifactOk frame =
      .ok ⟨{ ok.info with chunks := ok.info.chunks.map ManifestEntry.received }⟩ := by
  have hlength := showArtifactOk_writes ok _ _ (run_of_encode henc)
  have hcount : ok.info.chunks.length ≤ maxManifestCount := by
    unfold frFrameMaxPayload at hfit
    unfold maxManifestCount
    omega
  refine decodeFrame_of_roundTrips ?_ henc
  exact .bind (putStr_roundTrips · _) <| .bind (putStr_roundTrips · _) <|
    .bind (putStr_roundTrips · _) <| .bind (putU64_roundTrips · _) <|
    .bind (putDigest_roundTrips · _) <| .bind (putU64_roundTrips · _) <|
    .bind (putStr_roundTrips · _) <| .bind (putI64_roundTrips · _) <|
    .bind (putStr_roundTrips · _) <| (encodeItems_roundTrips _ []
      (fun entry _ t => manifestEntry_roundTrips t entry) hcount maxManifestCount_lt).map _

private theorem showArtifactOk_eq_iff (ok : ShowArtifactOk) :
    (.ok ⟨{ ok.info with chunks := ok.info.chunks.map ManifestEntry.received }⟩ :
      Except Error ShowArtifactOk) = .ok ok ↔
    ∀ entry ∈ ok.info.chunks, entry.ordinal.toUInt64.toNat < 2^32 := by
  have hchunks : (.ok ⟨{ ok.info with chunks := ok.info.chunks.map ManifestEntry.received }⟩ :
      Except Error ShowArtifactOk) = .ok ok ↔
      ok.info.chunks.map ManifestEntry.received = ok.info.chunks.map id := by
    rw [List.map_id]
    constructor
    · intro h
      exact congrArg (fun s => s.info.chunks) (Except.ok.inj h)
    · intro h
      rw [h]
  rw [hchunks, List.map_inj_left]
  exact forall₂_congr fun entry _ => received_eq_iff entry

/-- A message that its encoder accepts and that fits one frame is received unchanged exactly
when its lists are within the decoder's bound and its ordinals fit 32 bits. -/
theorem decode_encode_iff_receivable (kind : MessageKind) (value : kind.Value) (frame : FrFrame)
    (henc : kind.encode value = .ok frame.payload)
    (hfit : frame.payload.length ≤ frFrameMaxPayload) (hspeaks : kind.Speaks value) :
    kind.decode frame = .ok value ↔ kind.Receivable value := by
  have hsame {k : MessageKind} {v : k.Value} (h : RoundTrips [] (k.encoder v) k.decoder v)
      (henc : k.encode v = .ok frame.payload) : k.decode frame = .ok v ↔ True :=
    iff_of_true (decodeFrame_of_roundTrips h henc) trivial
  cases kind with
  | listArtifactsOk =>
    exact listOk_iff ListArtifactsOk.mk (fun x t => artifactSummary_roundTrips t x)
      artifactSummary_writes henc hfit
  | userListOk =>
    exact listOk_iff UserListOk.mk (fun x t => userItem_roundTrips t x) userItem_writes henc hfit
  | tokenListOk =>
    exact listOk_iff TokenListOk.mk (fun x t => tokenItem_roundTrips t x) tokenItem_writes henc
      hfit
  | sessionListOk =>
    exact listOk_iff SessionListOk.mk (fun x t => sessionItem_roundTrips t x) sessionItem_writes
      henc hfit
  | showArtifactOk =>
    have hdecode : MessageKind.decode .showArtifactOk frame = _ :=
      showArtifactOk_received henc hfit
    rw [hdecode]
    exact showArtifactOk_eq_iff value
  | ref => exact hsame (putRef_roundTrips [] value) henc
  | helloReq => exact hsame (helloReq_roundTrips value hspeaks) henc
  | authReq => exact hsame (authReq_roundTrips value) henc
  | authOk => exact hsame (authOk_roundTrips value) henc
  | createUploadReq => exact hsame (createUploadReq_roundTrips value) henc
  | createUploadOk => exact hsame (createUploadOk_roundTrips value) henc
  | putChunkReq => exact hsame (putChunkReq_roundTrips value) henc
  | putChunkOk => exact hsame (putChunkOk_roundTrips value) henc
  | queryUploadOk => exact hsame (queryUploadOk_roundTrips value) henc
  | commitUploadOk => exact hsame (commitUploadOk_roundTrips value) henc
  | getArtifactReq => exact hsame (getArtifactReq_roundTrips value) henc
  | data => exact hsame (data_roundTrips value) henc
  | getArtifactOk => exact hsame (getArtifactOk_roundTrips value) henc
  | listArtifactsReq => exact hsame (listArtifactsReq_roundTrips value) henc
  | artifactSummary => exact hsame (artifactSummary_roundTrips [] value) henc
  | statusOk => exact hsame (statusOk_roundTrips value) henc
  | deleteArtifactOk => exact hsame (deleteArtifactOk_roundTrips value) henc
  | runGcReq => exact hsame (runGcReq_roundTrips value) henc
  | runGcOk => exact hsame (runGcOk_roundTrips value) henc
  | userAddReq => exact hsame (userAddReq_roundTrips value) henc
  | userItem => exact hsame (userItem_roundTrips [] value) henc
  | tokenCreateReq => exact hsame (tokenCreateReq_roundTrips value) henc
  | tokenCreateOk => exact hsame (tokenCreateOk_roundTrips value) henc
  | tokenItem => exact hsame (tokenItem_roundTrips [] value) henc
  | sessionItem => exact hsame (sessionItem_roundTrips [] value) henc
  | errorPayload => exact hsame (errorPayload_roundTrips value) henc

/-- A PUT_CHUNK request passes through a frame. -/
theorem decode_encode_iff_receivable_putChunk :
    MessageKind.putChunkReq.decode
      ⟨FrMsgType.putChunk.toByte, 0, 7, frStoreBe16 2 ++ ascii "s1" ++ frStoreBe64 3 ++ [1, 2]⟩ =
        .ok ⟨ascii "s1", 3, [1, 2]⟩ ↔
      MessageKind.Receivable .putChunkReq ⟨ascii "s1", 3, [1, 2]⟩ :=
  decode_encode_iff_receivable .putChunkReq ⟨ascii "s1", 3, [1, 2]⟩
    ⟨FrMsgType.putChunk.toByte, 0, 7, frStoreBe16 2 ++ ascii "s1" ++ frStoreBe64 3 ++ [1, 2]⟩
    (by decide) (by decide) trivial

/-- A user without a name. -/
private def blankUser : UserItem := ⟨[], 0, true, 0⟩

/-- The wire form of `blankUser`. -/
private def blankUserBytes : Bytes := [0, 0, 0, 1, 0, 0, 0, 0, 0, 0, 0, 0]

/-- The wire form of `n` blank users. -/
private def blankUsersBytes (n : Nat) : Bytes :=
  frStoreBe32 (UInt32.ofNat n) ++ (List.replicate n blankUserBytes).flatten

private theorem blankUsersBytes_length (n : Nat) : (blankUsersBytes n).length = 4 + n * 12 := by
  simp [blankUsersBytes, blankUserBytes]

private theorem blankUsers_run (n : Nat) (out : Bytes) :
    ((List.replicate n blankUser).forM encodeUserItem).run out =
      .ok ((), out ++ (List.replicate n blankUserBytes).flatten) := by
  induction n generalizing out with
  | zero =>
    simp only [List.replicate_zero, List.flatten_nil, List.append_nil]
    rfl
  | succ n ih =>
    have hone : (encodeUserItem blankUser).run out = .ok ((), out ++ blankUserBytes) := by
      change Except.ok ((), out ++ [0, 0] ++ [] ++ [0] ++ [1] ++ [0, 0, 0, 0, 0, 0, 0, 0]) = _
      simp [blankUserBytes]
    change (encodeUserItem blankUser >>= fun _ =>
      (List.replicate n blankUser).forM encodeUserItem).run out = _
    rw [StateT.run_bind, hone]
    change ((List.replicate n blankUser).forM encodeUserItem).run _ = _
    rw [ih, List.replicate_succ, List.flatten_cons, List.append_assoc]

private theorem blankUsers_encode (n : Nat) :
    ((encodeItems encodeUserItem (List.replicate n blankUser)).run []).map Prod.snd =
      .ok (blankUsersBytes n) := by
  rw [encodeItems, List.length_replicate, StateT.run_bind]
  change Except.map Prod.snd
    (((List.replicate n blankUser).forM encodeUserItem).run (frStoreBe32 (UInt32.ofNat n))) = _
  rw [blankUsers_run]
  rfl

/-- 4097 users: the encoder writes the answer, which fits one frame, and the decoder rejects
it. -/
theorem userListOk_overlong_rejected :
    ∃ frame : FrFrame,
      MessageKind.userListOk.encode ⟨List.replicate 4097 ⟨[], 0, true, 0⟩⟩ = .ok frame.payload ∧
      frame.payload.length ≤ frFrameMaxPayload ∧
      MessageKind.userListOk.decode frame =
        .error (.of .eProtocol "payload: list count too large") := by
  have hfit : (blankUsersBytes 4097).length ≤ frFrameMaxPayload := by
    rw [blankUsersBytes_length]
    decide
  have hcount : maxListCount < (List.replicate 4097 blankUser).length := by
    rw [List.length_replicate]
    decide
  refine ⟨⟨FrMsgType.ok.toByte, 0, 1, blankUsersBytes 4097⟩, blankUsers_encode 4097, hfit, ?_⟩
  exact listOk_overlong UserListOk.mk (fun x t => userItem_roundTrips t x) userItem_writes
    (blankUsers_encode 4097) hfit hcount

end ForgeRelay
