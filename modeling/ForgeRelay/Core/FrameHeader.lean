import ForgeRelay.Core.Frame

/-!
# Encoded frames and the header check

The bytes of an encoded frame, and the exact set of headers which `frame_validate_header`
accepts: those that `fr_frame_encode` writes.
-/

namespace ForgeRelay

/-- What `fr_frame_encode` accepts. -/
structure FrFrame.Encodable (f : FrFrame) : Prop where
  type_valid : frMsgTypeValid f.type = true
  flags_zero : f.flags = 0
  reqId_ne : f.reqId ≠ 0
  payload_le : f.payload.length ≤ frFrameMaxPayload

/-- The bytes of one frame on the wire. -/
def frameBytes (f : FrFrame) : Bytes :=
  frameHeader f.type f.flags f.reqId (UInt32.ofNat f.payload.length) ++ f.payload

/-- The output of a successful `fr_frame_encode` into an empty buffer, with memory at hand. -/
def encodeFrame (f : FrFrame) : Option Bytes :=
  match frFrameEncode (fun _ => true) frBufInit f.type f.flags f.reqId f.payload with
  | (.ok, out) => some out.data
  | _ => none

/-- Twenty bytes which are the header of some frame that can be encoded. -/
def HeaderEncodable (header : Bytes) : Prop :=
  ∃ f bytes, encodeFrame f = some bytes ∧ header = bytes.take frFrameHeaderSize

@[simp] theorem frameHeaderFields_length (type : UInt8) (flags : UInt16) (reqId len : UInt32) :
    (frameHeaderFields type flags reqId len).length = 16 := by
  simp [frameHeaderFields, frFrameMagic, ascii]

@[simp] theorem frameHeader_length (type : UInt8) (flags : UInt16) (reqId len : UInt32) :
    (frameHeader type flags reqId len).length = 20 := by
  simp [frameHeader]

theorem frameBytes_length (f : FrFrame) : (frameBytes f).length = 20 + f.payload.length := by
  simp [frameBytes]

theorem frameBytes_take_header (f : FrFrame) :
    (frameBytes f).take frFrameHeaderSize =
      frameHeader f.type f.flags f.reqId (UInt32.ofNat f.payload.length) := by
  rw [frameBytes, List.take_append_of_le_length (by simp [frFrameHeaderSize])]
  exact List.take_of_length_le (by simp [frFrameHeaderSize])

theorem frameBytes_append_take (f : FrFrame) (rest : Bytes) :
    (frameBytes f ++ rest).take frFrameHeaderSize = (frameBytes f).take frFrameHeaderSize :=
  List.take_append_of_le_length (by rw [frameBytes_length, frFrameHeaderSize]; omega)

theorem payloadLen_toNat {n : Nat} (h : n ≤ frFrameMaxPayload) : (UInt32.ofNat n).toNat = n := by
  rw [UInt32.toNat_ofNat']
  apply Nat.mod_eq_of_lt
  unfold frFrameMaxPayload at h
  omega

theorem frFrameEncode_ok (out : FrBuf) (f : FrFrame) (hf : f.Encodable)
    (hlen : out.data.length ≤ 2^62) :
    ∃ cap, frFrameEncode (fun _ => true) out f.type f.flags f.reqId f.payload =
      (.ok, ⟨out.data ++ frameBytes f, cap⟩) := by
  obtain ⟨htype, hflags, hid, hpay⟩ := hf
  have hsmall : f.payload.length ≤ 8388608 := hpay
  have hfit : ¬ sizeLimit ≤ frFrameHeaderSize + f.payload.length := by
    unfold sizeLimit frFrameHeaderSize; omega
  obtain ⟨cap₁, h₁⟩ := frBufReserve_ok out (frFrameHeaderSize + f.payload.length)
    (by unfold frFrameHeaderSize; omega)
  obtain ⟨cap₂, h₂⟩ := frBufAppend_ok { out with cap := cap₁ }
    (frameHeader f.type f.flags f.reqId (UInt32.ofNat f.payload.length)) (by simp; omega)
  obtain ⟨cap₃, h₃⟩ := frBufAppend_ok
    ⟨out.data ++ frameHeader f.type f.flags f.reqId (UInt32.ofNat f.payload.length), cap₂⟩
    f.payload (by simp; omega)
  refine ⟨cap₃, ?_⟩
  unfold frFrameEncode
  simp only [htype, hflags, hid, Bool.not_true, Bool.false_eq_true, ne_eq, not_true_eq_false,
    if_false, Nat.not_lt.mpr hpay, hfit, h₁]
  rw [hflags] at h₂ h₃
  simp only [h₂, h₃, frameBytes, hflags, List.append_assoc]

theorem frFrameEncode_encodable {alloc : Nat → Bool} {out : FrBuf} {f : FrFrame}
    (h : (frFrameEncode alloc out f.type f.flags f.reqId f.payload).1 = .ok) : f.Encodable := by
  unfold frFrameEncode at h
  split at h
  · exact absurd h (by simp)
  · rename_i htype
    split at h
    · exact absurd h (by simp)
    · rename_i hflags
      split at h
      · exact absurd h (by simp)
      · rename_i hid
        split at h
        · exact absurd h (by simp)
        · rename_i hpay
          exact ⟨by simpa using htype, by simpa using hflags, hid, Nat.not_lt.mp hpay⟩

theorem encodeFrame_of_encodable {f : FrFrame} (hf : f.Encodable) :
    encodeFrame f = some (frameBytes f) := by
  obtain ⟨cap, h⟩ := frFrameEncode_ok frBufInit f hf (by simp [frBufInit])
  rw [encodeFrame, h]
  rfl

theorem encodeFrame_eq_some {f : FrFrame} {bytes : Bytes} (h : encodeFrame f = some bytes) :
    f.Encodable ∧ bytes = frameBytes f := by
  have hf : f.Encodable := by
    apply frFrameEncode_encodable
    unfold encodeFrame at h
    split at h
    · rename_i he
      rw [he]
    · exact absurd h (by simp)
  rw [encodeFrame_of_encodable hf] at h
  exact ⟨hf, (Option.some.inj h).symm⟩

private theorem header_split (h : Bytes) (hlen : h.length = 20) :
    h = (h.take 4 ++ h.getD 4 0 :: h.getD 5 0 :: ((h.drop 6).take 2 ++
      ((h.drop 8).take 4 ++ (h.drop 12).take 4))) ++ (h.drop 16).take 4 := by
  match h, hlen with
  | [_, _, _, _, _, _, _, _, _, _, _, _, _, _, _, _, _, _, _, _], _ => rfl

private theorem header_fields_split (h : Bytes) (hlen : h.length = 20) :
    h.take 16 = h.take 4 ++ h.getD 4 0 :: h.getD 5 0 :: ((h.drop 6).take 2 ++
      ((h.drop 8).take 4 ++ (h.drop 12).take 4)) := by
  match h, hlen with
  | [_, _, _, _, _, _, _, _, _, _, _, _, _, _, _, _, _, _, _, _], _ => rfl

/-- The conjunction of the checks of `frame_validate_header`. -/
structure HeaderChecks (h : Bytes) : Prop where
  magic : h.take 4 = frFrameMagic
  version : h.getD 4 0 = frFrameVersion
  flags : frLoadBe16 (h.drop 6) = 0
  reqId : frLoadBe32 (h.drop 8) ≠ 0
  type : frMsgTypeValid (h.getD 5 0) = true
  payload : ¬ UInt32.ofNat frFrameMaxPayload < frLoadBe32 (h.drop 12)
  crc : frLoadBe32 (h.drop 16) = frCrc32 (h.take 16)

/-- The parser after a header which passes. -/
def FrFrameParser.withHeader (p : FrFrameParser) : FrFrameParser :=
  { p with
    type := p.header.getD 5 0
    flags := 0
    reqId := frLoadBe32 (p.header.drop 8)
    payloadNeed := frLoadBe32 (p.header.drop 12) }

/-- The validation accepts exactly when all checks pass; it never touches the header bytes, the
phase or the payload. -/
theorem frameValidateHeader_cases (p : FrFrameParser) :
    (HeaderChecks p.header ∧ frameValidateHeader p = (.ok, p.withHeader)) ∨
    (¬ HeaderChecks p.header ∧ (frameValidateHeader p).1 = .eProtocol ∧
      (frameValidateHeader p).2.header = p.header ∧
      (frameValidateHeader p).2.headerDone = p.headerDone ∧
      (frameValidateHeader p).2.payloadBuf = p.payloadBuf) := by
  unfold frameValidateHeader
  dsimp only
  split
  · rename_i h
    exact .inr ⟨fun hc => h hc.magic, rfl, rfl, rfl, rfl⟩
  · rename_i hmagic
    split
    · rename_i h
      exact .inr ⟨fun hc => h hc.version, rfl, rfl, rfl, rfl⟩
    · rename_i hversion
      split
      · rename_i h
        exact .inr ⟨fun hc => h hc.flags, rfl, rfl, rfl, rfl⟩
      · rename_i hflags
        split
        · rename_i h
          exact .inr ⟨fun hc => hc.reqId h, rfl, rfl, rfl, rfl⟩
        · rename_i hid
          split
          · rename_i h
            exact .inr ⟨fun hc => by rw [hc.type] at h; exact absurd h (by decide),
              rfl, rfl, rfl, rfl⟩
          · rename_i htype
            split
            · rename_i h
              exact .inr ⟨fun hc => hc.payload h, rfl, rfl, rfl, rfl⟩
            · rename_i hpayload
              split
              · rename_i h
                exact .inr ⟨fun hc => h hc.crc, rfl, rfl, rfl, rfl⟩
              · rename_i hcrc
                simp only [ne_eq, not_not] at hmagic hversion hflags hcrc
                refine .inl ⟨⟨hmagic, hversion, hflags, hid, by simpa using htype, hpayload,
                  hcrc⟩, ?_⟩
                rw [FrFrameParser.withHeader, hflags]

theorem HeaderChecks.eq_frameHeader {h : Bytes} (hc : HeaderChecks h) (hlen : h.length = 20) :
    h = frameHeader (h.getD 5 0) 0 (frLoadBe32 (h.drop 8)) (frLoadBe32 (h.drop 12)) := by
  have hfields : h.take 16 = frameHeaderFields (h.getD 5 0) 0 (frLoadBe32 (h.drop 8))
      (frLoadBe32 (h.drop 12)) := by
    rw [header_fields_split h hlen, frameHeaderFields, hc.magic, hc.version, ← hc.flags,
      frStoreBe16_load _ (by simp [hlen]), frStoreBe32_load _ (by simp [hlen]),
      frStoreBe32_load _ (by simp [hlen])]
  rw [frameHeader, ← hfields, ← hc.crc, frStoreBe32_load _ (by simp [hlen]),
    header_fields_split h hlen]
  exact header_split h hlen

theorem HeaderChecks.payload_le {h : Bytes} (hc : HeaderChecks h) :
    (frLoadBe32 (h.drop 12)).toNat ≤ frFrameMaxPayload :=
  UInt32.le_iff_toNat_le.mp (UInt32.not_lt.mp hc.payload)

theorem headerChecks_frameHeader {type : UInt8} {reqId len : UInt32}
    (htype : frMsgTypeValid type = true) (hid : reqId ≠ 0) (hlen : len.toNat ≤ frFrameMaxPayload) :
    HeaderChecks (frameHeader type 0 reqId len) ∧
      (frameHeader type 0 reqId len).getD 5 0 = type ∧
      frLoadBe32 ((frameHeader type 0 reqId len).drop 8) = reqId ∧
      frLoadBe32 ((frameHeader type 0 reqId len).drop 12) = len := by
  have hfive : (frameHeader type 0 reqId len).getD 5 0 = type := rfl
  have hdrop6 : (frameHeader type 0 reqId len).drop 6 = frStoreBe16 0 ++ (frStoreBe32 reqId ++
      (frStoreBe32 len ++ frStoreBe32 (frCrc32 (frameHeaderFields type 0 reqId len)))) := by
    simp [frameHeader, frameHeaderFields, frFrameMagic, ascii]
  have hdrop8 : (frameHeader type 0 reqId len).drop 8 = frStoreBe32 reqId ++
      (frStoreBe32 len ++ frStoreBe32 (frCrc32 (frameHeaderFields type 0 reqId len))) := by
    have h := congrArg (List.drop 2) hdrop6
    rwa [List.drop_drop, List.drop_left' (by simp)] at h
  have hdrop12 : (frameHeader type 0 reqId len).drop 12 = frStoreBe32 len ++
      frStoreBe32 (frCrc32 (frameHeaderFields type 0 reqId len)) := by
    have h := congrArg (List.drop 4) hdrop8
    rwa [List.drop_drop, List.drop_left' (by simp)] at h
  have hdrop16 : (frameHeader type 0 reqId len).drop 16 =
      frStoreBe32 (frCrc32 (frameHeaderFields type 0 reqId len)) ++ [] := by
    simp [frameHeader]
  have htake : (frameHeader type 0 reqId len).take 16 = frameHeaderFields type 0 reqId len := by
    simp [frameHeader]
  refine ⟨⟨rfl, rfl, ?_, ?_, ?_, ?_, ?_⟩, hfive, ?_, ?_⟩
  · rw [hdrop6, frLoadBe16_store]
  · rw [hdrop8, frLoadBe32_store]; exact hid
  · rw [hfive]; exact htype
  · rw [hdrop12, frLoadBe32_store]
    exact UInt32.not_lt.mpr (UInt32.le_iff_toNat_le.mpr hlen)
  · rw [hdrop16, frLoadBe32_store, htake]
  · rw [hdrop8, frLoadBe32_store]
  · rw [hdrop12, frLoadBe32_store]

theorem headerChecks_iff (h : Bytes) (hlen : h.length = 20) :
    HeaderChecks h ↔ HeaderEncodable h := by
  constructor
  · intro hc
    have hle := hc.payload_le
    let f : FrFrame := ⟨h.getD 5 0, 0, frLoadBe32 (h.drop 8),
      List.replicate (frLoadBe32 (h.drop 12)).toNat 0⟩
    have hf : f.Encodable := ⟨hc.type, rfl, hc.reqId, by simpa [f] using hle⟩
    refine ⟨f, _, encodeFrame_of_encodable hf, ?_⟩
    rw [frameBytes_take_header, List.length_replicate, UInt32.ofNat_toNat]
    exact hc.eq_frameHeader hlen
  · rintro ⟨f, bytes, henc, rfl⟩
    obtain ⟨hf, rfl⟩ := encodeFrame_eq_some henc
    rw [frameBytes_take_header, hf.flags_zero]
    exact (headerChecks_frameHeader hf.type_valid hf.reqId_ne
      (by rw [payloadLen_toNat hf.payload_le]; exact hf.payload_le)).1

end ForgeRelay
