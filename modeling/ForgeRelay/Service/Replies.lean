import ForgeRelay.Service.Dispatch
import ForgeRelay.Service.MessageRoundTrip

/-!
# The frames of a reply

`fr_frame_encode` writes a frame to the output unless its payload is too large, and the payload of
an error is written unless its text is too long.
-/

namespace ForgeRelay

open Program

theorem encodeFrame_isSome (f : FrFrame) : (encodeFrame f).isSome ↔ f.Encodable := by
  constructor
  · intro h
    obtain ⟨bytes, hbytes⟩ := Option.isSome_iff_exists.mp h
    exact (encodeFrame_eq_some hbytes).1
  · intro h
    rw [encodeFrame_of_encodable h]
    rfl

theorem outReqId_ne_zero (frame : FrFrame) : outReqId frame ≠ 0 := by
  unfold outReqId
  split
  · decide
  · assumption

section Fields

theorem putBytes_sized (value : Bytes) : Codec.Sized True value.length (putBytes value) :=
  fun _ => ⟨fun _ => ⟨value, rfl, rfl⟩, fun h => absurd trivial h⟩

theorem putStr_sized (value : Bytes) :
    Codec.Sized (value.length ≤ maxStringLen) (2 + value.length) (putStr value) := by
  intro out
  unfold putStr
  constructor
  · intro h
    rw [if_neg (Nat.not_lt.mpr h)]
    refine ⟨frStoreBe16 (UInt16.ofNat value.length) ++ value, ?_, ?_⟩
    · rw [← List.append_assoc]
      rfl
    · rw [List.length_append, frStoreBe16_length]
  · intro h
    rw [if_pos (Nat.not_le.mp h)]
    exact ⟨_, rfl⟩

theorem payloadOf_sized {fits : Prop} {n : Nat} {enc : MsgEncoder} (h : Codec.Sized fits n enc) :
    (fits → ∃ payload, payloadOf enc = .ok payload ∧ payload.length = n) ∧
      (¬ fits → ∃ e, payloadOf enc = .error e) := by
  obtain ⟨hok, herror⟩ := h []
  unfold payloadOf
  constructor
  · intro hfits
    obtain ⟨field, hrun, hlen⟩ := hok hfits
    exact ⟨field, by rw [hrun]; rfl, hlen⟩
  · intro hfits
    obtain ⟨e, hrun⟩ := herror hfits
    exact ⟨e, by rw [hrun]; rfl⟩

end Fields

section Emit

variable {reqId : UInt32} {payload : Bytes} (out : List FrFrame) (type : FrMsgType)

theorem emit_of_le (hid : reqId ≠ 0) (hlen : payload.length ≤ frFrameMaxPayload) :
    emit out type reqId payload = out ++ [⟨type.toByte, 0, reqId, payload⟩] := by
  have henc : FrFrame.Encodable ⟨type.toByte, 0, reqId, payload⟩ :=
    ⟨frMsgTypeValid_toByte type, rfl, hid, hlen⟩
  rw [emit, if_pos ((encodeFrame_isSome _).mpr henc)]

theorem emit_encodable {out : List FrFrame} (hout : ∀ f ∈ out, f.Encodable) (type : FrMsgType)
    (reqId : UInt32) (payload : Bytes) : ∀ f ∈ emit out type reqId payload, f.Encodable := by
  intro f hf
  unfold emit at hf
  split at hf
  · rename_i hsome
    rcases List.mem_append.mp hf with hf | hf
    · exact hout f hf
    · obtain rfl := List.mem_singleton.mp hf
      exact (encodeFrame_isSome _).mp hsome
  · exact hout f hf

theorem makeOk_encodable (frame : FrFrame) (payload : Bytes) :
    ∀ f ∈ (makeOk frame payload).out, f.Encodable :=
  emit_encodable (List.forall_mem_nil _) _ _ _

end Emit

/-- The bytes of an error's payload. -/
def errorPayload (code : FrStatus) (what : Bytes) : Bytes :=
  frStoreBe32 code.code.toUInt32 ++ (frStoreBe16 (UInt16.ofNat what.length) ++ what)

/-- The ERROR frame of a status. -/
def errorFrame (reqId : UInt32) (code : FrStatus) (what : Bytes) : FrFrame :=
  ⟨FrMsgType.error.toByte, 0, reqId, errorPayload code what⟩

theorem payloadOf_error (code : FrStatus) {what : Bytes} (hlen : what.length ≤ maxStringLen) :
    payloadOf (encodeErrorPayload ⟨code.code, what⟩) = .ok (errorPayload code what) := by
  rw [payloadOf, encodeErrorPayload, StateT.run_bind]
  change Except.map _ ((putStr what).run (frStoreBe32 code.code.toUInt32)) = _
  rw [putStr, if_neg (Nat.not_lt.mpr hlen), errorPayload, ← List.append_assoc]
  rfl

/-- The text of an error may be as long as a string field can be. -/
theorem payloadOf_error_long {code : FrStatus} {what : Bytes} (hlen : maxStringLen < what.length) :
    payloadOf (encodeErrorPayload ⟨code.code, what⟩) =
      .error (.of .eArg "string field exceeds protocol limit") := by
  rw [payloadOf, encodeErrorPayload, StateT.run_bind]
  change Except.map _ ((putStr what).run (frStoreBe32 code.code.toUInt32)) = _
  rw [putStr, if_pos hlen]
  rfl

theorem errorPayload_length (code : FrStatus) (what : Bytes) :
    (errorPayload code what).length = 6 + what.length := by
  simp only [errorPayload, List.length_append, frStoreBe32_length, frStoreBe16_length]
  omega

theorem decode_errorFrame {reqId : UInt32} {code : FrStatus} {what : Bytes}
    (hlen : what.length ≤ maxStringLen) :
    decodeFrame decodeErrorPayload (errorFrame reqId code what) = .ok ⟨code.code, what⟩ :=
  decodeFrame_of_roundTrips (errorPayload_roundTrips _) (payloadOf_error code hlen)

/-- The service behind one more failure of this peer. -/
def Service.noteFailure (env : RequestEnv) (peer : Bytes) (s : Service) : Service :=
  { s with
    ipStats := Function.update s.ipStats (ipOf peer)
      (some (((s.ipStats (ipOf peer)).getD ⟨0, 0, 0⟩).note env.monotonic)) }

theorem noteAuthFailure_run (env : RequestEnv) (peer : Bytes) (s : Service) :
    (noteAuthFailure env peer).run s = (.ok (), s.noteFailure env peer) := by
  rw [noteAuthFailure, Prog.run_lift, Service.noteFailure]

section Exceptions

variable {env : RequestEnv} {peer : Bytes} {session : ClientSession} {frame : FrFrame}
  {s : Service} {code : FrStatus} {what : Bytes}

private theorem emit_error (hlen : what.length ≤ maxStringLen) :
    emit [] .error (outReqId frame) (errorPayload code what) =
      [errorFrame (outReqId frame) code what] := by
  have hmax : maxStringLen + 6 ≤ frFrameMaxPayload := by decide
  exact emit_of_le [] .error (outReqId_ne_zero frame)
    (show (errorPayload code what).length ≤ _ by rw [errorPayload_length]; omega)

theorem replyError_run
    (hnot : ¬ (code = .eUnauthenticated ∧ FrMsgType.ofByte frame.type = some .auth))
    (hlen : what.length ≤ maxStringLen) :
    (replyError env peer session frame code what).run s =
      (.ok ({ HandleResult.empty with out := [errorFrame (outReqId frame) code what] }, session),
        s) := by
  unfold replyError
  dsimp only
  rw [if_neg hnot, if_neg hnot, payloadOf_error code hlen]
  change (Except.ok (_, session), s) = _
  rw [emit_error hlen]
  simp only [hnot, false_and, decide_false]
  rfl

theorem replyError_auth (htype : FrMsgType.ofByte frame.type = some .auth)
    (hlen : what.length ≤ maxStringLen) :
    (replyError env peer session frame .eUnauthenticated what).run s =
      (.ok ({ HandleResult.empty with
          out := [errorFrame (outReqId frame) .eUnauthenticated what]
          closeConnection := decide (authFailuresBeforeClose ≤ session.authFailures + 1) },
        { session with authFailures := session.authFailures + 1 }), s.noteFailure env peer) := by
  have hfailed : (FrStatus.eUnauthenticated = .eUnauthenticated ∧
      FrMsgType.ofByte frame.type = some .auth) := ⟨rfl, htype⟩
  unfold replyError
  dsimp only
  rw [if_pos hfailed, if_pos hfailed, Prog.run_bind, noteAuthFailure_run, payloadOf_error _ hlen]
  change (Except.ok (_, _), s.noteFailure env peer) = _
  rw [emit_error hlen]
  simp only [hfailed, true_and]

end Exceptions

end ForgeRelay
