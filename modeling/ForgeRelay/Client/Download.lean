import ForgeRelay.Core.Hex
import ForgeRelay.Service.Replies
import Mathlib.Data.List.DropRight

/-!
# Downloads at the client

`frctl download`: the reply to SHOW_ARTIFACT tells size and digest, the data of the DATA frames is
written to `<output>.part`, behind what an earlier run has left there, and at the end this file
takes the place of the output. Nothing compares what has been written with what was announced.
-/

namespace ForgeRelay

/-- How a command fails: by a `CommandError`, by an exception of the client, or by the exception
that an ERROR frame of the server becomes. -/
inductive CommandFailure
  | command (code : Nat) (message : Bytes)
  | client (e : Error)
  | server (payload : ErrorPayload)
  deriving DecidableEq, Repr

/-- A connection: the clock at its requests, the requests it has sent, the frames that the next
calls of `read_frame` return, and the exception of the call behind them. -/
structure ClientConn where
  clock : Nat → UInt32
  sent : List Bytes
  frames : List FrFrame
  lost : Error

abbrev ClientM := StateT ClientConn (Except CommandFailure)

/-- `"frctl "` and `fr_core_version_string()`. -/
def clientVersion : Bytes := ascii "frctl libfrcore 0.1.0"

namespace Client

/-- The payload of a request. -/
def message (enc : MsgEncoder) : ClientM Bytes :=
  match payloadOf enc with
  | .ok payload => pure payload
  | .error e => throw (.client e)

/-- The first half of `Client::request`. -/
def sendRequest (type : FrMsgType) (payload : Bytes) : ClientM Unit := fun conn =>
  let reqId := (conn.clock conn.sent.length &&& 0x7fffffff) ||| 1
  match frFrameEncode (fun _ => true) frBufInit type.toByte 0 reqId payload with
  | (.ok, out) => .ok ((), { conn with sent := conn.sent ++ [out.data] })
  | (st, _) => .error (.client (.of st "encode request failed"))

/-- `Client::read_frame`. -/
def nextFrame : ClientM FrFrame := fun conn =>
  match conn.frames with
  | [] => .error (.client conn.lost)
  | frame :: frames => .ok (frame, { conn with frames })

/-- The exception that an ERROR frame becomes. -/
def serverFailure (frame : FrFrame) : CommandFailure :=
  match decodeFrame decodeErrorPayload frame with
  | .ok payload => .server payload
  | .error e => .client e

/-- `Client::request`; nobody looks at the id of the reply. -/
def request (type : FrMsgType) (payload : Bytes) : ClientM FrFrame := do
  sendRequest type payload
  let frame ← nextFrame
  if frame.type = FrMsgType.error.toByte then throw (serverFailure frame)
  else if frame.type ≠ FrMsgType.ok.toByte ∧ frame.type ≠ FrMsgType.data.toByte then
    throw (.client (.of .eProtocol "unexpected response frame type"))
  else return frame

/-- `Client::connect` from the handshake on. -/
def connect (token : Bytes) : ClientM Unit := do
  let hello ← message (encodeHelloReq ⟨frProtocolVersion, clientVersion⟩)
  let _ ← request .hello hello
  if token = [] then return
  else do
    let auth ← message (encodeAuthReq ⟨token⟩)
    let _ ← request .auth auth
    return

def showArtifact (ref : ArtifactRef) : ClientM ArtifactInfo := do
  let payload ← message (putRef ref)
  let frame ← request .showArtifact payload
  match decodeFrame decodeShowArtifactOk frame with
  | .ok ok => return ok.info
  | .error e => throw (.client e)

section Download

variable {σ : Type} (sink : Bytes → σ → Except CommandFailure Unit × σ)

/-- The loop of `Client::download`, with the frame it holds and the frames that are still to
come. -/
def downloadLoop (lost : Error) : FrFrame → List FrFrame → UInt64 → σ →
    Except CommandFailure UInt64 × σ
  | frame, frames, total, s =>
    if frame.type ≠ FrMsgType.data.toByte then
      if frame.type ≠ FrMsgType.ok.toByte then
        (.error (.client (.of .eProtocol "download ended unexpectedly")), s)
      else (.ok total, s)
    else
      match decodeFrame decodeData frame with
      | .error e => (.error (.client e), s)
      | .ok payload =>
        match (if payload.data = [] then (.ok (), s) else sink payload.data s) with
        | (.error e, s) => (.error e, s)
        | (.ok _, s) =>
          match frames with
          | [] => (.error (.client lost), s)
          | next :: frames =>
            if next.type = FrMsgType.error.toByte then (.error (serverFailure next), s)
            else downloadLoop lost next frames (total + UInt64.ofNat payload.data.length) s

def download (req : GetArtifactReq) (conn : ClientConn) (s : σ) :
    Except CommandFailure UInt64 × σ :=
  let asked : ClientM FrFrame := do
    let payload ← message (encodeGetArtifactReq req)
    request .getArtifact payload
  match asked.run conn with
  | .error e => (.error e, s)
  | .ok (frame, conn) => downloadLoop sink conn.lost frame conn.frames 0 s

end Download

end Client

/-- What the system answers: whether the part file can be opened, how many bytes the disk has room
for, how many of the last bytes written the flush at the close loses, and whether the first rename,
the removal of the output and the second rename succeed. -/
structure DiskResults where
  opens : Bool
  room : Nat
  unflushed : Nat
  renames : Bool
  removes : Bool
  renamesAgain : Bool

/-- The part file while it is open: what it has held before, and what is written to it. -/
structure PartFile where
  kept : Bytes
  written : Bytes
  deriving DecidableEq, Repr

/-- The sink of `cmd_download`. -/
def PartFile.write (io : DiskResults) (output data : Bytes) (file : PartFile) :
    Except CommandFailure Unit × PartFile :=
  let written := (file.written ++ data).take io.room
  if io.room < file.written.length + data.length then
    (.error (.command 7 (ascii "write failed: " ++ output)), { file with written })
  else (.ok (), { file with written })

/-- The content of the file after it has been closed. -/
def PartFile.close (io : DiskResults) (file : PartFile) : Bytes :=
  file.kept ++ file.written.rdrop io.unflushed

/-- `<output>.part`. -/
def partPath (output : Bytes) : Bytes := output ++ ascii ".part"

/-- `std::filesystem::rename` of a file that exists, where the outcome is known. -/
def renameOver (succeeds : Bool) (files : Bytes → Option Bytes) (src dst : Bytes) :
    Bytes → Option Bytes :=
  if succeeds then Function.update (Function.update files src none) dst (files src) else files

/-- The end of `cmd_download`: the output is replaced, or removed and then replaced. -/
def replaceOutput (io : DiskResults) (files : Bytes → Option Bytes) (output : Bytes) :
    Bytes → Option Bytes :=
  let files' := renameOver io.renames files (partPath output) output
  if io.renames then files'
  else
    let files' := if io.removes then Function.update files' output none else files'
    renameOver io.renamesAgain files' (partPath output) output

/-- The reference `<ns>/<name>:<version>`, cut at its first slash and its last colon. -/
def parseArtifactRef (ref : Bytes) : Except CommandFailure ArtifactRef :=
  match ref.idxOf? 47, (ref.reverse.idxOf? 58).map (ref.length - 1 - ·) with
  | some slash, some colon =>
    if colon < slash then
      .error (.command 2 (ascii "artifact ref must be <ns>/<name>:<version>"))
    else
      .ok {
        ns := ref.take slash
        name := (ref.drop (slash + 1)).take (colon - slash - 1)
        version := ref.drop (colon + 1) }
  | _, _ => .error (.command 2 (ascii "artifact ref must be <ns>/<name>:<version>"))

/-- The bytes of an earlier run that a download keeps: with `--resume`, those of a part file that
is shorter than the artifact. -/
def resumed (resume : Bool) (size : UInt64) (part : Option Bytes) : Bytes :=
  match part with
  | some content => if resume ∧ content.length < size.toNat then content else []
  | none => []

def cmdDownload (io : DiskResults) (conn : ClientConn) (token ref output : Bytes) (resume : Bool)
    (files : Bytes → Option Bytes) : Except CommandFailure UInt64 × (Bytes → Option Bytes) :=
  match parseArtifactRef ref with
  | .error e => (.error e, files)
  | .ok artifact =>
    match (do
        Client.connect token
        Client.showArtifact artifact : ClientM ArtifactInfo).run conn with
    | .error e => (.error e, files)
    | .ok (info, conn) =>
      let kept := resumed resume info.size (files (partPath output))
      let offset := UInt64.ofNat kept.length
      if io.opens then
        let (result, file) := Client.download (PartFile.write io output)
          ⟨artifact, offset, info.size - offset⟩ conn ⟨kept, []⟩
        let files := Function.update files (partPath output) (some (file.close io))
        match result with
        | .error e => (.error e, files)
        | .ok total => (.ok total, replaceOutput io files output)
      else (.error (.command 7 (ascii "cannot open output file: " ++ output)), files)

/-- The content is what was announced. -/
def ArtifactInfo.Describes (sha : Sha256) (info : ArtifactInfo) (content : Bytes) : Prop :=
  content.length = info.size.toNat ∧ sha.hex content = info.digest

/-- The frames before the reply to SHOW_ARTIFACT: the replies to HELLO and to AUTH. -/
def handshakeReplies (token : Bytes) : Nat := if token = [] then 1 else 2

/-- What the reply to SHOW_ARTIFACT announces. -/
def announced (conn : ClientConn) (token : Bytes) : Option ArtifactInfo :=
  conn.frames[handshakeReplies token]?.bind fun frame =>
    (decodeFrame decodeShowArtifactOk frame).toOption.map (·.info)

/-- A finished download is the artifact, and a failed one leaves the output in place. -/
def DownloadExact (sha : Sha256) (conn : ClientConn) (token output : Bytes)
    (files : Bytes → Option Bytes) :
    Except CommandFailure UInt64 × (Bytes → Option Bytes) → Prop
  | (.ok _, files') => ∃ info content, announced conn token = some info ∧
      files' output = some content ∧ info.Describes sha content
  | (.error _, files') => files' output = files output

/-- A frame that `Client::request` returns. -/
def IsReply (f : FrFrame) : Prop := f.type = FrMsgType.ok.toByte ∨ f.type = FrMsgType.data.toByte

/-- The fields of a reference fit their length fields. -/
structure ArtifactRef.Fits (ref : ArtifactRef) : Prop where
  ns : ref.ns.length ≤ maxStringLen
  name : ref.name.length ≤ maxStringLen
  version : ref.version.length ≤ maxStringLen

/-- DATA frames, and an OK frame behind them. -/
structure ReplyStream (frames slices : List FrFrame) : Prop where
  data : ∀ f ∈ slices, f.type = FrMsgType.data.toByte
  ended : ∃ last rest, frames = slices ++ last :: rest ∧ last.type = FrMsgType.ok.toByte

/-- The replies to HELLO and AUTH, that to SHOW_ARTIFACT, which announces `info`, and those to
GET_ARTIFACT. -/
def Replies (frames : List FrFrame) (token : Bytes) (info : ArtifactInfo)
    (slices : List FrFrame) : Prop :=
  ∃ handshake shown streamed, frames = handshake ++ shown :: streamed ∧
    handshake.length = handshakeReplies token ∧ (∀ f ∈ handshake, IsReply f) ∧ IsReply shown ∧
    decodeFrame decodeShowArtifactOk shown = .ok ⟨info⟩ ∧ ReplyStream streamed slices

/-- The data of DATA frames. -/
def dataOf (slices : List FrFrame) : Bytes := slices.flatMap (·.payload)

/-- The command is called, and the disk and the server answer, so that the download comes to its
end. -/
structure Completes (io : DiskResults) (conn : ClientConn) (token ref : Bytes)
    (info : ArtifactInfo) (slices : List FrFrame) : Prop where
  named : ∃ artifact, parseArtifactRef ref = .ok artifact ∧ artifact.Fits
  token_fits : token.length ≤ maxStringLen
  replies : Replies conn.frames token info slices
  opens : io.opens = true
  room : (dataOf slices).length ≤ io.room

/-- What an earlier run has left and what the server has sent are together what was announced, and
the part file takes the place of the output. -/
def Delivers (sha : Sha256) (io : DiskResults) (output : Bytes) (resume : Bool)
    (files : Bytes → Option Bytes) (info : ArtifactInfo) (data : Bytes) : Prop :=
  if io.renames ∨ io.renamesAgain then
    info.Describes sha
      (resumed resume info.size (files (partPath output)) ++ data.rdrop io.unflushed)
  else io.removes = false ∧ ∃ content, files output = some content ∧ info.Describes sha content

/-- The program returns `a` exactly where the next frames are such; it takes these. -/
def Takes {α : Type} (m : ClientM α) (P : List FrFrame → α → Prop) : Prop :=
  ∀ (conn : ClientConn) (a : α) (frames : List FrFrame),
    (∃ conn', m.run conn = .ok (a, conn') ∧ conn'.frames = frames) ↔
      ∃ front, conn.frames = front ++ frames ∧ P front a

section Takes

variable {α β : Type} {m : ClientM α} {P P' : List FrFrame → α → Prop}

theorem Takes.congr (hm : Takes m P) (h : ∀ front a, P front a ↔ P' front a) : Takes m P' := by
  intro conn a frames
  rw [hm conn a frames]
  exact exists_congr fun front => and_congr_right fun _ => h front a

private theorem takes_pure (a : α) : Takes (pure a) fun front a' => front = [] ∧ a' = a := by
  intro conn a' frames
  constructor
  · rintro ⟨conn', hrun, rfl⟩
    cases hrun
    exact ⟨[], rfl, rfl, rfl⟩
  · rintro ⟨_, hsplit, rfl, rfl⟩
    exact ⟨conn, rfl, hsplit⟩

private theorem takes_throw (e : CommandFailure) :
    Takes (throw e : ClientM α) fun _ _ => False := by
  intro conn a frames
  constructor
  · rintro ⟨conn', hrun, -⟩
    cases hrun
  · rintro ⟨_, _, hfalse⟩
    exact hfalse.elim

theorem Takes.bind {next : α → ClientM β} {Q : α → List FrFrame → β → Prop} (hm : Takes m P)
    (hnext : ∀ a, Takes (next a) (Q a)) :
    Takes (m >>= next) fun front b =>
      ∃ first a second, front = first ++ second ∧ P first a ∧ Q a second b := by
  intro conn b frames
  rw [StateT.run_bind]
  constructor
  · rintro ⟨conn', hrun, hframes⟩
    cases hfirst : m.run conn with
    | error e =>
      rw [hfirst] at hrun
      cases hrun
    | ok r =>
      obtain ⟨a, mid⟩ := r
      rw [hfirst] at hrun
      obtain ⟨second, hrest, hQ⟩ := (hnext a mid b frames).mp ⟨conn', hrun, hframes⟩
      obtain ⟨first, hsplit, hP⟩ := (hm conn a mid.frames).mp ⟨mid, hfirst, rfl⟩
      rw [hrest, ← List.append_assoc] at hsplit
      exact ⟨first ++ second, hsplit, first, a, second, rfl, hP, hQ⟩
  · rintro ⟨_, hsplit, first, a, second, rfl, hP, hQ⟩
    rw [List.append_assoc] at hsplit
    obtain ⟨mid, hrun, hmid⟩ := (hm conn a (second ++ frames)).mpr ⟨first, hsplit, hP⟩
    obtain ⟨conn', hrun', hframes⟩ := (hnext a mid b frames).mpr ⟨second, hmid, hQ⟩
    refine ⟨conn', ?_, hframes⟩
    rw [hrun]
    exact hrun'

end Takes

private theorem takes_message (enc : MsgEncoder) : Takes (Client.message enc) fun front payload =>
    front = [] ∧ payloadOf enc = .ok payload := by
  unfold Client.message
  cases payloadOf enc with
  | ok payload =>
    exact (takes_pure payload).congr fun front p => by rw [Except.ok.injEq, eq_comm (a := p)]
  | error e => exact (takes_throw _).congr fun front p => iff_of_false not_false (by simp)

private theorem requestId_ne_zero (ticks : UInt32) : (ticks &&& 0x7fffffff) ||| 1 ≠ 0 := by
  intro h
  have hbit := congrArg (fun id => id.toBitVec.getLsbD 0) h
  simp at hbit

private theorem takes_sendRequest (type : FrMsgType) (payload : Bytes) :
    Takes (Client.sendRequest type payload) fun front _ =>
      front = [] ∧ payload.length ≤ frFrameMaxPayload := by
  intro conn a frames
  let f : FrFrame := ⟨type.toByte, 0, (conn.clock conn.sent.length &&& 0x7fffffff) ||| 1, payload⟩
  rcases hencode : frFrameEncode (fun _ => true) frBufInit f.type f.flags f.reqId f.payload with
    ⟨st, out⟩
  have hsend : (Client.sendRequest type payload).run conn =
      match (st, out) with
      | (.ok, out) => .ok ((), { conn with sent := conn.sent ++ [out.data] })
      | (st, _) => .error (.client (.of st "encode request failed")) := by
    rw [← hencode]
    rfl
  constructor
  · rintro ⟨conn', hrun, rfl⟩
    rw [hsend] at hrun
    cases st with
    | ok =>
      cases hrun
      refine ⟨[], rfl, rfl, ?_⟩
      exact (frFrameEncode_encodable (congrArg Prod.fst hencode)).payload_le
    | _ => cases hrun
  · rintro ⟨_, hsplit, rfl, hlen⟩
    have hencodable : f.Encodable :=
      ⟨frMsgTypeValid_toByte type, rfl, requestId_ne_zero _, hlen⟩
    obtain ⟨cap, hok⟩ := frFrameEncode_ok frBufInit f hencodable (by simp [frBufInit])
    rw [hencode] at hok
    cases hok
    exact ⟨{ conn with sent := conn.sent ++ [_] }, hsend, hsplit⟩

private theorem takes_nextFrame : Takes Client.nextFrame fun front f => front = [f] := by
  intro conn f frames
  obtain ⟨clock, sent, pending, lost⟩ := conn
  constructor
  · rintro ⟨conn', hrun, rfl⟩
    cases pending with
    | nil => cases hrun
    | cons g pending =>
      cases hrun
      exact ⟨[f], rfl, rfl⟩
  · rintro ⟨_, hsplit, rfl⟩
    obtain rfl : pending = [f] ++ frames := hsplit
    exact ⟨⟨clock, sent, frames, lost⟩, rfl, rfl⟩

theorem takes_request (type : FrMsgType) (payload : Bytes) :
    Takes (Client.request type payload) fun front f =>
      front = [f] ∧ IsReply f ∧ payload.length ≤ frFrameMaxPayload := by
  have hreply : ∀ frame : FrFrame, Takes (if frame.type = FrMsgType.error.toByte then
        throw (Client.serverFailure frame)
      else if frame.type ≠ FrMsgType.ok.toByte ∧ frame.type ≠ FrMsgType.data.toByte then
        throw (.client (.of .eProtocol "unexpected response frame type"))
      else pure frame : ClientM FrFrame) fun front f => front = [] ∧ f = frame ∧ IsReply frame := by
    intro frame
    by_cases herror : frame.type = FrMsgType.error.toByte
    · rw [if_pos herror]
      refine (takes_throw _).congr fun front f => iff_of_false not_false fun h => ?_
      rcases h.2.2 with hok | hdata
      · exact absurd (herror.symm.trans hok) (by decide)
      · exact absurd (herror.symm.trans hdata) (by decide)
    rw [if_neg herror]
    by_cases hother : frame.type ≠ FrMsgType.ok.toByte ∧ frame.type ≠ FrMsgType.data.toByte
    · rw [if_pos hother]
      exact (takes_throw _).congr fun front f =>
        iff_of_false not_false fun h => h.2.2.elim hother.1 hother.2
    · rw [if_neg hother]
      have hframe : IsReply frame := by
        rw [not_and_or, not_not, not_not] at hother
        exact hother
      exact (takes_pure frame).congr fun front f =>
        and_congr_right fun _ => (and_iff_left hframe).symm
  refine ((takes_sendRequest type payload).bind fun _ =>
    takes_nextFrame.bind hreply).congr fun front f => ?_
  constructor
  · rintro ⟨_, _, _, rfl, ⟨rfl, hlen⟩, _, _, _, rfl, rfl, rfl, rfl, hframe⟩
    exact ⟨rfl, hframe, hlen⟩
  · rintro ⟨rfl, hframe, hlen⟩
    exact ⟨[], (), [f], rfl, ⟨rfl, hlen⟩, [f], f, [], rfl, rfl, rfl, rfl, hframe⟩

private theorem takes_ask (enc : MsgEncoder) (type : FrMsgType) :
    Takes (do
      let payload ← Client.message enc
      Client.request type payload) fun front f =>
        front = [f] ∧ IsReply f ∧ ∃ payload, payloadOf enc = .ok payload ∧
          payload.length ≤ frFrameMaxPayload := by
  refine ((takes_message enc).bind fun payload => takes_request type payload).congr
    fun front f => ?_
  constructor
  · rintro ⟨_, payload, _, rfl, ⟨rfl, henc⟩, rfl, hframe, hlen⟩
    exact ⟨rfl, hframe, payload, henc, hlen⟩
  · rintro ⟨rfl, hframe, payload, henc, hlen⟩
    exact ⟨[], payload, [f], rfl, ⟨rfl, henc⟩, rfl, hframe, hlen⟩

private theorem payloadOf_ok_iff {fits : Prop} {n : Nat} {enc : MsgEncoder}
    (h : Codec.Sized fits n enc) (hn : fits → n ≤ frFrameMaxPayload) :
    (∃ payload, payloadOf enc = .ok payload ∧ payload.length ≤ frFrameMaxPayload) ↔ fits := by
  constructor
  · rintro ⟨payload, hpayload, -⟩
    by_contra hfits
    obtain ⟨e, herror⟩ := (payloadOf_sized h).2 hfits
    rw [herror] at hpayload
    cases hpayload
  · intro hfits
    obtain ⟨payload, hpayload, hlen⟩ := (payloadOf_sized h).1 hfits
    exact ⟨payload, hpayload, hlen.le.trans (hn hfits)⟩

private theorem putRef_sized (ref : ArtifactRef) : Codec.Sized ref.Fits
    (6 + ref.ns.length + ref.name.length + ref.version.length) (putRef ref) := by
  refine ((putStr_sized ref.ns).bind ((putStr_sized ref.name).bind
    (putStr_sized ref.version))).of_iff ?_ (by omega)
  exact ⟨fun h => ⟨h.1, h.2.1, h.2.2⟩, fun h => ⟨h.ns, h.name, h.version⟩⟩

private theorem getArtifactReq_sized (req : GetArtifactReq) : Codec.Sized req.ref.Fits
    (22 + req.ref.ns.length + req.ref.name.length + req.ref.version.length)
    (encodeGetArtifactReq req) := by
  refine ((putRef_sized req.ref).bind ((putBytes_sized (frStoreBe64 req.offset)).bind
    (putBytes_sized (frStoreBe64 req.length)))).of_iff (by simp) ?_
  rw [frStoreBe64_length, frStoreBe64_length]
  omega

private theorem ArtifactRef.Fits.small {ref : ArtifactRef} (h : ref.Fits) :
    22 + ref.ns.length + ref.name.length + ref.version.length ≤ frFrameMaxPayload := by
  have hmax : 22 + 3 * maxStringLen ≤ frFrameMaxPayload := by decide
  have hns := h.ns
  have hname := h.name
  have hversion := h.version
  omega

private theorem takes_ask_bind {α : Type} {fits : Prop} {n : Nat} {enc : MsgEncoder}
    {type : FrMsgType} {next : FrFrame → ClientM α} {Q : FrFrame → List FrFrame → α → Prop}
    (henc : Codec.Sized fits n enc) (hn : fits → n ≤ frFrameMaxPayload)
    (hnext : ∀ f, Takes (next f) (Q f)) :
    Takes (do
      let payload ← Client.message enc
      let f ← Client.request type payload
      next f) fun front a => ∃ f rest, front = f :: rest ∧ IsReply f ∧ fits ∧ Q f rest a := by
  rw [← bind_assoc]
  refine ((takes_ask enc type).bind hnext).congr fun front a => ?_
  rw [payloadOf_ok_iff henc hn]
  constructor
  · rintro ⟨_, f, rest, rfl, ⟨rfl, hf, hfits⟩, hrest⟩
    exact ⟨f, rest, rfl, hf, hfits, hrest⟩
  · rintro ⟨f, rest, rfl, hf, hfits, hrest⟩
    exact ⟨[f], f, rest, rfl, ⟨rfl, hf, hfits⟩, hrest⟩

private theorem takes_auth (token : Bytes) :
    Takes (if token = [] then pure ()
      else do
        let auth ← Client.message (encodeAuthReq ⟨token⟩)
        let _ ← Client.request .auth auth
        pure () : ClientM Unit) fun front _ => front.length + 1 = handshakeReplies token ∧
          (∀ f ∈ front, IsReply f) ∧ token.length ≤ maxStringLen := by
  unfold handshakeReplies
  by_cases htoken : token = []
  · rw [if_pos htoken, if_pos htoken]
    refine (takes_pure ()).congr fun front _ => ?_
    constructor
    · rintro ⟨rfl, -⟩
      exact ⟨rfl, List.forall_mem_nil _, by simp [htoken]⟩
    · rintro ⟨hlen, -⟩
      exact ⟨List.length_eq_zero_iff.mp (by omega), rfl⟩
  · rw [if_neg htoken, if_neg htoken]
    have hmax : 2 + maxStringLen ≤ frFrameMaxPayload := by decide
    have hauth : Codec.Sized (token.length ≤ maxStringLen) (2 + token.length)
        (encodeAuthReq ⟨token⟩) := putStr_sized token
    refine (takes_ask_bind hauth (fun h => by omega) fun _ => takes_pure ()).congr
      fun front _ => ?_
    constructor
    · rintro ⟨f, _, rfl, hf, hfits, rfl, -⟩
      exact ⟨rfl, by simpa using hf, hfits⟩
    · rintro ⟨hlen, hall, hfits⟩
      obtain ⟨f, rfl⟩ := List.length_eq_one_iff.mp (show front.length = 1 by omega)
      exact ⟨f, [], rfl, hall f List.mem_cons_self, hfits, rfl, rfl⟩

private theorem takes_connect (token : Bytes) :
    Takes (Client.connect token) fun front _ => front.length = handshakeReplies token ∧
      (∀ f ∈ front, IsReply f) ∧ token.length ≤ maxStringLen := by
  have hhello := (putBytes_sized [frProtocolVersion]).bind (putStr_sized clientVersion)
  have hshort : clientVersion.length ≤ maxStringLen := by decide
  rw [true_and, eq_true hshort] at hhello
  have hmax : 1 + (2 + clientVersion.length) ≤ frFrameMaxPayload := by decide
  refine (takes_ask_bind hhello (fun _ => hmax) fun _ => takes_auth token).congr fun front _ => ?_
  constructor
  · rintro ⟨f, rest, rfl, hf, -, hlen, hall, hfits⟩
    exact ⟨hlen, List.forall_mem_cons.mpr ⟨hf, hall⟩, hfits⟩
  · rintro ⟨hlen, hall, hfits⟩
    cases front with
    | nil =>
      unfold handshakeReplies at hlen
      split at hlen <;> cases hlen
    | cons f rest =>
      obtain ⟨hf, hrest⟩ := List.forall_mem_cons.mp hall
      exact ⟨f, rest, rfl, hf, trivial, hlen, hrest, hfits⟩

private theorem takes_showArtifact (ref : ArtifactRef) :
    Takes (Client.showArtifact ref) fun front info => ∃ f, front = [f] ∧ IsReply f ∧
      decodeFrame decodeShowArtifactOk f = .ok ⟨info⟩ ∧ ref.Fits := by
  have hdecoded : ∀ f : FrFrame, Takes (match decodeFrame decodeShowArtifactOk f with
      | .ok ok => return ok.info
      | .error e => throw (.client e) : ClientM ArtifactInfo) fun front info =>
        front = [] ∧ decodeFrame decodeShowArtifactOk f = .ok ⟨info⟩ := by
    intro f
    cases decodeFrame decodeShowArtifactOk f with
    | ok ok =>
      refine (takes_pure ok.info).congr fun front info => and_congr_right fun _ => ?_
      constructor
      · rintro rfl
        rfl
      · intro hok
        cases hok
        rfl
    | error e => exact (takes_throw _).congr fun front info => iff_of_false not_false (by simp)
  have hsmall : ref.Fits →
      6 + ref.ns.length + ref.name.length + ref.version.length ≤ frFrameMaxPayload := by
    intro href
    have hsmall := href.small
    omega
  refine (takes_ask_bind (putRef_sized ref) hsmall hdecoded).congr fun front info => ?_
  constructor
  · rintro ⟨f, _, rfl, hf, hfits, rfl, hinfo⟩
    exact ⟨f, rfl, hf, hinfo, hfits⟩
  · rintro ⟨f, rfl, hf, hinfo, hfits⟩
    exact ⟨f, [], rfl, hf, hfits, rfl, hinfo⟩

private theorem decodeData_frame (f : FrFrame) : decodeFrame decodeData f = .ok ⟨f.payload⟩ :=
  decodeFrame_of_roundTrips (data_roundTrips ⟨f.payload⟩) rfl

variable {frame : FrFrame} {frames slices : List FrFrame}

theorem streams_cons_data (hdata : frame.type = FrMsgType.data.toByte) :
    ReplyStream (frame :: frames) slices ↔
      ∃ later, slices = frame :: later ∧ ReplyStream frames later := by
  constructor
  · rintro ⟨hall, last, rest, hsplit, hlast⟩
    cases slices with
    | nil =>
      cases hsplit
      exact absurd (hdata.symm.trans hlast) (by decide)
    | cons f later =>
      cases hsplit
      exact ⟨later, rfl, (List.forall_mem_cons.mp hall).2, last, rest, rfl, hlast⟩
  · rintro ⟨later, rfl, hall, last, rest, rfl, hlast⟩
    exact ⟨List.forall_mem_cons.mpr ⟨hdata, hall⟩, last, rest, rfl, hlast⟩

theorem streams_cons_other (hother : frame.type ≠ FrMsgType.data.toByte) :
    ReplyStream (frame :: frames) slices ↔ slices = [] ∧ frame.type = FrMsgType.ok.toByte := by
  constructor
  · rintro ⟨hall, last, rest, hsplit, hlast⟩
    cases slices with
    | nil =>
      cases hsplit
      exact ⟨rfl, hlast⟩
    | cons f later =>
      cases hsplit
      exact absurd (hall frame List.mem_cons_self) hother
  · rintro ⟨rfl, hok⟩
    exact ⟨List.forall_mem_nil _, frame, frames, rfl, hok⟩

private theorem not_streams_nil : ¬ ReplyStream [] slices := by
  rintro ⟨-, last, rest, hsplit, -⟩
  cases slices <;> cases hsplit

section Write

variable {io : DiskResults} {output : Bytes} {file file' : PartFile}

private theorem write_of_room {data : Bytes}
    (hroom : data.length + file.written.length ≤ io.room) :
    (if data = [] then (.ok (), file) else file.write io output data) =
      (.ok (), ⟨file.kept, file.written ++ data⟩) := by
  by_cases hempty : data = []
  · rw [if_pos hempty, hempty, List.append_nil]
  · rw [if_neg hempty, PartFile.write, if_neg (by omega),
      List.take_of_length_le (by rw [List.length_append]; omega)]

private theorem write_of_full (hfit : file.written.length ≤ io.room) {data : Bytes}
    (hfull : io.room < data.length + file.written.length) :
    ∃ e file', (if data = [] then (.ok (), file) else file.write io output data) =
      (.error e, file') := by
  have hdata : data ≠ [] := by
    rintro rfl
    rw [List.length_nil, Nat.zero_add] at hfull
    omega
  rw [if_neg hdata, PartFile.write, if_pos (by omega)]
  exact ⟨_, _, rfl⟩

variable {lost : Error} {total : UInt64}

private theorem downloadLoop_other (hother : frame.type ≠ FrMsgType.data.toByte) {sent : UInt64} :
    Client.downloadLoop (PartFile.write io output) lost frame frames total file =
      (.ok sent, file') ↔ frame.type = FrMsgType.ok.toByte ∧ total = sent ∧ file = file' := by
  unfold Client.downloadLoop
  rw [if_pos hother]
  by_cases hok : frame.type = FrMsgType.ok.toByte
  · rw [if_neg (not_not.mpr hok), Prod.mk.injEq, Except.ok.injEq, and_iff_right hok]
  · rw [if_pos hok]
    exact iff_of_false (by rintro ⟨⟩) fun h => hok h.1

private theorem downloadLoop_full (hdata : frame.type = FrMsgType.data.toByte)
    (hfit : file.written.length ≤ io.room)
    (hfull : io.room < frame.payload.length + file.written.length) :
    ∃ e after, Client.downloadLoop (PartFile.write io output) lost frame frames total file =
      (.error e, after) := by
  obtain ⟨e, after, hwrite⟩ := @write_of_full io output file hfit frame.payload hfull
  refine ⟨e, after, ?_⟩
  unfold Client.downloadLoop
  rw [if_neg (not_not.mpr hdata), decodeData_frame]
  dsimp only
  rw [hwrite]

section Room

variable (hdata : frame.type = FrMsgType.data.toByte)
  (hroom : frame.payload.length + file.written.length ≤ io.room)
include hdata hroom

private theorem downloadLoop_lost :
    Client.downloadLoop (PartFile.write io output) lost frame [] total file =
      (.error (.client lost), ⟨file.kept, file.written ++ frame.payload⟩) := by
  unfold Client.downloadLoop
  rw [if_neg (not_not.mpr hdata), decodeData_frame]
  dsimp only
  rw [write_of_room hroom]

private theorem downloadLoop_next (next : FrFrame) :
    Client.downloadLoop (PartFile.write io output) lost frame (next :: frames) total file =
      if next.type = FrMsgType.error.toByte then
        (.error (Client.serverFailure next), ⟨file.kept, file.written ++ frame.payload⟩)
      else Client.downloadLoop (PartFile.write io output) lost next frames
        (total + UInt64.ofNat frame.payload.length) ⟨file.kept, file.written ++ frame.payload⟩ := by
  rw [Client.downloadLoop, if_neg (not_not.mpr hdata), decodeData_frame]
  dsimp only
  rw [write_of_room hroom]

end Room

/-- From this frame on the loop succeeds exactly where a stream comes that the disk has room for. -/
def StreamsTo (io : DiskResults) (frames : List FrFrame) (file file' : PartFile) : Prop :=
  ∃ slices, ReplyStream frames slices ∧ (dataOf slices).length + file.written.length ≤ io.room ∧
    file' = ⟨file.kept, file.written ++ dataOf slices⟩

private theorem streamsTo_other (hother : frame.type ≠ FrMsgType.data.toByte)
    (hfit : file.written.length ≤ io.room) :
    StreamsTo io (frame :: frames) file file' ↔
      frame.type = FrMsgType.ok.toByte ∧ file = file' := by
  constructor
  · rintro ⟨slices, hstreams, -, rfl⟩
    obtain ⟨rfl, hok⟩ := (streams_cons_other hother).mp hstreams
    exact ⟨hok, by simp [dataOf]⟩
  · rintro ⟨hok, rfl⟩
    exact ⟨[], (streams_cons_other hother).mpr ⟨rfl, hok⟩, by simpa [dataOf] using hfit,
      by simp [dataOf]⟩

private theorem streamsTo_data (hdata : frame.type = FrMsgType.data.toByte) :
    StreamsTo io (frame :: frames) file file' ↔
      StreamsTo io frames ⟨file.kept, file.written ++ frame.payload⟩ file' := by
  have hsum (later : List FrFrame) : (dataOf (frame :: later)).length + file.written.length =
      (dataOf later).length + (file.written ++ frame.payload).length := by
    simp only [dataOf, List.flatMap_cons, List.length_append]
    omega
  have hjoin (later : List FrFrame) : file.written ++ dataOf (frame :: later) =
      (file.written ++ frame.payload) ++ dataOf later := (List.append_assoc ..).symm
  constructor
  · rintro ⟨slices, hstreams, hroom, rfl⟩
    obtain ⟨later, rfl, hlater⟩ := (streams_cons_data hdata).mp hstreams
    rw [hsum] at hroom
    rw [hjoin]
    exact ⟨later, hlater, hroom, rfl⟩
  · rintro ⟨later, hlater, hroom, rfl⟩
    refine ⟨frame :: later, (streams_cons_data hdata).mpr ⟨later, rfl, hlater⟩, ?_, ?_⟩
    · rw [hsum]
      exact hroom
    · rw [hjoin]

theorem StreamsTo.room (h : StreamsTo io frames file file') : file.written.length ≤ io.room := by
  obtain ⟨slices, -, hroom, -⟩ := h
  omega

/-- The loop returns, with the file in this state. -/
def Returns (io : DiskResults) (output : Bytes) (lost : Error) (frame : FrFrame)
    (frames : List FrFrame) (total : UInt64) (file file' : PartFile) : Prop :=
  ∃ sent, Client.downloadLoop (PartFile.write io output) lost frame frames total file =
    (.ok sent, file')

private theorem returns_other (hother : frame.type ≠ FrMsgType.data.toByte)
    (hfit : file.written.length ≤ io.room) :
    Returns io output lost frame frames total file file' ↔
      StreamsTo io (frame :: frames) file file' := by
  unfold Returns
  simp only [downloadLoop_other hother]
  rw [streamsTo_other hother hfit]
  constructor
  · rintro ⟨_, hok, -, hfile⟩
    exact ⟨hok, hfile⟩
  · rintro ⟨hok, hfile⟩
    exact ⟨total, hok, rfl, hfile⟩

private theorem returns_full (hdata : frame.type = FrMsgType.data.toByte)
    (hfit : file.written.length ≤ io.room)
    (hfull : io.room < frame.payload.length + file.written.length) :
    Returns io output lost frame frames total file file' ↔
      StreamsTo io (frame :: frames) file file' := by
  obtain ⟨e, after, hloop⟩ :=
    @downloadLoop_full frame frames io output file lost total hdata hfit hfull
  rw [Returns, hloop, streamsTo_data hdata]
  refine iff_of_false (by rintro ⟨_, ⟨⟩⟩) fun h => ?_
  have hwritten := h.room
  rw [List.length_append] at hwritten
  omega

theorem returns_iff (hfit : file.written.length ≤ io.room) :
    Returns io output lost frame frames total file file' ↔
      StreamsTo io (frame :: frames) file file' := by
  induction frames generalizing frame total file with
  | nil =>
    by_cases hdata : frame.type = FrMsgType.data.toByte
    case neg => exact returns_other hdata hfit
    by_cases hroom : frame.payload.length + file.written.length ≤ io.room
    case neg => exact returns_full hdata hfit (Nat.lt_of_not_le hroom)
    rw [Returns, downloadLoop_lost hdata hroom, streamsTo_data hdata]
    exact iff_of_false (by rintro ⟨_, ⟨⟩⟩) fun ⟨_, h, _⟩ => not_streams_nil h
  | cons next frames ih =>
    by_cases hdata : frame.type = FrMsgType.data.toByte
    case neg => exact returns_other hdata hfit
    by_cases hroom : frame.payload.length + file.written.length ≤ io.room
    case neg => exact returns_full hdata hfit (Nat.lt_of_not_le hroom)
    have hfit' : (file.written ++ frame.payload).length ≤ io.room := by
      rw [List.length_append]
      omega
    rw [Returns, downloadLoop_next hdata hroom, streamsTo_data hdata]
    by_cases herror : next.type = FrMsgType.error.toByte
    · have hother : next.type ≠ FrMsgType.data.toByte := by
        rw [herror]
        decide
      rw [if_pos herror, streamsTo_other hother hfit', herror]
      exact iff_of_false (by rintro ⟨_, ⟨⟩⟩) fun h => absurd h.1 (by decide)
    · rw [if_neg herror]
      exact ih hfit'

end Write

private theorem ReplyStream.isReply (h : ReplyStream (frame :: frames) slices) : IsReply frame := by
  by_cases hdata : frame.type = FrMsgType.data.toByte
  · exact .inr hdata
  · exact .inl ((streams_cons_other hdata).mp h).2

private theorem download_ok_iff {io : DiskResults} {output kept : Bytes} {conn : ClientConn}
    {req : GetArtifactReq} {file' : PartFile} :
    (∃ sent, Client.download (PartFile.write io output) req conn ⟨kept, []⟩ = (.ok sent, file')) ↔
      req.ref.Fits ∧ StreamsTo io conn.frames ⟨kept, []⟩ file' := by
  have hask := takes_ask (encodeGetArtifactReq req) .getArtifact conn
  have hfits := payloadOf_ok_iff (getArtifactReq_sized req) (·.small)
  unfold Client.download
  dsimp only
  constructor
  · rintro ⟨sent, hrun⟩
    split at hrun
    · cases hrun
    · rename_i frame conn' hasked
      obtain ⟨_, hsplit, rfl, -, hpayload⟩ := (hask frame conn'.frames).mp ⟨conn', hasked, rfl⟩
      rw [hsplit]
      exact ⟨hfits.mp hpayload, (returns_iff (Nat.zero_le _)).mp ⟨sent, hrun⟩⟩
  · rintro ⟨href, hstreams⟩
    cases hframes : conn.frames with
    | nil =>
      rw [hframes] at hstreams
      obtain ⟨slices, h, -⟩ := hstreams
      exact (not_streams_nil h).elim
    | cons frame frames =>
      rw [hframes] at hstreams
      obtain ⟨slices, h, -⟩ := id hstreams
      obtain ⟨conn', hasked, rfl⟩ :=
        (hask frame frames).mpr ⟨[frame], hframes, rfl, h.isReply, hfits.mpr href⟩
      have hloop : Returns io output conn'.lost frame conn'.frames 0 ⟨kept, []⟩ file' :=
        (returns_iff (Nat.zero_le _)).mpr hstreams
      rw [hasked]
      exact hloop

private theorem partPath_ne (output : Bytes) : partPath output ≠ output := by
  intro h
  have hlen := congrArg List.length h
  simp [partPath, ascii] at hlen

theorem replaceOutput_output (io : DiskResults) (files : Bytes → Option Bytes) (output : Bytes) :
    replaceOutput io files output output =
      if io.renames ∨ io.renamesAgain then files (partPath output)
      else if io.removes then none else files output := by
  have hne := partPath_ne output
  unfold replaceOutput renameOver
  cases io.renames <;> cases io.removes <;> cases io.renamesAgain <;> simp [Function.update, hne]

private theorem takes_announced (token : Bytes) (artifact : ArtifactRef) :
    Takes (do
      Client.connect token
      Client.showArtifact artifact) fun front info => ∃ handshake shown,
        front = handshake ++ [shown] ∧ handshake.length = handshakeReplies token ∧
        (∀ f ∈ handshake, IsReply f) ∧ IsReply shown ∧
        decodeFrame decodeShowArtifactOk shown = .ok ⟨info⟩ ∧ token.length ≤ maxStringLen ∧
        artifact.Fits := by
  refine ((takes_connect token).bind fun _ => takes_showArtifact artifact).congr
    fun front info => ?_
  constructor
  · rintro ⟨handshake, _, _, rfl, ⟨hlen, hall, htoken⟩, shown, rfl, hshown, hinfo, hfits⟩
    exact ⟨handshake, shown, rfl, hlen, hall, hshown, hinfo, htoken, hfits⟩
  · rintro ⟨handshake, shown, rfl, hlen, hall, hshown, hinfo, htoken, hfits⟩
    exact ⟨handshake, (), [shown], rfl, ⟨hlen, hall, htoken⟩, shown, rfl, hshown, hinfo, hfits⟩

section Command

variable {io : DiskResults} {conn : ClientConn} {token ref output : Bytes} {resume : Bool}
  {files files' : Bytes → Option Bytes}

private theorem cmdDownload_ok_iff :
    (∃ sent, cmdDownload io conn token ref output resume files = (.ok sent, files')) ↔
      ∃ info slices, Completes io conn token ref info slices ∧
        files' = replaceOutput io (Function.update files (partPath output) (some (PartFile.close io
          ⟨resumed resume info.size (files (partPath output)), dataOf slices⟩))) output := by
  unfold cmdDownload
  constructor
  · rintro ⟨sent, hrun⟩
    split at hrun
    · cases hrun
    rename_i artifact hparse
    split at hrun
    · cases hrun
    rename_i info conn' hshown
    dsimp only at hrun
    split at hrun
    case isFalse => cases hrun
    rename_i hopens
    generalize hdownload : Client.download (PartFile.write io output) _ conn' _ = r at hrun
    obtain ⟨result, file⟩ := r
    cases result with
    | error e => cases hrun
    | ok total =>
      cases hrun
      obtain ⟨_, hsplit, handshake, shown, rfl, hlen, hall, hreply, hinfo, htoken, hfits⟩ :=
        (takes_announced token artifact conn info conn'.frames).mp ⟨conn', hshown, rfl⟩
      obtain ⟨-, slices, hstreams, hroom, hfile⟩ :=
        download_ok_iff.mp ⟨sent, hdownload⟩
      rw [List.append_assoc] at hsplit
      refine ⟨info, slices, ⟨⟨artifact, hparse, hfits⟩, htoken,
        ⟨handshake, shown, conn'.frames, hsplit, hlen, hall, hreply, hinfo, hstreams⟩,
        hopens, hroom⟩, ?_⟩
      rw [hfile, List.nil_append]
  · rintro ⟨info, slices, ⟨⟨artifact, hparse, hfits⟩, htoken, ⟨handshake, shown, streamed, hsplit,
      hlen, hall, hreply, hinfo, hstreams⟩, hopens, hroom⟩, rfl⟩
    obtain ⟨conn', hshown, rfl⟩ := (takes_announced token artifact conn info streamed).mpr
      ⟨handshake ++ [shown], by rw [hsplit, List.append_assoc]; rfl, handshake, shown, rfl, hlen,
        hall, hreply, hinfo, htoken, hfits⟩
    let kept := resumed resume info.size (files (partPath output))
    let offset := UInt64.ofNat kept.length
    obtain ⟨sent, hdownload⟩ : ∃ sent, Client.download (PartFile.write io output)
        ⟨artifact, offset, info.size - offset⟩ conn' ⟨kept, []⟩ =
          (.ok sent, ⟨kept, [] ++ dataOf slices⟩) :=
      download_ok_iff.mpr ⟨hfits, slices, hstreams, hroom, rfl⟩
    refine ⟨sent, ?_⟩
    rw [hparse]
    dsimp only
    rw [hshown]
    dsimp only
    rw [if_pos hopens, hdownload]
    rfl

private theorem cmdDownload_error {e : CommandFailure}
    (h : cmdDownload io conn token ref output resume files = (.error e, files')) :
    files' output = files output := by
  unfold cmdDownload at h
  split at h
  · cases h
    rfl
  · split at h
    · cases h
      rfl
    · dsimp only at h
      split at h
      · split at h
        · cases h
          exact Function.update_of_ne (partPath_ne output).symm _ _
        · cases h
      · cases h
        rfl

end Command

private theorem Replies.announced {conn : ClientConn} {token : Bytes} {info : ArtifactInfo}
    {slices : List FrFrame} (h : Replies conn.frames token info slices) :
    announced conn token = some info := by
  obtain ⟨handshake, shown, streamed, hsplit, hlen, -, -, hinfo, -⟩ := h
  unfold ForgeRelay.announced
  rw [hsplit, ← hlen, List.getElem?_append_right (Nat.le_refl _), Nat.sub_self,
    List.getElem?_cons_zero, Option.bind_some, hinfo]
  rfl

/-- A finished download is the artifact and a failed one leaves the output in place, if and only if
what is kept of an earlier run and what the server streams make up what it has announced, and the
part file takes the place of the output. -/
theorem cmdDownload_exact_iff (sha : Sha256) (io : DiskResults) (conn : ClientConn)
    (token ref output : Bytes) (resume : Bool) (files : Bytes → Option Bytes) :
    DownloadExact sha conn token output files
        (cmdDownload io conn token ref output resume files) ↔
      ∀ info slices, Completes io conn token ref info slices →
        Delivers sha io output resume files info (dataOf slices) := by
  have hend : ∀ info slices, Completes io conn token ref info slices →
      (DownloadExact sha conn token output files
          (cmdDownload io conn token ref output resume files) ↔
        Delivers sha io output resume files info (dataOf slices)) := by
    intro info slices hcompletes
    obtain ⟨sent, hrun⟩ := cmdDownload_ok_iff.mpr ⟨info, slices, hcompletes, rfl⟩
    rw [hrun, DownloadExact, hcompletes.replies.announced, replaceOutput_output,
      Function.update_self, Function.update_of_ne (partPath_ne output).symm]
    unfold Delivers
    by_cases hrenamed : io.renames = true ∨ io.renamesAgain = true
    · rw [if_pos hrenamed, if_pos hrenamed]
      constructor
      · rintro ⟨_, _, ⟨⟩, ⟨⟩, hdescribes⟩
        exact hdescribes
      · intro hdescribes
        exact ⟨info, _, rfl, rfl, hdescribes⟩
    rw [if_neg hrenamed, if_neg hrenamed]
    cases hremoves : io.removes with
    | true => exact iff_of_false (by rintro ⟨_, _, -, ⟨⟩, -⟩) fun h => absurd h.1 (by decide)
    | false =>
      constructor
      · rintro ⟨_, content, ⟨⟩, hcontent, hdescribes⟩
        exact ⟨rfl, content, hcontent, hdescribes⟩
      · rintro ⟨-, content, hcontent, hdescribes⟩
        exact ⟨info, content, rfl, hcontent, hdescribes⟩
  constructor
  · intro hexact info slices hcompletes
    exact (hend info slices hcompletes).mp hexact
  · intro hdelivers
    rcases hrun : cmdDownload io conn token ref output resume files with ⟨result, files'⟩
    cases result with
    | error e => exact cmdDownload_error hrun
    | ok sent =>
      obtain ⟨info, slices, hcompletes, -⟩ := cmdDownload_ok_iff.mp ⟨sent, hrun⟩
      rw [← hrun]
      exact (hend info slices hcompletes).mpr (hdelivers info slices hcompletes)

/-- SHA-256 on the two contents of the sample. -/
def leftoverSha : Sha256 where
  digest data :=
    if data = ascii "ab" then
      [0xfb, 0x8e, 0x20, 0xfc, 0x2e, 0x4c, 0x3f, 0x24, 0x8c, 0x60, 0xc3, 0x9b,
        0xd6, 0x52, 0xf3, 0xc1, 0x34, 0x72, 0x98, 0xbb, 0x97, 0x7b, 0x8b, 0x4d,
        0x59, 0x03, 0xb8, 0x50, 0x55, 0x62, 0x06, 0x03]
    else if data = ascii "xb" then
      [0xff, 0x10, 0x8e, 0xa1, 0xc0, 0xa0, 0x69, 0xa0, 0x0e, 0xe5, 0xa1, 0xc9,
        0xbb, 0xe7, 0x2f, 0xc3, 0xd6, 0x7b, 0x5f, 0x0d, 0x3a, 0xcc, 0xb8, 0xe1,
        0x32, 0xcd, 0x9e, 0x1a, 0x8d, 0xbb, 0xd5, 0x0f]
    else List.replicate 32 0
  length_digest data := by
    split
    · rfl
    · split <;> rfl

/-- The artifact `ab`. -/
def announcedSample : ArtifactInfo :=
  ⟨ascii "team", ascii "app", ascii "1.0", 2, leftoverSha.hex (ascii "ab"), 4 * 1024 * 1024,
    ascii "alice", 1, [], [⟨0, 0, 2, leftoverSha.hex (ascii "ab")⟩]⟩

/-- The replies of a server that has this artifact, where its second byte is asked for. -/
def sampleConn : ClientConn where
  clock := fun _ => 9
  sent := []
  frames := [
    ⟨FrMsgType.ok.toByte, 0, 9, (payloadOf (putStr serverVersion)).toOption.getD []⟩,
    ⟨FrMsgType.ok.toByte, 0, 9,
      (payloadOf (encodeShowArtifactOk ⟨announcedSample⟩)).toOption.getD []⟩,
    ⟨FrMsgType.data.toByte, 0, 9, ascii "b"⟩,
    ⟨FrMsgType.ok.toByte, 0, 9, frStoreBe64 1⟩]
  lost := .of .eIo "connection lost while receiving"

/-- A disk on which nothing fails. -/
def soundDisk : DiskResults := ⟨true, 4096, 0, true, true, true⟩

/-- An earlier run has left the byte `x`. -/
def leftoverFiles (path : Bytes) : Option Bytes :=
  if path = partPath (ascii "out") then some (ascii "x") else none

/-- The server sends the second byte of `ab`, and the output is `xb`. -/
theorem leftover_kept : ¬ ∀ (conn : ClientConn) (token ref output : Bytes) (resume : Bool)
    (files : Bytes → Option Bytes), DownloadExact leftoverSha conn token output files
      (cmdDownload soundDisk conn token ref output resume files) := by
  intro h
  obtain ⟨r, hr⟩ : ∃ r, cmdDownload soundDisk sampleConn [] (ascii "team/app:1.0")
    (ascii "out") true leftoverFiles = r := ⟨_, rfl⟩
  have hok : r.1.toOption = some 1 := by
    rw [← hr]
    decide +kernel
  have hout : r.2 (ascii "out") = some (ascii "xb") := by
    rw [← hr]
    decide +kernel
  have hannounced : announced sampleConn [] = some announcedSample := by decide +kernel
  have hresult : ∀ conn token ref output resume files r,
      cmdDownload soundDisk conn token ref output resume files = r →
        DownloadExact leftoverSha conn token output files r := by
    rintro conn token ref output resume files _ rfl
    exact h conn token ref output resume files
  have hexact := hresult _ _ _ _ _ _ r hr
  obtain ⟨result, files'⟩ := r
  cases result with
  | error e => cases hok
  | ok sent =>
    obtain ⟨info, content, hinfo, hcontent, hdescribes⟩ := hexact
    cases hannounced.symm.trans hinfo
    cases hout.symm.trans hcontent
    exact absurd hdescribes.2 (by decide +kernel)

end ForgeRelay
