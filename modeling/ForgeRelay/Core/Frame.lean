import ForgeRelay.Core.Buffer
import ForgeRelay.Core.Crc32

/-!
# Frames

A frame is a 20-byte header (magic, version, type, flags, request id, payload length, CRC32 of
the first sixteen bytes) and a payload of at most 8 MiB. The parser is an incremental state
machine: it collects the header, checks all of it at once, and then collects the payload.
-/

namespace ForgeRelay

inductive FrMsgType
  | hello | auth | ping | close
  | createUpload | putChunk | queryUpload | commitUpload | abortUpload
  | getArtifact | data | listArtifacts | showArtifact | status
  | deleteArtifact | runGc | userAdd | userDisable | userList
  | tokenCreate | tokenRevoke | tokenList | sessionList | sessionAbort
  | ok | error
  deriving DecidableEq, Repr

/-- The numeric value of a message type. -/
def FrMsgType.toByte : FrMsgType → UInt8
  | .hello => 1 | .auth => 2 | .ping => 3 | .close => 4
  | .createUpload => 16 | .putChunk => 17 | .queryUpload => 18 | .commitUpload => 19
  | .abortUpload => 20 | .getArtifact => 32 | .data => 33
  | .listArtifacts => 48 | .showArtifact => 49 | .status => 50
  | .deleteArtifact => 64 | .runGc => 65 | .userAdd => 66 | .userDisable => 67 | .userList => 68
  | .tokenCreate => 80 | .tokenRevoke => 81 | .tokenList => 82
  | .sessionList => 96 | .sessionAbort => 97 | .ok => 200 | .error => 201

/-- The cases of the switch in `fr_msg_type_valid`. -/
def FrMsgType.ofByte : UInt8 → Option FrMsgType
  | 1 => some .hello | 2 => some .auth | 3 => some .ping | 4 => some .close
  | 16 => some .createUpload | 17 => some .putChunk | 18 => some .queryUpload
  | 19 => some .commitUpload | 20 => some .abortUpload
  | 32 => some .getArtifact | 33 => some .data
  | 48 => some .listArtifacts | 49 => some .showArtifact | 50 => some .status
  | 64 => some .deleteArtifact | 65 => some .runGc | 66 => some .userAdd
  | 67 => some .userDisable | 68 => some .userList
  | 80 => some .tokenCreate | 81 => some .tokenRevoke | 82 => some .tokenList
  | 96 => some .sessionList | 97 => some .sessionAbort
  | 200 => some .ok | 201 => some .error
  | _ => none

def frMsgTypeValid (type : UInt8) : Bool := (FrMsgType.ofByte type).isSome

@[simp] theorem FrMsgType.ofByte_toByte (t : FrMsgType) : FrMsgType.ofByte t.toByte = some t := by
  cases t <;> rfl

@[simp] theorem frMsgTypeValid_toByte (t : FrMsgType) : frMsgTypeValid t.toByte = true := by
  simp [frMsgTypeValid]

def frFrameHeaderSize : Nat := 20
def frFrameMaxPayload : Nat := 8 * 1024 * 1024
def frFrameVersion : UInt8 := 1
def frFrameMagic : Bytes := ascii "FRLY"

structure FrFrame where
  type : UInt8
  flags : UInt16
  reqId : UInt32
  payload : Bytes
  deriving DecidableEq, Repr

/-- The first sixteen bytes of a header. -/
def frameHeaderFields (type : UInt8) (flags : UInt16) (reqId payloadLen : UInt32) : Bytes :=
  frFrameMagic ++ frFrameVersion :: type :: (frStoreBe16 flags ++
    (frStoreBe32 reqId ++ frStoreBe32 payloadLen))

/-- The header that `fr_frame_encode` builds. -/
def frameHeader (type : UInt8) (flags : UInt16) (reqId payloadLen : UInt32) : Bytes :=
  frameHeaderFields type flags reqId payloadLen ++
    frStoreBe32 (frCrc32 (frameHeaderFields type flags reqId payloadLen))

/-- `fr_frame_encode`: appends the header and the payload to `out`. -/
def frFrameEncode (alloc : Nat → Bool) (out : FrBuf) (type : UInt8) (flags : UInt16)
    (reqId : UInt32) (payload : Bytes) : FrStatus × FrBuf :=
  if !frMsgTypeValid type then (.eArg, out)
  else if flags ≠ 0 then (.eArg, out)
  else if reqId = 0 then (.eArg, out)
  else if frFrameMaxPayload < payload.length then (.eRange, out)
  else
    let header := frameHeader type flags reqId (UInt32.ofNat payload.length)
    let total := frFrameHeaderSize + payload.length
    if sizeLimit ≤ total then (.eOverflow, out)
    else
      match frBufReserve alloc out total with
      | (.ok, out) =>
        match frBufAppend alloc out header with
        | (.ok, out) => frBufAppend alloc out payload
        | (st, out) => (st, out)
      | (st, out) => (st, out)

/-- `fr_frame_parser`. Of `header` only the bytes received so far are kept, so `header_have` is
its length; what older frames left behind in the array is never read. -/
structure FrFrameParser where
  header : Bytes
  headerDone : Bool
  type : UInt8
  flags : UInt16
  reqId : UInt32
  payloadNeed : UInt32
  payloadBuf : FrBuf
  deriving DecidableEq, Repr

def frFrameParserInit : FrFrameParser :=
  { header := [], headerDone := false, type := 0, flags := 0, reqId := 0, payloadNeed := 0,
    payloadBuf := frBufInit }

/-- `frame_validate_header`; a header with the right magic and version fills the fields before
the remaining checks. -/
def frameValidateHeader (p : FrFrameParser) : FrStatus × FrFrameParser :=
  if p.header.take 4 ≠ frFrameMagic then (.eProtocol, p)
  else if p.header.getD 4 0 ≠ frFrameVersion then (.eProtocol, p)
  else
    let p := { p with
      type := p.header.getD 5 0
      flags := frLoadBe16 (p.header.drop 6)
      reqId := frLoadBe32 (p.header.drop 8)
      payloadNeed := frLoadBe32 (p.header.drop 12) }
    if p.flags ≠ 0 then (.eProtocol, p)
    else if p.reqId = 0 then (.eProtocol, p)
    else if !frMsgTypeValid p.type then (.eProtocol, p)
    else if UInt32.ofNat frFrameMaxPayload < p.payloadNeed then (.eProtocol, p)
    else if frLoadBe32 (p.header.drop 16) ≠ frCrc32 (p.header.take 16) then (.eProtocol, p)
    else (.ok, p)

/-- What one call of `fr_frame_parser_feed` returns: `consumed` is `none` where `*consumed` is
left as it was, `frame` is the frame of a call which sets `*frame_ready`. -/
structure FeedResult where
  status : FrStatus
  consumed : Option Nat
  frame : Option FrFrame
  parser : FrFrameParser
  deriving DecidableEq, Repr

/-- The parser after a complete frame: the payload buffer keeps its capacity. -/
def FrFrameParser.reset (p : FrFrameParser) : FrFrameParser :=
  { frFrameParserInit with payloadBuf := frBufClear p.payloadBuf }

/-- The second phase of `fr_frame_parser_feed`: collect the payload, then hand out the frame. -/
def feedPayload (alloc : Nat → Bool) (p : FrFrameParser) (data : Bytes) (off : Nat) : FeedResult :=
  let need := p.payloadNeed.toNat - p.payloadBuf.data.length
  let take := min (data.length - off) need
  let (st, buf) :=
    if take ≠ 0 then frBufAppend alloc p.payloadBuf ((data.drop off).take take)
    else (.ok, p.payloadBuf)
  let p := { p with payloadBuf := buf }
  if st ≠ .ok then ⟨st, none, none, p⟩
  else
    let off := off + take
    if p.payloadBuf.data.length ≠ p.payloadNeed.toNat then ⟨.ok, some off, none, p⟩
    else ⟨.ok, some off, some ⟨p.type, p.flags, p.reqId, p.payloadBuf.data⟩, p.reset⟩

/-- `fr_frame_parser_feed`. The loop of the first phase runs at most once: one pass either uses
up the segment or completes the header. -/
def frFrameParserFeed (alloc : Nat → Bool) (p : FrFrameParser) (data : Bytes) : FeedResult :=
  if p.headerDone then feedPayload alloc p data 0
  else if p.header.length < frFrameHeaderSize ∧ 0 < data.length then
    let take := min data.length (frFrameHeaderSize - p.header.length)
    let p := { p with header := p.header ++ data.take take }
    if p.header.length = frFrameHeaderSize then
      match frameValidateHeader p with
      | (.ok, p) => feedPayload alloc { p with headerDone := true } data take
      | (st, p) => ⟨st, none, none, p⟩
    else ⟨.ok, some take, none, p⟩
  else ⟨.ok, some 0, none, p⟩

end ForgeRelay
