import ForgeRelay.Core.FrameParser

/-!
# Streams of frames

Feeding whole segments, as the server's read loop does: the rest of a segment is fed again after
each complete frame. Any cutting of a concatenation of encoded frames yields these frames, and a
hostile stream yields only frames which re-encode to the bytes taken for them.
-/

namespace ForgeRelay

/-- What feeding one or more segments produced. -/
structure StreamResult where
  frames : List FrFrame
  status : FrStatus
  parser : FrFrameParser
  deriving DecidableEq, Repr

/-- Feed one segment, and the unconsumed rest after each ready frame. Every frame takes at least
one byte, so the segment's length bounds the number of calls. -/
def feedLoop (alloc : Nat → Bool) : Nat → FrFrameParser → Bytes → StreamResult
  | 0, p, _ => ⟨[], .ok, p⟩
  | fuel+1, p, data =>
    let r := frFrameParserFeed alloc p data
    if r.status ≠ .ok then ⟨[], r.status, r.parser⟩
    else
      match r.frame with
      | none => ⟨[], .ok, r.parser⟩
      | some f =>
        let rest := data.drop (r.consumed.getD 0)
        if rest = [] then ⟨[f], .ok, r.parser⟩
        else
          let s := feedLoop alloc fuel r.parser rest
          { s with frames := f :: s.frames }

def feedSegment (alloc : Nat → Bool) (p : FrFrameParser) (data : Bytes) : StreamResult :=
  feedLoop alloc (data.length + 1) p data

def feedSegments (alloc : Nat → Bool) (p : FrFrameParser) : List Bytes → StreamResult
  | [] => ⟨[], .ok, p⟩
  | seg :: segs =>
    let s := feedSegment alloc p seg
    if s.status ≠ .ok then s
    else
      let t := feedSegments alloc s.parser segs
      { t with frames := s.frames ++ t.frames }

theorem frameBytes_append_inj {f g : FrFrame} {x y : Bytes} (hf : f.Encodable) (hg : g.Encodable)
    (h : frameBytes f ++ x = frameBytes g ++ y) : f = g ∧ x = y := by
  have hhead : frameHeader f.type f.flags f.reqId (UInt32.ofNat f.payload.length) =
      frameHeader g.type g.flags g.reqId (UInt32.ofNat g.payload.length) := by
    have ht := congrArg (List.take frFrameHeaderSize) h
    rwa [frameBytes_append_take, frameBytes_append_take, frameBytes_take_header,
      frameBytes_take_header] at ht
  obtain ⟨ftype, fflags, fid, fpay⟩ := f
  obtain ⟨gtype, gflags, gid, gpay⟩ := g
  obtain ⟨hft, rfl, hfi, hfp⟩ := hf
  obtain ⟨hgt, rfl, hgi, hgp⟩ := hg
  dsimp only at *
  have rf := (headerChecks_frameHeader hft hfi (by rw [payloadLen_toNat hfp]; exact hfp)).2
  have rg := (headerChecks_frameHeader hgt hgi (by rw [payloadLen_toNat hgp]; exact hgp)).2
  rw [hhead] at rf
  obtain rfl : ftype = gtype := rf.1.symm.trans rg.1
  obtain rfl : fid = gid := rf.2.1.symm.trans rg.2.1
  have hlen : fpay.length = gpay.length := by
    have hl := congrArg UInt32.toNat (rf.2.2.symm.trans rg.2.2)
    rwa [payloadLen_toNat hfp, payloadLen_toNat hgp] at hl
  have hbody : fpay ++ x = gpay ++ y := by
    simp only [frameBytes, hhead, List.append_assoc] at h
    exact List.append_cancel_left h
  obtain ⟨rfl, rfl⟩ := List.append_inj hbody hlen
  exact ⟨rfl, rfl⟩

theorem Live.no_frame {p : FrFrameParser} (hp : Live p) {f : FrFrame} (hf : f.Encodable)
    (rest : Bytes) : p.pending ≠ frameBytes f ++ rest := by
  intro h
  cases hp with
  | header hh =>
    have hl := congrArg List.length h
    have hshort := hh.short
    rw [hh.pending, List.length_append, frameBytes_length] at hl
    unfold frFrameHeaderSize at hshort
    omega
  | payload hh =>
    -- fill up the announced payload: the filled frame would properly extend `f`
    let filler := List.replicate (p.payloadNeed.toNat - p.payloadBuf.data.length) (0 : UInt8)
    let g : FrFrame := ⟨p.type, 0, p.reqId, p.payloadBuf.data ++ filler⟩
    have hfill : (p.payloadBuf.data ++ filler).length = p.payloadNeed.toNat := by
      have hs := hh.short
      simp only [filler, List.length_append, List.length_replicate]
      omega
    have hg : g.Encodable := ⟨hh.type, rfl, hh.reqId, by rw [hfill]; exact hh.need⟩
    have hbytes : frameBytes f ++ (rest ++ filler) = frameBytes g ++ [] := by
      rw [← List.append_assoc, ← h, FrFrameParser.pending, hh.header, frameBytes, hfill,
        UInt32.ofNat_toNat, List.append_nil, List.append_assoc]
    have hnil := (frameBytes_append_inj hf hg hbytes).2
    have hzero := congrArg List.length hnil
    have hs := hh.short
    simp only [filler, List.length_append, List.length_replicate, List.length_nil] at hzero
    omega

/-- Holding an unfinished part of a well-formed stream, a call with memory at hand either waits
or hands out the stream's next frame. -/
theorem frFrameParserFeed_stream {p : FrFrameParser} (hp : Live p) (data more : Bytes)
    (fs : List FrFrame) (hfs : ∀ f ∈ fs, f.Encodable)
    (hstream : p.pending ++ data ++ more = fs.flatMap frameBytes) :
    let r := frFrameParserFeed (fun _ => true) p data
    r.status = .ok ∧
      ((r.frame = none ∧ r.consumed = some data.length ∧ Live r.parser ∧
          r.parser.pending = p.pending ++ data) ∨
        ∃ f rest n, fs = f :: rest ∧ r.frame = some f ∧ r.consumed = some n ∧ 0 < n ∧
          n ≤ data.length ∧ r.parser.Initial ∧
          data.drop n ++ more = rest.flatMap frameBytes) := by
  dsimp only
  have hcase := frFrameParserFeed_cases (fun _ => true) p data hp
  generalize frFrameParserFeed (fun _ => true) p data = r at hcase ⊢
  cases hcase with
  | wait status frame consumed live pending =>
    exact ⟨status, .inl ⟨frame, consumed, live, pending⟩⟩
  | emit f n status frame consumed pos le encodable bytes initial =>
    refine ⟨status, .inr ?_⟩
    have hcut : frameBytes f ++ (data.drop n ++ more) = fs.flatMap frameBytes := by
      rw [← bytes, List.append_assoc, ← List.append_assoc (data.take n), List.take_append_drop,
        ← List.append_assoc]
      exact hstream
    cases fs with
    | nil =>
      have hl := congrArg List.length hcut
      rw [List.length_append, frameBytes_length] at hl
      simp at hl
    | cons g rest =>
      rw [List.flatMap_cons] at hcut
      obtain ⟨rfl, hrest⟩ := frameBytes_append_inj encodable (hfs g List.mem_cons_self) hcut
      exact ⟨f, rest, n, rfl, frame, consumed, pos, le, initial, hrest⟩
  | protocol status frame consumed before supplied bad dead unbuffered =>
    exfalso
    cases fs with
    | nil =>
      have hl := congrArg List.length hstream
      rw [List.length_append] at hl
      unfold frFrameHeaderSize at supplied
      simp only [List.flatMap_nil, List.length_nil] at hl
      omega
    | cons g rest =>
      apply bad
      refine ⟨g, _, encodeFrame_of_encodable (hfs g List.mem_cons_self), ?_⟩
      have ht := congrArg (List.take frFrameHeaderSize) hstream
      rwa [List.take_append_of_le_length supplied, List.flatMap_cons, frameBytes_append_take] at ht
  | memory lack status notProtocol frame consumed good => exact absurd rfl lack

/-- One segment: the frames completed by it are the next ones of the stream, and the rest of the
stream is what the parser holds and what is still to come. -/
private theorem feedLoop_stream (fuel : Nat) (p : FrFrameParser) (hp : Live p) (data more : Bytes)
    (hfuel : data.length < fuel) (fs : List FrFrame) (hfs : ∀ f ∈ fs, f.Encodable)
    (hstream : p.pending ++ data ++ more = fs.flatMap frameBytes) :
    ∃ done rest q, fs = done ++ rest ∧ feedLoop (fun _ => true) fuel p data = ⟨done, .ok, q⟩ ∧
      Live q ∧ q.pending ++ more = rest.flatMap frameBytes := by
  induction fuel generalizing p data fs with
  | zero => omega
  | succ fuel ih =>
    obtain ⟨hok, hnext⟩ := frFrameParserFeed_stream hp data more fs hfs hstream
    rw [feedLoop]
    dsimp only
    rw [if_neg (by simpa using hok)]
    rcases hnext with ⟨hframe, -, hlive, hpend⟩ |
      ⟨f, rest, n, rfl, hframe, hn, hpos, hle, hinit, hrest⟩
    · exact ⟨[], fs, _, rfl, by rw [hframe], hlive, by rw [hpend]; exact hstream⟩
    · have hlive : Live (frFrameParserFeed (fun _ => true) p data).parser := .header hinit.inHeader
      rw [hframe, hn]
      dsimp only [Option.getD_some]
      by_cases hdrop : data.drop n = []
      · refine ⟨[f], rest, _, rfl, by rw [if_pos hdrop], hlive, ?_⟩
        rw [hinit.pending]
        rwa [hdrop] at hrest
      · rw [if_neg hdrop]
        obtain ⟨done, tail, q, hsplit, hloop, hq, hpend⟩ := ih _ hlive (data.drop n)
          (by rw [List.length_drop]; omega) rest
          (fun g hg => hfs g (List.mem_cons_of_mem _ hg)) (by rw [hinit.pending]; exact hrest)
        exact ⟨f :: done, tail, q, by rw [hsplit]; rfl, by rw [hloop], hq, hpend⟩

theorem feedSegments_stream (segs : List Bytes) (p : FrFrameParser) (hp : Live p)
    (fs : List FrFrame) (hfs : ∀ f ∈ fs, f.Encodable)
    (hstream : p.pending ++ segs.flatten = fs.flatMap frameBytes) :
    ∃ q, feedSegments (fun _ => true) p segs = ⟨fs, .ok, q⟩ ∧ q.Initial := by
  induction segs generalizing p fs with
  | nil =>
    rw [List.flatten_nil, List.append_nil] at hstream
    cases fs with
    | cons f fs =>
      exact absurd hstream (hp.no_frame (hfs f List.mem_cons_self) _)
    | nil =>
      refine ⟨p, rfl, ?_⟩
      cases hp with
      | payload h =>
        have hl := congrArg List.length hstream
        simp [FrFrameParser.pending, h.header] at hl
      | header h =>
        rw [h.pending] at hstream
        have hr := h.rest
        rwa [← (show p.header = [] from hstream)] at hr
  | cons seg segs ih =>
    rw [List.flatten_cons, ← List.append_assoc] at hstream
    obtain ⟨done, rest, q, rfl, hloop, hq, hpend⟩ :=
      feedLoop_stream (seg.length + 1) p hp seg segs.flatten (Nat.lt_succ_self _) fs hfs hstream
    obtain ⟨q', hrun, hinit⟩ := ih q hq rest
      (fun f hf => hfs f (List.mem_append_right _ hf)) hpend
    refine ⟨q', ?_, hinit⟩
    rw [feedSegments, feedSegment, hloop]
    dsimp only
    rw [if_neg (by simp), hrun]

/-- Decoding undoes encoding: however the encodings of valid frames are cut into segments, the
parser hands out exactly these frames and is initial again. -/
theorem feedSegments_encodeFrame (fs : List FrFrame) (segs : List Bytes)
    (hfs : ∀ f ∈ fs, frMsgTypeValid f.type = true ∧ f.flags = 0 ∧ f.reqId ≠ 0 ∧
      f.payload.length ≤ frFrameMaxPayload)
    (hcut : segs.flatten = fs.flatMap fun f => (encodeFrame f).getD []) :
    ∃ q, feedSegments (fun _ => true) frFrameParserInit segs = ⟨fs, .ok, q⟩ ∧ q.Initial := by
  have hvalid : ∀ f ∈ fs, f.Encodable := fun f hf =>
    ⟨(hfs f hf).1, (hfs f hf).2.1, (hfs f hf).2.2.1, (hfs f hf).2.2.2⟩
  apply feedSegments_stream segs _ (.header frFrameParserInit_initial.inHeader) fs hvalid
  rw [frFrameParserInit_initial.pending, List.nil_append, hcut]
  apply List.flatMap_congr
  intro f hf
  rw [encodeFrame_of_encodable (hvalid f hf), Option.getD_some]

/-- Three frames, cut in the header of the first, in that of the second and in its payload. -/
theorem feedSegments_encodeFrame_cut :
    let fs : List FrFrame := [⟨3, 0, 7, []⟩, ⟨1, 0, 8, [1, 2, 3, 4]⟩, ⟨3, 0, 9, []⟩]
    let stream := fs.flatMap fun f => (encodeFrame f).getD []
    ∃ q, feedSegments (fun _ => true) frFrameParserInit
      [stream.take 5, (stream.drop 5).take 30, [], (stream.drop 35).take 7, stream.drop 42] =
        ⟨fs, .ok, q⟩ ∧ q.Initial := by
  intro fs stream
  apply feedSegments_encodeFrame fs
  · decide
  · decide +kernel

/-- What a parser has taken of a stream: calls that returned `FR_OK`, each with any bytes, of
which the consumed ones count; `fs` are the frames handed out so far. -/
inductive Fed : List FrFrame → Bytes → FrFrameParser → Prop
  | init : Fed [] [] frFrameParserInit
  | feed {fs : List FrFrame} {taken : Bytes} {p : FrFrameParser} (h : Fed fs taken p)
      (alloc : Nat → Bool) (data : Bytes) (hok : (frFrameParserFeed alloc p data).status = .ok) :
      Fed (fs ++ (frFrameParserFeed alloc p data).frame.toList)
        (taken ++ data.take ((frFrameParserFeed alloc p data).consumed.getD 0))
        (frFrameParserFeed alloc p data).parser

theorem Fed.split {fs : List FrFrame} {taken : Bytes} {p : FrFrameParser} (h : Fed fs taken p) :
    Live p ∧ taken = fs.flatMap (fun f => (encodeFrame f).getD []) ++ p.pending := by
  induction h with
  | init => exact ⟨.header frFrameParserInit_initial.inHeader, rfl⟩
  | @feed fs taken p h alloc data hok ih =>
    obtain ⟨hlive, rfl⟩ := ih
    have hcase := frFrameParserFeed_cases alloc p data hlive
    generalize frFrameParserFeed alloc p data = r at hok hcase ⊢
    cases hcase with
    | wait status frame consumed live pending =>
      refine ⟨live, ?_⟩
      rw [frame, consumed, pending, Option.getD_some, List.take_length, Option.toList_none,
        List.append_nil, List.append_assoc]
    | emit f n status frame consumed pos le encodable bytes initial =>
      refine ⟨.header initial.inHeader, ?_⟩
      rw [frame, consumed, initial.pending, Option.getD_some, Option.toList_some,
        List.flatMap_append, List.flatMap_singleton, encodeFrame_of_encodable encodable,
        Option.getD_some, List.append_nil, List.append_assoc, bytes]
    | protocol status => exact absurd (status.symm.trans hok) (by decide)
    | memory _ status => exact absurd hok status

/-- Further calls on the same parser, whatever they return. -/
def feedMore (p : FrFrameParser) : List ((Nat → Bool) × Bytes) → List FeedResult
  | [] => []
  | (alloc, data) :: more =>
    frFrameParserFeed alloc p data :: feedMore (frFrameParserFeed alloc p data).parser more

private theorem Dead.feedMore {p : FrFrameParser} (h : Dead p)
    (more : List ((Nat → Bool) × Bytes)) :
    ∀ r ∈ feedMore p more, r.frame = none := by
  induction more with
  | nil => intro r hr; cases hr
  | cons input more ih =>
    obtain ⟨alloc, data⟩ := input
    intro r hr
    rw [ForgeRelay.feedMore, h.feed] at hr
    rcases List.mem_cons.mp hr with rfl | hr
    · rfl
    · exact ih r hr

end ForgeRelay
