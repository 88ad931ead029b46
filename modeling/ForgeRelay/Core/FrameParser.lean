import ForgeRelay.Core.FrameHeader

/-!
# One call of the parser

Between calls a live parser is in one of two phases, and the bytes it holds are the unfinished
part of the stream. A call keeps everything and waits, or completes a frame whose encoding is
exactly the bytes taken for it, or stops at the twentieth byte of a header nobody encodes, or
runs out of memory.
-/

namespace ForgeRelay

/-- The unfinished part of the stream: what was fed since the last complete frame. -/
def FrFrameParser.pending (p : FrFrameParser) : Bytes := p.header ++ p.payloadBuf.data

/-- The parser as `fr_frame_parser_init` leaves it, up to the retained capacity. -/
def FrFrameParser.Initial (p : FrFrameParser) : Prop :=
  p = { frFrameParserInit with payloadBuf := ⟨[], p.payloadBuf.cap⟩ }

/-- Collecting a header: fewer than twenty bytes so far, everything else as initially. -/
structure InHeader (p : FrFrameParser) : Prop where
  rest : { p with header := [] }.Initial
  short : p.header.length < frFrameHeaderSize

/-- Collecting a payload announced by the header of an encodable frame. -/
structure InPayload (p : FrFrameParser) : Prop where
  done : p.headerDone = true
  header : p.header = frameHeader p.type 0 p.reqId p.payloadNeed
  flags : p.flags = 0
  type : frMsgTypeValid p.type = true
  reqId : p.reqId ≠ 0
  need : p.payloadNeed.toNat ≤ frFrameMaxPayload
  short : p.payloadBuf.data.length < p.payloadNeed.toNat

/-- The states between two calls that returned `FR_OK`. -/
inductive Live (p : FrFrameParser) : Prop
  | header (h : InHeader p)
  | payload (h : InPayload p)

/-- The state after a protocol error: a full header which was never marked done. -/
structure Dead (p : FrFrameParser) : Prop where
  done : p.headerDone = false
  full : p.header.length = frFrameHeaderSize

theorem InHeader.headerDone {p : FrFrameParser} (h : InHeader p) : p.headerDone = false := by
  have hr := h.rest
  simp only [FrFrameParser.Initial, frFrameParserInit, FrFrameParser.mk.injEq] at hr
  exact hr.2.1

private theorem InHeader.payload_nil {p : FrFrameParser} (h : InHeader p) :
    p.payloadBuf.data = [] := by
  have hr := congrArg (fun q => q.payloadBuf.data) h.rest
  exact hr

theorem InHeader.pending {p : FrFrameParser} (h : InHeader p) : p.pending = p.header := by
  rw [FrFrameParser.pending, h.payload_nil, List.append_nil]

theorem FrFrameParser.Initial.inHeader {p : FrFrameParser} (h : p.Initial) : InHeader p := by
  have hh : p.header = [] := congrArg FrFrameParser.header h
  refine ⟨?_, by rw [hh]; decide⟩
  rw [← hh]
  exact h

theorem FrFrameParser.Initial.pending {p : FrFrameParser} (h : p.Initial) : p.pending = [] := by
  have hh : p.header = [] := congrArg FrFrameParser.header h
  have hb : p.payloadBuf.data = [] := congrArg (fun q => q.payloadBuf.data) h
  rw [FrFrameParser.pending, hh, hb, List.append_nil]

theorem frFrameParserInit_initial : frFrameParserInit.Initial := rfl

private theorem FrFrameParser.reset_initial (p : FrFrameParser) : p.reset.Initial := rfl

/-- The four ways in which a call on a live parser ends, by what it did with `data`. -/
inductive FeedCase (alloc : Nat → Bool) (p : FrFrameParser) (data : Bytes) (r : FeedResult) : Prop
  | wait (status : r.status = .ok) (frame : r.frame = none)
      (consumed : r.consumed = some data.length) (live : Live r.parser)
      (pending : r.parser.pending = p.pending ++ data)
  | emit (f : FrFrame) (n : Nat) (status : r.status = .ok) (frame : r.frame = some f)
      (consumed : r.consumed = some n) (pos : 0 < n) (le : n ≤ data.length)
      (encodable : f.Encodable) (bytes : p.pending ++ data.take n = frameBytes f)
      (initial : r.parser.Initial)
  | protocol (status : r.status = .eProtocol) (frame : r.frame = none)
      (consumed : r.consumed = none) (before : p.pending.length < frFrameHeaderSize)
      (supplied : frFrameHeaderSize ≤ (p.pending ++ data).length)
      (bad : ¬ HeaderEncodable ((p.pending ++ data).take frFrameHeaderSize))
      (dead : Dead r.parser) (unbuffered : r.parser.payloadBuf.data = [])
  | memory (lack : alloc ≠ fun _ => true) (status : r.status ≠ .ok)
      (notProtocol : r.status ≠ .eProtocol) (frame : r.frame = none) (consumed : r.consumed = none)
      (good : HeaderEncodable ((p.pending ++ data).take frFrameHeaderSize))

private theorem collect_cases (alloc : Nat → Bool) (buf : FrBuf) (data : Bytes) (off take : Nat)
    (hroom : buf.data.length + take ≤ 2^63) :
    let r := if take ≠ 0 then frBufAppend alloc buf ((data.drop off).take take) else (.ok, buf)
    (r.1 = .ok ∧ r.2.data = buf.data ++ (data.drop off).take take) ∨
      (alloc ≠ (fun _ => true) ∧ r.1 ≠ .ok ∧ r.1 ≠ .eProtocol) := by
  dsimp only
  by_cases htake : take = 0
  · simp [htake]
  · rw [if_pos htake]
    rcases frBufAppend_cases alloc buf ((data.drop off).take take) with h | h
    · exact .inl h
    · refine .inr ⟨?_, h.1, h.2.1⟩
      rintro rfl
      obtain ⟨cap, hcap⟩ := frBufAppend_ok buf ((data.drop off).take take)
        (by rw [List.length_take]; omega)
      exact h.1 (by rw [hcap])

private theorem feedPayload_cases (alloc : Nat → Bool) (p q : FrFrameParser) (data : Bytes)
    (off : Nat)
    (hdone : q.headerDone = true) (hheader : q.header = frameHeader q.type 0 q.reqId q.payloadNeed)
    (hflags : q.flags = 0) (htype : frMsgTypeValid q.type = true) (hid : q.reqId ≠ 0)
    (hneed : q.payloadNeed.toNat ≤ frFrameMaxPayload)
    (hle : q.payloadBuf.data.length ≤ q.payloadNeed.toNat)
    (hoff : off ≤ data.length)
    (hprogress : 0 < off ∨ q.payloadBuf.data.length < q.payloadNeed.toNat)
    (hpend : p.pending ++ data.take off = q.pending) :
    FeedCase alloc p data (feedPayload alloc q data off) := by
  have hgood : HeaderEncodable ((p.pending ++ data).take frFrameHeaderSize) := by
    have hsplit : p.pending ++ data = q.header ++ (q.payloadBuf.data ++ data.drop off) := by
      rw [← List.append_assoc]
      change _ = q.pending ++ _
      rw [← hpend, List.append_assoc, List.take_append_drop]
    have hlen : q.header.length = frFrameHeaderSize := by rw [hheader]; exact frameHeader_length ..
    rw [hsplit, List.take_left' hlen, hheader]
    exact (headerChecks_iff _ (frameHeader_length ..)).mp
      (headerChecks_frameHeader htype hid hneed).1
  have hcollect := collect_cases alloc q.payloadBuf data off
    (min (data.length - off) (q.payloadNeed.toNat - q.payloadBuf.data.length))
    (by unfold frFrameMaxPayload at hneed; omega)
  unfold feedPayload
  dsimp only at hcollect ⊢
  generalize hslice : min (data.length - off)
    (q.payloadNeed.toNat - q.payloadBuf.data.length) = take at hcollect ⊢
  generalize (if take ≠ 0 then frBufAppend alloc q.payloadBuf ((data.drop off).take take)
    else (FrStatus.ok, q.payloadBuf)) = r at hcollect ⊢
  obtain ⟨st, buf⟩ := r
  dsimp only at hcollect ⊢
  rcases hcollect with ⟨hok, hbuf⟩ | ⟨hlack, hst, hproto⟩
  · subst hok
    have htake : off + take ≤ data.length := by omega
    have hlen : buf.data.length = q.payloadBuf.data.length + take := by
      rw [hbuf, List.length_append, List.length_take, List.length_drop]; omega
    have hbytes : p.pending ++ data.take (off + take) = q.header ++ buf.data := by
      rw [List.take_add, ← List.append_assoc, hpend, FrFrameParser.pending, hbuf,
        List.append_assoc]
    rw [if_neg (by simp)]
    by_cases hfull : buf.data.length = q.payloadNeed.toNat
    · rw [if_neg (by simpa using hfull)]
      refine .emit ⟨q.type, q.flags, q.reqId, buf.data⟩ (off + take) rfl rfl rfl (by omega) htake
        ⟨htype, hflags, hid, by rw [hfull]; exact hneed⟩ ?_ (FrFrameParser.reset_initial _)
      rw [hbytes, frameBytes, hheader, hflags, hfull, UInt32.ofNat_toNat]
    · rw [if_pos (by simpa using hfull)]
      have hall : off + take = data.length := by omega
      refine .wait rfl rfl (by rw [hall]) ?_ ?_
      · exact .payload ⟨hdone, hheader, hflags, htype, hid, hneed, by dsimp only; omega⟩
      · rw [hall, List.take_length] at hbytes
        exact hbytes.symm
  · rw [if_pos hst]
    exact .memory hlack hst hproto rfl rfl hgood

theorem frFrameParserFeed_cases (alloc : Nat → Bool) (p : FrFrameParser) (data : Bytes)
    (hp : Live p) : FeedCase alloc p data (frFrameParserFeed alloc p data) := by
  unfold frFrameParserFeed
  cases hp with
  | payload h =>
    rw [if_pos h.done]
    exact feedPayload_cases alloc p p data 0 h.done h.header h.flags h.type h.reqId h.need
      (Nat.le_of_lt h.short) (Nat.zero_le _) (.inr h.short) (by simp)
  | header h =>
    have hdone : ¬ p.headerDone = true := by simp [h.headerDone]
    rw [if_neg hdone]
    have hroom := h.short
    by_cases hdata : 0 < data.length
    · rw [if_pos ⟨hroom, hdata⟩]
      dsimp only
      generalize htake : min data.length (frFrameHeaderSize - p.header.length) = take
      have hle : take ≤ data.length := by omega
      have hlen : (p.header ++ data.take take).length = p.header.length + take := by
        rw [List.length_append, List.length_take, Nat.min_eq_left hle]
      by_cases hfull : (p.header ++ data.take take).length = frFrameHeaderSize
      · rw [if_pos hfull]
        -- the header is complete: it is judged as a whole
        have htook : (p.header ++ data).take frFrameHeaderSize = p.header ++ data.take take := by
          rw [List.take_append, List.take_of_length_le (Nat.le_of_lt h.short)]
          congr 2
          omega
        have hjudge := frameValidateHeader_cases { p with header := p.header ++ data.take take }
        generalize frameValidateHeader { p with header := p.header ++ data.take take } = v
          at hjudge ⊢
        obtain ⟨st, q⟩ := v
        rcases hjudge with ⟨hchecks, hv⟩ | ⟨hchecks, hst, hheader, hdone', hbuf⟩
        · injection hv with hst hq
          subst hst hq
          have hheader := hchecks.eq_frameHeader hfull
          refine feedPayload_cases alloc p _ data take rfl hheader rfl hchecks.type hchecks.reqId
            hchecks.payload_le ?_ hle (.inl (by omega)) ?_
          · change p.payloadBuf.data.length ≤ _
            rw [h.payload_nil]
            exact Nat.zero_le _
          · rw [h.pending]
            change _ = (p.header ++ data.take take) ++ p.payloadBuf.data
            rw [h.payload_nil, List.append_nil]
        · dsimp only at hst hheader hdone' hbuf
          subst hst
          refine .protocol rfl rfl rfl (by rw [h.pending]; exact h.short) ?_ ?_ ⟨?_, ?_⟩ ?_
          · rw [h.pending, List.length_append]; omega
          · rw [h.pending, htook]
            exact fun hc => hchecks ((headerChecks_iff _ hfull).mpr hc)
          · exact hdone'.trans h.headerDone
          · exact (congrArg List.length hheader).trans hfull
          · exact (congrArg FrBuf.data hbuf).trans h.payload_nil
      · rw [if_neg hfull]
        have hall : take = data.length := by omega
        have hshort : (p.header ++ data.take take).length < frFrameHeaderSize := by omega
        refine .wait rfl rfl (by rw [hall]) (.header ⟨h.rest, hshort⟩) ?_
        rw [h.pending, hall, List.take_length]
        change (p.header ++ data) ++ p.payloadBuf.data = _
        rw [h.payload_nil, List.append_nil]
    · rw [if_neg (fun hc => hdata hc.2)]
      have hnil : data = [] := List.length_eq_zero_iff.mp (by omega)
      subst hnil
      exact .wait rfl rfl rfl (.header h) (by simp)

theorem Dead.feed {p : FrFrameParser} (h : Dead p) (alloc : Nat → Bool) (data : Bytes) :
    frFrameParserFeed alloc p data = ⟨.ok, some 0, none, p⟩ := by
  unfold frFrameParserFeed
  rw [if_neg (by simp [h.done]), if_neg (by rw [h.full]; omega)]

end ForgeRelay
