import ForgeRelay.Core.FrameStream
import ForgeRelay.Lib.Trace

/-!
# Reading frames in the client

`Client::read_frame` keeps received bytes in a buffer with a read position beside the state of the
parser. However the server's bytes arrive, successive calls return its frames; but the buffer is
emptied only where a frame ends with the last byte received.
-/

namespace ForgeRelay

/-- `Client::Impl`, as far as `read_frame` works on it. -/
structure Client where
  parser : FrFrameParser
  inbuf : FrBuf
  inpos : Nat
  deriving DecidableEq, Repr

/-- A new client. -/
def clientInit : Client := ⟨frFrameParserInit, frBufInit, 0⟩

/-- The first half of a turn of the loop: what is left in the buffer is fed to the parser. -/
def Client.feed (alloc : Nat → Bool) (c : Client) : Except Error (Option FrFrame) × Client :=
  if c.inpos < c.inbuf.data.length then
    let r := frFrameParserFeed alloc c.parser (c.inbuf.data.drop c.inpos)
    if r.status ≠ .ok then
      (.error (.of .eProtocol "server sent invalid frame"), { c with parser := r.parser })
    else
      let c := { c with parser := r.parser, inpos := c.inpos + r.consumed.getD 0 }
      match r.frame with
      | some frame =>
        if c.inpos = c.inbuf.data.length then
          (.ok (some frame), { c with inbuf := frBufClear c.inbuf, inpos := 0 })
        else (.ok (some frame), c)
      | none => (.ok none, c)
  else (.ok none, c)

/-- The second half: the block that `recv` has brought is appended, and nobody asks whether there
was memory for it. -/
def Client.receive (alloc : Nat → Bool) (c : Client) (block : Bytes) : Client :=
  { c with inbuf := (frBufAppend alloc c.inbuf block).2 }

/-- How a call of `read_frame` ends, or that it still waits for a block. -/
inductive ReadResult
  | frame (frame : FrFrame)
  | error (e : Error)
  | waiting
  deriving DecidableEq, Repr

/-- `Client::read_frame`, where `recv` brings these blocks; the result comes with the blocks that
are left for later calls. -/
def Client.readFrame (alloc : Nat → Bool) (c : Client) :
    List Bytes → ReadResult × Client × List Bytes
  | [] =>
    match c.feed alloc with
    | (.error e, c) => (.error e, c, [])
    | (.ok (some frame), c) => (.frame frame, c, [])
    | (.ok none, c) => (.waiting, c, [])
  | block :: blocks =>
    match c.feed alloc with
    | (.error e, c) => (.error e, c, block :: blocks)
    | (.ok (some frame), c) => (.frame frame, c, block :: blocks)
    | (.ok none, c) => (c.receive alloc block).readFrame alloc blocks

/-- So many calls of `read_frame`, as long as they return frames. -/
def Client.readFrames (alloc : Nat → Bool) : Nat → Client → List Bytes →
    List FrFrame × Client × List Bytes
  | 0, c, blocks => ([], c, blocks)
  | n + 1, c, blocks =>
    match c.readFrame alloc blocks with
    | (.frame frame, c, blocks) =>
      let (frames, c, blocks) := readFrames alloc n c blocks
      (frame :: frames, c, blocks)
    | (_, c, blocks) => ([], c, blocks)

/-- With what is still to come, the client holds the bytes of these frames: the parser those of an
unfinished frame, the buffer those from the read position on. -/
structure Client.Holds (c : Client) (fs : List FrFrame) (future : Bytes) : Prop where
  live : Live c.parser
  stream : c.parser.pending ++ c.inbuf.data.drop c.inpos ++ future = fs.flatMap frameBytes
  pos_le : c.inpos ≤ c.inbuf.data.length

theorem clientInit_holds {fs : List FrFrame} {stream : Bytes} (h : stream = fs.flatMap frameBytes) :
    clientInit.Holds fs stream :=
  ⟨.header frFrameParserInit_initial.inHeader, h, Nat.zero_le _⟩

variable {c : Client} {fs : List FrFrame} {future : Bytes}

/-- With memory at hand, feeding returns the next frame and leaves the rest of the buffer, or takes
all of it into the parser. -/
theorem Client.Holds.feed (h : c.Holds fs future) (hfs : ∀ f ∈ fs, f.Encodable) :
    (∃ f rest c', fs = f :: rest ∧ c.feed (fun _ => true) = (.ok (some f), c') ∧
        c'.Holds rest future ∧ c'.parser.Initial ∧
        ((c'.inbuf.data = [] ∧ c'.inpos = 0) ∨
          (c'.inbuf = c.inbuf ∧ c'.inpos < c'.inbuf.data.length))) ∨
      ∃ c', c.feed (fun _ => true) = (.ok none, c') ∧ c'.Holds fs future ∧ c'.inbuf = c.inbuf ∧
        c'.inpos = c'.inbuf.data.length ∧
        c'.parser.pending = c.parser.pending ++ c.inbuf.data.drop c.inpos := by
  unfold Client.feed
  by_cases hpos : c.inpos < c.inbuf.data.length
  · rw [if_pos hpos]
    obtain ⟨hok, hnext⟩ := frFrameParserFeed_stream h.live (c.inbuf.data.drop c.inpos) future fs hfs
      h.stream
    dsimp only
    rw [if_neg (not_not.mpr hok)]
    rcases hnext with ⟨hframe, hn, hlive, hpending⟩ |
      ⟨f, rest, n, rfl, hframe, hn, -, hle, hinit, hrest⟩
    · have hend : c.inpos + (c.inbuf.data.drop c.inpos).length = c.inbuf.data.length := by
        rw [List.length_drop]
        omega
      rw [hframe, hn, Option.getD_some, hend]
      refine .inr ⟨_, rfl, ⟨hlive, ?_, le_rfl⟩, rfl, rfl, hpending⟩
      dsimp only
      rw [hpending, List.drop_length, List.append_nil, h.stream]
    · rw [List.length_drop] at hle
      rw [List.drop_drop] at hrest
      rw [hframe, hn, Option.getD_some]
      dsimp only
      by_cases hend : c.inpos + n = c.inbuf.data.length
      · rw [if_pos hend]
        refine .inl ⟨f, rest, _, rfl, rfl, ⟨.header hinit.inHeader, ?_, Nat.zero_le _⟩, hinit,
          .inl ⟨rfl, rfl⟩⟩
        rw [hend, List.drop_length] at hrest
        rw [hinit.pending]
        exact hrest
      · rw [if_neg hend]
        have hlt : c.inpos + n < c.inbuf.data.length := by omega
        refine .inl ⟨f, rest, _, rfl, rfl, ⟨.header hinit.inHeader, ?_, hlt.le⟩, hinit,
          .inr ⟨rfl, hlt⟩⟩
        rw [hinit.pending]
        exact hrest
  · rw [if_neg hpos]
    have hend : c.inpos = c.inbuf.data.length := le_antisymm h.pos_le (not_lt.mp hpos)
    refine .inr ⟨c, rfl, h, rfl, hend, ?_⟩
    rw [hend, List.drop_length, List.append_nil]

theorem Client.Holds.receive {block : Bytes} (h : c.Holds fs (block ++ future))
    (hroom : c.inbuf.data.length + block.length ≤ 2^63) :
    (c.receive (fun _ => true) block).Holds fs future ∧
      (c.receive (fun _ => true) block).inbuf.data = c.inbuf.data ++ block := by
  obtain ⟨cap, happend⟩ := frBufAppend_ok c.inbuf block hroom
  have hdata : (c.receive (fun _ => true) block).inbuf.data = c.inbuf.data ++ block := by
    rw [Client.receive, happend]
  refine ⟨⟨h.live, ?_, ?_⟩, hdata⟩
  · rw [hdata]
    change c.parser.pending ++ (c.inbuf.data ++ block).drop c.inpos ++ future = _
    rw [List.drop_append_of_le_length h.pos_le, ← h.stream]
    simp only [List.append_assoc]
  · rw [hdata, List.length_append]
    exact h.pos_le.trans (Nat.le_add_right _ _)

theorem Client.Holds.readFrame {f : FrFrame} {rest : List FrFrame} {blocks : List Bytes}
    (h : c.Holds (f :: rest) blocks.flatten) (hfs : ∀ g ∈ f :: rest, g.Encodable)
    (hroom : c.inbuf.data.length + blocks.flatten.length ≤ 2^63) :
    ∃ c' blocks', c.readFrame (fun _ => true) blocks = (.frame f, c', blocks') ∧
      c'.Holds rest blocks'.flatten ∧ c'.parser.Initial ∧
      c'.inbuf.data.length + blocks'.flatten.length ≤ 2^63 := by
  induction blocks generalizing c with
  | nil =>
    rcases h.feed hfs with ⟨f', rest', c', hcons, hfeed, hholds, hinit, hbuf⟩ |
      ⟨c', -, hholds, -, hend, -⟩
    · cases hcons
      refine ⟨c', [], by rw [Client.readFrame, hfeed], hholds, hinit, ?_⟩
      rcases hbuf with ⟨hnil, -⟩ | ⟨hsame, -⟩
      · simp [hnil]
      · rwa [hsame]
    · -- the parser would hold the whole frame
      have hstream := hholds.stream
      rw [hend, List.drop_length, List.flatten_nil, List.append_nil, List.append_nil,
        List.flatMap_cons] at hstream
      exact absurd hstream (hholds.live.no_frame (hfs f List.mem_cons_self) _)
  | cons block blocks ih =>
    rcases h.feed hfs with ⟨f', rest', c', hcons, hfeed, hholds, hinit, hbuf⟩ |
      ⟨c', hfeed, hholds, hsame, -, -⟩
    · cases hcons
      refine ⟨c', block :: blocks, by rw [Client.readFrame, hfeed], hholds, hinit, ?_⟩
      rcases hbuf with ⟨hnil, -⟩ | ⟨hsame, -⟩
      · rw [hnil, List.length_nil]
        omega
      · rwa [hsame]
    · rw [List.flatten_cons, List.length_append] at hroom
      rw [List.flatten_cons] at hholds
      obtain ⟨hreceived, hdata⟩ := hholds.receive (by rw [hsame]; omega)
      obtain ⟨c'', blocks', hread, hafter⟩ := ih hreceived
        (by rw [hdata, hsame, List.length_append]; omega)
      exact ⟨c'', blocks', by rw [Client.readFrame, hfeed]; exact hread, hafter⟩

theorem Client.Holds.readFrames {blocks : List Bytes} (h : c.Holds fs blocks.flatten)
    (hfs : ∀ f ∈ fs, f.Encodable) (hroom : c.inbuf.data.length + blocks.flatten.length ≤ 2^63)
    {n : Nat} (hn : n ≤ fs.length) :
    ∃ c' blocks', c.readFrames (fun _ => true) n blocks = (fs.take n, c', blocks') ∧
      c'.Holds (fs.drop n) blocks'.flatten ∧ (c.parser.Initial → c'.parser.Initial) := by
  induction n generalizing c fs blocks with
  | zero => exact ⟨c, blocks, rfl, h, id⟩
  | succ n ih =>
    cases fs with
    | nil => simp at hn
    | cons f rest =>
      obtain ⟨c', blocks', hread, hholds, hinit, hroom'⟩ := h.readFrame hfs hroom
      obtain ⟨c'', blocks'', hreads, hafter, hinit'⟩ := ih hholds
        (fun g hg => hfs g (List.mem_cons_of_mem _ hg)) hroom' (Nat.le_of_succ_le_succ hn)
      refine ⟨c'', blocks'', ?_, hafter, fun _ => hinit' hinit⟩
      rw [Client.readFrames, hread]
      dsimp only
      rw [hreads, List.take_succ_cons]

/-- However the bytes of valid frames are cut into blocks, each call returns the next frame. Behind
it, the buffer from the read position on and the blocks that are left hold exactly the bytes of the
frames that are left. -/
theorem readFrames_exact {fs : List FrFrame} {blocks : List Bytes} (hfs : ∀ f ∈ fs, f.Encodable)
    (hcut : blocks.flatten = fs.flatMap frameBytes) (hroom : blocks.flatten.length ≤ 2^63) {n : Nat}
    (hn : n ≤ fs.length) :
    ∃ c blocks', clientInit.readFrames (fun _ => true) n blocks = (fs.take n, c, blocks') ∧
      c.parser.Initial ∧
      c.inbuf.data.drop c.inpos ++ blocks'.flatten = (fs.drop n).flatMap frameBytes := by
  obtain ⟨c, blocks', hreads, hholds, hinit⟩ := (clientInit_holds hcut).readFrames hfs
    (by simpa [clientInit, frBufInit] using hroom) hn
  have hinit := hinit frFrameParserInit_initial
  refine ⟨c, blocks', hreads, hinit, ?_⟩
  have hstream := hholds.stream
  rwa [hinit.pending, List.nil_append] at hstream

/-- Two pings of which the second begins in the middle of a block. -/
theorem readFrames_exact_pings : ∃ c blocks',
    clientInit.readFrames (fun _ => true) 2 [(frameHeader 3 0 7 0).take 5,
      (frameHeader 3 0 7 0).drop 5 ++ (frameHeader 3 0 8 0).take 1, (frameHeader 3 0 8 0).drop 1] =
      ([⟨3, 0, 7, []⟩, ⟨3, 0, 8, []⟩], c, blocks') := by
  have hcut : [(frameHeader 3 0 7 0).take 5,
      (frameHeader 3 0 7 0).drop 5 ++ (frameHeader 3 0 8 0).take 1,
      (frameHeader 3 0 8 0).drop 1].flatten =
        [(⟨3, 0, 7, []⟩ : FrFrame), ⟨3, 0, 8, []⟩].flatMap frameBytes := by decide +kernel
  obtain ⟨c, blocks', hreads, -⟩ := readFrames_exact
    (List.forall_mem_cons.mpr ⟨⟨rfl, rfl, by decide, by decide⟩,
      List.forall_mem_singleton.mpr ⟨rfl, rfl, by decide, by decide⟩⟩)
    hcut (by decide +kernel) (n := 2) (by decide)
  exact ⟨c, blocks', hreads⟩

end ForgeRelay
