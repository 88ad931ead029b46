import ForgeRelay.Client.ReadFrame
import ForgeRelay.Transport.Sockets

/-!
# From the outbox to the client

What the I/O thread writes to a socket arrives in blocks of any size. However the threads of the
server, the sockets and the blocks interleave, a client reads the frames that the server has
appended for it, one after the other.
-/

namespace ForgeRelay

variable {c : Client} {fs : List FrFrame} {blocks : List Bytes} {future : Bytes}

/-- Nothing is in the buffer any more, and the parser waits for the rest of a frame. -/
def Client.Waits (c : Client) : Prop := c.inpos = c.inbuf.data.length

private theorem Client.Holds.readFrame_next (h : c.Holds fs (blocks.flatten ++ future))
    (hfs : ∀ f ∈ fs, f.Encodable)
    (hroom : c.inbuf.data.length + blocks.flatten.length ≤ 2 ^ 63) :
    (∃ f rest c' blocks', fs = f :: rest ∧
        c.readFrame (fun _ => true) blocks = (.frame f, c', blocks') ∧
        c'.Holds rest (blocks'.flatten ++ future) ∧
        c'.inbuf.data.length + blocks'.flatten.length ≤ 2 ^ 63) ∨
      ∃ c', c.readFrame (fun _ => true) blocks = (.waiting, c', []) ∧ c'.Holds fs future ∧
        c'.Waits := by
  induction blocks generalizing c with
  | nil =>
    rcases h.feed hfs with ⟨f, rest, c', hcons, hfeed, hholds, -, hbuf⟩ |
      ⟨c', hfeed, hholds, -, hend, -⟩
    · refine .inl ⟨f, rest, c', [], hcons, by rw [Client.readFrame, hfeed], hholds, ?_⟩
      rcases hbuf with ⟨hnil, -⟩ | ⟨hsame, -⟩
      · simp [hnil]
      · rwa [hsame]
    · exact .inr ⟨c', by rw [Client.readFrame, hfeed], hholds, hend⟩
  | cons block blocks ih =>
    rcases h.feed hfs with ⟨f, rest, c', hcons, hfeed, hholds, -, hbuf⟩ |
      ⟨c', hfeed, hholds, hsame, -, -⟩
    · refine .inl ⟨f, rest, c', block :: blocks, hcons, by rw [Client.readFrame, hfeed], hholds, ?_⟩
      rcases hbuf with ⟨hnil, -⟩ | ⟨hsame, -⟩
      · rw [hnil, List.length_nil]
        omega
      · rwa [hsame]
    · rw [List.flatten_cons, List.length_append] at hroom
      rw [List.flatten_cons, List.append_assoc] at hholds
      obtain ⟨hreceived, hdata⟩ := hholds.receive (by rw [hsame]; omega)
      have hnext := ih hreceived (by rw [hdata, hsame, List.length_append]; omega)
      have hread : c.readFrame (fun _ => true) (block :: blocks) =
          (c'.receive (fun _ => true) block).readFrame (fun _ => true) blocks := by
        rw [Client.readFrame, hfeed]
      rw [hread]
      exact hnext

private theorem Client.Holds.readFrames_next (h : c.Holds fs (blocks.flatten ++ future))
    (hfs : ∀ f ∈ fs, f.Encodable)
    (hroom : c.inbuf.data.length + blocks.flatten.length ≤ 2 ^ 63) (n : Nat) :
    ∃ read left c' blocks', fs = read ++ left ∧
      c.readFrames (fun _ => true) n blocks = (read, c', blocks') ∧
      c'.Holds left (blocks'.flatten ++ future) ∧
      (read.length = n ∨ read.length < n ∧ blocks' = [] ∧ c'.Waits ∧ ∃ before unread,
        c.readFrames (fun _ => true) read.length blocks = (read, before, unread) ∧
          before.readFrame (fun _ => true) unread = (.waiting, c', [])) := by
  induction n generalizing c fs blocks with
  | zero => exact ⟨[], fs, c, blocks, rfl, rfl, h, .inl rfl⟩
  | succ n ih =>
    rcases h.readFrame_next hfs hroom with
      ⟨f, rest, c', blocks', rfl, hread, hholds, hroom'⟩ | ⟨c', hread, hholds, hwaits⟩
    · obtain ⟨read, left, c'', blocks'', rfl, hreads, hafter, hend⟩ :=
        ih hholds (List.forall_mem_cons.mp hfs).2 hroom'
      refine ⟨f :: read, left, c'', blocks'', rfl, ?_, hafter, ?_⟩
      · rw [Client.readFrames, hread]
        dsimp only
        rw [hreads]
      · rw [List.length_cons]
        rcases hend with hlength | ⟨hlength, hnone, hwaits, before, unread, hgood, hstop⟩
        · exact .inl (congrArg (· + 1) hlength)
        · refine .inr ⟨Nat.succ_lt_succ hlength, hnone, hwaits, before, unread, ?_, hstop⟩
          rw [Client.readFrames, hread]
          dsimp only
          rw [hgood]
    · refine ⟨[], fs, c', [], rfl, ?_, hholds,
        .inr ⟨Nat.succ_pos n, rfl, hwaits, c, blocks, rfl, hread⟩⟩
      rw [Client.readFrames, hread]

private theorem Client.Holds.nil_of_waits (h : c.Holds fs []) (hfs : ∀ f ∈ fs, f.Encodable)
    (hwaits : c.Waits) : fs = [] := by
  cases fs with
  | nil => rfl
  | cons f rest =>
    have hstream := h.stream
    rw [hwaits, List.drop_length, List.append_nil, List.append_nil, List.flatMap_cons] at hstream
    exact absurd hstream (h.live.no_frame (hfs f List.mem_cons_self) _)

private theorem Sockets.Orderly.framesOf {s : Sockets} (h : s.Orderly) (socket : Nat) :
    ∃ frames : List FrFrame, s.written socket <+: frames.flatMap frameBytes ∧
      (∀ f ∈ frames, s.Sends socket f) ∧
      ∀ conn, s.connections socket = some conn → frames = conn.history.map (·.frame) := by
  cases hconn : s.connections socket with
  | none =>
    obtain ⟨frames, hwritten, hsends⟩ := h.own socket
    exact ⟨frames, hwritten, hsends, fun _ hnone => by cases hnone⟩
  | some conn =>
    have hseated := h.seated socket conn hconn
    refine ⟨conn.history.map (·.frame), ?_, ?_, ?_⟩
    · rw [← hseated.frames]
      exact List.prefix_append _ _
    · intro f hf
      obtain ⟨g, hg, rfl⟩ := List.mem_map.mp hf
      exact hseated.history g hg
    · intro conn' hconn'
      cases hconn'
      rfl

/-- Whatever the threads of the server do, however the sockets take their bytes, and in whichever
blocks the bytes arrive that have arrived by now: successive calls of `read_frame` return frames
that belong on the socket of the client, and the call behind the last of them waits: none fails.
While the connection is open, they return what has been appended to its outbox, in this order, and
all of it once all of it has arrived. -/
theorem client_reads_own_frames {sha : Sha256} {service : Service} {workers : Nat}
    {events : List SocketEvent} {s : Sockets}
    (hrun : Trace.Run (Sockets.Step sha) (.start service workers) events s) {socket : Nat}
    {blocks : List Bytes} (harrived : blocks.flatten <+: s.written socket)
    (hroom : blocks.flatten.length ≤ 2 ^ 63) (n : Nat) :
    ∃ frames c blocks', clientInit.readFrames (fun _ => true) n blocks = (frames, c, blocks') ∧
      (∀ f ∈ frames, s.Owns socket f) ∧
      (frames.length = n ∨ frames.length < n ∧ ∃ before unread,
        clientInit.readFrames (fun _ => true) frames.length blocks = (frames, before, unread) ∧
          before.readFrame (fun _ => true) unread = (.waiting, c, blocks')) ∧
      ∀ conn, s.connections socket = some conn →
        frames <+: conn.history.map (·.frame) ∧
          (conn.outbox = [] → blocks.flatten = s.written socket → conn.history.length ≤ n →
            frames = conn.history.map (·.frame)) := by
  have horderly : s.Orderly := hrun.invariant
    (fun _ _ _ _ h hstep => Sockets.step_orderly h hstep) (Sockets.start_orderly service workers)
  obtain ⟨fs, hwritten, hsends, hhistory⟩ := horderly.framesOf socket
  have hfs : ∀ f ∈ fs, f.Encodable := fun f hf => (hsends f hf).1
  obtain ⟨future, hfuture⟩ := harrived.trans hwritten
  obtain ⟨frames, left, c, blocks', hsplit, hreads, hholds, hend⟩ :=
    (clientInit_holds hfuture).readFrames_next hfs (by simpa [clientInit, frBufInit] using hroom) n
  subst hsplit
  have hleft : ∀ f ∈ left, f.Encodable := fun f hf => hfs f (List.mem_append_right _ hf)
  refine ⟨frames, c, blocks', hreads, ?_, ?_, ?_⟩
  · exact fun f hf => (hsends f (List.mem_append_left _ hf)).2
  · rcases hend with hlength | ⟨hlength, rfl, -, hstop⟩
    · exact .inl hlength
    · exact .inr ⟨hlength, hstop⟩
  · intro conn hconn
    rw [← hhistory conn hconn]
    refine ⟨List.prefix_append _ _, fun hflushed hall hn => ?_⟩
    have hnone : left = [] := by
      rcases hend with hlength | ⟨-, rfl, hwaits, -⟩
      · have hcount := congrArg List.length (hhistory conn hconn)
        rw [List.length_append, List.length_map] at hcount
        exact List.eq_nil_of_length_eq_zero (by omega)
      · have hbytes := (horderly.seated socket conn hconn).frames
        rw [hflushed, List.append_nil, ← hhistory conn hconn, ← hfuture, hall] at hbytes
        have hnothing : future = [] := List.append_cancel_left
          (hbytes.symm.trans (List.append_nil _).symm)
        rw [hnothing] at hholds
        exact hholds.nil_of_waits hleft hwaits
    rw [hnone, List.append_nil]

/-- The rest of the reply is written. -/
def sampleFlushed : List SocketEvent := sampleReuse ++ [.visit 2 (.flush 100)]

/-- The next client gets the reply in two blocks, and its second call waits. -/
theorem client_reads_own_frames_sample : ∃ s,
    Trace.playIf (Sockets.step sampleSha) (fun _ _ => true) (.start sampleArchive 1)
      sampleFlushed = some s ∧ ∃ frames c blocks',
      clientInit.readFrames (fun _ => true) 2 [(s.written 2).take 3, (s.written 2).drop 3] =
        (frames, c, blocks') ∧ frames.length = 1 ∧ (∀ f ∈ frames, s.Owns 2 f) ∧
      ∃ (before : Client) (unread : List Bytes),
        before.readFrame (fun _ => true) unread = (.waiting, c, blocks') := by
  have hcounts : (Trace.playIf (Sockets.step sampleSha) (fun _ _ => true)
      (.start sampleArchive 1) sampleFlushed).map (fun s => ((s.written 2).length,
        (clientInit.readFrames (fun _ => true) 2
          [(s.written 2).take 3, (s.written 2).drop 3]).1.length)) = some (20, 1) := by
    decide +kernel
  obtain ⟨s, hs, hcount⟩ := Option.map_eq_some_iff.mp hcounts
  have hwritten : (s.written 2).length = 20 := congrArg Prod.fst hcount
  have hone := congrArg Prod.snd hcount
  have hrun := Trace.playIf_run hs fun _ _ _ _ hstep => hstep
  have hblocks : [(s.written 2).take 3, (s.written 2).drop 3].flatten = s.written 2 := by simp
  have harrived : [(s.written 2).take 3, (s.written 2).drop 3].flatten <+: s.written 2 := by
    rw [hblocks]
  have hroom : [(s.written 2).take 3, (s.written 2).drop 3].flatten.length ≤ 2 ^ 63 := by
    rw [hblocks, hwritten]
    decide
  obtain ⟨frames, c, blocks', hreads, howns, hend, -⟩ :=
    client_reads_own_frames hrun harrived hroom 2
  have hlength : frames.length = 1 := by
    simpa only [hreads] using hone
  refine ⟨s, hs, frames, c, blocks', hreads, hlength, howns, ?_⟩
  rcases hend with htwo | ⟨-, before, unread, -, hstop⟩
  · omega
  · exact ⟨before, unread, hstop⟩

end ForgeRelay
