import ForgeRelay.Client.ReadFrame
import ForgeRelay.Lib.Slices

/-!
# How large the receive buffer gets

The buffer holds everything received since the last block that ended with a frame. It stays within
a bound as long as such blocks come often enough, and beyond any bound if no further one comes.
-/

namespace ForgeRelay

/-- What the calls of `read_frame` do that others see. -/
inductive ReadEvent
  | frame (frame : FrFrame)
  | recv (block : Bytes)
  deriving DecidableEq, Repr

/-- The size of the block that `read_frame` receives into. -/
def recvBlockSize : Nat := 65536

/-- One turn of the loop of `read_frame`: it returns a frame, or a block is received. -/
inductive Client.Step (alloc : Nat → Bool) : Client → ReadEvent → Client → Prop
  | frame {c c' : Client} {f : FrFrame} (hfeed : c.feed alloc = (.ok (some f), c')) :
      Step alloc c (.frame f) c'
  | recv {c c' : Client} {block : Bytes} (hfeed : c.feed alloc = (.ok none, c'))
      (hblock : block ≠ [] ∧ block.length ≤ recvBlockSize) :
      Step alloc c (.recv block) (c'.receive alloc block)

/-- The frames returned and the blocks received. -/
def returnedFrames (es : List ReadEvent) : List FrFrame :=
  es.filterMap fun | .frame f => some f | .recv _ => none

def receivedBlocks (es : List ReadEvent) : List Bytes :=
  es.filterMap fun | .frame _ => none | .recv block => some block

@[simp] theorem returnedFrames_append (es es' : List ReadEvent) :
    returnedFrames (es ++ es') = returnedFrames es ++ returnedFrames es' := List.filterMap_append

@[simp] theorem receivedBlocks_append (es es' : List ReadEvent) :
    receivedBlocks (es ++ es') = receivedBlocks es ++ receivedBlocks es' := List.filterMap_append

private theorem Client.readFrame_run {alloc : Nat → Bool} {c c' : Client}
    {blocks blocks' : List Bytes}
    {f : FrFrame} (hblocks : ∀ block ∈ blocks, block ≠ [] ∧ block.length ≤ recvBlockSize)
    (h : c.readFrame alloc blocks = (.frame f, c', blocks')) :
    ∃ es, Trace.Run (Step alloc) c es c' ∧ returnedFrames es = [f] ∧
      blocks = receivedBlocks es ++ blocks' := by
  induction blocks generalizing c with
  | nil =>
    rw [readFrame] at h
    rcases hfeed : c.feed alloc with ⟨e | frame?, c₁⟩
    · rw [hfeed] at h
      cases h
    cases frame? <;> rw [hfeed] at h <;> cases h
    exact ⟨[.frame f], .single (.frame hfeed), rfl, rfl⟩
  | cons block blocks ih =>
    rw [readFrame] at h
    rcases hfeed : c.feed alloc with ⟨e | frame?, c₁⟩
    · rw [hfeed] at h
      cases h
    cases frame? with
    | some frame =>
      rw [hfeed] at h
      cases h
      exact ⟨[.frame f], .single (.frame hfeed), rfl, rfl⟩
    | none =>
      rw [hfeed] at h
      obtain ⟨hblock, hblocks⟩ := List.forall_mem_cons.mp hblocks
      obtain ⟨es, hrun, hframes, hsplit⟩ := ih hblocks h
      exact ⟨.recv block :: es, .cons (.recv hfeed hblock) hrun, hframes,
        congrArg (block :: ·) hsplit⟩

private theorem Client.readFrames_run {alloc : Nat → Bool} {n : Nat} {c c' : Client}
    {blocks blocks' : List Bytes} {fs : List FrFrame}
    (hblocks : ∀ block ∈ blocks, block ≠ [] ∧ block.length ≤ recvBlockSize)
    (h : c.readFrames alloc n blocks = (fs, c', blocks')) (hn : fs.length = n) :
    ∃ es, Trace.Run (Step alloc) c es c' ∧ returnedFrames es = fs ∧
      blocks = receivedBlocks es ++ blocks' := by
  induction n generalizing c blocks fs with
  | zero =>
    cases h
    exact ⟨[], .nil _, rfl, rfl⟩
  | succ n ih =>
    rw [readFrames] at h
    rcases hread : c.readFrame alloc blocks with ⟨result, c₁, blocks₁⟩
    cases result with
    | frame f =>
      rw [hread] at h
      rcases hreads : readFrames alloc n c₁ blocks₁ with ⟨fs', c₂, blocks₂⟩
      dsimp only at h
      rw [hreads] at h
      cases h
      obtain ⟨es, hrun, hframes, rfl⟩ := readFrame_run hblocks hread
      obtain ⟨es', hrun', hframes', rfl⟩ := ih
        (fun block hmem => hblocks block (List.mem_append_right _ hmem)) hreads
        (Nat.succ.inj hn)
      exact ⟨es ++ es', hrun.append hrun', by simp [hframes, hframes'], by simp⟩
    | error e =>
      rw [hread] at h
      cases h
      simp at hn
    | waiting =>
      rw [hread] at h
      cases h
      simp at hn

/-- This many bytes are the encodings of some of the frames. -/
def EndsFrame (fs : List FrFrame) (n : Nat) : Prop :=
  ∃ done rest, fs = done ++ rest ∧ (done.flatMap frameBytes).length = n

/-- One block and one frame of the largest size. -/
def inbufBound : Nat := recvBlockSize + (frFrameHeaderSize + frFrameMaxPayload)

/-- Successive blocks of which none but the last ends with a frame are within the bound. -/
def OftenAligned (fs : List FrFrame) (blocks : List Bytes) : Prop :=
  ∀ a b c, blocks = a ++ b ++ c →
    (∀ b₁ b₂, b = b₁ ++ b₂ → b₁ ≠ [] → b₂ ≠ [] → ¬ EndsFrame fs (a ++ b₁).flatten.length) →
      b.flatten.length ≤ inbufBound

/-- After some turns of a run: the client holds the bytes of the frames not yet returned, and the
buffer holds the blocks since one that ended with a frame. -/
structure Client.Buffered (fs : List FrFrame) (future : Bytes) (done later : List ReadEvent)
    (c : Client) : Prop where
  stream : (receivedBlocks done).flatten ++ ((receivedBlocks later).flatten ++ future) =
    fs.flatMap frameBytes
  holds : ∃ left, fs = returnedFrames done ++ left ∧
    c.Holds left ((receivedBlocks later).flatten ++ future)
  blocks : ∃ a b, receivedBlocks done = a ++ b ∧ c.inbuf.data = b.flatten ∧
    EndsFrame fs a.flatten.length ∧
    ∀ b₁ b₂, b = b₁ ++ b₂ → b₁ ≠ [] → b₂ ≠ [] → ¬ EndsFrame fs (a ++ b₁).flatten.length
  pending : c.inpos < c.inbuf.data.length ∨ c.inbuf.data = []
  nonempty : ∀ block ∈ receivedBlocks done, block ≠ []

/-- While the parser holds an unfinished frame and nothing else is left, what has been received does
not end with a frame. -/
private theorem not_endsFrame {c : Client} {fs left returned : List FrFrame}
    {received future : Bytes} (hfs : ∀ f ∈ fs, f.Encodable) (hleft : fs = returned ++ left)
    (hstream : received ++ future = fs.flatMap frameBytes) (h : c.Holds left future)
    (hend : c.inpos = c.inbuf.data.length) (hpending : c.parser.pending ≠ []) :
    ¬ EndsFrame fs received.length := by
  rintro ⟨done, rest, hdone, hlength⟩
  have hheld := h.stream
  rw [hend, List.drop_length, List.append_nil] at hheld
  have hreceived : received = returned.flatMap frameBytes ++ c.parser.pending := by
    refine List.append_cancel_right (?_ : received ++ future = _ ++ future)
    rw [hstream, hleft, List.flatMap_append, List.append_assoc, hheld]
  have hsame : received = done.flatMap frameBytes := by
    rw [hdone, List.flatMap_append] at hstream
    exact (List.append_inj hstream hlength.symm).1
  rw [hsame] at hreceived
  rcases List.append_eq_append_iff.mp (hdone.symm.trans hleft) with ⟨x, rfl, -⟩ | ⟨x, rfl, -⟩
  · rw [List.flatMap_append, List.append_assoc] at hreceived
    have hnil := List.append_cancel_left ((List.append_nil _).trans hreceived)
    exact hpending (List.append_eq_nil_iff.mp hnil.symm).2
  · rw [List.flatMap_append] at hreceived
    have hheld := List.append_cancel_left hreceived
    cases x with
    | nil => exact hpending hheld.symm
    | cons f x =>
      have hf : f ∈ fs := by simp [hdone]
      exact h.live.no_frame (hfs f hf) _ hheld.symm

private theorem clientInit_buffered {fs : List FrFrame} {future : Bytes} {es : List ReadEvent}
    (hstream : (receivedBlocks es).flatten ++ future = fs.flatMap frameBytes) :
    clientInit.Buffered fs future [] es where
  stream := hstream
  holds := ⟨fs, rfl, clientInit_holds hstream⟩
  blocks := ⟨[], [], rfl, rfl, ⟨[], fs, rfl, rfl⟩, fun _ _ hb hb₁ _ =>
    absurd (List.append_eq_nil_iff.mp hb.symm).1 hb₁⟩
  pending := .inr rfl
  nonempty := nofun

variable {c c' : Client} {fs : List FrFrame} {future : Bytes} {done later : List ReadEvent}

theorem Client.Buffered.frame {f : FrFrame} (h : c.Buffered fs future done (.frame f :: later))
    (hfs : ∀ f ∈ fs, f.Encodable) (hfeed : c.feed (fun _ => true) = (.ok (some f), c')) :
    c'.Buffered fs future (done ++ [.frame f]) later := by
  obtain ⟨left, hleft, hholds⟩ := h.holds
  rcases hholds.feed (fun g hg => hfs g (hleft ▸ List.mem_append_right _ hg)) with
    ⟨f', left', c₁, hcons, hfeed', hafter, hinit, hbuf⟩ | ⟨c₁, hfeed', -⟩
  · cases hfeed.symm.trans hfeed'
    subst hcons
    have hsplit : fs = returnedFrames (done ++ [.frame f]) ++ left' := by
      rw [hleft, returnedFrames_append, List.append_assoc]
      rfl
    have hreceived : receivedBlocks (done ++ [.frame f]) = receivedBlocks done := by
      rw [receivedBlocks_append]
      exact List.append_nil _
    refine ⟨?_, ⟨left', hsplit, hafter⟩, ?_, ?_, hreceived ▸ h.nonempty⟩
    · rw [hreceived]
      exact h.stream
    · rcases hbuf with ⟨hnil, hzero⟩ | ⟨hsame, -⟩
      · refine ⟨receivedBlocks done, [], ?_, hnil, ?_, fun _ _ hb hb₁ _ =>
          absurd (List.append_eq_nil_iff.mp hb.symm).1 hb₁⟩
        · rw [hreceived, List.append_nil]
        · refine ⟨_, left', hsplit, congrArg List.length ?_⟩
          have hrest := hafter.stream
          have hstream := h.stream
          rw [hinit.pending, hnil, hzero, List.drop_nil, List.nil_append, List.nil_append] at hrest
          rw [hrest, hsplit, List.flatMap_append] at hstream
          exact (List.append_cancel_right hstream).symm
      · obtain ⟨a, b, hblocks, hdata, hstart, hinner⟩ := h.blocks
        exact ⟨a, b, hreceived.trans hblocks, hsame ▸ hdata, hstart, hinner⟩
    · rcases hbuf with ⟨hnil, -⟩ | ⟨-, hlt⟩
      · exact .inr hnil
      · exact .inl hlt
  · cases hfeed.symm.trans hfeed'

private theorem Client.Buffered.recv {block : Bytes}
    (h : c.Buffered fs future done (.recv block :: later)) (hfs : ∀ f ∈ fs, f.Encodable)
    (hfeed : c.feed (fun _ => true) = (.ok none, c')) (hblock : block ≠ [])
    (hroom : c.inbuf.data.length + block.length ≤ 2^63) :
    (c'.receive (fun _ => true) block).Buffered fs future (done ++ [.recv block]) later ∧
      (c'.receive (fun _ => true) block).inbuf.data ≠ [] := by
  obtain ⟨left, hleft, hholds⟩ := h.holds
  obtain ⟨a, b, hblocks, hdata, hstart, hinner⟩ := h.blocks
  have hleft_fs : ∀ f ∈ left, f.Encodable := fun f hf => hfs f (hleft ▸ List.mem_append_right _ hf)
  rcases hholds.feed hleft_fs with ⟨f', left', c₁, -, hfeed', -⟩ |
    ⟨c₁, hfeed', hafter, hsame, hend, hpending⟩
  · cases hfeed.symm.trans hfeed'
  cases hfeed.symm.trans hfeed'
  have hlater : (receivedBlocks (.recv block :: later)).flatten ++ future =
      block ++ ((receivedBlocks later).flatten ++ future) := List.append_assoc _ _ _
  have hreceived : receivedBlocks (done ++ [.recv block]) = receivedBlocks done ++ [block] :=
    receivedBlocks_append _ _
  rw [← hsame] at hroom
  obtain ⟨hreceive, hdata'⟩ := (hlater ▸ hafter).receive hroom
  refine ⟨⟨?_, ⟨left, ?_, hreceive⟩, ⟨a, b ++ [block], ?_, ?_, hstart, ?_⟩, .inl ?_, ?_⟩, ?_⟩
  · rw [hreceived, List.flatten_append, List.flatten_singleton, List.append_assoc, ← hlater]
    exact h.stream
  · rw [returnedFrames_append]
    exact hleft.trans (congrArg (· ++ left) (List.append_nil _).symm)
  · rw [hreceived, hblocks, List.append_assoc]
  · rw [hdata', hsame, hdata, List.flatten_append, List.flatten_singleton]
  · intro b₁ b₂ hb hb₁ hb₂
    rcases List.eq_nil_or_concat b₂ with rfl | ⟨b₂', last, rfl⟩
    · exact absurd rfl hb₂
    rw [List.concat_eq_append, ← List.append_assoc] at hb
    obtain ⟨hb, -⟩ := List.append_inj' hb rfl
    rcases eq_or_ne b₂' [] with rfl | hne
    · -- the blocks in the buffer, all of which are in the parser now
      rw [List.append_nil] at hb
      subst hb
      rw [← hblocks]
      have hlt : c.inpos < c.inbuf.data.length := by
        refine h.pending.resolve_right fun hnil => ?_
        obtain ⟨first, rest, rfl⟩ := List.exists_cons_of_ne_nil hb₁
        have hfirst : first = [] := List.flatten_eq_nil_iff.mp (hdata.symm.trans hnil) first
          List.mem_cons_self
        exact h.nonempty first (hblocks ▸ List.mem_append_right _ List.mem_cons_self) hfirst
      refine not_endsFrame hfs hleft h.stream hafter hend ?_
      rw [hpending]
      refine List.append_ne_nil_of_right_ne_nil _ fun hnil => ?_
      have := List.drop_eq_nil_iff.mp hnil
      omega
    · exact hinner b₁ b₂' hb hb₁ hne
  · rw [hdata', List.length_append]
    have := List.length_pos_of_ne_nil hblock
    change c'.inpos < _
    omega
  · rw [hreceived]
    intro block' hmem
    rcases List.mem_append.mp hmem with hmem | hmem
    · exact h.nonempty block' hmem
    · exact List.mem_singleton.mp hmem ▸ hblock
  · rw [hdata']
    exact List.append_ne_nil_of_right_ne_nil _ hblock

private theorem room_of_le {held block : Nat} (hheld : held ≤ inbufBound)
    (hblock : block ≤ recvBlockSize) :
    held + block ≤ 2^63 := by
  unfold inbufBound at hheld
  unfold recvBlockSize frFrameHeaderSize frFrameMaxPayload at *
  omega

/-- Whatever comes, as long as there is room for it. -/
theorem Client.Buffered.step {e : ReadEvent} (h : c.Buffered fs future done (e :: later))
    (hfs : ∀ f ∈ fs, f.Encodable) (hstep : Step (fun _ => true) c e c')
    (hroom : c.inbuf.data.length ≤ inbufBound) : c'.Buffered fs future (done ++ [e]) later := by
  cases hstep with
  | frame hfeed => exact h.frame hfs hfeed
  | recv hfeed hblock =>
    exact (h.recv hfs hfeed hblock.1 (room_of_le hroom hblock.2)).1

/-- The invariant of a run in which the buffer has stayed within the bound. -/
private theorem Client.buffered_run {es : List ReadEvent} (hfs : ∀ f ∈ fs, f.Encodable)
    (hrun : Trace.Run (Step fun _ => true) clientInit es c)
    (hstream : (receivedBlocks es).flatten ++ ((receivedBlocks later).flatten ++ future) =
      fs.flatMap frameBytes)
    (hroom : ∀ done e rest c, es = done ++ e :: rest →
      Trace.Run (Step fun _ => true) clientInit done c →
      c.Buffered fs future done (e :: (rest ++ later)) → c.inbuf.data.length ≤ inbufBound) :
    c.Buffered fs future es later := by
  let I (done : List ReadEvent) (c : Client) : Prop :=
    Trace.Run (Step fun _ => true) clientInit done c ∧
      ∀ rest, es = done ++ rest → c.Buffered fs future done (rest ++ later)
  refine (hrun.history (I := I) ?_ ?_).2 [] (List.append_nil _).symm
  · rintro done e rest c c' hes ⟨hdone, hinv⟩ hstep
    refine ⟨hdone.append (.single hstep), fun rest' hrest => ?_⟩
    have hbuffered := hinv (e :: rest) hes
    rw [hes, List.append_assoc] at hrest
    obtain rfl : rest = rest' := (List.cons.inj (List.append_cancel_left hrest)).2
    exact hbuffered.step hfs hstep (hroom done e rest c hes hdone hbuffered)
  · refine ⟨.nil _, fun rest hrest => clientInit_buffered ?_⟩
    rw [List.nil_append] at hrest
    rw [← hrest, receivedBlocks_append, List.flatten_append, List.append_assoc]
    exact hstream

/-- However valid frames are cut into blocks, there is a run that receives all blocks. -/
theorem Client.exists_run {blocks : List Bytes} (hfs : ∀ f ∈ fs, f.Encodable)
    (hcut : blocks.flatten = fs.flatMap frameBytes) (hroom : blocks.flatten.length ≤ 2^63)
    (hblocks : ∀ block ∈ blocks, block ≠ [] ∧ block.length ≤ recvBlockSize) :
    ∃ es c, Trace.Run (Step fun _ => true) clientInit es c ∧ returnedFrames es = fs ∧
      receivedBlocks es = blocks := by
  obtain ⟨c, blocks', hreads, hholds, -⟩ := (clientInit_holds hcut).readFrames hfs
    (by simpa [clientInit, frBufInit] using hroom) le_rfl
  rw [List.take_length] at hreads
  rw [List.drop_length] at hholds
  obtain ⟨es, hrun, hframes, hsplit⟩ := readFrames_run hblocks hreads rfl
  have hrest : blocks' = [] := by
    refine List.eq_nil_iff_forall_not_mem.mpr fun block hmem => ?_
    have hnil := (List.append_eq_nil_iff.mp hholds.stream).2
    exact (hblocks block (hsplit ▸ List.mem_append_right _ hmem)).1
      (List.flatten_eq_nil_iff.mp hnil block hmem)
  exact ⟨es, c, hrun, hframes, by rw [hsplit, hrest, List.append_nil]⟩

private theorem receivedBlocks_split {es : List ReadEvent} {block : Bytes}
    {before after : List Bytes} (h : receivedBlocks es = before ++ block :: after) :
    ∃ done later, es = done ++ .recv block :: later ∧ receivedBlocks done = before := by
  induction es generalizing before with
  | nil => simp [receivedBlocks] at h
  | cons e es ih =>
    cases e with
    | frame f =>
      obtain ⟨done, later, rfl, hdone⟩ := ih h
      exact ⟨.frame f :: done, later, rfl, hdone⟩
    | recv first =>
      cases before with
      | nil =>
        obtain ⟨rfl, -⟩ := List.cons.inj h
        exact ⟨[], es, rfl, rfl⟩
      | cons _ before =>
        obtain ⟨rfl, hrest⟩ := List.cons.inj h
        obtain ⟨done, later, rfl, hdone⟩ := ih hrest
        exact ⟨.recv first :: done, later, rfl, congrArg (first :: ·) hdone⟩

/-- While the buffer stays within the bound, so do the blocks that none but the last of which ends
with a frame: they are in the buffer together. -/
private theorem oftenAligned_of_bounded {es : List ReadEvent} (hfs : ∀ f ∈ fs, f.Encodable)
    (hrun : Trace.Run (Client.Step fun _ => true) clientInit es c)
    (hstream : (receivedBlocks es).flatten ++ future = fs.flatMap frameBytes)
    (hbound : ∀ done rest c', es = done ++ rest →
      Trace.Run (Client.Step fun _ => true) clientInit done c' →
      c'.inbuf.data.length ≤ inbufBound) :
    OftenAligned fs (receivedBlocks es) := by
  intro a b c' hblocks hinner
  rcases List.eq_nil_or_concat b with rfl | ⟨b', block, rfl⟩
  · exact Nat.zero_le _
  rw [List.concat_eq_append] at hblocks hinner ⊢
  -- the turn that receives the last of these blocks
  have hbefore : receivedBlocks es = (a ++ b') ++ block :: c' := by
    rw [hblocks]
    simp
  obtain ⟨done, later, rfl, hdone⟩ := receivedBlocks_split hbefore
  obtain ⟨c₀, hrun₀, hrest⟩ := hrun.split
  cases hrest with
  | @cons _ c₁ _ _ _ hstep _ =>
    have hbound₁ := hbound (done ++ [.recv block]) later c₁ (by simp) (hrun₀.append (.single hstep))
    have hbuffered₀ : c₀.Buffered fs future done (.recv block :: later) := by
      refine Client.buffered_run hfs hrun₀ ?_ fun done' e rest c'' hdone' hrun' _ =>
        hbound done' (e :: rest ++ .recv block :: later) c'' ?_ hrun'
      · rw [← hstream, receivedBlocks_append, List.flatten_append, List.append_assoc]
      · rw [hdone', List.append_assoc]
    cases hstep with
    | recv hfeed hblock =>
      have hbound₀ := hbound done _ c₀ rfl hrun₀
      obtain ⟨hbuffered₁, hne⟩ := hbuffered₀.recv hfs hfeed hblock.1
        (room_of_le hbound₀ hblock.2)
      obtain ⟨a₁, b₁, hblocks₁, hdata, hstart, -⟩ := hbuffered₁.blocks
      have hsplit : a ++ (b' ++ [block]) = a₁ ++ b₁ := by
        rw [← hblocks₁, receivedBlocks_append, hdone, List.append_assoc]
        rfl
      rw [hdata] at hbound₁ hne
      rcases List.append_eq_append_iff.mp hsplit with ⟨x, rfl, hb⟩ | ⟨x, -, rfl⟩
      · rcases eq_or_ne x [] with rfl | hx
        · rwa [hb]
        · refine absurd hstart (hinner x b₁ hb hx ?_)
          rintro rfl
          exact hne rfl
      · rw [List.flatten_append, List.length_append] at hbound₁
        omega

/-- In every run, the buffer stays within one block and one frame in all states, if and only if it
does so for the blocks since each one that ended with a frame. -/
theorem inbuf_bounded_iff {es : List ReadEvent} (hfs : ∀ f ∈ fs, f.Encodable)
    (hrun : Trace.Run (Client.Step fun _ => true) clientInit es c)
    (hstream : (receivedBlocks es).flatten ++ future = fs.flatMap frameBytes) :
    (∀ done rest c', es = done ++ rest →
        Trace.Run (Client.Step fun _ => true) clientInit done c' →
        c'.inbuf.data.length ≤ inbufBound) ↔
      OftenAligned fs (receivedBlocks es) := by
  constructor
  · exact oftenAligned_of_bounded hfs hrun hstream
  · intro haligned
    have hbuffered {done rest : List ReadEvent} {c' : Client} (hes : es = done ++ rest)
        (h : c'.Buffered fs future done rest) : c'.inbuf.data.length ≤ inbufBound := by
      obtain ⟨a, b, hblocks, hdata, -, hinner⟩ := h.blocks
      rw [hdata]
      refine haligned a b (receivedBlocks rest) ?_ hinner
      rw [hes, receivedBlocks_append, hblocks]
    intro done rest c' hes hdone
    refine hbuffered hes (Client.buffered_run hfs hdone ?_ fun done' e rest' c'' hdone' _ h => ?_)
    · rw [← hstream, hes, receivedBlocks_append, List.flatten_append, List.append_assoc]
    · refine hbuffered ?_ h
      rw [hes, hdone', List.append_assoc, List.cons_append]

/-- One ping in two blocks. -/
theorem inbuf_bounded_iff_ping : ∃ es c, returnedFrames es = [⟨3, 0, 7, []⟩] ∧
    Trace.Run (Client.Step fun _ => true) clientInit es c ∧
    ((∀ done rest c', es = done ++ rest →
        Trace.Run (Client.Step fun _ => true) clientInit done c' →
        c'.inbuf.data.length ≤ inbufBound) ↔
      OftenAligned [⟨3, 0, 7, []⟩]
        [(frameHeader 3 0 7 0).take 5, (frameHeader 3 0 7 0).drop 5]) := by
  have hfs : ∀ f ∈ [(⟨3, 0, 7, []⟩ : FrFrame)], f.Encodable :=
    List.forall_mem_singleton.mpr ⟨rfl, rfl, by decide, by decide⟩
  have hcut : [(frameHeader 3 0 7 0).take 5, (frameHeader 3 0 7 0).drop 5].flatten =
      [(⟨3, 0, 7, []⟩ : FrFrame)].flatMap frameBytes := by decide +kernel
  obtain ⟨es, c, hrun, hframes, hblocks⟩ := Client.exists_run hfs hcut (by decide +kernel)
    (by decide +kernel)
  refine ⟨es, c, hframes, hrun, ?_⟩
  rw [← hblocks]
  refine inbuf_bounded_iff hfs hrun (?_ : _ ++ [] = _)
  rw [hblocks]
  decide +kernel

private theorem shifted_flatten (x : UInt8) (t : Bytes) (n : Nat) :
    ([x] :: List.replicate n (t ++ [x]) ++ [t]).flatten =
      (List.replicate (n + 1) (x :: t)).flatten := by
  induction n with
  | zero => simp
  | succ n ih =>
    rw [List.replicate_succ (n := n + 1), List.flatten_cons, ← ih]
    simp [List.replicate_succ]

private theorem flatMap_replicate_length (f : FrFrame) (n : Nat) :
    ((List.replicate n f).flatMap frameBytes).length = n * (frameBytes f).length := by
  simp [List.flatMap_replicate]

private theorem not_oftenAligned {x : UInt8} {t : Bytes} {f : FrFrame} {n : Nat}
    (hframe : frameBytes f = x :: t) (hne : t ≠ [])
    (hlarge : inbufBound < (n + 1) * (frameBytes f).length) :
    ¬ OftenAligned (List.replicate (n + 1) f) ([x] :: List.replicate n (t ++ [x]) ++ [t]) := by
  intro haligned
  have hlength := haligned [] _ [] (by rw [List.nil_append, List.append_nil]) ?_
  · rw [shifted_flatten, ← hframe, ← List.map_replicate, ← List.flatMap_def,
      flatMap_replicate_length] at hlength
    omega
  rintro b₁ b₂ hb hb₁ hb₂ ⟨done, rest, hdone, hend⟩
  obtain ⟨k, rfl⟩ : ∃ k, done = List.replicate k f :=
    ⟨_, (List.append_eq_replicate_iff.mp hdone.symm).2.1⟩
  rcases List.eq_nil_or_concat b₂ with rfl | ⟨b₂', last, rfl⟩
  · exact hb₂ rfl
  rw [List.concat_eq_append, ← List.append_assoc] at hb
  obtain ⟨hb, -⟩ := List.append_inj' hb rfl
  cases b₁ with
  | nil => exact hb₁ rfl
  | cons first b₁ =>
    obtain ⟨rfl, hrest⟩ := List.cons.inj hb
    obtain ⟨j, rfl⟩ : ∃ j, b₁ = List.replicate j (t ++ [x]) :=
      ⟨_, (List.append_eq_replicate_iff.mp hrest.symm).2.1⟩
    rw [flatMap_replicate_length, hframe] at hend
    have hsum : k * (t.length + 1) = j * (t.length + 1) + 1 := by
      simpa using hend
    have hdvd : t.length + 1 ∣ 1 :=
      (Nat.dvd_add_right ⟨j, Nat.mul_comm _ _⟩).mp (hsum ▸ ⟨k, Nat.mul_comm _ _⟩)
    have := Nat.le_of_dvd Nat.one_pos hdvd
    have := List.length_pos_of_ne_nil hne
    omega

/-- A data frame as large as a block. -/
def blockFrame : FrFrame := ⟨33, 0, 7, List.replicate 65516 0⟩

private theorem blockFrame_encodable : blockFrame.Encodable := by
  refine ⟨by decide, rfl, by decide, ?_⟩
  rw [blockFrame, List.length_replicate]
  decide

private theorem blockFrame_length : (frameBytes blockFrame).length = recvBlockSize := by
  have hpayload : blockFrame.payload.length = 65516 := List.length_replicate
  rw [frameBytes_length, hpayload, recvBlockSize]

private theorem frameBytes_cons (f : FrFrame) : ∃ t, frameBytes f = 0x46 :: t := ⟨_, rfl⟩

/-- 130 such frames, of which the first byte comes alone, fill the buffer beyond the bound. -/
theorem inbuf_grows : ∃ es c, Trace.Run (Client.Step fun _ => true) clientInit es c ∧
    returnedFrames es = List.replicate 130 blockFrame ∧
    (receivedBlocks es).flatten = (returnedFrames es).flatMap frameBytes ∧
    ¬ ∀ done rest c', es = done ++ rest →
        Trace.Run (Client.Step fun _ => true) clientInit done c' →
        c'.inbuf.data.length ≤ inbufBound := by
  obtain ⟨t, ht⟩ := frameBytes_cons blockFrame
  have hlength : t.length + 1 = recvBlockSize := by
    rw [← blockFrame_length, ht, List.length_cons]
  have hne : t ≠ [] := by
    rintro rfl
    simp [recvBlockSize] at hlength
  have hfs : ∀ f ∈ List.replicate 130 blockFrame, f.Encodable := fun f hf =>
    List.eq_of_mem_replicate hf ▸ blockFrame_encodable
  have hcut : ([0x46] :: List.replicate 129 (t ++ [0x46]) ++ [t]).flatten =
      (List.replicate 130 blockFrame).flatMap frameBytes := by
    rw [shifted_flatten, List.flatMap_def, List.map_replicate, ht]
  have hroom : ([0x46] :: List.replicate 129 (t ++ [0x46]) ++ [t]).flatten.length ≤ 2^63 := by
    rw [hcut, flatMap_replicate_length, blockFrame_length]
    decide
  have hblocks : ∀ block ∈ [0x46] :: List.replicate 129 (t ++ [0x46]) ++ [t],
      block ≠ [] ∧ block.length ≤ recvBlockSize := by
    intro block hmem
    rcases List.mem_append.mp hmem with hmem | hmem
    · rcases List.mem_cons.mp hmem with rfl | hmem
      · exact ⟨by decide, by decide⟩
      · obtain rfl := List.eq_of_mem_replicate hmem
        refine ⟨List.append_ne_nil_of_left_ne_nil hne _, ?_⟩
        rw [List.length_append, List.length_singleton, hlength]
    · obtain rfl := List.mem_singleton.mp hmem
      exact ⟨hne, by omega⟩
  obtain ⟨es, c, hrun, hframes, hreceived⟩ := Client.exists_run hfs hcut hroom hblocks
  have hstream : (receivedBlocks es).flatten = (returnedFrames es).flatMap frameBytes := by
    rw [hreceived, hframes, hcut]
  refine ⟨es, c, hrun, hframes, hstream, fun hbound => ?_⟩
  have hwhole : (receivedBlocks es).flatten ++ [] =
      (List.replicate 130 blockFrame).flatMap frameBytes := by
    rw [List.append_nil, hstream, hframes]
  have haligned := oftenAligned_of_bounded hfs hrun hwhole hbound
  rw [hreceived] at haligned
  refine not_oftenAligned ht hne ?_ haligned
  rw [blockFrame_length]
  decide

end ForgeRelay
