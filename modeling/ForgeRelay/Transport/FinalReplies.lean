import ForgeRelay.Service.ReplySizes
import ForgeRelay.Transport.Chain

/-!
# Final replies

A request is answered by DATA frames, if it is a download, and one OK or ERROR frame behind them.
Two things go wrong: an answer that is larger than a frame is not sent at all, and the task of a
continuation does not know the id of its request, which its error should carry.
-/

namespace ForgeRelay

open Program Prog

variable {sha : Sha256} {session : ClientSession} {task : Task} {s s' : Service}
  {result : HandleResult}

/-! ## One task -/

section OneTask

variable {env : RequestEnv}

/-- An exception of a request is answered, whatever its text. -/
private theorem handleFailed_answers (env : RequestEnv) (session : ClientSession) (task : Task)
    {long : Prop} {e : Error} (hthrown : Thrown long e) :
    ∃ code what close s', what.length ≤ maxStringLen ∧ SameDownloads s s' ∧
      (workerResult task
        (((handleFailed env task.peer session task.frame e).run s).1.map Prod.fst),
      ((handleFailed env task.peer session task.frame e).run s).2) =
        (.ok (refusal task code what close), s') := by
  cases e with
  | fr code what =>
    obtain ⟨code', what', close, hlen, hresult, hsame⟩ :=
      replyError_refusal env task.peer session task s code what
    exact ⟨code', what', close, _, hlen, hsame, Prod.ext hresult rfl⟩
  | std what =>
    obtain ⟨-, hcatch⟩ := @workerCatch_short task .eInternal what hthrown.std
    exact ⟨.eInternal, what, false, s, hthrown.std, .refl s, Prod.ext hcatch rfl⟩

/-- What a worker gets for a request, by what the `switch` of `handle` gives. -/
private theorem handleTask_request (hkind : task.isGetContinue = false)
    {session' : ClientSession} {r : Except Error HandleResult} {s₁ : Service}
    (h : (handleFrame sha env task.connId task.peer session task.frame).run s =
      (.ok (session', r), s₁)) :
    (∃ result, r = .ok result ∧ handleTask sha env session task s = (.ok result, s₁)) ∨
      ∃ code what close s', (∃ e, r = .error e) ∧ what.length ≤ maxStringLen ∧
        SameDownloads s₁ s' ∧
        handleTask sha env session task s = (.ok (refusal task code what close), s') := by
  unfold handleTask
  rw [hkind, handle, run_bind, h]
  cases r with
  | ok result => exact .inl ⟨result, rfl, rfl⟩
  | error e =>
    obtain ⟨code, what, close, s', hlen, hsame, hrun⟩ :=
      handleFailed_answers (s := s₁) env session' task (handleFrame_thrown h)
    refine .inr ⟨code, what, close, s', ⟨e, rfl⟩, hlen, hsame, ?_⟩
    rw [← hrun]
    cases e <;> rfl

/-- OK or ERROR, with this request id. -/
structure FrFrame.Ends (f : FrFrame) (reqId : UInt32) : Prop where
  type : f.type = FrMsgType.ok.toByte ∨ f.type = FrMsgType.error.toByte
  reqId : f.reqId = reqId

/-- A request that is not a download gets one frame, if the rows that it asks for fit, and else
none. -/
private theorem handleTask_reply (sha : Sha256) (env : RequestEnv) (session : ClientSession)
    (s : Service) (hkind : task.isGetContinue = false)
    (htype : FrMsgType.ofByte task.type ≠ some .getArtifact) :
    ∃ result s', handleTask sha env session task s = (.ok result, s') ∧ result.hasMore = false ∧
      ((∃ f, result.out = [f] ∧ f.Ends (outReqId task.frame)) ∧ ListingFits session task.frame s ∨
        result.out = [] ∧ ¬ ListingFits session task.frame s) := by
  obtain ⟨session', r, s₁, hrun, -⟩ : ∃ session' r s₁,
      (handleFrame sha env task.connId task.peer session task.frame).run s =
        (.ok (session', r), s₁) ∧ Reached task.connId task.frame s r s₁ := handleFrame_reached
  have hreply := handleFrame_replyIff htype hrun
  obtain ⟨result, rfl, htask⟩ | ⟨code, what, close, s', ⟨e, rfl⟩, -, -, htask⟩ :=
    handleTask_request hkind hrun
  · obtain ⟨payload, close, rfl, hfits⟩ := hreply
    refine ⟨_, s₁, htask, rfl, ?_⟩
    by_cases hlen : payload.length ≤ frFrameMaxPayload
    · refine .inl ⟨⟨_, emit_of_le [] .ok (outReqId_ne_zero _) hlen, .inl rfl, rfl⟩, hfits.mpr hlen⟩
    · refine .inr ⟨?_, fun h => hlen (hfits.mp h)⟩
      have hlarge : ¬ (encodeFrame
          ⟨FrMsgType.ok.toByte, 0, outReqId task.frame, payload⟩).isSome := fun hsome =>
        hlen ((encodeFrame_isSome _).mp hsome).payload_le
      exact if_neg hlarge
  · exact ⟨_, s', htask, rfl, .inl ⟨⟨_, rfl, .inr rfl, rfl⟩, hreply⟩⟩

/-- The next part that a download has to send can be read, if there is one. -/
def GetState.Readable (state : GetState) (store : Store) : Prop :=
  state.remaining = 0 ∨ ∃ r, ((readArtifactSlice state.ns state.name state.version state.offset
    (if dataSliceBytes < state.remaining then dataSliceBytes else state.remaining)).run
      store).1 = .ok r

private theorem readable_iff {store : Store} {state : GetState} :
    state.Readable store ↔ ∃ r, sendSlice store state = .ok r := by
  unfold GetState.Readable sendSlice
  dsimp only
  have hzero : (if dataSliceBytes < state.remaining then dataSliceBytes else state.remaining) = 0 ↔
      state.remaining = 0 := by
    split
    · rename_i hlt
      refine iff_of_false (by decide) fun hnone => ?_
      rw [hnone] at hlt
      exact absurd hlt (by decide)
    · exact .rfl
  generalize (if dataSliceBytes < state.remaining then dataSliceBytes else state.remaining) = slice
    at hzero ⊢
  by_cases hnone : state.remaining = 0
  · rw [if_pos (hzero.mpr hnone)]
    exact iff_of_true (.inl hnone) ⟨_, rfl⟩
  · rw [if_neg (mt hzero.mp hnone)]
    cases hread : ((readArtifactSlice state.ns state.name state.version state.offset slice).run
      store).1 with
    | ok r => exact iff_of_true (.inr ⟨r, rfl⟩) ⟨_, rfl⟩
    | error e =>
      refine iff_of_false ?_ (by simp)
      rintro (h | ⟨r, h⟩)
      · exact hnone h
      · cases h

/-- A continuation: what the worker gets, and the state of the download after it. -/
inductive Continued (task : Task) (state : GetState) (store : Store) :
    HandleResult → Option GetState → Prop
  | failed (code : FrStatus) (what : Bytes) (hread : ¬ state.Readable store) :
      Continued task state store (refusal task code what false) (some state)
  | last (pieces : List Bytes) (total : UInt64) (hread : state.Readable store) :
      Continued task state store { HandleResult.empty with
        out := pieces.map (dataFrame state.reqId) ++ [lastFrame state.reqId total] } none
  | more (pieces : List Bytes) (sent : UInt64) (hread : state.Readable store)
      (hless : (state.advance sent).remaining.toNat < state.remaining.toNat) :
      Continued task state store { HandleResult.empty with
        out := pieces.map (dataFrame state.reqId), hasMore := true,
        continuationKey := task.getKey } (some (state.advance sent))

private theorem handleTask_continued {state : GetState} (hkind : task.isGetContinue = true)
    (hget : s.gets task.getKey = some state) (hid : state.reqId ≠ 0) :
    ∃ result next, Continued task state s.store result next ∧
      handleTask sha env session task s =
        (.ok result, { s with gets := Function.update s.gets task.getKey next }) := by
  unfold handleTask
  rw [hkind, if_pos rfl]
  cases hslice : sendSlice s.store state with
  | error e =>
    have hrun : (handleGetContinue task.getKey).run s = (.error e, s) := by
      rw [handleGetContinue, run_lift, hget]
      dsimp only
      rw [hslice]
    have hfits := handleGetContinue_error hrun
    have hunread : ¬ state.Readable s.store := by
      rw [readable_iff, hslice]
      simp
    have hsame : Function.update s.gets task.getKey (some state) = s.gets := by
      rw [← hget, Function.update_eq_self]
    obtain ⟨code, what, hcatch⟩ : ∃ code what,
        workerCatch task e = .ok (refusal task code what false) := by
      cases e with
      | fr code what => exact ⟨code, what, (workerCatch_short hfits).1⟩
      | std what => exact ⟨.eInternal, what, (@workerCatch_short task .eInternal what hfits).2⟩
    refine ⟨_, _, .failed code what hunread, ?_⟩
    rw [hrun, hsame]
    exact Prod.ext hcatch rfl
  | ok r =>
    obtain ⟨state', out, sent⟩ := r
    have hread : state.Readable s.store := readable_iff.mpr ⟨_, hslice⟩
    obtain ⟨rfl, pieces, hpieces, rfl⟩ := sendSlice_ok hid hslice
    by_cases hend : (state.advance sent).remaining = 0 ∨ sent = 0
    · refine ⟨_, _, .last pieces (state.advance sent).sent hread, ?_⟩
      rw [handleGetContinue, run_lift, hget]
      dsimp only
      rw [hslice]
      dsimp only
      rw [if_pos hend, endOfGet_eq (show (state.advance sent).reqId ≠ 0 from hid)]
      rfl
    · have hsent : sent.toNat ≠ 0 := fun h => hend (.inr (UInt64.toNat_inj.mp h))
      have hle := hpieces.sent_le
      have hless : (state.advance sent).remaining.toNat < state.remaining.toNat := by
        change (state.remaining - sent).toNat < _
        rw [UInt64.toNat_sub_of_le _ _ (UInt64.le_iff_toNat_le.mpr (by omega))]
        omega
      refine ⟨_, _, .more pieces sent hread hless, ?_⟩
      rw [handleGetContinue, run_lift, hget]
      dsimp only
      rw [hslice]
      dsimp only
      rw [if_neg hend]
      rfl

/-- DATA frames with this request id. -/
def DataFrames (reqId : UInt32) (data : List FrFrame) : Prop :=
  ∀ f ∈ data, f.type = FrMsgType.data.toByte ∧ f.reqId = reqId

private theorem dataFrames_map (reqId : UInt32) (pieces : List Bytes) :
    DataFrames reqId (pieces.map (dataFrame reqId)) := by
  intro f hf
  obtain ⟨data, -, rfl⟩ := List.mem_map.mp hf
  exact ⟨rfl, rfl⟩

/-- The first task of a download ends it, with a reply, or leaves a state for a continuation. -/
private theorem handleTask_get (sha : Sha256) (env : RequestEnv) (session : ClientSession)
    (hkind : task.isGetContinue = false)
    (htype : FrMsgType.ofByte task.type = some .getArtifact)
    (hnew : s.gets (getKey task.connId s.getSeq) = none) :
    ∃ result s', handleTask sha env session task s = (.ok result, s') ∧
      (result.hasMore = false ∧ (∃ data f, result.out = data ++ [f] ∧
          DataFrames (outReqId task.frame) data ∧ f.Ends (outReqId task.frame)) ∨
        result.hasMore = true ∧ result.continuationKey = getKey task.connId s.getSeq ∧
          DataFrames (outReqId task.frame) result.out ∧
          ∃ state, s'.gets (getKey task.connId s.getSeq) = some state ∧
            state.reqId = outReqId task.frame) := by
  have hrun := handleFrame_get sha env task.connId task.peer session task.frame htype s
  rcases hhandler : (handleGetArtifact task.connId session task.frame).run s with ⟨r, s₁⟩
  rw [hhandler] at hrun
  obtain ⟨result, rfl, htask⟩ | ⟨code, what, close, s', -, -, -, htask⟩ :=
    handleTask_request hkind hrun
  · refine ⟨result, s₁, htask, ?_⟩
    obtain ⟨_, s₂, hrole, hrest⟩ := run_bind_ok hhandler
    obtain ⟨req, s₃, hdecode, hstart⟩ := run_bind_ok hrest
    rw [(run_ofExcept_ok hdecode).2, (run_ofExcept_ok hrole).2] at hstart
    obtain ⟨r, gets, hslice, hsliced⟩ : ∃ r gets,
        Sliced (getKey task.connId s.getSeq) s.gets (newGet task.frame req) r gets ∧
          (startGet task.connId task.frame req).run s =
            (r, { s with getSeq := s.getSeq + 1, gets := gets }) := startGet_sliced hnew
    rw [hsliced] at hstart
    obtain ⟨rfl, rfl⟩ := Prod.mk.inj hstart
    cases hslice with
    | last =>
      exact .inl ⟨rfl, _, _, rfl, dataFrames_map _ _, .inl rfl, rfl⟩
    | more =>
      exact .inr ⟨rfl, rfl, dataFrames_map _ _, _, Function.update_self _ _ _, rfl⟩
  · exact ⟨_, s', htask, .inl ⟨rfl, [], _, rfl, by simp [DataFrames], .inr rfl, rfl⟩⟩

end OneTask

/-! ## The tasks of a request -/

variable {env : Nat → RequestEnv} {between : Nat → Service → Service} {n : Nat}

/-- The tasks of a chain, with the services in front of them, as long as there are more slices. -/
inductive Chained (sha : Sha256) (env : Nat → RequestEnv) (session : ClientSession)
    (between : Nat → Service → Service) : Nat → Task → Service → Task → Service → Prop
  | first (n : Nat) (task : Task) (s : Service) : Chained sha env session between n task s task s
  | next {n : Nat} {task task' : Task} {s s₁ s' : Service} {result : HandleResult}
      (hrun : handleTask sha (env n) session task s = (.ok result, s₁))
      (hmore : result.hasMore = true)
      (hrest : Chained sha env session between (n + 1) (task.continuation result.continuationKey)
        (between n s₁) task' s') : Chained sha env session between n task s task' s'

/-- Every continuation of the chain finds the part that it has to send. -/
def ContinuationsRead (sha : Sha256) (env : Nat → RequestEnv) (session : ClientSession)
    (between : Nat → Service → Service) (n : Nat) (task : Task) (s : Service) : Prop :=
  ∀ task' s' state, Chained sha env session between n task s task' s' →
    task'.isGetContinue = true → s'.gets task'.getKey = some state → state.Readable s'.store

private theorem continuationsRead_single
    (hrun : handleTask sha (env n) session task s = (.ok result, s'))
    (hlast : result.hasMore = false)
    (h : task.isGetContinue = true → ∀ state, s.gets task.getKey = some state →
      state.Readable s.store) : ContinuationsRead sha env session between n task s := by
  intro task' s'' state hchained hkind hget
  cases hchained with
  | first => exact h hkind state hget
  | next hrun' hmore =>
    rw [hrun] at hrun'
    cases hrun'
    rw [hlast] at hmore
    cases hmore

private theorem continuationsRead_next
    (hrun : handleTask sha (env n) session task s = (.ok result, s'))
    (hmore : result.hasMore = true)
    (h : task.isGetContinue = true → ∀ state, s.gets task.getKey = some state →
      state.Readable s.store) :
    ContinuationsRead sha env session between n task s ↔
      ContinuationsRead sha env session between (n + 1)
        (task.continuation result.continuationKey) (between n s') := by
  constructor
  · intro hall task' s'' state hchained
    exact hall task' s'' state (.next hrun hmore hchained)
  · intro hall task' s'' state hchained hkind hget
    cases hchained with
    | first => exact h hkind state hget
    | next hrun' _ hrest =>
      rw [hrun] at hrun'
      cases hrun'
      exact hall task' s'' state hrest hkind hget

private theorem serveChain_last
    (hrun : handleTask sha (env n) session task s = (.ok result, s'))
    (hlast : result.hasMore = false) :
    serveChain sha env session between 1 n task s = some (result.out, s') := by
  rw [serveChain, hrun]
  dsimp only
  rw [hlast]
  rfl

private theorem serveChain_more {fuel : Nat} {out : List FrFrame} {s'' : Service}
    (hrun : handleTask sha (env n) session task s = (.ok result, s'))
    (hmore : result.hasMore = true)
    (hrest : serveChain sha env session between fuel (n + 1)
      (task.continuation result.continuationKey) (between n s') = some (out, s'')) :
    serveChain sha env session between (fuel + 1) n task s = some (result.out ++ out, s'') := by
  rw [serveChain, hrun]
  dsimp only
  rw [hmore, if_pos rfl, hrest]
  rfl

/-- The frames of a chain do not depend on the fuel. -/
private theorem serveChain_unique {fuel fuel' : Nat} {r r' : List FrFrame × Service}
    (h : serveChain sha env session between fuel n task s = some r)
    (h' : serveChain sha env session between fuel' n task s = some r') : r = r' := by
  induction fuel generalizing fuel' n task s r r' with
  | zero => cases h
  | succ fuel ih =>
    cases fuel' with
    | zero => cases h'
    | succ fuel' =>
      rw [serveChain] at h h'
      rcases hrun : handleTask sha (env n) session task s with ⟨e | result, s₁⟩
      · rw [hrun] at h
        cases h
      · rw [hrun] at h h'
        dsimp only at h h'
        split at h
        · rename_i hmore
          rw [if_pos hmore] at h'
          obtain ⟨rest, hrest, rfl⟩ := Option.map_eq_some_iff.mp h
          obtain ⟨rest', hrest', rfl⟩ := Option.map_eq_some_iff.mp h'
          rw [ih hrest hrest']
        · rename_i hlast
          rw [if_neg hlast] at h'
          exact Option.some.inj (h.symm.trans h')

/-- From a continuation on, a chain ends with one OK frame with the id of the request, or one ERROR
frame with the id 1. -/
private theorem serveChain_ends {state : GetState} {key : Bytes}
    (hbetween : ∀ i s', (between i s').gets key = s'.gets key)
    (hkind : task.isGetContinue = true) (hkey : task.getKey = key) (hnone : task.reqId = 0)
    (hget : s.gets key = some state) (hid : state.reqId ≠ 0) :
    ∃ fuel data last s', serveChain sha env session between fuel n task s =
        some (data ++ [last], s') ∧ DataFrames state.reqId data ∧
      (last.Ends state.reqId ∧ ContinuationsRead sha env session between n task s ∨
        last.Ends 1 ∧ ¬ ContinuationsRead sha env session between n task s) := by
  induction hremaining : state.remaining.toNat using Nat.strong_induction_on
    generalizing state s n task with
  | _ remaining ih =>
    subst hremaining hkey
    obtain ⟨result, next, hcontinued, hrun⟩ : ∃ result next,
        Continued task state s.store result next ∧ handleTask sha (env n) session task s =
          (.ok result, { s with gets := Function.update s.gets task.getKey next }) :=
      handleTask_continued hkind hget hid
    have hreads (hread : state.Readable s.store) : task.isGetContinue = true →
        ∀ state', s.gets task.getKey = some state' → state'.Readable s.store := by
      intro _ state' hget'
      obtain rfl := Option.some.inj (hget.symm.trans hget')
      exact hread
    cases hcontinued with
    | failed code what hread =>
      refine ⟨1, [], _, _, serveChain_last hrun rfl, by simp [DataFrames],
        .inr ⟨⟨.inr rfl, ?_⟩, ?_⟩⟩
      · change outReqId task.frame = 1
        rw [outReqId, Task.frame, if_pos hnone]
      · exact fun hall => hread (hall task s state (.first n task s) hkind hget)
    | last pieces total hread =>
      refine ⟨1, _, _, _, serveChain_last hrun rfl, dataFrames_map _ _, .inl ⟨⟨.inl rfl, rfl⟩, ?_⟩⟩
      exact continuationsRead_single hrun rfl (hreads hread)
    | more pieces sent hread hless =>
      obtain ⟨s₁, hs₁⟩ : ∃ s₁, s₁ = between n { s with
        gets := Function.update s.gets task.getKey (some (state.advance sent)) } := ⟨_, rfl⟩
      have hnext : s₁.gets task.getKey = some (state.advance sent) := by
        rw [hs₁, hbetween]
        exact Function.update_self _ _ _
      obtain ⟨fuel, data, last, s', hrest, hdata, hends⟩ : ∃ fuel data last s',
          serveChain sha env session between fuel (n + 1) (task.continuation task.getKey) s₁ =
            some (data ++ [last], s') ∧ DataFrames (state.advance sent).reqId data ∧
          (last.Ends (state.advance sent).reqId ∧ ContinuationsRead sha env session between (n + 1)
              (task.continuation task.getKey) s₁ ∨
            last.Ends 1 ∧ ¬ ContinuationsRead sha env session between (n + 1)
              (task.continuation task.getKey) s₁) := ih _ hless rfl rfl rfl hnext hid rfl
      rw [hs₁] at hrest
      rw [hs₁, ← continuationsRead_next hrun rfl (hreads hread)] at hends
      refine ⟨fuel + 1, pieces.map (dataFrame state.reqId) ++ data, last, s', ?_, ?_, hends⟩
      · rw [List.append_assoc]
        exact serveChain_more hrun rfl hrest
      · exact List.forall_mem_append.mpr ⟨dataFrames_map _ _, hdata⟩

/-- DATA frames, of a download, and behind them one OK or ERROR frame, all with the id of the
request. -/
def AnsweredOnce (frame : FrFrame) (out : List FrFrame) : Prop :=
  ∃ data last, out = data ++ [last] ∧ DataFrames frame.reqId data ∧ last.Ends frame.reqId ∧
    (data ≠ [] → FrMsgType.ofByte frame.type = some .getArtifact)

private theorem not_answeredOnce_nil {frame : FrFrame} : ¬ AnsweredOnce frame [] := by
  rintro ⟨data, last, hout, -⟩
  exact List.cons_ne_nil _ _ (List.append_eq_nil_iff.mp hout.symm).2

private theorem answeredOnce_append {frame : FrFrame} {data : List FrFrame} {last : FrFrame}
    {reqId : UInt32} (hdata : DataFrames frame.reqId data) (hends : last.Ends reqId)
    (htype : FrMsgType.ofByte frame.type = some .getArtifact) :
    AnsweredOnce frame (data ++ [last]) ↔ reqId = frame.reqId := by
  constructor
  · rintro ⟨data', last', hout, -, hends', -⟩
    obtain rfl := List.singleton_inj.mp (List.append_inj_right' hout rfl)
    exact hends.reqId.symm.trans hends'.reqId
  · intro hid
    exact ⟨data, last, rfl, hdata, hid ▸ hends, fun _ => htype⟩

/-- The tasks of a request give exactly one final reply, with its id, if and only if the rows that
it asks for fit one frame, and every continuation finds the part of the artifact that it has to
send, or the id of the request is the one that the errors of continuations carry. -/
theorem request_answered_iff (hkept : KeptDownloads s) (hkind : task.isGetContinue = false)
    (hid : task.reqId ≠ 0)
    (hbetween : ∀ i s', (between i s').gets (getKey task.connId s.getSeq) =
      s'.gets (getKey task.connId s.getSeq)) :
    (∃ fuel out s', serveChain sha env session between fuel 0 task s = some (out, s') ∧
      AnsweredOnce task.frame out) ↔
    ListingFits session task.frame s ∧
      (ContinuationsRead sha env session between 0 task s ∨ task.reqId = 1) := by
  have hout : outReqId task.frame = task.frame.reqId := if_neg hid
  have hfirst : task.isGetContinue = true → ∀ state, s.gets task.getKey = some state →
      state.Readable s.store := fun h => absurd (hkind.symm.trans h) (by decide)
  have hanswer {out : List FrFrame} {fuel : Nat} {s' : Service}
      (hchain : serveChain sha env session between fuel 0 task s = some (out, s')) :
      (∃ fuel out s', serveChain sha env session between fuel 0 task s = some (out, s') ∧
        AnsweredOnce task.frame out) ↔ AnsweredOnce task.frame out := by
    constructor
    · rintro ⟨fuel', out', s'', hchain', hanswered⟩
      obtain ⟨rfl, -⟩ := Prod.mk.inj (serveChain_unique hchain hchain')
      exact hanswered
    · exact fun hanswered => ⟨fuel, out, s', hchain, hanswered⟩
  by_cases htype : FrMsgType.ofByte task.type = some .getArtifact
  · have hfits : ListingFits session task.frame s := by
      rw [ListingFits, Task.frame, htype]
      trivial
    rw [and_iff_right hfits]
    obtain ⟨result, s₁, hrun, ⟨hlast, data, f, hresult, hdata, hends⟩ |
      ⟨hmore, hkey, hdata, state, hget, hstate⟩⟩ :=
        handleTask_get sha (env 0) session hkind htype (hkept.fresh task.connId)
    · -- one task
      rw [hanswer (serveChain_last hrun hlast), hresult,
        answeredOnce_append (hout ▸ hdata) hends htype]
      exact iff_of_true hout (.inl (continuationsRead_single hrun hlast hfirst))
    · -- continuations
      have hnonzero : state.reqId ≠ 0 := hstate ▸ outReqId_ne_zero _
      obtain ⟨fuel, rest, last, s', hrest, hdata', hends⟩ : ∃ fuel data last s',
          serveChain sha env session between fuel 1 (task.continuation result.continuationKey)
            (between 0 s₁) = some (data ++ [last], s') ∧ DataFrames state.reqId data ∧
          (last.Ends state.reqId ∧ ContinuationsRead sha env session between 1
              (task.continuation result.continuationKey) (between 0 s₁) ∨
            last.Ends 1 ∧ ¬ ContinuationsRead sha env session between 1
              (task.continuation result.continuationKey) (between 0 s₁)) :=
        serveChain_ends hbetween rfl hkey rfl ((hbetween 0 s₁).trans hget) hnonzero
      have hall : DataFrames task.frame.reqId (result.out ++ rest) := by
        rw [hstate] at hdata'
        exact hout ▸ List.forall_mem_append.mpr ⟨hdata, hdata'⟩
      rw [← continuationsRead_next hrun hmore hfirst, hstate] at hends
      rw [hanswer (serveChain_more hrun hmore hrest), ← List.append_assoc]
      obtain ⟨hends, hread⟩ | ⟨hends, hread⟩ := hends
      · rw [answeredOnce_append hall hends htype]
        exact iff_of_true hout (.inl hread)
      · rw [answeredOnce_append hall hends htype, or_iff_right hread]
        exact eq_comm
  · obtain ⟨result, s₁, hrun, hlast, hreply⟩ :=
      handleTask_reply sha (env 0) session s hkind htype
    have hread : ContinuationsRead sha env session between 0 task s :=
      continuationsRead_single hrun hlast hfirst
    rw [hanswer (serveChain_last hrun hlast), and_iff_left (.inl hread)]
    obtain ⟨⟨f, hf, hends⟩, hfits⟩ | ⟨hnone, hfits⟩ := hreply
    · rw [hf]
      exact iff_of_true ⟨[], f, rfl, by simp [DataFrames], hout ▸ hends, by simp⟩ hfits
    · rw [hnone]
      exact iff_of_false not_answeredOnce_nil hfits

/-- The sample artifact is deleted after the first slice. -/
def deletedMeanwhile (i : Nat) (s : Service) : Service :=
  if i = 0 then
    { s with store := ((deleteArtifact (sampleRequestEnv 3).call (ascii "team") (ascii "app")
      (ascii "1.0")).run s.store).2 }
  else s

/-- With the id 1 the request for the artifact is answered all the same. -/
theorem request_answered_iff_sample : ∃ fuel out s',
    serveChain sampleSha (fun _ => sampleRequestEnv 3) sampleReader deletedMeanwhile fuel 0
        { sampleGetTask with reqId := 1 } sampleArchive = some (out, s') ∧
      AnsweredOnce ⟨(sampleGet 2).type, 0, 1, (sampleGet 2).payload⟩ out :=
  (@request_answered_iff sampleSha sampleReader { sampleGetTask with reqId := 1 } sampleArchive
    (fun _ => sampleRequestEnv 3) deletedMeanwhile (.start _ _) rfl (by decide) fun i s' => by
      unfold deletedMeanwhile
      split <;> rfl).mpr ⟨trivial, .inr rfl⟩

/-- With the id 9 it is not: the ERROR frame behind its DATA frame has the id 1. -/
theorem late_error_loses_id : ¬ ∃ fuel out s',
    serveChain sampleSha (fun _ => sampleRequestEnv 3) sampleReader deletedMeanwhile fuel 0
        sampleGetTask sampleArchive = some (out, s') ∧
      AnsweredOnce sampleGetTask.frame out := by
  rintro ⟨fuel, out, s', hchain, data, last, rfl, -, hends, -⟩
  have hids : (serveChain sampleSha (fun _ => sampleRequestEnv 3) sampleReader deletedMeanwhile 2 0
      sampleGetTask sampleArchive).map (·.1.map (·.reqId)) = some [9, 1] := by decide +kernel
  obtain ⟨⟨out', s''⟩, hchain', hout'⟩ := Option.map_eq_some_iff.mp hids
  obtain ⟨rfl, -⟩ := Prod.mk.inj (serveChain_unique hchain' hchain)
  have hlast : last.reqId = 1 := by
    have hlast := congrArg List.getLast? hout'
    simpa using hlast
  exact absurd (hlast.symm.trans hends.reqId) (by decide)

end ForgeRelay
