import ForgeRelay.Service.Calls
import ForgeRelay.Storage.ChunkLengths
import ForgeRelay.Transport.LiveDownloads

/-!
# What is held for a connection

Its outbox, and its completions on the queue of the I/O thread. That queue has a limit, and so has
a completion; the outbox stays small if the I/O thread appends only to one that is small.
-/

namespace ForgeRelay

open Program

/-- The frames as bytes. -/
def wireSize (frames : List FrFrame) : Nat := (frames.flatMap frameBytes).length

/-- One slice in DATA frames of a byte each, and the OK frame behind them. -/
def maxReply : Nat := 21 * dataSliceBytes.toNat + 28

@[simp] theorem wireSize_nil : wireSize [] = 0 := rfl

@[simp] theorem wireSize_append (frames frames' : List FrFrame) :
    wireSize (frames ++ frames') = wireSize frames + wireSize frames' := by
  simp [wireSize]

@[simp] theorem wireSize_singleton (f : FrFrame) : wireSize [f] = 20 + f.payload.length := by
  simp [wireSize, frameBytes_length]

private theorem wireSize_emit_le (out : List FrFrame) (type : FrMsgType) (reqId : UInt32)
    (payload : Bytes) : wireSize (emit out type reqId payload) ≤
      wireSize out + (20 + payload.length) := by
  unfold emit
  split
  · simp
  · omega

private theorem wireSize_pieces (reqId : UInt32) (pieces : List Bytes) (out : List FrFrame) :
    wireSize (pieces.foldl (fun out data => emit out .data reqId data) out) ≤
      wireSize out + 20 * pieces.length + (pieces.map List.length).sum := by
  induction pieces generalizing out with
  | nil => simp
  | cons data pieces ih =>
    have hfirst := wireSize_emit_le out .data reqId data
    have hrest := ih (emit out .data reqId data)
    simp only [List.foldl_cons, List.length_cons, List.map_cons, List.sum_cons] at *
    omega

private theorem sendSlice_size {store : Store} {state state' : GetState} {out : List FrFrame}
    {sent : UInt64} (hstore : NoEmptyChunks store)
    (h : sendSlice store state = .ok (state', out, sent)) :
    wireSize out ≤ 21 * dataSliceBytes.toNat := by
  unfold sendSlice at h
  dsimp only at h
  generalize hslice :
    (if dataSliceBytes < state.remaining then dataSliceBytes else state.remaining) = slice at h
  have hmin : slice.toNat ≤ dataSliceBytes.toNat := by
    rw [← hslice, toNat_min]
    exact Nat.min_le_left _ _
  split at h
  · cases h
    exact Nat.zero_le _
  · split at h
    · rename_i pieces n hread
      cases h
      obtain ⟨hsum, hsent, -⟩ := readArtifactSlice_ok (Prod.ext hread rfl)
      have hcount := readArtifactSlice_count hstore (Prod.ext hread rfl)
      have hsize := wireSize_pieces state.reqId pieces []
      rw [wireSize_nil] at hsize
      omega
    · cases h

private theorem endOfGet_size {out : List FrFrame} {reqId : UInt32} {state : GetState}
    {result : HandleResult} (h : endOfGet out reqId state = .ok result) :
    wireSize result.out ≤ wireSize out + 28 := by
  cases h
  have hsize := wireSize_emit_le out .ok reqId (frStoreBe64 state.sent)
  rw [frStoreBe64_length] at hsize
  exact hsize

section Tasks

variable {sha : Sha256} {env : RequestEnv} {session : ClientSession} {task : Task}
  {s s' : Service} {result : HandleResult}

private theorem startGet_size {connId : Nat} {frame : FrFrame} {req : GetArtifactReq}
    (hstore : NoEmptyChunks s.store)
    (h : (startGet connId frame req).run s = (.ok result, s')) :
    wireSize result.out ≤ maxReply := by
  unfold maxReply
  rw [startGet, Prog.run_lift] at h
  dsimp only at h
  split at h
  · cases h
  · rename_i hslice
    have hsize := sendSlice_size hstore hslice
    split at h
    · have hlast := endOfGet_size (Prod.mk.inj h).1
      omega
    · cases h
      exact hsize.trans (Nat.le_add_right _ _)

private theorem handleGetContinue_size {key : Bytes} (hstore : NoEmptyChunks s.store)
    (h : (handleGetContinue key).run s = (.ok result, s')) :
    wireSize result.out ≤ maxReply := by
  unfold maxReply
  rw [handleGetContinue, Prog.run_lift] at h
  dsimp only at h
  split at h
  · cases h
    exact Nat.zero_le _
  · split at h
    · cases h
    · rename_i hslice
      have hsize := sendSlice_size hstore hslice
      split at h
      · have hlast := endOfGet_size (Prod.mk.inj h).1
        omega
      · cases h
        exact hsize.trans (Nat.le_add_right _ _)

private theorem makeOk_size (frame : FrFrame) (payload : Bytes) :
    wireSize (makeOk frame payload).out ≤ maxReply := by
  have hmax : 20 + frFrameMaxPayload ≤ maxReply := by decide
  have hencodable := makeOk_encodable frame payload
  unfold makeOk emit at hencodable ⊢
  dsimp only at hencodable ⊢
  split
  · rename_i hsome
    rw [if_pos hsome] at hencodable
    have hle := (hencodable _ List.mem_cons_self).payload_le
    rw [List.nil_append, wireSize_singleton]
    omega
  · exact Nat.zero_le _

private theorem refusal_size (task : Task) (code : FrStatus) {what : Bytes} (close : Bool)
    (hlen : what.length ≤ maxStringLen) :
    wireSize (refusal task code what close).out ≤ maxReply := by
  have hmax : 26 + maxStringLen ≤ maxReply := by decide
  change wireSize [errorFrame _ code what] ≤ _
  rw [wireSize_singleton, errorFrame, errorPayload_length]
  omega

/-- Whatever a worker gets for its task, it is not more than one slice. -/
private theorem handleTask_size (hstore : NoEmptyChunks s.store)
    (h : handleTask sha env session task s = (.ok result, s')) :
    wireSize result.out ≤ maxReply := by
  have hcaught : ∀ {e}, workerCatch task e = .ok result → wireSize result.out ≤ maxReply := by
    intro e he
    obtain ⟨code, what, hlen, rfl⟩ := workerCatch_ok he
    exact refusal_size task code false hlen
  unfold handleTask at h
  split at h
  · rcases hrun : (handleGetContinue task.getKey).run s with ⟨e | result', s₁⟩
    · rw [hrun] at h
      exact hcaught (Prod.mk.inj h).1
    · rw [hrun] at h
      cases h
      exact handleGetContinue_size hstore hrun
  obtain ⟨session', r, s₁, hreached, hrun⟩ := handle_reached (s := s)
  rw [hrun] at h
  cases r with
  | error e =>
    obtain ⟨code, what, close, hlen, rfl, -⟩ : ∃ code what close, what.length ≤ maxStringLen ∧
        result = refusal task code what close ∧ SameDownloads s₁ s' := by
      cases e with
      | fr code what =>
        exact handleFailed_refusal env task.peer session' task (e := .fr code what) h
      | std what => exact handleFailed_refusal env task.peer session' task (e := .std what) h
    exact refusal_size task code close hlen
  | ok result' =>
    cases h
    cases hreached with
    | replied hsame => exact makeOk_size _ _
    | download htype hreq hstart => exact startGet_size hstore hstart

private theorem handleTask_stored {B : Bound Store Error} {VL : UInt64 → Prop}
    (hB : ∀ now, Allows now B (fun _ => True) VL) (hs : B.inv s.store) :
    B.inv (handleTask sha env session task s).2.store := by
  unfold handleTask
  split
  · exact handleGetContinue_keeps (P := fun s => B.inv s.store) id task.getKey s hs
  · exact handle_stored hB s hs

end Tasks

/-- The bytes of a completion. -/
def Completion.size (done : Completion) : Nat := wireSize (done.out.map (·.frame))

theorem Completion.size_eq (done : Completion) :
    (done.out.flatMap (frameBytes ·.frame)).length = done.size := by
  rw [size, wireSize, List.flatMap_map]

/-- The bytes of the completions for a connection. -/
def heldIn (queue : List Completion) (connId : Nat) : Nat :=
  ((queue.filter (·.connId == connId)).map Completion.size).sum

/-- What the server holds for a connection, in its outbox and on the queue of the I/O thread. -/
def Server.held (s : Server) (connId : Nat) : Nat :=
  (s.connections connId).elim 0 (·.outbox.length) + heldIn s.doneQueue connId

private theorem heldIn_cons (done : Completion) (queue : List Completion) (connId : Nat) :
    heldIn (done :: queue) connId =
      (if done.connId = connId then done.size else 0) + heldIn queue connId := by
  by_cases hid : done.connId = connId <;> simp [heldIn, hid]

private theorem heldIn_le {queue : List Completion} {size : Nat}
    (hsize : ∀ done ∈ queue, done.size ≤ size) (connId : Nat) :
    heldIn queue connId ≤ queue.length * size := by
  induction queue with
  | nil => simp [heldIn]
  | cons done queue ih =>
    obtain ⟨hdone, hqueue⟩ := List.forall_mem_cons.mp hsize
    have hrest := ih hqueue
    rw [heldIn_cons, List.length_cons, Nat.add_mul, Nat.one_mul]
    split <;> omega

private theorem drain_outbox (queue : List Completion) {connections : Nat → Option Connection}
    {connId : Nat} {conn' : Connection}
    (hc : (queue.foldl deliver connections) connId = some conn') :
    ∃ conn, connections connId = some conn ∧
      conn'.outbox.length ≤ conn.outbox.length + heldIn queue connId := by
  induction queue generalizing connections with
  | nil => exact ⟨conn', hc, Nat.le_add_right _ _⟩
  | cons done queue ih =>
    obtain ⟨conn₁, hconn₁, hle⟩ := ih hc
    rw [heldIn_cons]
    have hsame : connections connId = some conn₁ → ∃ conn, connections connId = some conn ∧
        conn'.outbox.length ≤ conn.outbox.length +
          ((if done.connId = connId then done.size else 0) + heldIn queue connId) :=
      fun hconn => ⟨conn₁, hconn, by omega⟩
    cases hconn : connections done.connId with
    | none =>
      rw [deliver, hconn] at hconn₁
      exact hsame hconn₁
    | some conn =>
      rw [deliver, hconn] at hconn₁
      dsimp only at hconn₁
      split at hconn₁
      · exact hsame hconn₁
      by_cases hid : done.connId = connId
      · subst hid
        rw [Function.update_self] at hconn₁
        cases hconn₁
        have happend : (conn.append done.out).outbox.length = conn.outbox.length + done.size := by
          rw [← Completion.size_eq, ← List.length_append]
          rfl
        refine ⟨conn, hconn, ?_⟩
        rw [if_pos rfl]
        change _ ≤ (conn.append done.out).outbox.length + _ at hle
        omega
      · rw [Function.update_of_ne (Ne.symm hid)] at hconn₁
        exact hsame hconn₁

/-- The outbox of a connection, if it is open, holds no more than `limit` bytes. -/
def Server.Low (s : Server) (limit connId : Nat) : Prop :=
  ∀ conn, s.connections connId = some conn → conn.outbox.length ≤ limit

/-- The I/O thread appends only to outboxes that hold no more than `limit` bytes: completions in
`drain_completions`, the answer to a frame that the queue has no room for, and that to a stream that
the parser has rejected. -/
def Server.Throttled (limit : Nat) (s : Server) : ServerEvent → Prop
  | .drain => ∀ done ∈ s.doneQueue, s.Low limit done.connId
  | .receive connId _ _ => s.queue.length < queueCapacity ∨ s.Low limit connId
  | .reject connId _ => s.Low limit connId
  | _ => True

instance (s : Server) (limit connId : Nat) : Decidable (s.Low limit connId) :=
  decidable_of_iff ((s.connections connId).all (·.outbox.length ≤ limit) = true) (by
    unfold Server.Low
    cases s.connections connId <;> simp)

instance (s : Server) (limit : Nat) (e : ServerEvent) : Decidable (s.Throttled limit e) := by
  unfold Server.Throttled
  split <;> infer_instance

/-- What bounds that which is held. -/
structure Server.Buffered (limit : Nat) (s : Server) : Prop where
  stored : NoEmptyChunks s.service.store
  outboxes : ∀ connId, s.Low (limit + doneQueueHighWater * maxReply) connId
  sizes : ∀ done ∈ s.completions, done.size ≤ maxReply
  queue : s.doneQueue.length ≤ doneQueueHighWater

section Steps

variable {sha : Sha256} {limit : Nat} {s s' : Server}

private theorem Server.step_doneQueue {e : ServerEvent} (h : s.step sha e = some s')
    (hqueue : s.doneQueue.length ≤ doneQueueHighWater) :
    s'.doneQueue.length ≤ doneQueueHighWater := by
  cases e with
  | accept peer => exact Option.some.inj h ▸ hqueue
  | receive connId frame woken =>
    rw [step, receive] at h
    split at h
    · cases h
    split at h
    · obtain ⟨workers, -, rfl⟩ := Option.map_eq_some_iff.mp h
      exact hqueue
    split at h <;> cases h
    exact hqueue
  | reject connId status =>
    obtain ⟨conn, -, rfl⟩ := Option.map_eq_some_iff.mp h
    exact hqueue
  | drain =>
    cases h
    exact Nat.zero_le _
  | flush connId n =>
    obtain ⟨conn, -, rfl⟩ := Option.map_eq_some_iff.mp h
    dsimp only
    split
    · rw [(close_elsewhere _ _).2.2.1]
      exact hqueue
    · exact hqueue
  | close connId =>
    cases h
    rw [(close_elsewhere _ _).2.2.1]
    exact hqueue
  | maintenance env => exact Option.some.inj h ▸ hqueue
  | pop i =>
    rw [step, pop] at h
    split at h <;> cases h <;> exact hqueue
  | serve i env =>
    obtain ⟨task, -, ⟨-, -, rfl⟩ | ⟨result, session, -, -, hserved⟩⟩ := serve_served h
    · exact hqueue
    · rw [hserved.doneQueue]
      exact hqueue
  | enqueue i woken =>
    rw [step, enqueue] at h
    split at h
    · split at h
      · cases h
      split at h
      · obtain ⟨workers, -, rfl⟩ := Option.map_eq_some_iff.mp h
        exact hqueue
      split at h <;> cases h
      exact hqueue
    · cases h
  | complete i woken =>
    rw [step, complete] at h
    split at h
    · split at h
      · cases h
      split at h
      · rename_i hroom
        obtain ⟨workers, -, rfl⟩ := Option.map_eq_some_iff.mp h
        change (s.doneQueue ++ [_]).length ≤ _
        rw [List.length_append, List.length_singleton]
        exact hroom
      split at h <;> cases h
      exact hqueue
    · cases h

private theorem Connection.sendError_outbox (conn : Connection) (reqId : UInt32) (code : FrStatus)
    (message : Bytes) : (conn.sendError reqId code message).outbox.length =
      conn.outbox.length + (26 + message.length) := by
  rw [(conn.sendError_extends reqId code message).outbox, List.length_append]
  simp [frameBytes_length, errorFrame, errorPayload_length]
  omega

theorem Server.Low.update {connId : Nat} {conn : Connection} (h : ∀ c, s.Low limit c)
    (hconn : conn.outbox.length ≤ limit)
    (hs' : s'.connections = Function.update s.connections connId (some conn)) (c : Nat) :
    s'.Low limit c := by
  intro conn' hconn'
  rw [hs'] at hconn'
  by_cases hc : c = connId
  · rw [hc, Function.update_self] at hconn'
    cases hconn'
    exact hconn
  · rw [Function.update_of_ne hc] at hconn'
    exact h c conn' hconn'

theorem Server.Low.close {connId : Nat} (h : ∀ c, s.Low limit c) (c : Nat) :
    (s.close connId).Low limit c := by
  intro conn hconn
  rw [close_connections] at hconn
  by_cases hc : c = connId
  · rw [hc, Function.update_self] at hconn
    cases hconn
  · rw [Function.update_of_ne hc] at hconn
    exact h c conn hconn

private theorem Server.close_store (s : Server) (connId : Nat) :
    (s.close connId).service.store = s.service.store := by
  unfold close
  split <;> rfl

theorem Server.Buffered.drain (h : s.Buffered limit) (hlow : s.Throttled limit .drain) :
    s.drain.Buffered limit := by
  refine ⟨h.stored, fun connId conn' hconn' => ?_, fun done hdone => ?_, Nat.zero_le _⟩
  · obtain ⟨conn, hconn, hle⟩ := drain_outbox s.doneQueue hconn'
    have hsizes := fun done hdone => h.sizes done (List.mem_append_left _ hdone)
    by_cases hgets : ∃ done ∈ s.doneQueue, done.connId = connId
    · obtain ⟨done, hdone, rfl⟩ := hgets
      have hbefore := hlow done hdone conn hconn
      have hheld := heldIn_le hsizes done.connId
      have hlength := Nat.mul_le_mul_right maxReply h.queue
      omega
    · have hnone : heldIn s.doneQueue connId = 0 := by
        rw [heldIn, List.filter_eq_nil_iff.mpr fun done hdone hid =>
          hgets ⟨done, hdone, beq_iff_eq.mp hid⟩]
        rfl
      have hbefore := h.outboxes connId conn hconn
      omega
  · exact h.sizes done (List.mem_append_right _ (by
      simpa [completions, Server.drain] using hdone))

theorem Server.Buffered.carries {enter leave : List Task} (h : s.Buffered limit)
    (hcarry : s.Carries s' enter leave) (hqueue : s'.doneQueue.length ≤ doneQueueHighWater) :
    s'.Buffered limit := by
  refine ⟨?_, fun connId conn hconn => ?_, fun done hdone => ?_, hqueue⟩
  · rw [hcarry.service]
    exact h.stored
  · rw [hcarry.connections] at hconn
    exact h.outboxes connId conn hconn
  · exact h.sizes done (hcarry.completions.subset hdone)

theorem Server.Buffered.answer {connId : Nat} {conn conn' : Connection} {reqId : UInt32}
    {code : FrStatus} {message : Bytes} (h : s.Buffered limit) (hlow : s.Low limit connId)
    (hconn : s.connections connId = some conn) (hshort : message.length ≤ 64)
    (hconn' : conn'.outbox = (conn.sendError reqId code message).outbox) :
    Buffered limit { s with
      connections := Function.update s.connections connId (some conn') } := by
  refine ⟨h.stored, .update h.outboxes ?_ rfl, h.sizes, h.queue⟩
  have hmax : 26 + 64 ≤ doneQueueHighWater * maxReply := by decide
  have hbefore := hlow conn hconn
  rw [hconn', Connection.sendError_outbox]
  omega

theorem Server.Buffered.served {env : RequestEnv} {i : Nat} {task : Task} {result : HandleResult}
    (h : s.Buffered limit) (hget : s.workers[i]? = some (.popped task))
    (hserved : Served sha env i task result s s') : s'.Buffered limit := by
  obtain ⟨session, hhandle⟩ := hserved.handled
  refine ⟨?_, fun connId conn' hconn' => ?_, fun done hdone => ?_, hserved.doneQueue ▸ h.queue⟩
  · have hstored : NoEmptyChunks (handleTask sha env session task s.service).2.store :=
      handleTask_stored noEmptyChunks_allows h.stored
    rwa [hhandle] at hstored
  · have hsame := hserved.connections connId
    rw [hconn'] at hsame
    obtain ⟨conn, hconn, hanonymous⟩ := Option.map_eq_some_iff.mp hsame.symm
    have houtbox : conn.anonymous.outbox = conn'.anonymous.outbox :=
      congrArg Connection.outbox hanonymous
    change conn.outbox = conn'.outbox at houtbox
    exact houtbox ▸ h.outboxes connId conn hconn
  · rcases List.mem_cons.mp ((hserved.completions hget).subset hdone) with rfl | hdone
    · change wireSize ((stamp _ result.out).map (·.frame)) ≤ _
      rw [stamp_frames]
      exact handleTask_size h.stored hhandle
    · exact h.sizes done hdone

theorem Server.Buffered.step {e : ServerEvent} (h : s.Buffered limit) (hlow : s.Throttled limit e)
    (hother : e.isOther = true) (hstep : s.step sha e = some s') : s'.Buffered limit := by
  have hqueue := step_doneQueue hstep h.queue
  cases e with
  | accept peer =>
    cases hstep
    exact ⟨h.stored, .update h.outboxes (Nat.zero_le _) rfl, h.sizes, h.queue⟩
  | receive connId frame woken =>
    obtain ⟨conn, hconn, hcarry | rfl⟩ := receive_cases hstep
    · exact h.carries hcarry hqueue
    · rcases hlow with hroom | hlow
      · rw [Server.step, receive, hconn] at hstep
        dsimp only at hstep
        rw [if_pos hroom] at hstep
        obtain ⟨workers, -, hworkers⟩ := Option.map_eq_some_iff.mp hstep
        have hlength := congrArg (fun s : Server => s.queue.length) hworkers
        simp at hlength
      · exact h.answer hlow hconn (by decide) rfl
  | reject connId status =>
    obtain ⟨conn, hconn, rfl⟩ := Option.map_eq_some_iff.mp hstep
    have hshort : (ascii "protocol violation, closing connection").length ≤ 64 := by decide
    exact h.answer hlow hconn hshort rfl
  | drain =>
    cases hstep
    exact h.drain hlow
  | flush connId n =>
    obtain ⟨conn, hconn, rfl⟩ := Option.map_eq_some_iff.mp hstep
    have hbefore := h.outboxes connId conn hconn
    have hflushed : Buffered limit { s with
        connections := Function.update s.connections connId
          (some { conn with outbox := conn.outbox.drop n }) } := by
      refine ⟨h.stored, .update h.outboxes ?_ rfl, h.sizes, h.queue⟩
      change (conn.outbox.drop n).length ≤ _
      rw [List.length_drop]
      omega
    dsimp only
    split
    · refine ⟨?_, .close hflushed.outboxes, ?_, ?_⟩
      · rw [close_store]
        exact hflushed.stored
      · rw [(close_inFlight _ _).2]
        exact hflushed.sizes
      · rw [(close_elsewhere _ _).2.2.1]
        exact hflushed.queue
    · exact hflushed
  | close connId =>
    cases hstep
    refine ⟨?_, .close h.outboxes, ?_, hqueue⟩
    · rw [close_store]
      exact h.stored
    · rw [(close_inFlight _ _).2]
      exact h.sizes
  | maintenance env =>
    cases hstep
    have hmaintained := ((noEmptyChunks_allows env.now).runMaintenance env rfl).run h.stored
    exact ⟨hmaintained.1.2, h.outboxes, h.sizes, h.queue⟩
  | pop i => exact h.carries (pop_carries hstep) hqueue
  | serve i env => cases hother
  | enqueue i woken => exact h.carries (enqueue_carries hstep) hqueue
  | complete i woken => exact h.carries (complete_carries hstep) hqueue

end Steps

end ForgeRelay
