import ForgeRelay.Lib.Slots
import ForgeRelay.Transport.Handling

/-!
# The order of a download's frames

A worker puts the continuation of a download on the queue before it hands over its own slice. As
long as no other worker serves the continuation before the slice is handed over, the frames of
every download reach the outbox in the order of their offsets, with the OK frame at the end.
-/

namespace ForgeRelay

open Program

/-- The frame belongs to this download. -/
def OutFrame.isOf (key : Bytes) (f : OutFrame) : Bool := f.download.map Prod.fst == some key

/-- Where the frame stands in the artifact. -/
def OutFrame.offset (f : OutFrame) : Nat := (f.download.map Prod.snd).getD 0

/-- The frame carries data. -/
def OutFrame.IsData (f : OutFrame) : Prop := f.frame.type = FrMsgType.data.toByte

/-- Where the data of the frame ends. -/
def OutFrame.endOffset (f : OutFrame) : Nat := f.offset + f.frame.payload.length

/-- `a` carries data which ends where `b` begins, or before. -/
def Precedes (a b : OutFrame) : Prop := a.IsData ∧ a.endOffset ≤ b.offset

/-- The frames of this download, for this connection. -/
def Completion.part (connId : Nat) (key : Bytes) (done : Completion) : List OutFrame :=
  if done.connId = connId then done.out.filter (·.isOf key) else []

/-- The same among what a worker has not handed over yet. -/
def Worker.part (connId : Nat) (key : Bytes) : Worker → List OutFrame
  | .enqueueing _ _ done | .completing _ done => done.part connId key
  | _ => []

/-- The continuation that a worker is about to serve, or to enqueue. -/
def Worker.pending : Worker → List Task
  | .popped task => if task.isGetContinue then [task] else []
  | .enqueueing _ continuation _ => [continuation]
  | _ => []

namespace Server

/-- What has been appended to the outbox of the connection. -/
def historyOf (s : Server) (connId : Nat) : List OutFrame :=
  (s.connections connId).elim [] (·.history)

/-- The frames of a download from the outbox back to the workers. -/
def line (s : Server) (connId : Nat) (key : Bytes) : List OutFrame :=
  (s.historyOf connId).filter (·.isOf key) ++ s.doneQueue.flatMap (·.part connId key) ++
    s.workers.flatMap (·.part connId key)

/-- All continuations. -/
def continuations (s : Server) : List Task :=
  s.queue.filter (·.isGetContinue) ++ s.workers.flatMap (·.pending)

/-- No worker but `i` holds frames of this download. -/
def Alone (s : Server) (i : Nat) (key : Bytes) : Prop :=
  ∀ (j : Nat) (w : Worker), j ≠ i → s.workers[j]? = some w → ∀ connId, w.part connId key = []

/-- A continuation is served when the slice before it has been handed over, and a request while
the number of downloads fits its counter. -/
def InTurn (s : Server) : ServerEvent → Prop
  | .serve i _ => ∀ task, s.workers[i]? = some (.popped task) →
      (task.isGetContinue = true → s.Alone i task.getKey) ∧
      (task.isGetContinue = false → s.service.getSeq.toNat + 1 < 2^64)
  | _ => True

end Server

section Stamps

variable {key : Bytes} {reqId : UInt32}

private theorem stampFrom_dataFrame (key : Bytes) (reqId : UInt32) (offset : Nat) (data : Bytes)
    (rest : List FrFrame) :
    stampFrom key offset (dataFrame reqId data :: rest) =
      ⟨dataFrame reqId data, some (key, offset)⟩ :: stampFrom key (offset + data.length) rest := by
  rw [stampFrom, if_pos (show (dataFrame reqId data).type = FrMsgType.data.toByte from rfl)]
  rfl

private theorem stampFrom_append (key : Bytes) (reqId : UInt32) (offset : Nat) (pieces : List Bytes)
    (rest : List FrFrame) :
    stampFrom key offset (pieces.map (dataFrame reqId) ++ rest) =
      stampFrom key offset (pieces.map (dataFrame reqId)) ++
        stampFrom key (offset + (pieces.map List.length).sum) rest := by
  induction pieces generalizing offset with
  | nil => simp [stampFrom]
  | cons data pieces ih =>
    rw [List.map_cons, List.cons_append, stampFrom_dataFrame, stampFrom_dataFrame, ih,
      List.cons_append, List.map_cons, List.sum_cons, Nat.add_assoc]

private theorem stampFrom_isOf (key : Bytes) (offset : Nat) (frames : List FrFrame) :
    ∀ f ∈ stampFrom key offset frames, f.download.map Prod.fst = some key ∧ offset ≤ f.offset := by
  induction frames generalizing offset with
  | nil => exact fun f hf => nomatch hf
  | cons frame frames ih =>
    intro f hf
    rw [stampFrom] at hf
    rcases List.mem_cons.mp hf with rfl | hf
    · exact ⟨rfl, le_refl _⟩
    · obtain ⟨hkey, hoffset⟩ := ih _ f hf
      refine ⟨hkey, le_trans ?_ hoffset⟩
      split
      · exact Nat.le_add_right _ _
      · exact le_refl _

private theorem stampFrom_data (key : Bytes) (reqId : UInt32) (offset : Nat) (pieces : List Bytes) :
    (stampFrom key offset (pieces.map (dataFrame reqId))).Pairwise Precedes ∧
      ∀ f ∈ stampFrom key offset (pieces.map (dataFrame reqId)), f.IsData ∧ offset ≤ f.offset ∧
        f.endOffset ≤ offset + (pieces.map List.length).sum := by
  induction pieces generalizing offset with
  | nil => exact ⟨.nil, fun f hf => nomatch hf⟩
  | cons data pieces ih =>
    obtain ⟨hsorted, hrange⟩ := ih (offset + data.length)
    rw [List.map_cons, stampFrom_dataFrame, List.map_cons, List.sum_cons]
    refine ⟨List.pairwise_cons.mpr ⟨fun f hf => ⟨rfl, (hrange f hf).2.1⟩, hsorted⟩, fun f hf => ?_⟩
    rcases List.mem_cons.mp hf with rfl | hf
    · refine ⟨rfl, le_refl _, ?_⟩
      change offset + data.length ≤ _
      omega
    · obtain ⟨hdata, hlo, hhi⟩ := hrange f hf
      exact ⟨hdata, by omega, by omega⟩

private theorem stampFrom_slice (key : Bytes) (reqId : UInt32) (offset : Nat) (pieces : List Bytes)
    (tail : List FrFrame) (htail : tail.length ≤ 1) :
    (stampFrom key offset (pieces.map (dataFrame reqId) ++ tail)).Pairwise Precedes := by
  obtain ⟨hsorted, hrange⟩ := stampFrom_data key reqId offset pieces
  rw [stampFrom_append, List.pairwise_append]
  refine ⟨hsorted, ?_, fun f hf g hg => ?_⟩
  · match tail with
    | [] => exact .nil
    | [frame] => exact List.pairwise_singleton _ _
  · obtain ⟨hdata, -, hend⟩ := hrange f hf
    exact ⟨hdata, hend.trans (stampFrom_isOf _ _ _ g hg).2⟩

end Stamps

variable {sha : Sha256} {env : RequestEnv} {task : Task} {key : Bytes}
  {gets gets' : Bytes → Option GetState} {state : GetState} {result : HandleResult}

theorem Streamed.sorted (h : Streamed task key gets state result gets') :
    (stampFrom key state.offset.toNat result.out).Pairwise Precedes := by
  cases h with
  | failed hlen => exact List.pairwise_singleton _ _
  | last hslice => exact stampFrom_slice _ _ _ _ _ (le_refl 1)
  | @more pieces sent hslice =>
    have hsorted := stampFrom_slice key state.reqId state.offset.toNat pieces []
      (Nat.zero_le 1)
    rwa [List.append_nil] at hsorted

theorem Streamed.hasMore (h : Streamed task key gets state result gets')
    (hmore : result.hasMore = true) : result.continuationKey = key ∧
      ∀ state', gets' key = some state' → state.offset.toNat ≤ state'.offset.toNat ∧
        ∀ f ∈ stampFrom key state.offset.toNat result.out,
          f.IsData ∧ f.endOffset ≤ state'.offset.toNat := by
  cases h with
  | failed hlen => cases hmore
  | last hslice => cases hmore
  | @more pieces sent hslice =>
    refine ⟨rfl, fun state' hstate => ?_⟩
    rw [Function.update_self] at hstate
    cases hstate
    have hoffset : (state.advance sent).offset.toNat = state.offset.toNat + sent.toNat := by
      rw [GetState.advance, UInt64.toNat_add]
      exact Nat.mod_eq_of_lt hslice.offset_lt
    refine ⟨by omega, fun f hf => ?_⟩
    obtain ⟨hdata, -, hend⟩ := (stampFrom_data key state.reqId state.offset.toNat pieces).2 f hf
    have hsum := hslice.sum_le
    exact ⟨hdata, by omega⟩

namespace Server

/-- Every download has at most one continuation, its frames are in order, and with a continuation
they end where its next slice begins. -/
structure InOrder (s : Server) : Prop where
  kept : KeptDownloads s.service
  usedLine : ∀ c key, s.line c key ≠ [] → s.service.Used key
  usedTask : ∀ t ∈ s.continuations, s.service.Used t.getKey
  sorted : ∀ c key, (s.line c key).Pairwise Precedes
  single : ∀ key, s.continuations.countP (·.getKey == key) ≤ 1
  bounded : ∀ t ∈ s.continuations, ∀ state, s.service.gets t.getKey = some state →
    ∀ c, ∀ f ∈ s.line c t.getKey, f.IsData ∧ f.endOffset ≤ state.offset.toNat
  holder : ∀ (i j : Nat) (v w : Worker) (c c' : Nat) (key : Bytes), s.workers[i]? = some v →
    s.workers[j]? = some w → v.part c key ≠ [] → w.part c' key ≠ [] → i = j

/-- No download has been started or continued, and frames have been lost at most. -/
structure Calmer (s s' : Server) : Prop where
  getSeq : s'.service.getSeq = s.service.getSeq
  gets : ∀ key state, s'.service.gets key = some state → s.service.gets key = some state
  line : ∀ c key, (s'.line c key).Sublist (s.line c key)
  continuations : s'.continuations.Subperm s.continuations
  workers : ∀ (i : Nat) (w' : Worker), s'.workers[i]? = some w' → ∃ w, s.workers[i]? = some w ∧
    ∀ c key, w'.part c key ≠ [] → w.part c key ≠ []

variable {s s' : Server} {i : Nat}

private theorem InOrder.calmer (h : s.InOrder) (hcalm : s.Calmer s') : s'.InOrder := by
  have hused : ∀ key, s.service.Used key → s'.service.Used key := by
    rintro key ⟨connId, n, hlt, hkey⟩
    exact ⟨connId, n, hcalm.getSeq ▸ hlt, hkey⟩
  refine {
    kept := ⟨fun key state hget => hused _ (h.kept.used _ _ (hcalm.gets _ _ hget)),
      fun key state hget => h.kept.reqId _ _ (hcalm.gets _ _ hget)⟩
    usedLine := fun c key hline => ?usedLine
    usedTask := fun t ht => hused _ (h.usedTask t (hcalm.continuations.subset ht))
    sorted := fun c key => (h.sorted c key).sublist (hcalm.line c key)
    single := fun key => (hcalm.continuations.countP_le _).trans (h.single key)
    bounded := fun t ht state hget c f hf => ?bounded
    holder := fun i j v w c c' key hv hw hpart hpart' => ?holder }
  case usedLine =>
    refine hused _ (h.usedLine c key fun hnil => hline ?_)
    exact List.sublist_nil.mp (hnil ▸ hcalm.line c key)
  case bounded =>
    exact h.bounded t (hcalm.continuations.subset ht) state (hcalm.gets _ _ hget) c f
      ((hcalm.line c _).subset hf)
  case holder =>
    obtain ⟨v₀, hv₀, hsame⟩ := hcalm.workers i v hv
    obtain ⟨w₀, hw₀, hsame'⟩ := hcalm.workers j w hw
    exact h.holder i j v₀ w₀ c c' key hv₀ hw₀ (hsame _ _ hpart) (hsame' _ _ hpart')

theorem Calmer.refl (s : Server) : s.Calmer s :=
  ⟨rfl, fun _ _ => id, fun _ _ => List.Sublist.refl _, List.Subperm.refl _,
    fun _ w hw => ⟨w, hw, fun _ _ => id⟩⟩

theorem Calmer.trans {s'' : Server} (h : s.Calmer s') (h' : s'.Calmer s'') : s.Calmer s'' where
  getSeq := h'.getSeq.trans h.getSeq
  gets key state hget := h.gets _ _ (h'.gets _ _ hget)
  line c key := (h'.line c key).trans (h.line c key)
  continuations := h'.continuations.trans h.continuations
  workers i w hw := by
    obtain ⟨w', hw', hsame'⟩ := h'.workers i w hw
    obtain ⟨w₀, hw₀, hsame⟩ := h.workers i w' hw'
    exact ⟨w₀, hw₀, fun c key hpart => hsame _ _ (hsame' _ _ hpart)⟩

private theorem Calmer.of_history (hseq : s'.service.getSeq = s.service.getSeq)
    (hgets : ∀ key state, s'.service.gets key = some state → s.service.gets key = some state)
    (hqueue : s'.queue.filter (·.isGetContinue) = s.queue.filter (·.isGetContinue))
    (hdone : s'.doneQueue = s.doneQueue) (hworkers : s'.workers = s.workers)
    (hhistory : ∀ c key, ((s'.historyOf c).filter (·.isOf key)).Sublist
      ((s.historyOf c).filter (·.isOf key))) : s.Calmer s' := by
  refine ⟨hseq, hgets, fun c key => ?_, ?_, fun i w hw => ⟨w, hworkers ▸ hw, fun _ _ => id⟩⟩
  · rw [Server.line, Server.line, hdone, hworkers]
    exact ((hhistory c key).append_right _).append_right _
  · rw [Server.continuations, Server.continuations, hqueue, hworkers]

private theorem Calmer.of_set {v w : Worker} (hget : s.workers[i]? = some v)
    (hworkers : s'.workers = s.workers.set i w)
    (hseq : s'.service.getSeq = s.service.getSeq)
    (hgets : ∀ key state, s'.service.gets key = some state → s.service.gets key = some state)
    (hqueue : ((s'.queue.filter (·.isGetContinue)) ++ w.pending).Subperm
      (s.queue.filter (·.isGetContinue) ++ v.pending))
    (hline : ∀ c key, (s'.line c key).Sublist (s.line c key))
    (hpart : ∀ c key, w.part c key ≠ [] → v.part c key ≠ []) : s.Calmer s' := by
  refine ⟨hseq, hgets, hline, ?_, fun j u hu => ?_⟩
  · have hperm := Slots.flatMap_set_perm (g := Worker.pending) (b := w) hget
    rw [Server.continuations, Server.continuations, hworkers]
    refine (List.subperm_append_right v.pending).mp ?_
    have hother : ((s'.queue.filter (·.isGetContinue) ++ w.pending) ++
        s.workers.flatMap Worker.pending).Subperm
        ((s.queue.filter (·.isGetContinue) ++ v.pending) ++ s.workers.flatMap Worker.pending) :=
      (List.subperm_append_right _).mpr hqueue
    rw [List.append_assoc, List.append_assoc] at hother ⊢
    exact ((hperm.append_left _).subperm.trans hother).trans
      (List.perm_append_comm.append_left _).subperm
  · rw [hworkers] at hu
    by_cases hj : j = i
    · subst hj
      rw [List.getElem?_set_self (List.getElem?_eq_some_iff.mp hget).1] at hu
      cases hu
      exact ⟨v, hget, hpart⟩
    · rw [List.getElem?_set_ne (Ne.symm hj)] at hu
      exact ⟨u, hu, fun _ _ => id⟩

theorem Calmer.notify {sleeps : Worker → Bool} {woken : Option Nat} {workers : List Worker}
    (h : notifyOne sleeps s.workers woken = some workers) :
    s.Calmer { s with workers := workers } := by
  unfold notifyOne at h
  split at h
  · split at h <;> cases h
    exact .refl s
  · rename_i i
    split at h
    · rename_i w hget
      split at h <;> cases h
      have hpart : ∀ c key, w.wake.part c key = w.part c key := by cases w <;> exact fun _ _ => rfl
      have hpending : w.wake.pending = w.pending := by cases w <;> rfl
      refine .of_set hget rfl rfl (fun _ _ => id) (by rw [hpending]) (fun c key => ?_)
        fun c key hne => hpart c key ▸ hne
      simp only [Server.line, Slots.flatMap_set_of_eq hget (hpart c key)]
      exact List.Sublist.refl _
    · cases h

private theorem accept_calmer (peer : Bytes) : s.Calmer (s.accept peer) := by
  refine .of_history rfl (fun _ _ => id) rfl rfl rfl fun c key => ?_
  by_cases hc : c = s.nextConnId
  · subst hc
    simp [Server.historyOf, Server.accept]
  · simp [Server.historyOf, Server.accept, Function.update_of_ne hc]

private theorem close_calmer (connId : Nat) : s.Calmer (s.close connId) := by
  unfold Server.close
  split
  · exact .refl s
  refine .of_history rfl (fun key state hget => ?_) rfl rfl rfl fun c key => ?_
  · simp only [onConnectionClosed] at hget
    split at hget
    · cases hget
    · exact hget
  · by_cases hc : c = connId
    · subst hc
      simp [Server.historyOf]
    · simp [Server.historyOf, Function.update_of_ne hc]

private theorem sendError_filter (conn : Connection) (reqId : UInt32) (code : FrStatus)
    (message key : Bytes) : (conn.sendError reqId code message).history.filter (·.isOf key) =
      conn.history.filter (·.isOf key) := by
  rw [Connection.sendError, Connection.append, List.filter_append]
  exact List.append_nil _

private theorem Calmer.of_connection {connId : Nat} {conn conn' : Connection}
    (hconn : s.connections connId = some conn)
    (hhistory : ∀ key, conn'.history.filter (·.isOf key) = conn.history.filter (·.isOf key)) :
    s.Calmer { s with connections := Function.update s.connections connId (some conn') } := by
  refine .of_history rfl (fun _ _ => id) rfl rfl rfl fun c key => ?_
  by_cases hc : c = connId
  · subst hc
    simp [Server.historyOf, hconn, hhistory]
  · simp [Server.historyOf, Function.update_of_ne hc]

private theorem receive_calmer {connId : Nat} {frame : FrFrame} {woken : Option Nat}
    (h : s.receive connId frame woken = some s') : s.Calmer s' := by
  unfold Server.receive at h
  split at h
  · cases h
  · rename_i conn hconn
    split at h
    · obtain ⟨workers, hnotify, rfl⟩ := Option.map_eq_some_iff.mp h
      have hqueue : s.Calmer { s with
          queue := s.queue ++
            [⟨connId, conn.peer, frame.type, frame.reqId, frame.payload, false, []⟩] } := by
        refine .of_history rfl (fun _ _ => id) ?_ rfl rfl fun c key => List.Sublist.refl _
        rw [List.filter_append]
        exact List.append_nil _
      exact hqueue.trans (.notify hnotify)
    · split at h
      · cases h
        exact .of_connection hconn fun key => sendError_filter conn _ _ _ key
      · cases h

private theorem reject_calmer {connId : Nat} {status : FrStatus}
    (h : s.reject connId status = some s') :
    s.Calmer s' := by
  obtain ⟨conn, hconn, rfl⟩ := Option.map_eq_some_iff.mp h
  exact .of_connection hconn fun key => sendError_filter conn _ _ _ key

private theorem flush_calmer {connId n : Nat} (h : s.flush connId n = some s') : s.Calmer s' := by
  obtain ⟨conn, hconn, rfl⟩ := Option.map_eq_some_iff.mp h
  have hflush : s.Calmer { s with
      connections := Function.update s.connections connId
        (some { conn with outbox := conn.outbox.drop n }) } :=
    .of_connection hconn fun _ => rfl
  dsimp only
  split
  · exact hflush.trans (close_calmer connId)
  · exact hflush

private theorem deliver_historyOf (connections : Nat → Option Connection) (done : Completion)
    (c : Nat) (key : Bytes) :
    (((deliver connections done c).elim [] (·.history)).filter (·.isOf key)).Sublist
      (((connections c).elim [] (·.history)).filter (·.isOf key) ++ done.part c key) := by
  cases hconn : connections done.connId with
  | none =>
    rw [deliver, hconn]
    exact List.sublist_append_left _ _
  | some conn =>
    rw [deliver, hconn]
    dsimp only
    split
    · exact List.sublist_append_left _ _
    · by_cases hc : c = done.connId
      · subst hc
        rw [Function.update_self, hconn, Completion.part, if_pos rfl]
        simp [Connection.append]
      · rw [Function.update_of_ne hc]
        exact List.sublist_append_left _ _

private theorem drain_calmer : s.Calmer s.drain := by
  have hfold : ∀ (queue : List Completion) (connections : Nat → Option Connection) (c : Nat)
      (key : Bytes), ((((queue.foldl deliver connections) c).elim [] (·.history)).filter
        (·.isOf key)).Sublist (((connections c).elim [] (·.history)).filter (·.isOf key) ++
          queue.flatMap (·.part c key)) := by
    intro queue
    induction queue with
    | nil =>
      intro connections c key
      rw [List.flatMap_nil, List.append_nil, List.foldl_nil]
    | cons done queue ih =>
      intro connections c key
      rw [List.foldl_cons, List.flatMap_cons, ← List.append_assoc]
      exact (ih _ c key).trans ((deliver_historyOf connections done c key).append_right _)
  refine ⟨rfl, fun _ _ => id, fun c key => ?_, List.Subperm.refl _,
    fun i w hw => ⟨w, hw, fun _ _ => id⟩⟩
  have hhistory := hfold s.doneQueue s.connections c key
  simp only [Server.line, Server.historyOf, Server.drain, List.flatMap_nil, List.append_nil]
  exact hhistory.append_right _

private theorem pop_calmer (h : s.pop i = some s') : s.Calmer s' := by
  unfold Server.pop at h
  split at h
  · cases h
    exact .refl s
  · rename_i task queue hget hqueue
    cases h
    refine .of_set hget rfl rfl (fun _ _ => id) ?_ (fun c key => ?_) fun _ _ => id
    · change (queue.filter _ ++ if task.isGetContinue then [task] else []).Subperm
        (s.queue.filter _ ++ [])
      rw [hqueue, List.filter_cons, List.append_nil]
      split
      · exact List.perm_append_comm.subperm
      · rw [List.append_nil]
    · have hsame : Worker.part c key (.popped task) = Worker.part c key .idle := rfl
      simp only [Server.line, Server.setWorker, Slots.flatMap_set_of_eq hget hsame]
      exact List.Sublist.refl _
  · cases h

private theorem enqueue_calmer {woken : Option Nat} (h : s.enqueue i woken = some s') :
    s.Calmer s' := by
  unfold Server.enqueue at h
  split at h
  · rename_i wait task done hget
    split at h
    · cases h
    split at h
    · obtain ⟨workers, hnotify, rfl⟩ := Option.map_eq_some_iff.mp h
      refine Calmer.trans ?_ (.notify hnotify)
      refine .of_set hget rfl rfl (fun _ _ => id) ?_ (fun c key => ?_) fun _ _ => id
      · change ((s.queue ++ [task]).filter _ ++ []).Subperm (s.queue.filter _ ++ [task])
        rw [List.filter_append, List.append_nil]
        exact (List.filter_sublist.append_left _).subperm
      · have hsame : Worker.part c key (.completing .ready done) =
            Worker.part c key (.enqueueing wait task done) := rfl
        simp only [Server.line, Server.setWorker, Slots.flatMap_set_of_eq hget hsame]
        exact List.Sublist.refl _
    · split at h
      · cases h
        refine .of_set hget rfl rfl (fun _ _ => id) (List.Subperm.refl _) (fun c key => ?_)
          fun _ _ => id
        have hsame : Worker.part c key (.enqueueing .parked task done) =
            Worker.part c key (.enqueueing wait task done) := rfl
        simp only [Server.line, Server.setWorker, Slots.flatMap_set_of_eq hget hsame]
        exact List.Sublist.refl _
      · cases h
  · cases h

/-- A completion that is handed over goes to the end of its line, since no other worker holds
frames of the same download. -/
private theorem complete_calmer {woken : Option Nat} (horder : s.InOrder)
    (h : s.complete i woken = some s') : s.Calmer s' := by
  unfold Server.complete at h
  split at h
  · rename_i wait done hget
    split at h
    · cases h
    split at h
    · obtain ⟨workers, hnotify, rfl⟩ := Option.map_eq_some_iff.mp h
      refine Calmer.trans ?_ (.notify hnotify)
      refine .of_set hget rfl rfl (fun _ _ => id) (List.Subperm.refl _) (fun c key => ?_)
        fun _ _ hne => absurd rfl hne
      simp only [Server.line, Server.setWorker]
      by_cases hpart : done.part c key = []
      · have hsame : Worker.part c key .idle = Worker.part c key (.completing wait done) :=
          hpart.symm
        rw [Slots.flatMap_set_of_eq hget hsame, List.flatMap_append, List.flatMap_singleton, hpart,
          List.append_nil]
        exact List.Sublist.refl _
      · have halone : ∀ (j : Nat) (w : Worker), j ≠ i → s.workers[j]? = some w →
            w.part c key = [] := by
          intro j w hj hw
          by_contra hne
          exact hj (horder.holder j i w _ c c key hw hget hne hpart)
        rw [Slots.flatMap_set_of_alone hget halone, Slots.flatMap_of_alone hget halone,
          List.flatMap_append, List.flatMap_singleton, ← List.append_assoc]
        change (_ ++ []).Sublist _
        rw [List.append_nil]
        exact List.Sublist.refl _
    · split at h
      · cases h
        refine .of_set hget rfl rfl (fun _ _ => id) (List.Subperm.refl _) (fun c key => ?_)
          fun _ _ => id
        have hsame : Worker.part c key (.completing .parked done) =
            Worker.part c key (.completing wait done) := rfl
        simp only [Server.line, Server.setWorker, Slots.flatMap_set_of_eq hget hsame]
        exact List.Sublist.refl _
      · cases h
  · cases h

private theorem served_historyOf {s s' : Server} (h : Served sha env i task result s s') (c : Nat) :
    s'.historyOf c = s.historyOf c := by
  have hhistory : ∀ o : Option Connection, o.elim [] (·.history) =
      (o.map (·.anonymous)).elim [] (·.history) := by
    intro o
    cases o <;> rfl
  rw [Server.historyOf, Server.historyOf, hhistory, h.connections c, ← hhistory]

private theorem handled_part (download : Option (Bytes × Nat)) (c : Nat) (key : Bytes) :
    (Worker.handled download task result).part c key =
      if task.connId = c then (stamp download result.out).filter (·.isOf key) else [] := by
  unfold Worker.handled
  dsimp only
  split <;> rfl

private theorem handled_pending (download : Option (Bytes × Nat)) :
    (Worker.handled download task result).pending =
      if result.hasMore then [task.continuation result.continuationKey] else [] := by
  unfold Worker.handled
  dsimp only
  split <;> rfl

private theorem served_calmer {s s' : Server} (h : Served sha env i task result s s')
    (hget : s.workers[i]? = some (.popped task)) (hmore : result.hasMore = false)
    (hdownload : downloadOf s.service s'.service task = none)
    (hsame : SameDownloads s.service s'.service) : s.Calmer s' := by
  have hpart : ∀ c key, (Worker.handled none task result).part c key = [] := by
    intro c key
    rw [handled_part]
    split
    · refine List.filter_eq_nil_iff.mpr fun f hf => ?_
      obtain ⟨frame, -, rfl⟩ := List.mem_map.mp hf
      simp [OutFrame.isOf]
    · rfl
  have hworkers := h.workers
  rw [hdownload] at hworkers
  refine .of_set hget hworkers hsame.getSeq (fun key state hs => hsame.gets ▸ hs) ?_
    (fun c key => ?_) fun c key hne => absurd (hpart c key) hne
  · rw [handled_pending, hmore, h.queue, if_neg Bool.false_ne_true, List.append_nil]
    exact (List.sublist_append_left _ _).subperm
  · have hparts : (Worker.handled none task result).part c key =
        (Worker.popped task).part c key := hpart c key
    rw [Server.line, Server.line, served_historyOf h, h.doneQueue, hworkers,
      Slots.flatMap_set_of_eq hget hparts]

private theorem handled_part_download (offset c : Nat) (key' : Bytes) :
    (Worker.handled (some (key, offset)) task result).part c key' =
      if task.connId = c ∧ key' = key then stampFrom key offset result.out else [] := by
  have hkeys := stampFrom_isOf key offset result.out
  rw [handled_part, stamp]
  by_cases hc : task.connId = c
  · by_cases hkey : key' = key
    · rw [if_pos hc, if_pos ⟨hc, hkey⟩, List.filter_eq_self]
      intro f hf
      rw [OutFrame.isOf, (hkeys f hf).1, hkey]
      exact beq_self_eq_true _
    · rw [if_pos hc, if_neg fun h => hkey h.2, List.filter_eq_nil_iff]
      intro f hf
      rw [OutFrame.isOf, (hkeys f hf).1]
      simpa using Ne.symm hkey
  · rw [if_neg hc, if_neg fun h => hc h.1]

private theorem handled_part_key {offset c : Nat} {key' : Bytes}
    (hne : (Worker.handled (some (key, offset)) task result).part c key' ≠ []) : key' = key := by
  rw [handled_part_download] at hne
  by_contra hkey
  exact hne (if_neg fun h => hkey h.2)

section Slice

variable {s s' : Server} {offset : Nat} (h : Served sha env i task result s s')
  (hget : s.workers[i]? = some (.popped task))
  (hdownload : downloadOf s.service s'.service task = some (key, offset))

include h hget hdownload

private theorem served_line (halone : s.Alone i key) (c : Nat) (key' : Bytes) :
    s'.line c key' =
      s.line c key' ++ (Worker.handled (some (key, offset)) task result).part c key' := by
  have hworkers := h.workers
  rw [hdownload] at hworkers
  by_cases hkey : key' = key
  · subst hkey
    have hothers : ∀ (j : Nat) (v : Worker), j ≠ i → s.workers[j]? = some v →
        v.part c key' = [] := fun j v hj hv => halone j v hj hv c
    rw [Server.line, Server.line, served_historyOf h, h.doneQueue, hworkers,
      Slots.flatMap_set_of_alone hget hothers, Slots.flatMap_of_alone hget hothers]
    change _ = _ ++ _ ++ [] ++ _
    rw [List.append_nil]
  · have hnone : (Worker.handled (some (key, offset)) task result).part c key' = [] := by
      rw [handled_part_download, if_neg fun h => hkey h.2]
    have hsame : (Worker.handled (some (key, offset)) task result).part c key' =
        (Worker.popped task).part c key' := hnone
    rw [Server.line, Server.line, served_historyOf h, h.doneQueue, hworkers,
      Slots.flatMap_set_of_eq hget hsame, hnone, List.append_nil]

private theorem served_continuations : (s'.continuations ++ (Worker.popped task).pending).Perm
    ((if result.hasMore then [task.continuation result.continuationKey] else []) ++
      s.continuations) := by
  have hworkers := h.workers
  rw [hdownload] at hworkers
  rw [Server.continuations, Server.continuations, h.queue, hworkers, ← handled_pending,
    List.append_assoc]
  refine ((Slots.flatMap_set_perm hget).append_left _).trans ?_
  rw [← List.append_assoc, ← List.append_assoc]
  exact List.perm_append_comm.append_right _

section Streamed

variable {state : GetState}
  (hslice : Streamed task key s.service.gets state result s'.service.gets)

include hslice

private theorem served_mem {t : Task} (ht : t ∈ s'.continuations) :
    t ∈ s.continuations ∨ result.hasMore = true ∧ t.getKey = key := by
  have hperm := served_continuations h hget hdownload
  rcases List.mem_append.mp (hperm.subset (List.mem_append_left _ ht)) with ht | ht
  · split at ht
    · rename_i hmore
      obtain rfl := List.mem_singleton.mp ht
      exact .inr ⟨hmore, (hslice.hasMore hmore).1⟩
    · cases ht
  · exact .inl ht

private theorem served_count (key' : Bytes) : s'.continuations.countP (·.getKey == key') +
    (Worker.popped task).pending.countP (·.getKey == key') =
      (if result.hasMore ∧ key = key' then 1 else 0) +
        s.continuations.countP (·.getKey == key') := by
  have hcount := (served_continuations h hget hdownload).countP_eq (·.getKey == key')
  rw [List.countP_append, List.countP_append] at hcount
  rw [hcount]
  congr 1
  by_cases hmore : result.hasMore = true
  · have hkey : (task.continuation result.continuationKey).getKey = key :=
      (hslice.hasMore hmore).1
    rw [if_pos hmore, List.countP_singleton, hkey]
    simp [hmore]
  · simp [hmore]

private theorem served_more {t : Task} (ht : t ∈ s'.continuations) (hkey : t.getKey = key)
    (hcount : s.continuations.countP (·.getKey == key) ≤
      (Worker.popped task).pending.countP (·.getKey == key)) : result.hasMore = true := by
  by_contra hmore
  have hcounts := served_count h hget hdownload hslice key
  rw [if_neg fun h => hmore h.1] at hcounts
  have hpos : 0 < s'.continuations.countP (·.getKey == key) :=
    List.countP_pos_iff.mpr ⟨t, ht, beq_iff_eq.mpr hkey⟩
  omega

end Streamed

private theorem served_holder (horder : s.InOrder) (halone : s.Alone i key) (j k : Nat)
    (v w : Worker)
    (c c' : Nat) (key' : Bytes) (hv : s'.workers[j]? = some v) (hw : s'.workers[k]? = some w)
    (hne : v.part c key' ≠ []) (hne' : w.part c' key' ≠ []) : j = k := by
  have hworkers := h.workers
  rw [hdownload] at hworkers
  have hlt := (List.getElem?_eq_some_iff.mp hget).1
  rw [hworkers] at hv hw
  by_cases hj : j = i
  · by_cases hk : k = i
    · exact hj.trans hk.symm
    · rw [hj, List.getElem?_set_self hlt] at hv
      rw [List.getElem?_set_ne (Ne.symm hk)] at hw
      cases hv
      obtain rfl := handled_part_key hne
      exact absurd (halone k w hk hw c') hne'
  · rw [List.getElem?_set_ne (Ne.symm hj)] at hv
    by_cases hk : k = i
    · rw [hk, List.getElem?_set_self hlt] at hw
      cases hw
      obtain rfl := handled_part_key hne'
      exact absurd (halone j v hj hv c) hne
    · rw [List.getElem?_set_ne (Ne.symm hk)] at hw
      exact horder.holder j k v w c c' key' hv hw hne hne'

/-- The slice of a download whose earlier frames are all in the line, and which no other worker and
no other continuation is concerned with. -/
private theorem served_inOrder {state : GetState} (horder : s.InOrder)
    (hoffset : offset = state.offset.toNat)
    (hslice : Streamed task key s.service.gets state result s'.service.gets)
    (hused : s'.service.Used key) (hmono : ∀ key, s.service.Used key → s'.service.Used key)
    (hreq : state.reqId ≠ 0) (halone : s.Alone i key)
    (hbefore : ∀ c, ∀ f ∈ s.line c key, f.IsData ∧ f.endOffset ≤ offset)
    (hcount : s.continuations.countP (·.getKey == key) ≤
      (Worker.popped task).pending.countP (·.getKey == key)) : s'.InOrder := by
  subst hoffset
  have hline := served_line h hget hdownload halone
  refine {
    kept := ⟨fun key' state' hget' => ?used, fun key' state' hget' => ?reqId⟩
    usedLine := fun c key' hne => ?usedLine
    usedTask := fun t ht => ?usedTask
    sorted := fun c key' => ?sorted
    single := fun key' => ?single
    bounded := fun t ht state' hget' c f hf => ?bounded
    holder := served_holder h hget hdownload horder halone }
  case used =>
    rcases hslice.get_cases hget' with ⟨rfl, -⟩ | hget'
    · exact hused
    · exact hmono _ (horder.kept.used _ _ hget')
  case reqId =>
    rcases hslice.get_cases hget' with ⟨-, hid⟩ | hget'
    · exact hid ▸ hreq
    · exact horder.kept.reqId _ _ hget'
  case usedLine =>
    rw [hline, Ne, List.append_eq_nil_iff, not_and_or] at hne
    rcases hne with hne | hne
    · exact hmono _ (horder.usedLine c key' hne)
    · exact handled_part_key hne ▸ hused
  case usedTask =>
    rcases served_mem h hget hdownload hslice ht with ht | ⟨-, hkey⟩
    · exact hmono _ (horder.usedTask t ht)
    · exact hkey ▸ hused
  case sorted =>
    rw [hline, List.pairwise_append]
    refine ⟨horder.sorted c key', ?_, fun f hf g hg => ?_⟩
    · rw [handled_part_download]
      split
      · exact hslice.sorted
      · exact .nil
    · obtain rfl := handled_part_key (List.ne_nil_of_mem hg)
      rw [handled_part_download] at hg
      split at hg
      · obtain ⟨hdata, hend⟩ := hbefore c f hf
        exact ⟨hdata, hend.trans (stampFrom_isOf _ _ _ g hg).2⟩
      · cases hg
  case single =>
    have hcounts := served_count h hget hdownload hslice key'
    have hsingle := horder.single key'
    by_cases hkey : key = key'
    · subst hkey
      split at hcounts <;> omega
    · rw [if_neg fun h => hkey h.2] at hcounts
      omega
  case bounded =>
    rw [hline] at hf
    by_cases hkey : t.getKey = key
    · have hmore := served_more h hget hdownload hslice ht hkey hcount
      rw [hkey] at hget' hf
      obtain ⟨hoffset, hend⟩ := (hslice.hasMore hmore).2 state' hget'
      rcases List.mem_append.mp hf with hf | hf
      · obtain ⟨hdata, hle⟩ := hbefore c f hf
        exact ⟨hdata, hle.trans hoffset⟩
      · rw [handled_part_download] at hf
        split at hf
        · exact hend f hf
        · cases hf
    · have ht' := (served_mem h hget hdownload hslice ht).resolve_right fun h => hkey h.2
      have hget' := (hslice.get_cases hget').resolve_left fun h => hkey h.1
      refine horder.bounded t ht' state' hget' c f ?_
      exact (List.mem_append.mp hf).resolve_right fun hf =>
        hkey (handled_part_key (List.ne_nil_of_mem hf))

end Slice

private theorem mem_continuations {s : Server} (hget : s.workers[i]? = some (.popped task))
    (hkind : task.isGetContinue = true) : task ∈ s.continuations := by
  refine List.mem_append_right _ (List.mem_flatMap.mpr ⟨_, List.mem_of_getElem? hget, ?_⟩)
  rw [Worker.pending, if_pos hkind]
  exact List.mem_singleton_self task

private theorem InOrder.line_fresh {s : Server} (horder : s.InOrder) (c connId : Nat) :
    s.line c (getKey connId s.service.getSeq) = [] := by
  by_contra hne
  exact s.service.not_used connId (horder.usedLine c _ hne)

private theorem serve_inOrder {s s' : Server} (horder : s.InOrder) (hturn : s.InTurn (.serve i env))
    (h : s.serve sha i env = some s') : s'.InOrder := by
  obtain ⟨task, hget, ⟨hkind, -, rfl⟩ | ⟨result, -, -, -, hserved⟩⟩ := serve_served h
  · refine horder.calmer (.of_set hget rfl rfl (fun _ _ => id) ?_ (fun c key => ?_) fun _ _ => id)
    · change (s.queue.filter _ ++ []).Subperm _
      rw [List.append_nil]
      exact (List.sublist_append_left _ _).subperm
    · have hsame : Worker.part c key .idle = (Worker.popped task).part c key := rfl
      simp only [Server.line, Server.setWorker, Slots.flatMap_set_of_eq hget hsame]
      exact List.Sublist.refl _
  obtain ⟨hcontinue, hrequest⟩ := hturn task hget
  obtain ⟨session, hhandle⟩ := hserved.handled
  have hsteady : s'.service.getSeq = s.service.getSeq → task.isGetContinue = false →
      downloadOf s.service s'.service task = none := by
    intro hseq hkind
    rw [downloadOf, if_neg (Bool.eq_false_iff.mp hkind), if_pos hseq]
  have hhandled := handleTask_handled horder.kept hhandle
  revert hserved
  generalize hservice : s'.service = service at hhandled
  intro hserved
  cases hhandled with
  | replied hkind hsame | refused hkind hsame hlen =>
    subst hservice
    exact horder.calmer (served_calmer hserved hget rfl (hsteady hsame.getSeq hkind) hsame)
  | gone hkind hnone =>
    refine horder.calmer (served_calmer hserved hget rfl ?_ ⟨by rw [hservice], by rw [hservice]⟩)
    rw [downloadOf, if_pos hkind, hnone]
    rfl
  | @started req _ _ hkind htype hreq hseq hslice =>
    subst hservice
    have hsucc : (s.service.getSeq + 1).toNat = s.service.getSeq.toNat + 1 := by
      rw [UInt64.toNat_add]
      exact Nat.mod_eq_of_lt (hrequest hkind)
    have hmoved : s'.service.getSeq ≠ s.service.getSeq := by
      intro hsame
      rw [hsame] at hseq
      rw [← hseq] at hsucc
      omega
    have hdownload : downloadOf s.service s'.service task =
        some (getKey task.connId s.service.getSeq, req.offset.toNat) := by
      rw [downloadOf, if_neg (Bool.eq_false_iff.mp hkind), if_neg hmoved, hreq]
    refine served_inOrder hserved hget hdownload horder rfl hslice
      ⟨_, _, by rw [hseq, hsucc]; exact Nat.lt_succ_self _, rfl⟩ ?mono (outReqId_ne_zero _)
      (fun j w hj hw c => ?alone) (fun c f hf => ?earlier) ?count
    case mono =>
      rintro key ⟨connId, n, hlt, hkey⟩
      exact ⟨connId, n, by rw [hseq, hsucc]; omega, hkey⟩
    case alone =>
      have hline := horder.line_fresh c task.connId
      rw [Server.line, List.append_eq_nil_iff, List.flatMap_eq_nil_iff] at hline
      exact hline.2 w (List.mem_of_getElem? hw)
    case earlier =>
      rw [horder.line_fresh] at hf
      cases hf
    case count =>
      refine le_of_eq_of_le (List.countP_eq_zero.mpr fun t ht => ?_) (Nat.zero_le _)
      intro hkey
      exact s.service.not_used task.connId (beq_iff_eq.mp hkey ▸ horder.usedTask t ht)
  | @continued state _ _ hkind hstate hseq hslice =>
    subst hservice
    have hmem := mem_continuations hget hkind
    have hdownload : downloadOf s.service s'.service task =
        some (task.getKey, state.offset.toNat) := by
      rw [downloadOf, if_pos hkind, hstate]
      rfl
    have hmono : ∀ key, s.service.Used key → s'.service.Used key := by
      rintro key ⟨connId, n, hlt, hkey⟩
      exact ⟨connId, n, hseq ▸ hlt, hkey⟩
    refine served_inOrder hserved hget hdownload horder rfl hslice
      (hmono _ (horder.usedTask task hmem)) hmono (horder.kept.reqId _ _ hstate)
      (hcontinue hkind) (horder.bounded task hmem _ hstate) ?_
    rw [Worker.pending, if_pos hkind, List.countP_singleton, if_pos (beq_self_eq_true _)]
    exact horder.single task.getKey

/-- A step in turn keeps the invariant. -/
private theorem step_inOrder {s s' : Server} {e : ServerEvent} (horder : s.InOrder)
    (hturn : s.InTurn e) (h : s.step sha e = some s') : s'.InOrder := by
  cases e with
  | accept peer =>
    cases h
    exact horder.calmer (accept_calmer peer)
  | receive connId frame woken => exact horder.calmer (receive_calmer h)
  | reject connId status => exact horder.calmer (reject_calmer h)
  | drain =>
    cases h
    exact horder.calmer drain_calmer
  | flush connId n => exact horder.calmer (flush_calmer h)
  | close connId =>
    cases h
    exact horder.calmer (close_calmer connId)
  | maintenance env =>
    cases h
    exact horder.calmer
      (.of_history rfl (fun _ _ => id) rfl rfl rfl fun _ _ => List.Sublist.refl _)
  | pop worker => exact horder.calmer (pop_calmer h)
  | serve worker env => exact serve_inOrder horder hturn h
  | enqueue worker woken => exact horder.calmer (enqueue_calmer h)
  | complete worker woken => exact horder.calmer (complete_calmer horder h)

private theorem start_inOrder {service : Service} (hkept : KeptDownloads service) (workers : Nat) :
    (Server.start service workers).InOrder := by
  have hline : ∀ c key, (Server.start service workers).line c key = [] := by
    intro c key
    simp only [Server.line, Server.historyOf, Server.start, List.flatMap_replicate]
    simp [Worker.part]
  have hcontinuations : (Server.start service workers).continuations = [] := by
    simp [Server.continuations, Server.start, Worker.pending]
  refine {
    kept := hkept
    usedLine := fun c key hne => absurd (hline c key) hne
    usedTask := fun t ht => ?usedTask
    sorted := fun c key => ?sorted
    single := fun key => ?single
    bounded := fun t ht => ?bounded
    holder := fun i j v w c c' key hv hw hne => ?holder }
  case usedTask =>
    rw [hcontinuations] at ht
    cases ht
  case sorted =>
    rw [hline]
    exact .nil
  case single =>
    rw [hcontinuations]
    exact Nat.zero_le _
  case bounded =>
    rw [hcontinuations] at ht
    cases ht
  case holder =>
    have hidle : v = .idle :=
      (List.mem_replicate.mp
        (List.mem_of_getElem? (show (List.replicate workers _)[i]? = _ from hv))).2
    rw [hidle] at hne
    exact absurd rfl hne

end Server

/-- On every open connection, the frames of every download are in order: data with increasing
offsets, and behind it at most one other frame. -/
def Server.Ordered (s : Server) : Prop :=
  ∀ c conn key, s.connections c = some conn →
    (conn.history.filter (·.isOf key)).Pairwise Precedes

private theorem Server.InOrder.ordered {s : Server} (h : s.InOrder) : s.Ordered := by
  intro c conn key hconn
  have hsorted := h.sorted c key
  rw [Server.line, Server.historyOf, hconn, List.append_assoc] at hsorted
  exact (List.pairwise_append.mp hsorted).1

/-- As long as continuations are served in turn, downloads stay in order, whatever else the
threads do. -/
theorem downloads_in_order {store : Store} {auth : AuthDb} {workers : Nat}
    {events : List ServerEvent} {s : Server}
    (hrun : (Server.start (.start store auth) workers).PlayWith sha Server.InTurn events s) :
    s.Ordered :=
  (hrun.invariant (fun _ _ _ => Server.step_inOrder)
    (Server.start_inOrder (.start store auth) workers)).ordered

/-- Whoever serves a task is the only worker that holds a completion. -/
def Server.inTurn (s : Server) : ServerEvent → Bool
  | .serve i _ => s.service.getSeq.toNat + 1 < 2^64 && (List.range s.workers.length).all fun j =>
      j == i || s.workers[j]?.all fun w => w == .idle
  | _ => true

private theorem Server.inTurn_correct (s : Server) (e : ServerEvent) (h : s.inTurn e = true) :
    s.InTurn e := by
  cases e with
  | serve i env =>
    intro task _
    rw [Server.inTurn, Bool.and_eq_true, decide_eq_true_iff, List.all_eq_true] at h
    refine ⟨fun _ j w hj hw c => ?_, fun _ => h.1⟩
    have hlt := (List.getElem?_eq_some_iff.mp hw).1
    have hidle := h.2 j (List.mem_range.mpr hlt)
    rw [hw, Bool.or_eq_true, beq_iff_eq, Option.all_some, beq_iff_eq] at hidle
    rw [hidle.resolve_left hj]
    rfl
  | _ => trivial

/-- One worker serves the whole download. -/
def sampleDownload : List ServerEvent :=
  sampleLogin ++ [.receive 1 (sampleGet 2) none, .pop 0, .serve 0 (sampleRequestEnv 4),
    .enqueue 0 none, .complete 0 none, .pop 0, .serve 0 (sampleRequestEnv 4), .complete 0 none,
    .drain]

/-- Another worker serves the continuation before the first slice is handed over. -/
def sampleOvertaken : List ServerEvent :=
  sampleLogin ++ [.receive 1 (sampleGet 2) none, .pop 0, .serve 0 (sampleRequestEnv 4),
    .enqueue 0 none, .pop 1, .serve 1 (sampleRequestEnv 4), .complete 1 none, .complete 0 none,
    .drain]

theorem downloads_in_order_sample : ∃ s,
    (Server.start sampleArchive 2).playIf sampleSha Server.inTurn sampleDownload = some s ∧
      s.Ordered := by
  obtain ⟨s, hs⟩ : ∃ s,
      (Server.start sampleArchive 2).playIf sampleSha Server.inTurn sampleDownload = some s :=
    Option.isSome_iff_exists.mp (by decide +kernel)
  exact ⟨s, hs, downloads_in_order (Server.playIf_playWith Server.inTurn_correct hs)⟩

/-- The OK frame that ends the download is appended to the outbox before the data. -/
theorem download_overtaken : ∃ s,
    (Server.start sampleArchive 2).play sampleSha sampleOvertaken = some s ∧ ¬ s.Ordered := by
  have hhistory : (((Server.start sampleArchive 2).play sampleSha sampleOvertaken).bind
      (·.connections 1)).map (fun conn => (conn.history.filter (·.isOf (getKey 1 0))).map
        fun f => f.frame.type) = some [FrMsgType.ok.toByte, FrMsgType.data.toByte] := by
    decide +kernel
  obtain ⟨conn, hconn, hfilter⟩ := Option.map_eq_some_iff.mp hhistory
  obtain ⟨s, hs, hc⟩ := Option.bind_eq_some_iff.mp hconn
  refine ⟨s, hs, fun hordered => ?_⟩
  have hsorted := hordered 1 conn (getKey 1 0) hc
  obtain ⟨f, frames, hcons, hok, hrest⟩ := List.map_eq_cons_iff.mp hfilter
  obtain ⟨g, frames, hcons', -, -⟩ := List.map_eq_cons_iff.mp hrest
  rw [hcons, hcons', List.pairwise_cons] at hsorted
  have hdata : f.frame.type = FrMsgType.data.toByte := (hsorted.1 g List.mem_cons_self).1
  rw [hok] at hdata
  revert hdata
  decide

end ForgeRelay
