import ForgeRelay.Service.Replies

/-!
# The server and its threads

The I/O thread owns the connections: it turns frames into tasks on a bounded queue and appends
what has been completed to the outboxes. Workers take tasks, have them handled, put the
continuation of a download back on the queue, and hand over the completion. A step is one critical
section of one thread; a wait on a condition variable ends only after a `notify_one`. TLS, the
idle clock and the end of the server by `stop` are left out.
-/

namespace ForgeRelay

open Program

/-- `Task`: a request, or the continuation of a download. -/
structure Task where
  connId : Nat
  peer : Bytes
  type : UInt8
  reqId : UInt32
  payload : Bytes
  isGetContinue : Bool
  getKey : Bytes
  deriving DecidableEq, Repr

/-- A frame of a reply. For the statements only, it tells which download it belongs to, and at
which offset of the artifact it stands. -/
structure OutFrame where
  frame : FrFrame
  download : Option (Bytes × Nat)
  deriving DecidableEq, Repr

structure Completion where
  connId : Nat
  out : List OutFrame
  closeConn : Bool
  deriving DecidableEq, Repr

/-- `Connection`. The history, all that has ever been appended to the outbox, is for the
statements only. -/
structure Connection where
  peer : Bytes
  session : ClientSession
  outbox : Bytes
  closeAfterFlush : Bool
  history : List OutFrame
  deriving DecidableEq, Repr

/-- A worker's wait for a predicate: it has not looked yet, it sleeps, or it has been woken. -/
inductive Wait
  | ready | parked | woken
  deriving DecidableEq, Repr

/-- Where a worker is in `worker_loop`. -/
inductive Worker
  | idle
  | popped (task : Task)
  | enqueueing (wait : Wait) (continuation : Task) (done : Completion)
  | completing (wait : Wait) (done : Completion)
  deriving DecidableEq, Repr

structure Server where
  service : Service
  connections : Nat → Option Connection
  nextConnId : Nat
  queue : List Task
  doneQueue : List Completion
  workers : List Worker

def queueCapacity : Nat := 256

/-- `kDoneQueueHighWater`. -/
def doneQueueHighWater : Nat := 128

/-- The server after its start, with this many workers. -/
def Server.start (service : Service) (workers : Nat) : Server where
  service := service
  connections := fun _ => none
  nextConnId := 1
  queue := []
  doneQueue := []
  workers := List.replicate workers .idle

/-- The worker sleeps on `queue_cv`. -/
def Worker.sleepsForTasks : Worker → Bool
  | .enqueueing .parked _ _ => true
  | _ => false

/-- The worker sleeps on `done_cv`. -/
def Worker.sleepsForCompletions : Worker → Bool
  | .completing .parked _ => true
  | _ => false

def Worker.wake : Worker → Worker
  | .enqueueing _ continuation done => .enqueueing .woken continuation done
  | .completing _ done => .completing .woken done
  | w => w

/-- `notify_one`: wakes one of the workers that sleep on the variable, if there is one. -/
def notifyOne (sleeps : Worker → Bool) (workers : List Worker) (woken : Option Nat) :
    Option (List Worker) :=
  match woken with
  | none => if workers.any sleeps then none else some workers
  | some i =>
    match workers[i]? with
    | some w => if sleeps w then some (workers.set i w.wake) else none
    | none => none

/-- `fr_buf_append` to the outbox. -/
def Connection.append (conn : Connection) (out : List OutFrame) : Connection :=
  { conn with
    outbox := conn.outbox ++ out.flatMap (frameBytes ·.frame)
    history := conn.history ++ out }

/-- `send_error_locked`. -/
def Connection.sendError (conn : Connection) (reqId : UInt32) (code : FrStatus) (message : Bytes) :
    Connection :=
  conn.append [⟨errorFrame (if reqId = 0 then 1 else reqId) code message, none⟩]

/-- The body of the loop of `drain_completions`. -/
def deliver (connections : Nat → Option Connection) (c : Completion) : Nat → Option Connection :=
  match connections c.connId with
  | none => connections
  | some conn =>
    if conn.closeAfterFlush then connections
    else Function.update connections c.connId
      (some { conn.append c.out with closeAfterFlush := c.closeConn })

namespace Server

/-- `accept_new`. -/
def accept (s : Server) (peer : Bytes) : Server :=
  { s with
    connections := Function.update s.connections s.nextConnId (some ⟨peer, .fresh, [], false, []⟩)
    nextConnId := s.nextConnId + 1 }

/-- `close_connection_locked`. -/
def close (s : Server) (connId : Nat) : Server :=
  match s.connections connId with
  | none => s
  | some _ =>
    { s with
      connections := Function.update s.connections connId none
      service := onConnectionClosed connId s.service }

theorem close_elsewhere (s : Server) (connId : Nat) : (s.close connId).workers = s.workers ∧
    (s.close connId).queue = s.queue ∧ (s.close connId).doneQueue = s.doneQueue ∧
    (s.close connId).nextConnId = s.nextConnId := by
  unfold close
  split <;> exact ⟨rfl, rfl, rfl, rfl⟩

theorem close_connections (s : Server) (connId : Nat) :
    (s.close connId).connections = Function.update s.connections connId none := by
  unfold close
  split
  · rename_i hnone
    rw [← hnone, Function.update_eq_self]
  · rfl

/-- The parser has completed a frame: it is enqueued, or answered with busy. -/
def receive (s : Server) (connId : Nat) (frame : FrFrame) (woken : Option Nat) : Option Server :=
  match s.connections connId with
  | none => none
  | some conn =>
    if s.queue.length < queueCapacity then
      (notifyOne Worker.sleepsForTasks s.workers woken).map fun workers =>
        { s with
          queue := s.queue ++
            [⟨connId, conn.peer, frame.type, frame.reqId, frame.payload, false, []⟩]
          workers := workers }
    else if woken = none then
      some { s with
        connections := Function.update s.connections connId
          (some (conn.sendError frame.reqId .eBusy (ascii "server busy"))) }
    else none

/-- The parser has rejected the stream. -/
def reject (s : Server) (connId : Nat) (status : FrStatus) : Option Server :=
  (s.connections connId).map fun conn =>
    { s with
      connections := Function.update s.connections connId
        (some { conn.sendError 0 status (ascii "protocol violation, closing connection") with
          closeAfterFlush := true }) }

/-- `drain_completions`. -/
def drain (s : Server) : Server :=
  { s with doneQueue := [], connections := s.doneQueue.foldl deliver s.connections }

/-- `flush_conn`: the socket takes `n` bytes. -/
def flush (s : Server) (connId n : Nat) : Option Server :=
  (s.connections connId).map fun conn =>
    let conn := { conn with outbox := conn.outbox.drop n }
    let s := { s with connections := Function.update s.connections connId (some conn) }
    if conn.closeAfterFlush ∧ conn.outbox = [] then s.close connId else s

end Server

/-- The frame that a worker rebuilds from its task. -/
def Task.frame (task : Task) : FrFrame := ⟨task.type, 0, task.reqId, task.payload⟩

/-- The continuation of a download that has more. -/
def Task.continuation (task : Task) (key : Bytes) : Task :=
  ⟨task.connId, task.peer, 0, 0, [], true, key⟩

/-- The handlers of `worker_loop`: an exception is answered with an ERROR frame. -/
def workerCatch (task : Task) (e : Error) : Except Error HandleResult :=
  let (code, what) := match e with
    | .fr code what => (code, what)
    | .std what => (FrStatus.eInternal, what)
  (payloadOf (encodeErrorPayload ⟨code.code, what⟩)).map fun payload =>
    { HandleResult.empty with
      out := emit [] .error (if task.reqId = 0 then 1 else task.reqId) payload }

/-- What a worker gets for its task; an exception of its handlers ends the process. -/
def workerResult (task : Task) : Except Error HandleResult → Except Error HandleResult
  | .ok result => .ok result
  | .error e => workerCatch task e

/-- The download of a task, and the offset at which its frames begin: the one that is continued,
or the one that the request has started. -/
def downloadOf (before after : Service) (task : Task) : Option (Bytes × Nat) :=
  if task.isGetContinue then
    (before.gets task.getKey).map fun state => (task.getKey, state.offset.toNat)
  else if after.getSeq = before.getSeq then none
  else
    match decodeFrame decodeGetArtifactReq task.frame with
    | .ok req => some (getKey task.connId before.getSeq, req.offset.toNat)
    | .error _ => none

/-- The frames of a download, each with its offset. -/
def stampFrom (key : Bytes) : Nat → List FrFrame → List OutFrame
  | _, [] => []
  | offset, f :: fs =>
    ⟨f, some (key, offset)⟩ ::
      stampFrom key
        (if f.type = FrMsgType.data.toByte then offset + f.payload.length else offset) fs

def stamp (download : Option (Bytes × Nat)) (frames : List FrFrame) : List OutFrame :=
  match download with
  | some (key, offset) => stampFrom key offset frames
  | none => frames.map (⟨·, none⟩)

/-- The worker after its task has been handled. -/
def Worker.handled (download : Option (Bytes × Nat)) (task : Task) (result : HandleResult) :
    Worker :=
  let done : Completion := ⟨task.connId, stamp download result.out, result.closeConnection⟩
  if result.hasMore then .enqueueing .ready (task.continuation result.continuationKey) done
  else .completing .ready done

namespace Server

def setWorker (s : Server) (i : Nat) (w : Worker) : Server :=
  { s with workers := s.workers.set i w }

/-- `pop_task`; a worker that finds nothing sleeps for a while and looks again. -/
def pop (s : Server) (i : Nat) : Option Server :=
  match s.workers[i]?, s.queue with
  | some .idle, [] => some s
  | some .idle, task :: queue => some { s.setWorker i (.popped task) with queue := queue }
  | _, _ => none

/-- The worker after its task, and the service after it. -/
def setHandled (s : Server) (i : Nat) (task : Task) (result : HandleResult) (service : Service) :
    Server :=
  { s.setWorker i (.handled (downloadOf s.service service task) task result) with
    service := service }

/-- A worker has its task handled. -/
def serve (sha : Sha256) (s : Server) (i : Nat) (env : RequestEnv) : Option Server :=
  match s.workers[i]? with
  | some (.popped task) =>
    if task.isGetContinue then
      let (r, service) := (handleGetContinue task.getKey).run s.service
      match workerResult task r with
      | .ok result => some (s.setHandled i task result service)
      | .error _ => none
    else
      match s.connections task.connId with
      | none => some (s.setWorker i .idle)
      | some conn =>
        match (handle sha env task.connId task.peer conn.session task.frame).run s.service with
        | (.ok (result, session), service) =>
          some { s.setHandled i task result service with
            connections := Function.update s.connections task.connId
              (some { conn with session := session }) }
        | (.error e, service) =>
          match workerCatch task e with
          | .ok result => some (s.setHandled i task result service)
          | .error _ => none
  | _ => none

/-- `enqueue`: the worker looks at the predicate, and sleeps if there is no room. -/
def enqueue (s : Server) (i : Nat) (woken : Option Nat) : Option Server :=
  match s.workers[i]? with
  | some (.enqueueing wait task done) =>
    if wait = .parked then none
    else if s.queue.length < queueCapacity then
      let s := { s.setWorker i (.completing .ready done) with queue := s.queue ++ [task] }
      (notifyOne Worker.sleepsForTasks s.workers woken).map fun workers =>
        { s with workers := workers }
    else if woken = none then some (s.setWorker i (.enqueueing .parked task done))
    else none
  | _ => none

/-- `push_completion`. -/
def complete (s : Server) (i : Nat) (woken : Option Nat) : Option Server :=
  match s.workers[i]? with
  | some (.completing wait done) =>
    if wait = .parked then none
    else if s.doneQueue.length < doneQueueHighWater then
      let s := { s.setWorker i .idle with doneQueue := s.doneQueue ++ [done] }
      (notifyOne Worker.sleepsForCompletions s.workers woken).map fun workers =>
        { s with workers := workers }
    else if woken = none then some (s.setWorker i (.completing .parked done))
    else none
  | _ => none

end Server

inductive ServerEvent
  | accept (peer : Bytes)
  | receive (connId : Nat) (frame : FrFrame) (woken : Option Nat)
  | reject (connId : Nat) (status : FrStatus)
  | drain
  | flush (connId n : Nat)
  | close (connId : Nat)
  | maintenance (env : CallEnv)
  | pop (worker : Nat)
  | serve (worker : Nat) (env : RequestEnv)
  | enqueue (worker : Nat) (woken : Option Nat)
  | complete (worker : Nat) (woken : Option Nat)

/-- The state after an event, if it is possible. -/
def Server.step (sha : Sha256) (s : Server) : ServerEvent → Option Server
  | .accept peer => some (s.accept peer)
  | .receive connId frame woken => s.receive connId frame woken
  | .reject connId status => s.reject connId status
  | .drain => some s.drain
  | .flush connId n => s.flush connId n
  | .close connId => some (s.close connId)
  | .maintenance env =>
    some { s with service :=
      { s.service with store := ((runMaintenance env).run s.service.store).2 } }
  | .pop worker => s.pop worker
  | .serve worker env => s.serve sha worker env
  | .enqueue worker woken => s.enqueue worker woken
  | .complete worker woken => s.complete worker woken

/-- Several events, each of which has to be possible. -/
def Server.play (sha : Sha256) : Server → List ServerEvent → Option Server
  | s, [] => some s
  | s, e :: events => (s.step sha e).bind fun s' => s'.play sha events

/-- A run each of whose events meets the condition in the state before it. -/
def Server.PlayWith (sha : Sha256) (cond : Server → ServerEvent → Prop) :
    Server → List ServerEvent → Server → Prop
  | s, [], s' => s' = s
  | s, e :: events, s' => cond s e ∧ ∃ s₁, s.step sha e = some s₁ ∧ s₁.PlayWith sha cond events s'

theorem Server.PlayWith.invariant {sha : Sha256} {cond : Server → ServerEvent → Prop}
    {I : Server → Prop} {s s' : Server} {events : List ServerEvent}
    (h : s.PlayWith sha cond events s')
    (hstep : ∀ s e s', I s → cond s e → s.step sha e = some s' → I s') (hstart : I s) : I s' := by
  induction events generalizing s with
  | nil => exact h ▸ hstart
  | cons e events ih =>
    obtain ⟨hcond, s₁, hs₁, hrest⟩ := h
    exact ih hrest (hstep s e s₁ hstart hcond hs₁)

/-- A run that is stopped before an event that fails the check. -/
def Server.playIf (sha : Sha256) (check : Server → ServerEvent → Bool) :
    Server → List ServerEvent → Option Server
  | s, [] => some s
  | s, e :: events =>
    if check s e then (s.step sha e).bind fun s' => s'.playIf sha check events else none

theorem Server.playIf_playWith {sha : Sha256} {cond : Server → ServerEvent → Prop}
    {check : Server → ServerEvent → Bool} {s s' : Server} {events : List ServerEvent}
    (hcheck : ∀ s e, check s e = true → cond s e) (h : s.playIf sha check events = some s') :
    s.PlayWith sha cond events s' := by
  induction events generalizing s with
  | nil => exact (Option.some.inj h).symm
  | cons e events ih =>
    rw [playIf] at h
    split at h
    · rename_i hthis
      obtain ⟨s₁, hstep, hrest⟩ := Option.bind_eq_some_iff.mp h
      exact ⟨hcheck s e hthis, s₁, hstep, ih hrest⟩
    · cases h

end ForgeRelay
