import ForgeRelay.Transport.InFlight

/-!
# Sockets

The I/O thread finds the connection of an event by its descriptor, which the system gives to the
next socket as soon as it is closed; tasks and completions name connections by numbers, which are
not used again. What is written to a socket are the replies to the frames that came from it.
-/

namespace ForgeRelay

open Program

/-- The daemon with the descriptors of its connections. A socket bears the number of the connection
that it has been accepted for. -/
structure Sockets where
  daemon : Daemon
  /-- `Connection::fd`. -/
  fds : Nat → Nat
  /-- The descriptors that are open, and their sockets. -/
  table : Nat → Option Nat
  /-- `conn_id` of `on_conn_event`. -/
  current : Option Nat
  written : Nat → Bytes
  /-- What the parsers have made of the bytes of each socket, for the statements only. -/
  received : List (Nat × Except FrStatus FrFrame)
  /-- The tasks that have been handled, and the worker behind each, for the statements only. -/
  served : List (Task × Worker)

/-- What the I/O thread does with a connection. -/
inductive SocketAct
  | receive (frame : FrFrame) (woken : Option Nat)
  | reject (status : FrStatus)
  | flush (n : Nat)
  | close

def SocketAct.event (connId : Nat) : SocketAct → ServerEvent
  | .receive frame woken => .receive connId frame woken
  | .reject status => .reject connId status
  | .flush n => .flush connId n
  | .close => .close connId

inductive SocketEvent
  | accept (peer : Bytes) (fd : Nat)
  /-- `on_conn_event` begins: it looks for the connection with the descriptor of the event. -/
  | ready (fd : Nat)
  /-- `on_conn_event` goes on with the connection that it has found. -/
  | act (a : SocketAct)
  /-- `flush_writable` and `sweep_idle` go through the connections. -/
  | visit (connId : Nat) (a : SocketAct)
  /-- `drain_completions`, the workers and the maintenance. -/
  | inner (e : DaemonEvent)

/-- The event does not concern a socket. -/
def DaemonEvent.isInner : DaemonEvent → Bool
  | .other .drain | .other (.maintenance _) | .other (.pop _) | .other (.enqueue _ _)
  | .other (.complete _ _) | .look _ | .handle _ _ => true
  | .other _ => false

namespace Sockets

def start (service : Service) (workers : Nat) : Sockets :=
  ⟨.start service workers, fun _ => 0, fun _ => none, none, fun _ => [], [], []⟩

abbrev connections (s : Sockets) : Nat → Option Connection := s.daemon.server.connections

/-- `accept_new`. The system gives a descriptor that is not open. -/
def accept (s : Sockets) (peer : Bytes) (fd : Nat) : Option Sockets :=
  if s.table fd = none then
    let connId := s.daemon.server.nextConnId
    some { s with
      daemon := { s.daemon with server := s.daemon.server.accept peer }
      fds := Function.update s.fds connId fd
      table := Function.update s.table fd (some connId) }
  else none

/-- The connection with a descriptor, the oldest one if there were several. -/
def lookup (s : Sockets) (fd : Nat) : Option Nat :=
  (List.range s.daemon.server.nextConnId).find? fun connId =>
    (s.connections connId).isSome && s.fds connId == fd

/-- The socket behind the descriptor of a connection. -/
def socketOf (s : Sockets) (connId : Nat) : Option Nat := s.table (s.fds connId)

/-- The bytes that are written to the socket of the connection. -/
def write (s : Sockets) (connId : Nat) (bytes : Bytes) : Nat → Bytes :=
  match s.socketOf connId with
  | some socket => Function.update s.written socket (s.written socket ++ bytes)
  | none => s.written

/-- What has been received from the socket of the connection. -/
def hear (s : Sockets) (connId : Nat) (r : Except FrStatus FrFrame) :
    List (Nat × Except FrStatus FrFrame) :=
  match s.socketOf connId with
  | some socket => s.received ++ [(socket, r)]
  | none => s.received

/-- A connection that is gone has closed its descriptor. -/
def release (s : Sockets) (connId : Nat) (daemon : Daemon) : Nat → Option Nat :=
  if (daemon.server.connections connId).isSome then s.table
  else Function.update s.table (s.fds connId) none

/-- The sockets after this, with what has become of the daemon. -/
def acted (s : Sockets) (connId : Nat) (conn : Connection) (a : SocketAct) (daemon : Daemon) :
    Sockets :=
  { s with
    daemon := daemon
    table := s.release connId daemon
    written := match a with
      | .flush n => s.write connId (conn.outbox.take n)
      | _ => s.written
    received := match a with
      | .receive frame _ => s.hear connId (.ok frame)
      | .reject status => s.hear connId (.error status)
      | _ => s.received }

/-- The connection may be gone already. -/
def visit (sha : Sha256) (s : Sockets) (connId : Nat) (a : SocketAct) : Option Sockets :=
  match s.connections connId with
  | none => some s
  | some conn => (s.daemon.step sha (.other (a.event connId))).map (s.acted connId conn a)

/-- What a worker has been handed by `pop_task`, and where it stands now. -/
def serving (before after : Daemon) (i : Nat) : List (Task × Worker) :=
  match before.server.workers[i]?, after.server.workers[i]? with
  | some (.popped task), some w => [(task, w)]
  | _, _ => []

def inner (sha : Sha256) (s : Sockets) (e : DaemonEvent) : Option Sockets :=
  if e.isInner then
    (s.daemon.step sha e).map fun daemon =>
      { s with
        daemon := daemon
        served := match e with
          | .handle i _ => s.served ++ serving s.daemon daemon i
          | _ => s.served }
  else none

/-- The state after an event, if it is possible. -/
def step (sha : Sha256) (s : Sockets) : SocketEvent → Option Sockets
  | .accept peer fd => s.accept peer fd
  | .ready fd => some { s with current := s.lookup fd }
  | .act a => s.current.bind fun connId => s.visit sha connId a
  | .visit connId a => s.visit sha connId a
  | .inner e => s.inner sha e

def Step (sha : Sha256) (s : Sockets) (e : SocketEvent) (s' : Sockets) : Prop :=
  s.step sha e = some s'

/-- The task has been enqueued for a frame from this socket, or continues such a task. -/
inductive StemsFrom (s : Sockets) (socket : Nat) : Task → Prop
  | request {peer : Bytes} {frame : FrFrame} (h : (socket, .ok frame) ∈ s.received) :
      StemsFrom s socket (.request socket peer frame)
  | continuation {task next : Task} {w : Worker} (hstem : StemsFrom s socket task)
      (hserved : (task, w) ∈ s.served) (hnext : next ∈ w.tasks) : StemsFrom s socket next

/-- The frame belongs on this socket. -/
inductive Owns (s : Sockets) (socket : Nat) : FrFrame → Prop
  | busy {frame : FrFrame} (h : (socket, .ok frame) ∈ s.received) :
      Owns s socket (errorFrame (if frame.reqId = 0 then 1 else frame.reqId) .eBusy
        (ascii "server busy"))
  | violation {status : FrStatus} (h : (socket, .error status) ∈ s.received) :
      Owns s socket (errorFrame 1 status (ascii "protocol violation, closing connection"))
  | reply {task : Task} {w : Worker} {done : Completion} {f : OutFrame}
      (hstem : StemsFrom s socket task) (hserved : (task, w) ∈ s.served)
      (hdone : done ∈ w.completions) (hf : f ∈ done.out) : Owns s socket f.frame

/-- The frame is whole, and it belongs on this socket. -/
def Sends (s : Sockets) (socket : Nat) (f : FrFrame) : Prop := f.Encodable ∧ s.Owns socket f

/-- Every socket has been written whole frames that belong on it, the last one up to some byte. -/
def OwnFrames (s : Sockets) : Prop := ∀ socket, ∃ frames : List FrFrame,
  s.written socket <+: frames.flatMap frameBytes ∧ ∀ f ∈ frames, s.Sends socket f

/-- An open connection owns the socket behind its descriptor, and what has not been written to it
yet is in the outbox. -/
structure Seated (s : Sockets) (connId : Nat) (conn : Connection) : Prop where
  lt : connId < s.daemon.server.nextConnId
  socket : s.socketOf connId = some connId
  bytes : s.written connId ++ conn.outbox = conn.history.flatMap (frameBytes ·.frame)
  history : ∀ f ∈ conn.history, s.Sends connId f.frame

structure Orderly (s : Sockets) : Prop where
  seated : ∀ connId conn, s.connections connId = some conn → s.Seated connId conn
  fresh : ∀ connId, s.daemon.server.nextConnId ≤ connId → s.written connId = []
  own : s.OwnFrames
  tasks : ∀ t ∈ s.daemon.server.tasks, s.StemsFrom t.connId t
  completions : ∀ done ∈ s.daemon.server.completions, ∀ f ∈ done.out, s.Sends done.connId f.frame

/-- More has been received and served. -/
structure Grows (s s' : Sockets) : Prop where
  received : s.received ⊆ s'.received
  served : s.served ⊆ s'.served

variable {s s' : Sockets} {socket connId : Nat} {conn conn' : Connection} {f : FrFrame}
  {out : List OutFrame}

theorem StemsFrom.mono {task : Task} (h : s.StemsFrom socket task) (hgrow : s.Grows s') :
    s'.StemsFrom socket task := by
  induction h with
  | request h => exact .request (hgrow.received h)
  | continuation _ hserved hnext ih => exact .continuation ih (hgrow.served hserved) hnext

theorem Sends.mono (h : s.Sends socket f) (hgrow : s.Grows s') : s'.Sends socket f := by
  refine ⟨h.1, ?_⟩
  cases h.2 with
  | busy hmem => exact .busy (hgrow.received hmem)
  | violation hmem => exact .violation (hgrow.received hmem)
  | reply hstem hserved hdone hf =>
    exact .reply (hstem.mono hgrow) (hgrow.served hserved) hdone hf

theorem OwnFrames.mono (h : s.OwnFrames) (hwritten : s'.written = s.written)
    (hgrow : s.Grows s') : s'.OwnFrames := by
  intro socket
  obtain ⟨frames, hprefix, hframes⟩ := h socket
  exact ⟨frames, hwritten ▸ hprefix, fun f hf => (hframes f hf).mono hgrow⟩

theorem Seated.frames (h : s.Seated connId conn) :
    s.written connId ++ conn.outbox = (conn.history.map (·.frame)).flatMap frameBytes := by
  rw [h.bytes, List.flatMap_map]

private theorem Seated.extend (h : s.Seated connId conn) (hext : conn.Extends conn' out)
    (hout : ∀ f ∈ out, s.Sends connId f.frame) : s.Seated connId conn' := by
  refine ⟨h.lt, h.socket, ?_, ?_⟩
  · rw [hext.outbox, hext.history, List.flatMap_append, ← List.append_assoc, h.bytes]
  · rw [hext.history]
    exact List.forall_mem_append.mpr ⟨h.history, hout⟩

private theorem Orderly.extend (h : s.Orderly) (hgrow : s.Grows s') (hfds : s'.fds = s.fds)
    (htable : s'.table = s.table) (hwritten : s'.written = s.written)
    (hnext : s'.daemon.server.nextConnId = s.daemon.server.nextConnId)
    (hconns : ∀ connId conn', s'.connections connId = some conn' →
      ∃ conn out, s.connections connId = some conn ∧ conn.Extends conn' out ∧
        ∀ f ∈ out, s'.Sends connId f.frame)
    (htasks : ∀ t ∈ s'.daemon.server.tasks,
      t ∈ s.daemon.server.tasks ∨ s'.StemsFrom t.connId t)
    (hdone : ∀ done ∈ s'.daemon.server.completions,
      done ∈ s.daemon.server.completions ∨ ∀ f ∈ done.out, s'.Sends done.connId f.frame) :
    s'.Orderly := by
  refine ⟨fun connId conn' hconn' => ?_, fun connId hle => ?_, h.own.mono hwritten hgrow,
    fun t ht => ?_, fun done hmem => ?_⟩
  · obtain ⟨conn, out, hconn, hext, hout⟩ := hconns connId conn' hconn'
    obtain ⟨hlt, hsocket, hbytes, hhistory⟩ := h.seated connId conn hconn
    have hseated : s'.Seated connId conn :=
      ⟨hnext ▸ hlt, by rw [socketOf, htable, hfds]; exact hsocket, hwritten ▸ hbytes,
        fun f hf => (hhistory f hf).mono hgrow⟩
    exact hseated.extend hext hout
  · rw [hwritten]
    exact h.fresh connId (hnext ▸ hle)
  · rcases htasks t ht with ht | ht
    · exact (h.tasks t ht).mono hgrow
    · exact ht
  · rcases hdone done hmem with hmem | hout
    · exact fun f hf => (h.completions done hmem f hf).mono hgrow
    · exact hout

private theorem Orderly.fds_ne (h : s.Orderly) {c : Nat} {conn' : Connection}
    (hconn : s.connections connId = some conn) (hc : s.connections c = some conn')
    (hne : c ≠ connId) : s.fds c ≠ s.fds connId := by
  intro hsame
  have hsocket := (h.seated c conn' hc).socket
  rw [socketOf, hsame] at hsocket
  exact hne (Option.some.inj (hsocket.symm.trans (h.seated connId conn hconn).socket))

private theorem Orderly.shrink (h : s.Orderly) (bytes rest : Bytes)
    (hconn : s.connections connId = some conn) (hsplit : conn.outbox = bytes ++ rest)
    (hgrow : s.Grows s') (hfds : s'.fds = s.fds)
    (hwritten : s'.written = Function.update s.written connId (s.written connId ++ bytes))
    (hnext : s'.daemon.server.nextConnId = s.daemon.server.nextConnId)
    (hothers : ∀ c, c ≠ connId → s'.connections c = s.connections c)
    (htable : s'.connections connId = none ∧
        s'.table = Function.update s.table (s.fds connId) none ∨
      s'.connections connId = some { conn with outbox := rest } ∧ s'.table = s.table)
    (htasks : s'.daemon.server.tasks = s.daemon.server.tasks)
    (hdone : s'.daemon.server.completions = s.daemon.server.completions) : s'.Orderly := by
  have hseat := h.seated connId conn hconn
  refine ⟨fun c conn' hc => ?_, fun c hle => ?_, fun socket => ?_, fun t ht => ?_,
    fun done hmem f hf => ?_⟩
  · by_cases hsame : c = connId
    · subst hsame
      rcases htable with ⟨hnone, -⟩ | ⟨hsome, htable⟩
      · rw [hnone] at hc
        cases hc
      · rw [hsome] at hc
        cases hc
        refine ⟨hnext ▸ hseat.lt, by rw [socketOf, htable, hfds]; exact hseat.socket, ?_,
          fun f hf => (hseat.history f hf).mono hgrow⟩
        rw [hwritten, Function.update_self, List.append_assoc, ← hsplit]
        exact hseat.bytes
    · rw [hothers c hsame] at hc
      obtain ⟨hlt, hsocket, hbytes, hhistory⟩ := h.seated c conn' hc
      refine ⟨hnext ▸ hlt, ?_, ?_, fun f hf => (hhistory f hf).mono hgrow⟩
      · rw [socketOf, hfds]
        rcases htable with ⟨-, htable⟩ | ⟨-, htable⟩
        · rw [htable, Function.update_of_ne (h.fds_ne hconn hc hsame)]
          exact hsocket
        · rw [htable]
          exact hsocket
      · rw [hwritten, Function.update_of_ne hsame]
        exact hbytes
  · have hne : c ≠ connId := by
      have := hseat.lt
      omega
    rw [hwritten, Function.update_of_ne hne]
    exact h.fresh c (hnext ▸ hle)
  · by_cases hsame : socket = connId
    · subst hsame
      refine ⟨conn.history.map (·.frame), ?_, fun f hf => ?_⟩
      · rw [hwritten, Function.update_self, ← hseat.frames, hsplit, ← List.append_assoc]
        exact List.prefix_append _ _
      · obtain ⟨g, hg, rfl⟩ := List.mem_map.mp hf
        exact (hseat.history g hg).mono hgrow
    · obtain ⟨frames, hprefix, hframes⟩ := h.own socket
      refine ⟨frames, ?_, fun f hf => (hframes f hf).mono hgrow⟩
      rw [hwritten, Function.update_of_ne hsame]
      exact hprefix
  · exact (h.tasks t (htasks ▸ ht)).mono hgrow
  · exact (h.completions done (hdone ▸ hmem) f hf).mono hgrow

variable {sha : Sha256} {env : RequestEnv}

private theorem accept_orderly {peer : Bytes} {fd : Nat} (h : s.Orderly)
    (hstep : s.accept peer fd = some s') : s'.Orderly := by
  unfold accept at hstep
  split at hstep
  · rename_i hfree
    cases hstep
    have hgrow : s.Grows { s with
        daemon := { s.daemon with server := s.daemon.server.accept peer }
        fds := Function.update s.fds s.daemon.server.nextConnId fd
        table := Function.update s.table fd (some s.daemon.server.nextConnId) } :=
      ⟨fun _ => id, fun _ => id⟩
    refine ⟨fun c conn hc => ?_, fun c hle => h.fresh c (Nat.le_of_succ_le hle),
      h.own.mono rfl hgrow, fun t ht => (h.tasks t ht).mono hgrow,
      fun done hdone f hf => (h.completions done hdone f hf).mono hgrow⟩
    by_cases hnew : c = s.daemon.server.nextConnId
    · subst hnew
      simp only [connections, Server.accept, Function.update_self, Option.some.injEq] at hc
      subst hc
      refine ⟨Nat.lt_succ_self _, ?_, ?_, fun f hf => nomatch hf⟩
      · simp only [socketOf, Function.update_self]
      · rw [List.append_nil]
        exact h.fresh _ (Nat.le_refl _)
    · simp only [connections, Server.accept, Function.update_of_ne hnew] at hc
      obtain ⟨hlt, hsocket, hbytes, hhistory⟩ := h.seated c conn hc
      refine ⟨Nat.lt_succ_of_lt hlt, ?_, hbytes, fun f hf => (hhistory f hf).mono hgrow⟩
      have hne : s.fds c ≠ fd := by
        intro hsame
        rw [socketOf, hsame, hfree] at hsocket
        cases hsocket
      simp only [socketOf, Function.update_of_ne hnew, Function.update_of_ne hne]
      exact hsocket
  · cases hstep

theorem Orderly.hear (h : s.Orderly) (hconn : s.connections connId = some conn)
    (r : Except FrStatus FrFrame) : s.hear connId r = s.received ++ [(connId, r)] := by
  rw [Sockets.hear, (h.seated connId conn hconn).socket]

theorem Orderly.write (h : s.Orderly) (hconn : s.connections connId = some conn) (bytes : Bytes) :
    s.write connId bytes = Function.update s.written connId (s.written connId ++ bytes) := by
  rw [Sockets.write, (h.seated connId conn hconn).socket]

private theorem update_extends {out : List OutFrame} (hconn : s.connections connId = some conn)
    (hext : conn.Extends conn' out) (hout : ∀ f ∈ out, s'.Sends connId f.frame) {c : Nat}
    {conn'' : Connection}
    (hc : Function.update s.connections connId (some conn') c = some conn'') :
    ∃ conn out, s.connections c = some conn ∧ conn.Extends conn'' out ∧
      ∀ f ∈ out, s'.Sends c f.frame := by
  by_cases hsame : c = connId
  · subst hsame
    rw [Function.update_self] at hc
    cases hc
    exact ⟨conn, out, hconn, hext, hout⟩
  · rw [Function.update_of_ne hsame] at hc
    exact ⟨conn'', [], hc, .refl conn'', List.forall_mem_nil _⟩

private theorem release_of_open {daemon : Daemon} (h : (daemon.server.connections connId).isSome) :
    s.release connId daemon = s.table := if_pos h

private theorem release_of_closed {daemon : Daemon} (h : daemon.server.connections connId = none) :
    s.release connId daemon = Function.update s.table (s.fds connId) none := by
  rw [release, h]
  rfl

private theorem receive_orderly {frame : FrFrame} {woken : Option Nat} {daemon : Daemon}
    (h : s.Orderly) (hconn : s.connections connId = some conn)
    (hserver : s.daemon.server.receive connId frame woken = some daemon.server) :
    (s.acted connId conn (.receive frame woken) daemon).Orderly := by
  have hgrow : s.Grows (s.acted connId conn (.receive frame woken) daemon) := by
    refine ⟨?_, fun _ => id⟩
    rw [acted, h.hear hconn]
    exact List.subset_append_left _ _
  have hmem :
      (connId, .ok frame) ∈ (s.acted connId conn (.receive frame woken) daemon).received := by
    rw [acted, h.hear hconn]
    exact List.mem_append_right _ (List.mem_singleton_self _)
  obtain ⟨conn', hconn', hcarry | hbusy⟩ := Server.receive_cases hserver
  · refine h.extend hgrow rfl (release_of_open ?_) rfl hcarry.nextConnId
      (fun c conn hc => ?_) (fun t ht => ?_)
      fun done hdone => .inl (hcarry.completions.subset hdone)
    · rw [hcarry.connections, hconn']
      rfl
    · change daemon.server.connections c = some conn at hc
      rw [hcarry.connections] at hc
      exact ⟨conn, [], hc, .refl conn, List.forall_mem_nil _⟩
    · rcases hcarry.mem ht with ht | ht
      · obtain rfl := List.mem_singleton.mp ht
        exact .inr (.request hmem)
      · exact .inl ht
  · have hconns : daemon.server.connections = Function.update s.connections connId
        (some (conn'.sendError frame.reqId .eBusy (ascii "server busy"))) := by rw [hbusy]
    refine h.extend hgrow rfl (release_of_open ?_) rfl (by rw [acted, hbusy])
      (fun c conn'' hc => ?_)
      (fun t ht => .inl ?_) fun done hdone => .inl ?_
    · rw [hconns, Function.update_self]
      rfl
    · change daemon.server.connections c = some conn'' at hc
      rw [hconns] at hc
      refine update_extends hconn' (conn'.sendError_extends _ _ _) (fun f hf => ?_) hc
      obtain rfl := List.mem_singleton.mp hf
      exact ⟨errorFrame_encodable (outReqId_ne_zero frame) (by decide), .busy hmem⟩
    · rwa [acted, hbusy] at ht
    · rwa [acted, hbusy] at hdone

private theorem reject_orderly {status : FrStatus} {daemon : Daemon} (h : s.Orderly)
    (hconn : s.connections connId = some conn)
    (hserver : s.daemon.server.reject connId status = some daemon.server) :
    (s.acted connId conn (.reject status) daemon).Orderly := by
  have hgrow : s.Grows (s.acted connId conn (.reject status) daemon) := by
    refine ⟨?_, fun _ => id⟩
    rw [acted, h.hear hconn]
    exact List.subset_append_left _ _
  have hmem : (connId, .error status) ∈ (s.acted connId conn (.reject status) daemon).received := by
    rw [acted, h.hear hconn]
    exact List.mem_append_right _ (List.mem_singleton_self _)
  obtain ⟨conn', hconn', hreject⟩ := Option.map_eq_some_iff.mp hserver
  have hext : conn'.Extends { conn'.sendError 0 status
      (ascii "protocol violation, closing connection") with closeAfterFlush := true }
      [⟨errorFrame 1 status (ascii "protocol violation, closing connection"), none⟩] := ⟨rfl, rfl⟩
  have hconns : daemon.server.connections = Function.update s.connections connId
      (some { conn'.sendError 0 status (ascii "protocol violation, closing connection") with
        closeAfterFlush := true }) := (congrArg Server.connections hreject).symm
  refine h.extend hgrow rfl (release_of_open ?_) rfl (by rw [acted, ← hreject])
    (fun c conn'' hc => ?_)
    (fun t ht => .inl ?_) fun done hdone => .inl ?_
  · rw [hconns, Function.update_self]
    rfl
  · change daemon.server.connections c = some conn'' at hc
    rw [hconns] at hc
    refine update_extends hconn' hext (fun f hf => ?_) hc
    obtain rfl := List.mem_singleton.mp hf
    exact ⟨errorFrame_encodable (by decide) (by decide), .violation hmem⟩
  · rwa [acted, ← hreject] at ht
  · rwa [acted, ← hreject] at hdone

private theorem flush_orderly {n : Nat} {daemon : Daemon} (h : s.Orderly)
    (hconn : s.connections connId = some conn)
    (hserver : s.daemon.server.flush connId n = some daemon.server) :
    (s.acted connId conn (.flush n) daemon).Orderly := by
  obtain ⟨conn', hconn', hflush⟩ := Option.map_eq_some_iff.mp hserver
  obtain rfl : conn = conn' := Option.some.inj (hconn.symm.trans hconn')
  have hsplit : conn.outbox = conn.outbox.take n ++ conn.outbox.drop n :=
    (List.take_append_drop n conn.outbox).symm
  dsimp only at hflush
  split at hflush
  · have hflushed : ∃ server : Server, server.close connId = daemon.server ∧
        server.tasks = s.daemon.server.tasks ∧
        server.completions = s.daemon.server.completions ∧
        server.nextConnId = s.daemon.server.nextConnId ∧
        server.connections = Function.update s.connections connId
          (some { conn with outbox := conn.outbox.drop n }) :=
      ⟨_, hflush, rfl, rfl, rfl, rfl⟩
    obtain ⟨server, hclose, htasks, hdone, hnext, hopen⟩ := hflushed
    obtain ⟨htasks', hdone'⟩ := server.close_inFlight connId
    have hnext' := (server.close_elsewhere connId).2.2.2
    have hconns := server.close_connections connId
    rw [hclose] at htasks' hdone' hnext' hconns
    rw [hopen, Function.update_idem] at hconns
    have hnone : daemon.server.connections connId = none := by
      rw [hconns, Function.update_self]
    refine h.shrink _ _ hconn hsplit ⟨fun _ => id, fun _ => id⟩ rfl (h.write hconn _)
      (hnext'.trans hnext) (fun c hc => ?_) (.inl ⟨hnone, release_of_closed hnone⟩)
      (htasks'.trans htasks) (hdone'.trans hdone)
    change daemon.server.connections c = _
    rw [hconns, Function.update_of_ne hc]
  · have hconns : daemon.server.connections = Function.update s.daemon.server.connections connId
        (some { conn with outbox := conn.outbox.drop n }) :=
      (congrArg Server.connections hflush).symm
    have hsome : daemon.server.connections connId =
        some { conn with outbox := conn.outbox.drop n } := by
      rw [hconns, Function.update_self]
    refine h.shrink _ _ hconn hsplit ⟨fun _ => id, fun _ => id⟩ rfl (h.write hconn _)
      (by rw [acted, ← hflush]) (fun c hc => ?_)
      (.inr ⟨hsome, release_of_open (by rw [hsome]; rfl)⟩) ?_ ?_
    · change daemon.server.connections c = _
      rw [hconns, Function.update_of_ne hc]
    · rw [acted, ← hflush]
      rfl
    · rw [acted, ← hflush]
      rfl

private theorem close_orderly {daemon : Daemon} (h : s.Orderly)
    (hconn : s.connections connId = some conn)
    (hserver : s.daemon.server.close connId = daemon.server) :
    (s.acted connId conn .close daemon).Orderly := by
  obtain ⟨htasks, hdone⟩ := s.daemon.server.close_inFlight connId
  have hnext := (s.daemon.server.close_elsewhere connId).2.2.2
  have hconns := s.daemon.server.close_connections connId
  rw [hserver] at htasks hdone hnext hconns
  have hnone : daemon.server.connections connId = none := by
    rw [hconns, Function.update_self]
  refine h.shrink [] _ hconn rfl ⟨fun _ => id, fun _ => id⟩ rfl ?_ hnext (fun c hc => ?_)
    (.inl ⟨hnone, release_of_closed hnone⟩) htasks hdone
  · rw [List.append_nil, Function.update_eq_self]
    rfl
  · change daemon.server.connections c = _
    rw [hconns, Function.update_of_ne hc]

private theorem visit_orderly {a : SocketAct} (h : s.Orderly)
    (hstep : s.visit sha connId a = some s') :
    s'.Orderly := by
  unfold visit at hstep
  split at hstep
  · cases hstep
    exact h
  rename_i conn hconn
  obtain ⟨daemon, hdaemon, rfl⟩ := Option.map_eq_some_iff.mp hstep
  have hserver : s.daemon.server.step sha (a.event connId) = some daemon.server := by
    have hother : (a.event connId).isOther = true := by cases a <;> rfl
    rw [Daemon.step, if_pos hother] at hdaemon
    obtain ⟨server, hserver, rfl⟩ := Option.map_eq_some_iff.mp hdaemon
    exact hserver
  cases a with
  | receive frame woken => exact receive_orderly h hconn hserver
  | reject status => exact reject_orderly h hconn hserver
  | flush n => exact flush_orderly h hconn hserver
  | close => exact close_orderly h hconn (Option.some.inj hserver)

private theorem drain_orderly {daemon : Daemon} {served : List (Task × Worker)} (h : s.Orderly)
    (hserver : s.daemon.server.drain = daemon.server) (hserved : served = s.served) :
    Orderly { s with daemon := daemon, served := served } := by
  subst hserved
  have hgrow : s.Grows { s with daemon := daemon } := ⟨fun _ => id, fun _ => id⟩
  refine h.extend hgrow rfl rfl rfl (by rw [← hserver]; rfl) (fun c conn' hc => ?_)
    (fun t ht => .inl ?_) fun done hdone => .inl ?_
  · change daemon.server.connections c = some conn' at hc
    rw [← hserver] at hc
    obtain ⟨conn, out, hconn, hext, hout⟩ := drain_extends _ hc
    refine ⟨conn, out, hconn, hext, fun f hf => ?_⟩
    obtain ⟨done, hmem, rfl, hf⟩ := hout f hf
    exact (h.completions done (List.mem_append_left _ hmem) f hf).mono hgrow
  · change t ∈ daemon.server.tasks at ht
    rwa [← hserver] at ht
  · change done ∈ daemon.server.completions at hdone
    rw [← hserver] at hdone
    exact List.mem_append_right _ (by simpa [Server.completions, Server.drain] using hdone)

private theorem Orderly.calm {daemon : Daemon} (h : s.Orderly)
    (hconns : daemon.server.connections = s.connections)
    (hnext : daemon.server.nextConnId = s.daemon.server.nextConnId)
    (htasks : daemon.server.tasks ⊆ s.daemon.server.tasks)
    (hdone : daemon.server.completions ⊆ s.daemon.server.completions) :
    Orderly { s with daemon := daemon } := by
  refine h.extend ⟨fun _ => id, fun _ => id⟩ rfl rfl rfl hnext (fun c conn hc => ?_)
    (fun t ht => .inl (htasks ht)) fun done hmem => .inl (hdone hmem)
  change daemon.server.connections c = some conn at hc
  rw [hconns] at hc
  exact ⟨conn, [], hc, .refl conn, List.forall_mem_nil _⟩

theorem Orderly.carries {daemon : Daemon} {leave : List Task} (h : s.Orderly)
    (hcarry : s.daemon.server.Carries daemon.server [] leave) :
    Orderly { s with daemon := daemon } :=
  h.calm hcarry.connections hcarry.nextConnId
    (fun _ ht => (hcarry.mem ht).resolve_left fun h => nomatch h) hcarry.completions.subset

private theorem handle_orderly {i : Nat} {daemon : Daemon} (h : s.Orderly)
    (hstep : s.daemon.handle sha i env = some daemon) :
    Orderly { s with daemon := daemon, served := s.served ++ serving s.daemon daemon i } := by
  obtain ⟨task, result, session, hget, -, hhandle, hserved⟩ := Daemon.handle_served hstep
  have hworkers := hserved.workers
  generalize hw : Worker.handled (downloadOf s.daemon.server.service daemon.server.service task)
    task result = w at hworkers
  have hserving : serving s.daemon daemon i = [(task, w)] := by
    have hget' : daemon.server.workers[i]? = some w := by
      rw [hworkers, List.getElem?_set_self (List.getElem?_eq_some_iff.mp hget).1]
    rw [serving, hget, hget']
  rw [hserving]
  have hgrow : s.Grows { s with daemon := daemon, served := s.served ++ [(task, w)] } :=
    ⟨fun _ => id, List.subset_append_left _ _⟩
  have hmem : (task, w) ∈ s.served ++ [(task, w)] :=
    List.mem_append_right _ (List.mem_singleton_self _)
  have hstem : StemsFrom { s with daemon := daemon, served := s.served ++ [(task, w)] }
      task.connId task := by
    refine (h.tasks task (List.mem_append_right _ ?_)).mono hgrow
    exact List.mem_flatMap.mpr ⟨_, List.mem_of_getElem? hget, List.mem_singleton_self task⟩
  refine h.extend hgrow rfl rfl rfl (Daemon.handle_nextConnId hstep) (fun c conn' hc => ?_)
    (fun t ht => ?_) fun done hdone => ?_
  · have hsame := hserved.connections c
    rw [show daemon.server.connections c = some conn' from hc] at hsame
    obtain ⟨conn, hconn, hanonymous⟩ := Option.map_eq_some_iff.mp hsame.symm
    refine ⟨conn, [], hconn, ⟨?_, ?_⟩, List.forall_mem_nil _⟩
    · rw [List.flatMap_nil, List.append_nil]
      exact (congrArg Connection.outbox hanonymous).symm
    · rw [List.append_nil]
      exact (congrArg Connection.history hanonymous).symm
  · rcases List.mem_append.mp ((hserved.tasks hget).subset (List.mem_append_left _ ht)) with ht | ht
    · have hid : t.connId = task.connId := by
        split at ht
        · obtain rfl := List.mem_singleton.mp ht
          rfl
        · cases ht
      rw [← Worker.handled_tasks (downloadOf s.daemon.server.service daemon.server.service task),
        hw] at ht
      exact .inr (hid.symm ▸ .continuation hstem hmem ht)
    · exact .inl ht
  · rcases List.mem_cons.mp ((hserved.completions hget).subset hdone) with rfl | hdone
    · refine .inr fun f hf => ⟨?_, .reply hstem hmem ?_ hf⟩
      · have hframe := List.mem_map_of_mem (f := (·.frame)) hf
        rw [HandleResult.completion, stamp_frames] at hframe
        exact handleTask_encodable hhandle _ hframe
      · rw [← hw, Worker.handled_completions]
        exact List.mem_singleton_self _
    · exact .inl hdone

private theorem inner_orderly {e : DaemonEvent} (h : s.Orderly) (hstep : s.inner sha e = some s') :
    s'.Orderly := by
  unfold inner at hstep
  split at hstep
  · rename_i hinner
    obtain ⟨daemon, hdaemon, rfl⟩ := Option.map_eq_some_iff.mp hstep
    cases e with
    | other e =>
      rw [Daemon.step] at hdaemon
      split at hdaemon
      · obtain ⟨server, hserver, rfl⟩ := Option.map_eq_some_iff.mp hdaemon
        cases e with
        | drain => exact drain_orderly h (Option.some.inj hserver) rfl
        | maintenance env =>
          cases hserver
          exact h.calm rfl rfl (fun _ => id) fun _ => id
        | pop i => exact h.carries (Server.pop_carries hserver)
        | enqueue i woken => exact h.carries (Server.enqueue_carries hserver)
        | complete i woken => exact h.carries (Server.complete_carries hserver)
        | _ => cases hinner
      · cases hdaemon
    | look i =>
      obtain ⟨task, hget, -, hserver | hserver⟩ := Daemon.look_cases hdaemon
      · exact h.calm (by rw [hserver]) (by rw [hserver]) (by rw [hserver]; exact fun _ => id)
          (by rw [hserver]; exact fun _ => id)
      · have hcarry := Server.drop_carries hget
        rw [← hserver] at hcarry
        exact h.carries hcarry
    | handle i env => exact handle_orderly h hdaemon
  · cases hstep

theorem step_orderly {e : SocketEvent} (h : s.Orderly) (hstep : Step sha s e s') : s'.Orderly := by
  cases e with
  | accept peer fd => exact accept_orderly h hstep
  | ready fd =>
    cases hstep
    exact h.extend ⟨fun _ => id, fun _ => id⟩ rfl rfl rfl rfl
      (fun c conn hc => ⟨conn, [], hc, .refl conn, List.forall_mem_nil _⟩) (fun t => .inl)
      fun done => .inl
  | act a =>
    obtain ⟨connId, -, hvisit⟩ := Option.bind_eq_some_iff.mp hstep
    exact visit_orderly h hvisit
  | visit connId a => exact visit_orderly h hstep
  | inner e => exact inner_orderly h hstep

theorem start_orderly (service : Service) (workers : Nat) : (start service workers).Orderly := by
  have hidle : ∀ w ∈ List.replicate workers Worker.idle, w.tasks = [] ∧ w.completions = [] := by
    intro w hw
    rw [(List.mem_replicate.mp hw).2]
    exact ⟨rfl, rfl⟩
  refine ⟨fun c conn hc => (by cases hc), fun c _ => rfl,
    fun socket => ⟨[], List.prefix_rfl, List.forall_mem_nil _⟩, fun t ht => ?_,
    fun done hdone => ?_⟩
  · obtain ⟨w, hw, ht⟩ := List.mem_flatMap.mp (show t ∈ List.flatMap Worker.tasks _ from ht)
    rw [(hidle w hw).1] at ht
    cases ht
  · obtain ⟨w, hw, hdone⟩ :=
      List.mem_flatMap.mp (show done ∈ List.flatMap Worker.completions _ from hdone)
    rw [(hidle w hw).2] at hdone
    cases hdone

private theorem step_daemon {e : SocketEvent} (hstep : Step sha s e s') :
    ∃ es, Trace.Run (Daemon.Step sha) s.daemon es s'.daemon := by
  have hvisit : ∀ {connId a}, s.visit sha connId a = some s' →
      ∃ es, Trace.Run (Daemon.Step sha) s.daemon es s'.daemon := by
    intro connId a h
    unfold visit at h
    split at h
    · cases h
      exact ⟨[], .nil _⟩
    · obtain ⟨daemon, hdaemon, rfl⟩ := Option.map_eq_some_iff.mp h
      exact ⟨_, .single hdaemon⟩
  cases e with
  | accept peer fd =>
    rw [Step, step, accept] at hstep
    split at hstep
    · cases hstep
      have hleave : s.daemon.leave (s.daemon.server.accept peer) = s.daemon.orphans :=
        Daemon.leave_of_open fun c => Server.isSome_update c
      refine ⟨[.other (.accept peer)], .single ?_⟩
      change some _ = some _
      dsimp only
      rw [hleave]
    · cases hstep
  | ready fd =>
    cases hstep
    exact ⟨[], .nil _⟩
  | act a =>
    obtain ⟨connId, -, h⟩ := Option.bind_eq_some_iff.mp hstep
    exact hvisit h
  | visit connId a => exact hvisit hstep
  | inner e =>
    rw [Step, step, inner] at hstep
    split at hstep
    · obtain ⟨daemon, hdaemon, rfl⟩ := Option.map_eq_some_iff.mp hstep
      exact ⟨[e], .single hdaemon⟩
    · cases hstep

theorem run_daemon {events : List SocketEvent} (h : Trace.Run (Step sha) s events s') :
    ∃ es, Trace.Run (Daemon.Step sha) s.daemon es s'.daemon := by
  induction h with
  | nil s => exact ⟨[], .nil _⟩
  | cons head _ ih =>
    obtain ⟨es, hes⟩ := step_daemon head
    obtain ⟨es', hes'⟩ := ih
    exact ⟨es ++ es', hes.append hes'⟩

end Sockets

/-- Whatever the threads do, however the sockets take their bytes and whichever descriptors the
system gives, no byte of one connection is written to another one and no frame is torn. -/
theorem sockets_own_frames {sha : Sha256} {service : Service} {workers : Nat}
    {events : List SocketEvent} {s : Sockets}
    (hrun : Trace.Run (Sockets.Step sha) (.start service workers) events s) : s.OwnFrames :=
  (hrun.invariant (fun _ _ _ _ h hstep => Sockets.step_orderly h hstep)
    (Sockets.start_orderly service workers)).own

/-- A client is gone before its PING is handled, and the next one gets its descriptor. -/
def sampleReuse : List SocketEvent :=
  let ping := sampleFrame .ping (pure ())
  [.accept [] 5, .ready 5, .act (.receive ping none), .inner (.other (.pop 0)), .inner (.look 0),
    .act .close, .accept [] 5, .inner (.handle 0 (sampleRequestEnv 3)),
    .inner (.other (.complete 0 none)), .inner (.other .drain), .ready 5,
    .act (.receive ping none), .inner (.other (.pop 0)), .inner (.look 0),
    .inner (.handle 0 (sampleRequestEnv 3)), .inner (.other (.complete 0 none)),
    .inner (.other .drain), .visit 2 (.flush 7)]

theorem sockets_own_frames_sample : ∃ s,
    Trace.playIf (Sockets.step sampleSha) (fun _ _ => true) (.start sampleArchive 1) sampleReuse =
      some s ∧ s.written 1 = [] ∧ s.written 2 = (ascii "FRLY") ++ [1, 200, 0] ∧ s.OwnFrames := by
  have hwritten : (Trace.playIf (Sockets.step sampleSha) (fun _ _ => true) (.start sampleArchive 1)
      sampleReuse).map (fun s => (s.written 1, s.written 2)) =
        some ([], (ascii "FRLY") ++ [1, 200, 0]) := by
    decide +kernel
  obtain ⟨s, hs, hbytes⟩ := Option.map_eq_some_iff.mp hwritten
  obtain ⟨h₁, h₂⟩ := Prod.mk.inj hbytes
  exact ⟨s, hs, h₁, h₂, sockets_own_frames (Trace.playIf_run hs fun _ _ _ _ hstep => hstep)⟩

end ForgeRelay
