import ForgeRelay.Service.RateLimit
import ForgeRelay.Storage.UploadRoundTrip
import ForgeRelay.Transport.Chain
import ForgeRelay.Transport.Outboxes

/-!
# Replies that nobody reads

Only the queue of the I/O thread has a limit. While its client does not read, the outbox of a
connection takes in a download slice by slice, up to the whole artifact.
-/

namespace ForgeRelay

open Program Prog

/-! ## A large artifact -/

section

variable {sha : Sha256}

end

/-- A worker hands over what it has got for its task. -/
def handing (hasMore : Bool) : List DaemonEvent :=
  (if hasMore then [.other (.enqueue 0 none)] else []) ++ [.other (.complete 0 none), .other .drain]

/-- The next slice of a download. -/
def nextSlice : List DaemonEvent :=
  [.other (.pop 0), .handle 0 (sampleRequestEnv 3)] ++ handing true

/-- The only worker is idle, these tasks wait, and the outbox of the connection holds so much. -/
structure Daemon.Rests (d : Daemon) (queue : List Task) (session : ClientSession) (held : Nat) :
    Prop where
  workers : d.server.workers = [.idle]
  queue : d.server.queue = queue
  doneQueue : d.server.doneQueue = []
  looked : d.looked 0 = false
  conn : ∃ conn, d.server.connections 1 = some conn ∧ conn.peer = [] ∧ conn.session = session ∧
    conn.closeAfterFlush = false ∧ held ≤ conn.outbox.length

private theorem Daemon.Rests.mono {d : Daemon} {queue : List Task} {session : ClientSession}
    {held held' : Nat} (h : d.Rests queue session held) (hle : held' ≤ held) :
    d.Rests queue session held' := by
  obtain ⟨conn, hconn, hpeer, hsession, hopen, hheld⟩ := h.conn
  exact ⟨h.workers, h.queue, h.doneQueue, h.looked, conn, hconn, hpeer, hsession, hopen,
    hle.trans hheld⟩

section Rounds

variable (sha : Sha256) {d : Daemon} {session : ClientSession} {held : Nat} {result : HandleResult}
  {service : Service}

/-- The worker hands over, and the I/O thread appends. -/
private theorem handing_run {download : Option (Bytes × Nat)} {task : Task} {conn : Connection}
    (hworkers : d.server.workers = [.handled download task result])
    (hqueue : d.server.queue = []) (hdone : d.server.doneQueue = []) (hlooked : d.looked 0 = false)
    (hconn : d.server.connections 1 = some conn) (hpeer : conn.peer = [])
    (hopen : conn.closeAfterFlush = false) (hid : task.connId = 1)
    (hstays : result.closeConnection = false) :
    ∃ d', Trace.Run (Daemon.Step sha) d (handing result.hasMore) d' ∧
      d'.Rests (if result.hasMore then [task.continuation result.continuationKey] else [])
        conn.session (conn.outbox.length + wireSize result.out) ∧
      d'.server.service = d.server.service := by
  obtain ⟨⟨service, connections, nextConnId, queue, doneQueue, workers⟩, looked, orphans⟩ := d
  obtain ⟨out, close, more, key⟩ := result
  dsimp only at hworkers hqueue hdone hlooked hconn hstays
  subst hworkers hqueue hdone hstays
  have hdeliver : ∃ conn', deliver connections ⟨task.connId, stamp download out, false⟩ 1 =
      some conn' ∧ conn'.peer = [] ∧ conn'.session = conn.session ∧
      conn'.closeAfterFlush = false ∧ conn.outbox.length + wireSize out ≤ conn'.outbox.length := by
    have hsize := Completion.size_eq ⟨task.connId, stamp download out, false⟩
    rw [Completion.size, stamp_frames] at hsize
    rw [deliver]
    dsimp only at hsize ⊢
    rw [hid, hconn]
    dsimp only
    rw [if_neg (by rw [hopen]; decide), Function.update_self]
    refine ⟨_, rfl, hpeer, rfl, rfl, ?_⟩
    rw [Connection.append, ← hsize, List.length_append]
  cases more with
  | false => exact ⟨_, .cons rfl (.single rfl), ⟨rfl, rfl, rfl, hlooked, hdeliver⟩, rfl⟩
  | true => exact ⟨_, .cons rfl (.cons rfl (.single rfl)), ⟨rfl, rfl, rfl, hlooked, hdeliver⟩, rfl⟩

/-- The worker gets the next slice. -/
private theorem handle_continuation {task : Task} (env : RequestEnv)
    (hworkers : d.server.workers = [.popped task]) (hkind : task.isGetContinue = true)
    (hrun : (handleGetContinue task.getKey).run d.server.service = (.ok result, service)) :
    Daemon.Step sha d (.handle 0 env) { d with
      server := d.server.setHandled 0 task result service
      looked := Function.update d.looked 0 false } := by
  have hget : d.server.workers[0]? = some (.popped task) := by rw [hworkers]; rfl
  have hserve : d.server.serve sha 0 env = some (d.server.setHandled 0 task result service) := by
    rw [Server.serve, hget]
    dsimp only
    rw [if_pos hkind, hrun]
    rfl
  rw [Daemon.Step, Daemon.step, Daemon.handle, hget]
  dsimp only
  rw [if_neg (fun h => absurd (hkind.symm.trans h.1) (by decide)), if_pos (.inl hkind), hserve]
  rfl

/-- One more slice. -/
private theorem nextSlice_run {task : Task} (h : d.Rests [task] session held)
    (hkind : task.isGetContinue = true) (hid : task.connId = 1)
    (hrun : (handleGetContinue task.getKey).run d.server.service = (.ok result, service))
    (hmore : result.hasMore = true) (hstays : result.closeConnection = false) :
    ∃ d', Trace.Run (Daemon.Step sha) d nextSlice d' ∧
      d'.Rests [task.continuation result.continuationKey] session (held + wireSize result.out) ∧
      d'.server.service = service := by
  obtain ⟨hworkers, hqueue, hdone, hlooked, conn, hconn, hpeer, rfl, hopen, hheld⟩ := h
  obtain ⟨⟨before, connections, nextConnId, queue, doneQueue, workers⟩, looked, orphans⟩ := d
  dsimp only at hworkers hqueue hdone hlooked hconn hrun
  subst hworkers hqueue hdone
  have hpop : Daemon.Step sha ⟨⟨before, connections, nextConnId, [task], [], [.idle]⟩, looked,
    orphans⟩ (.other (.pop 0)) _ := rfl
  obtain ⟨d', hhanded, hrests, hservice⟩ := handing_run sha
    (d := ⟨Server.setHandled ⟨before, connections, nextConnId, [], [], [.popped task]⟩ 0 task
      result service, Function.update looked 0 false, _⟩) rfl rfl rfl
    (show Function.update looked 0 false 0 = false from Function.update_self _ _ _) hconn hpeer
    hopen hid hstays
  rw [hmore] at hhanded hrests
  exact ⟨d', .cons hpop (.cons (handle_continuation sha _ rfl hkind hrun) hhanded),
    hrests.mono (Nat.add_le_add_right hheld _), hservice⟩

end Rounds

/-! ## A download that nobody reads -/

private theorem flatten_le_wireSize (reqId : UInt32) (pieces : List Bytes) :
    pieces.flatten.length ≤ wireSize (pieces.map (dataFrame reqId)) := by
  induction pieces with
  | nil => exact Nat.zero_le _
  | cons data pieces ih =>
    have hcons := wireSize_append [dataFrame reqId data] (pieces.map (dataFrame reqId))
    rw [wireSize_singleton] at hcons
    change wireSize (dataFrame reqId data :: pieces.map (dataFrame reqId)) =
      20 + data.length + _ at hcons
    rw [List.map_cons, hcons, List.flatten_cons, List.length_append]
    omega

/-- Of an artifact that stays this much has been sent, and all of it is in the outbox; the next
slice waits for a worker. -/
structure Daemon.Collects (d : Daemon) (data : Bytes) (a : ArtifactRow) (chunks : List Bytes)
    (sent : Nat) : Prop where
  available : Available sampleSha {data} a chunks d.server.service.store
  waits : ∃ task session state, d.Rests [task] session sent ∧ task.isGetContinue = true ∧
    task.connId = 1 ∧ d.server.service.gets task.getKey = some state ∧ state.Reads a ∧
    state.offset.toNat = sent ∧ state.remaining.toNat + sent = 2^64 - 1

section Collecting

variable {d : Daemon} {data : Bytes} {a : ArtifactRow} {chunks : List Bytes} {sent : Nat}
  {state : GetState} {pieces : List Bytes} {n : UInt64}

/-- In front of the end every slice is a full one. -/
private theorem full_slice (hsends : Sends state chunks.flatten pieces n)
    (hreads : state.Reads a) (hsize : a.size.toNat = chunks.flatten.length)
    (hroom : state.offset.toNat + 2^20 ≤ a.size.toNat)
    (hremaining : state.remaining.toNat + state.offset.toNat = 2^64 - 1)
    (hsmall : a.size.toNat < 2^63) :
    n.toNat = 2^20 ∧ pieces.flatten.length = 2^20 ∧ (state.advance n).Reads a ∧
      (state.advance n).offset.toNat = state.offset.toNat + 2^20 ∧
      (state.advance n).remaining.toNat + (state.offset.toNat + 2^20) = 2^64 - 1 ∧
      (state.advance n).remaining ≠ 0 ∧ n ≠ 0 := by
  have hslice : dataSliceBytes.toNat = 2^20 := by decide
  have hlength : pieces.flatten.length = 2^20 := by
    rw [hsends.eq, List.length_take, List.length_drop, hslice]
    omega
  have hn : n.toNat = 2^20 := hsends.length.trans hlength
  obtain ⟨-, hoffset, -, hleft, -⟩ := hsends.rest (by omega) (by omega)
  refine ⟨hn, hlength, hsends.reads hreads hsize, by rw [hoffset, hn], ?_, fun hzero => ?_,
    fun hzero => ?_⟩
  · omega
  · rw [hzero, UInt64.toNat_zero] at hleft
    omega
  · rw [hzero, UInt64.toNat_zero] at hn
    cases hn

/-- As long as the artifact goes on, one more slice goes to the outbox. -/
theorem Daemon.Collects.next (h : d.Collects data a chunks sent)
    (hroom : sent + 2^20 ≤ a.size.toNat) (hsmall : a.size.toNat < 2^63) :
    ∃ d', Trace.Run (Daemon.Step sampleSha) d nextSlice d' ∧
      d'.Collects data a chunks (sent + 2^20) := by
  obtain ⟨havail, task, session, state, hrests, hkind, hid, hget, hreads, rfl, hremaining⟩ := h
  obtain ⟨pieces, n, hsends, hrun⟩ := handleGetContinue_run (Set.subsingleton_singleton.injOn _)
    havail hget hreads
  obtain ⟨-, hlength, hreads', hoffset, hleft, hmore, hsome⟩ := full_slice hsends hreads
    havail.depicts.size hroom hremaining hsmall
  rw [if_neg (not_or.mpr ⟨hmore, hsome⟩)] at hrun
  obtain ⟨d', hplayed, hrests', hservice⟩ := nextSlice_run sampleSha hrests hkind hid hrun
    rfl rfl
  refine ⟨d', hplayed, ?_, task.continuation task.getKey, session, state.advance n,
    hrests'.mono ?_, rfl, hid, ?_, hreads', hoffset, hleft⟩
  · rw [hservice]
    exact havail
  · have hwire := flatten_le_wireSize state.reqId pieces
    rw [hlength] at hwire
    exact Nat.add_le_add_left hwire _
  · rw [hservice]
    exact Function.update_self _ _ _

end Collecting

end ForgeRelay
