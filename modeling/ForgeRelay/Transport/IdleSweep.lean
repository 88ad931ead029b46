import ForgeRelay.Transport.InFlight

/-!
# The idle sweep

A connection counts as active when it is accepted and when bytes arrive, and at no other time. So
the sweep spares a connection with work in flight only as long as its client keeps sending.
-/

namespace ForgeRelay

open Program

/-- The daemon with the clocks of its connections, in seconds. -/
structure Timed where
  daemon : Daemon
  /-- `Connection::last_active`. -/
  lastActive : Nat → Int

inductive TimedEvent
  | accept (peer : Bytes) (now : Int)
  /-- Bytes arrive that do not complete a frame. -/
  | read (connId : Nat) (now : Int)
  | receive (connId : Nat) (frame : FrFrame) (woken : Option Nat) (now : Int)
  | reject (connId : Nat) (status : FrStatus) (now : Int)
  /-- `sweep_idle` closes a connection. -/
  | sweep (connId : Nat) (now : Int)
  | other (e : DaemonEvent)

/-- No connection is accepted, and no bytes arrive. -/
def DaemonEvent.isSilent : DaemonEvent → Bool
  | .other (.accept _) | .other (.receive _ _ _) | .other (.reject _ _) => false
  | _ => true

/-- A task of the connection is on the queue or with a worker, a completion has not reached its
outbox, or its outbox is not empty. -/
def Server.Busy (s : Server) (connId : Nat) : Prop :=
  (∃ t ∈ s.tasks, t.connId = connId) ∨ (∃ done ∈ s.completions, done.connId = connId) ∨
    ∃ conn, s.connections connId = some conn ∧ conn.outbox ≠ []

namespace Timed

def start (service : Service) (workers : Nat) : Timed := ⟨.start service workers, fun _ => 0⟩

abbrev isOpen (s : Timed) (connId : Nat) : Bool := (s.daemon.server.connections connId).isSome

/-- A step of the daemon at which the connection is active. -/
def active (sha : Sha256) (s : Timed) (connId : Nat) (now : Int) (e : ServerEvent) : Option Timed :=
  (s.daemon.step sha (.other e)).map fun daemon =>
    ⟨daemon, Function.update s.lastActive connId now⟩

/-- A step of the daemon at which no connection is. -/
def silent (sha : Sha256) (s : Timed) (e : DaemonEvent) : Option Timed :=
  (s.daemon.step sha e).map fun daemon => { s with daemon := daemon }

/-- The state after an event, if it is possible. `timeout` is `request_timeout_seconds`. -/
def step (sha : Sha256) (timeout : Int) (s : Timed) : TimedEvent → Option Timed
  | .accept peer now => s.active sha s.daemon.server.nextConnId now (.accept peer)
  | .read connId now =>
    if s.isOpen connId then some { s with lastActive := Function.update s.lastActive connId now }
    else none
  | .receive connId frame woken now => s.active sha connId now (.receive connId frame woken)
  | .reject connId status now => s.active sha connId now (.reject connId status)
  | .sweep connId now =>
    if s.isOpen connId ∧ now - s.lastActive connId > timeout then
      s.silent sha (.other (.close connId))
    else none
  | .other e => if e.isSilent then s.silent sha e else none

def Step (sha : Sha256) (timeout : Int) (s : Timed) (e : TimedEvent) (s' : Timed) : Prop :=
  s.step sha timeout e = some s'

/-- The number of the next connection, and when each connection has been accepted, or bytes of it
have arrived for the last time. -/
def note (heard : Nat × (Nat → Option Int)) : TimedEvent → Nat × (Nat → Option Int)
  | .accept _ now => (heard.1 + 1, Function.update heard.2 heard.1 (some now))
  | .read connId now | .receive connId _ _ now | .reject connId _ now =>
    (heard.1, Function.update heard.2 connId (some now))
  | .sweep _ _ | .other _ => heard

/-- When the client has last been heard in a run. -/
def lastHeard (events : List TimedEvent) (connId : Nat) : Option Int :=
  (events.foldl note (1, fun _ => none)).2 connId

/-- The client has been heard within this time. -/
def HeardWithin (timeout : Int) (events : List TimedEvent) (now : Int) (connId : Nat) : Prop :=
  ∃ time, lastHeard events connId = some time ∧ now - time ≤ timeout

end Timed

namespace Server

variable {s s' : Server} {sha : Sha256} {connId : Nat} {o : Option Connection}

private theorem isSome_of_update {connections : Nat → Option Connection}
    (h : (connections connId).isSome)
    (c : Nat) (hc : (Function.update connections connId o c).isSome) : (connections c).isSome := by
  by_cases hsame : c = connId
  · rwa [hsame]
  · rwa [Function.update_of_ne hsame] at hc

private theorem close_isSome (s : Server) (connId c : Nat)
    (h : ((s.close connId).connections c).isSome) : (s.connections c).isSome := by
  rw [close_connections] at h
  by_cases hsame : c = connId
  · rw [hsame, Function.update_self] at h
    cases h
  · rwa [Function.update_of_ne hsame] at h

private theorem served_isSome {env : RequestEnv} {i : Nat} {task : Task} {result : HandleResult}
    (hserved : Served sha env i task result s s') (c : Nat) (h : (s'.connections c).isSome) :
    (s.connections c).isSome := by
  rw [← Option.isSome_map (f := (·.anonymous))] at h ⊢
  rwa [← hserved.connections c]

private theorem step_opens_none {e : ServerEvent} (h : s.step sha e = some s')
    (haccept : ∀ peer, e ≠ .accept peer) : s'.nextConnId = s.nextConnId ∧
      ∀ c, (s'.connections c).isSome → (s.connections c).isSome := by
  have hcarry : ∀ {enter leave}, s.Carries s' enter leave → s'.nextConnId = s.nextConnId ∧
      ∀ c, (s'.connections c).isSome → (s.connections c).isSome :=
    fun hcarry => ⟨hcarry.nextConnId, fun c hc => by rwa [hcarry.connections] at hc⟩
  cases e with
  | accept peer => exact absurd rfl (haccept peer)
  | receive connId frame woken =>
    obtain ⟨conn, hconn, h | rfl⟩ := receive_cases h
    · exact hcarry h
    · exact ⟨rfl, isSome_of_update (by rw [hconn]; rfl)⟩
  | reject connId status =>
    obtain ⟨conn, hconn, rfl⟩ := Option.map_eq_some_iff.mp h
    exact ⟨rfl, isSome_of_update (by rw [hconn]; rfl)⟩
  | drain =>
    cases h
    refine ⟨rfl, fun c hc => ?_⟩
    obtain ⟨conn', hconn'⟩ := Option.isSome_iff_exists.mp hc
    obtain ⟨conn, out, hconn, -⟩ := drain_extends _ hconn'
    rw [hconn]
    rfl
  | flush connId n =>
    obtain ⟨conn, hconn, rfl⟩ := Option.map_eq_some_iff.mp h
    have hopen : (s.connections connId).isSome := by
      rw [hconn]
      rfl
    dsimp only
    split
    · exact ⟨(close_elsewhere _ connId).2.2.2, fun c hc =>
        isSome_of_update hopen c (close_isSome _ connId c hc)⟩
    · exact ⟨rfl, isSome_of_update hopen⟩
  | close connId =>
    cases h
    exact ⟨(s.close_elsewhere connId).2.2.2, s.close_isSome connId⟩
  | maintenance env =>
    cases h
    exact ⟨rfl, fun c => id⟩
  | pop i => exact hcarry (pop_carries h)
  | serve i env =>
    refine ⟨serve_nextConnId h, ?_⟩
    obtain ⟨task, hget, ⟨-, -, rfl⟩ | ⟨result, session, -, -, hserved⟩⟩ := serve_served h
    · exact fun c => id
    · exact served_isSome hserved
  | enqueue i woken => exact hcarry (enqueue_carries h)
  | complete i woken => exact hcarry (complete_carries h)

end Server

private theorem Daemon.step_opens_none {d d' : Daemon} {sha : Sha256} {e : DaemonEvent}
    (h : d.step sha e = some d') (haccept : ∀ peer, e ≠ .other (.accept peer)) :
    d'.server.nextConnId = d.server.nextConnId ∧
      ∀ c, (d'.server.connections c).isSome → (d.server.connections c).isSome := by
  cases e with
  | other e =>
    rw [step] at h
    split at h
    · obtain ⟨server, hserver, rfl⟩ := Option.map_eq_some_iff.mp h
      exact Server.step_opens_none hserver fun peer he => haccept peer (congrArg _ he)
    · cases h
  | look i =>
    obtain ⟨task, hget, -, hserver | hserver⟩ := look_cases h <;>
    · rw [hserver]
      exact ⟨rfl, fun c => id⟩
  | handle i env =>
    obtain ⟨task, result, session, -, -, -, hserved⟩ := handle_served h
    exact ⟨handle_nextConnId h, Server.served_isSome hserved⟩

namespace Timed

variable {sha : Sha256} {timeout : Int} {s s' : Timed} {events : List TimedEvent} {connId : Nat}
  {now : Int}

/-- The clocks of the open connections, as the run tells them. -/
structure Told (heard : Nat × (Nat → Option Int)) (s : Timed) : Prop where
  next : heard.1 = s.daemon.server.nextConnId
  active : ∀ connId, s.isOpen connId → heard.2 connId = some (s.lastActive connId)

theorem Told.of_silent {heard : Nat × (Nat → Option Int)} (h : Told heard s)
    (hnext : s'.daemon.server.nextConnId = s.daemon.server.nextConnId)
    (hopen : ∀ connId, s'.isOpen connId → s.isOpen connId)
    (hactive : s'.lastActive = s.lastActive) : Told heard s' :=
  ⟨h.next.trans hnext.symm, fun connId hconn => hactive ▸ h.active connId (hopen connId hconn)⟩

theorem Told.hear {heard : Nat × (Nat → Option Int)} {next : Nat} (h : Told heard s)
    (hnext : next = s'.daemon.server.nextConnId)
    (hopen : ∀ c, c ≠ connId → s'.isOpen c → s.isOpen c)
    (hactive : s'.lastActive = Function.update s.lastActive connId now) :
    Told (next, Function.update heard.2 connId (some now)) s' := by
  refine ⟨hnext, fun c hc => ?_⟩
  dsimp only
  rw [hactive]
  by_cases hsame : c = connId
  · subst hsame
    rw [Function.update_self, Function.update_self]
  · rw [Function.update_of_ne hsame, Function.update_of_ne hsame]
    exact h.active c (hopen c hsame hc)

private theorem Told.active_step {heard : Nat × (Nat → Option Int)} {e : ServerEvent}
    (h : Told heard s)
    (hstep : s.active sha connId now e = some s') (haccept : ∀ peer, e ≠ .accept peer) :
    Told (heard.1, Function.update heard.2 connId (some now)) s' := by
  obtain ⟨daemon, hdaemon, rfl⟩ := Option.map_eq_some_iff.mp hstep
  obtain ⟨hnext, hopen⟩ := Daemon.step_opens_none hdaemon fun peer he =>
    haccept peer (by cases he; rfl)
  exact h.hear (h.next.trans hnext.symm) (fun c _ => hopen c) rfl

theorem Told.step {heard : Nat × (Nat → Option Int)} {e : TimedEvent} (h : Told heard s)
    (hstep : Step sha timeout s e s') : Told (note heard e) s' := by
  have hsilent : ∀ {e : DaemonEvent}, (∀ peer, e ≠ .other (.accept peer)) →
      s.silent sha e = some s' → Told heard s' := by
    intro e haccept hs
    obtain ⟨daemon, hdaemon, rfl⟩ := Option.map_eq_some_iff.mp hs
    obtain ⟨hnext, hopen⟩ := Daemon.step_opens_none hdaemon haccept
    exact h.of_silent hnext hopen rfl
  cases e with
  | accept peer now =>
    cases hstep
    refine h.hear (congrArg (· + 1) h.next) (fun c hsame hc => ?_) (by rw [h.next])
    rw [isOpen] at hc ⊢
    dsimp only [Server.accept] at hc
    rwa [Function.update_of_ne (h.next ▸ hsame)] at hc
  | read connId now =>
    rw [Step, Timed.step] at hstep
    split at hstep
    · cases hstep
      exact h.hear h.next (fun c _ => id) rfl
    · cases hstep
  | receive connId frame woken now => exact h.active_step hstep fun peer he => by cases he
  | reject connId status now => exact h.active_step hstep fun peer he => by cases he
  | sweep connId now =>
    rw [Step, Timed.step] at hstep
    split at hstep
    · exact hsilent (fun peer he => by cases he) hstep
    · cases hstep
  | other e =>
    rw [Step, Timed.step] at hstep
    split at hstep
    · rename_i hquiet
      refine hsilent (fun peer he => ?_) hstep
      rw [he] at hquiet
      cases hquiet
    · cases hstep

theorem Told.run {heard : Nat × (Nat → Option Int)}
    (hrun : Trace.Run (Step sha timeout) s events s') (h : Told heard s) :
    Told (events.foldl note heard) s' := by
  induction hrun generalizing heard with
  | nil s => exact h
  | cons head _ ih => exact ih (h.step head)

private theorem start_told (service : Service) (workers : Nat) :
    Told (1, fun _ => none) (start service workers) :=
  ⟨rfl, fun connId hconn => by cases hconn⟩

/-- What `sweep_idle` closes at this time has nothing in flight. -/
def SweepsIdle (sha : Sha256) (timeout : Int) (s : Timed) (now : Int) : Prop :=
  ∀ connId s', Step sha timeout s (.sweep connId now) s' → ¬ s.daemon.server.Busy connId

private theorem Told.sweepsIdle_iff (h : Told (events.foldl note (1, fun _ => none)) s)
    (now : Int) :
    s.SweepsIdle sha timeout now ↔ ∀ connId, s.isOpen connId → s.daemon.server.Busy connId →
      HeardWithin timeout events now connId := by
  constructor
  · intro hidle connId hopen hbusy
    refine ⟨s.lastActive connId, h.active connId hopen, ?_⟩
    by_contra hlate
    have hstep : Step sha timeout s (.sweep connId now)
        ⟨⟨s.daemon.server.close connId, s.daemon.looked,
          s.daemon.leave (s.daemon.server.close connId)⟩, s.lastActive⟩ :=
      if_pos ⟨hopen, not_le.mp hlate⟩
    exact hidle connId _ hstep hbusy
  · intro hheard connId s' hstep hbusy
    rw [Step, Timed.step] at hstep
    split at hstep
    · rename_i hexpired
      obtain ⟨time, htime, hwithin⟩ := hheard connId hexpired.1 hbusy
      have hlast := h.active connId hexpired.1
      rw [lastHeard, hlast] at htime
      cases htime
      exact not_lt.mpr hwithin hexpired.2
    · cases hstep

end Timed

/-- A sweep spares what is in flight if and only if every client with something in flight has been
heard within the timeout. -/
theorem sweep_closes_idle_iff {sha : Sha256} {timeout : Int} {service : Service} {workers : Nat}
    {events : List TimedEvent} {s : Timed}
    (hrun : Trace.Run (Timed.Step sha timeout) (.start service workers) events s) (now : Int) :
    s.SweepsIdle sha timeout now ↔ ∀ connId, s.isOpen connId → s.daemon.server.Busy connId →
      Timed.HeardWithin timeout events now connId :=
  ((Timed.start_told service workers).run hrun).sweepsIdle_iff now

/-- A worker serves a request that arrives at the time 0. -/
def samplePrompt (frame : FrFrame) : List TimedEvent :=
  .receive 1 frame none 0 ::
    [.other (.pop 0), .look 0, .handle 0 (sampleRequestEnv 3)].map TimedEvent.other

/-- `bob` asks for an artifact and waits for it. -/
def sampleWaiting : List TimedEvent :=
  .accept [] 0 :: samplePrompt (sampleFrame .auth (encodeAuthReq ⟨sampleToken⟩)) ++
    .other (.other (.complete 0 none)) :: samplePrompt (sampleGet 2) ++
      [.other (.other (.enqueue 0 none)), .other (.other (.complete 0 none)),
        .other (.other .drain)]

theorem sweep_closes_idle_iff_sample : ∃ s,
    Trace.playIf (Timed.step sampleSha 120) (fun _ _ => true) (.start sampleArchive 1)
      sampleWaiting = some s ∧
      (s.SweepsIdle sampleSha 120 60 ↔ ∀ connId, s.isOpen connId →
        s.daemon.server.Busy connId → Timed.HeardWithin 120 sampleWaiting 60 connId) := by
  obtain ⟨s, hs⟩ : ∃ s, Trace.playIf (Timed.step sampleSha 120) (fun _ _ => true)
      (.start sampleArchive 1) sampleWaiting = some s :=
    Option.isSome_iff_exists.mp (by decide +kernel)
  exact ⟨s, hs, sweep_closes_idle_iff (Trace.playIf_run hs fun _ _ _ _ hstep => hstep) 60⟩

/-- After two minutes the sweep cuts the download, although its next slice is on the queue. -/
theorem download_cut_by_sweep : ∃ s,
    Trace.Run (Timed.Step sampleSha 120) (.start sampleArchive 1) sampleWaiting s ∧
      ¬ s.SweepsIdle sampleSha 120 121 := by
  have hleft : (Trace.playIf (Timed.step sampleSha 120) (fun _ _ => true)
      (.start sampleArchive 1) sampleWaiting).map (fun s =>
        (s.daemon.server.tasks.map (·.connId), (s.step sampleSha 120 (.sweep 1 121)).isSome)) =
          some ([1], true) := by
    decide +kernel
  obtain ⟨s, hs, hstate⟩ := Option.map_eq_some_iff.mp hleft
  obtain ⟨htasks, hsweep⟩ := Prod.mk.inj hstate
  obtain ⟨s', hs'⟩ := Option.isSome_iff_exists.mp hsweep
  obtain ⟨task, tasks, hcons, hid, -⟩ := List.map_eq_cons_iff.mp htasks
  refine ⟨s, Trace.playIf_run hs fun _ _ _ _ hstep => hstep, fun hidle => ?_⟩
  exact hidle 1 s' hs' (.inl ⟨task, hcons ▸ List.mem_cons_self, hid⟩)

end ForgeRelay
