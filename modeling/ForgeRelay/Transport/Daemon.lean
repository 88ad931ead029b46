import ForgeRelay.Lib.Trace
import ForgeRelay.Transport.Handling

/-!
# The session of a task

A worker looks up the session of its request under the lock of the connections, and has the request
handled behind it. In between the connection may be closed; the worker holds on to the session.
-/

namespace ForgeRelay

open Program

/-- The server, the workers that have looked up the session of their request, and the sessions of
connections that have been closed. -/
structure Daemon where
  server : Server
  looked : Nat → Bool
  orphans : Nat → Option ClientSession

inductive DaemonEvent
  /-- Any step but that of a worker between `pop_task` and the queues. -/
  | other (e : ServerEvent)
  | look (worker : Nat)
  | handle (worker : Nat) (env : RequestEnv)

/-- The step is not that of a worker that serves its task. -/
def ServerEvent.isOther : ServerEvent → Bool
  | .serve _ _ => false
  | _ => true

namespace Daemon

def start (service : Service) (workers : Nat) : Daemon :=
  ⟨.start service workers, fun _ => false, fun _ => none⟩

/-- The sessions of the connections that are gone. -/
def leave (d : Daemon) (server : Server) : Nat → Option ClientSession := fun connId =>
  match d.server.connections connId, server.connections connId with
  | some conn, none => some conn.session
  | _, _ => d.orphans connId

/-- The worker looks up the session; without a connection it drops the request. -/
def look (d : Daemon) (i : Nat) : Option Daemon :=
  match d.server.workers[i]? with
  | some (.popped task) =>
    if task.isGetContinue = true ∨ d.looked i = true then none
    else if (d.server.connections task.connId).isSome then
      some { d with looked := Function.update d.looked i true }
    else some { d with server := d.server.setWorker i .idle }
  | _ => none

/-- A request is handled whose connection has been closed since. -/
def handleOrphan (sha : Sha256) (d : Daemon) (i : Nat) (env : RequestEnv) (task : Task)
    (session : ClientSession) : Option Daemon :=
  match (ForgeRelay.handle sha env task.connId task.peer session task.frame).run
      d.server.service with
  | (.ok (result, session), service) =>
    some ⟨d.server.setHandled i task result service, Function.update d.looked i false,
      Function.update d.orphans task.connId (some session)⟩
  | (.error e, service) =>
    match workerCatch task e with
    | .ok result =>
      some { d with
        server := d.server.setHandled i task result service
        looked := Function.update d.looked i false }
    | .error _ => none

/-- The worker has its task handled. -/
def handle (sha : Sha256) (d : Daemon) (i : Nat) (env : RequestEnv) : Option Daemon :=
  match d.server.workers[i]? with
  | some (.popped task) =>
    if task.isGetContinue = false ∧ d.looked i = false then none
    else if task.isGetContinue = true ∨ (d.server.connections task.connId).isSome then
      (d.server.serve sha i env).map fun server =>
        { d with server := server, looked := Function.update d.looked i false }
    else (d.orphans task.connId).bind (d.handleOrphan sha i env task)
  | _ => none

/-- The state after an event, if it is possible. -/
def step (sha : Sha256) (d : Daemon) : DaemonEvent → Option Daemon
  | .other e =>
    if e.isOther then (d.server.step sha e).map fun server => ⟨server, d.looked, d.leave server⟩
    else none
  | .look i => d.look i
  | .handle i env => d.handle sha i env

def Step (sha : Sha256) (d : Daemon) (e : DaemonEvent) (d' : Daemon) : Prop :=
  d.step sha e = some d'

variable {sha : Sha256} {env : RequestEnv} {d d' : Daemon} {i : Nat}

theorem look_cases (h : d.look i = some d') : ∃ task, d.server.workers[i]? = some (.popped task) ∧
    task.isGetContinue = false ∧
      (d'.server = d.server ∨ d'.server = d.server.setWorker i .idle) := by
  unfold look at h
  split at h
  · rename_i task hget
    split at h
    · cases h
    rename_i hkind
    have hkind := Bool.eq_false_iff.mpr (not_or.mp hkind).1
    split at h
    · cases h
      exact ⟨task, hget, hkind, .inl rfl⟩
    · cases h
      exact ⟨task, hget, hkind, .inr rfl⟩
  · cases h

theorem leave_of_open {server : Server}
    (h : ∀ c, (d.server.connections c).isSome → (server.connections c).isSome) :
    d.leave server = d.orphans := by
  funext c
  have hopen := h c
  unfold leave
  cases hbefore : d.server.connections c with
  | none => rfl
  | some conn =>
    cases hafter : server.connections c with
    | none =>
      rw [hbefore, hafter] at hopen
      cases hopen rfl
    | some conn' => rfl

private theorem handleOrphan_served {task : Task} {session : ClientSession}
    (hkind : task.isGetContinue = false)
    (h : d.handleOrphan sha i env task session = some d') :
    ∃ result, handleTask sha env session task d.server.service = (.ok result, d'.server.service) ∧
      Served sha env i task result d.server d'.server := by
  unfold handleOrphan at h
  split at h
  · rename_i result session' service hrun
    cases h
    have hhandle : handleTask sha env session task d.server.service = (.ok result, service) := by
      rw [handleTask, if_neg (Bool.eq_false_iff.mp hkind), hrun]
      rfl
    exact ⟨result, hhandle, ⟨_, hhandle⟩, rfl, rfl, rfl, fun _ => rfl⟩
  · rename_i e service hrun
    split at h
    · rename_i result hresult
      cases h
      have hhandle : handleTask sha env session task d.server.service = (.ok result, service) := by
        rw [handleTask, if_neg (Bool.eq_false_iff.mp hkind), hrun]
        exact Prod.ext hresult rfl
      exact ⟨result, hhandle, ⟨_, hhandle⟩, rfl, rfl, rfl, fun _ => rfl⟩
    · cases h

/-- The session that a worker has looked up for a request of this connection. -/
def sessionOf (d : Daemon) (connId : Nat) : Option ClientSession :=
  (d.server.sessionOf connId).or (d.orphans connId)

theorem handle_served (h : d.handle sha i env = some d') : ∃ task result session,
    d.server.workers[i]? = some (.popped task) ∧
      (task.isGetContinue = false → d.sessionOf task.connId = some session) ∧
      handleTask sha env session task d.server.service = (.ok result, d'.server.service) ∧
      Served sha env i task result d.server d'.server := by
  unfold handle at h
  split at h
  · rename_i task hget
    split at h
    · cases h
    split at h
    · rename_i hopen
      obtain ⟨server, hserve, rfl⟩ := Option.map_eq_some_iff.mp h
      obtain ⟨task', hget', hserved⟩ := serve_served hserve
      obtain rfl : task' = task := by
        rw [hget] at hget'
        cases hget'
        rfl
      rcases hserved with ⟨hkind, hnone, -⟩ | ⟨result, session, hsession, hhandle, hserved⟩
      · rcases hopen with hkind' | hsome
        · rw [hkind] at hkind'
          cases hkind'
        · rw [hnone] at hsome
          cases hsome
      · refine ⟨task', result, session, hget, fun hkind => ?_, hhandle, hserved⟩
        rw [sessionOf, hsession hkind]
        rfl
    · rename_i hclosed
      obtain ⟨hkind, hnone⟩ := not_or.mp hclosed
      obtain ⟨session, hsession, horphan⟩ := Option.bind_eq_some_iff.mp h
      obtain ⟨result, hhandle, hserved⟩ := handleOrphan_served (Bool.eq_false_iff.mpr hkind) horphan
      refine ⟨task, result, session, hget, fun _ => ?_, hhandle, hserved⟩
      rw [sessionOf, Server.sessionOf, Option.not_isSome_iff_eq_none.mp hnone, hsession]
      rfl
  · cases h

theorem handle_nextConnId (h : d.handle sha i env = some d') :
    d'.server.nextConnId = d.server.nextConnId := by
  unfold handle at h
  split at h
  · split at h
    · cases h
    split at h
    · obtain ⟨server, hserve, rfl⟩ := Option.map_eq_some_iff.mp h
      exact serve_nextConnId hserve
    · obtain ⟨session, -, horphan⟩ := Option.bind_eq_some_iff.mp h
      unfold handleOrphan at horphan
      split at horphan
      · cases horphan
        rfl
      · split at horphan <;> cases horphan
        rfl
  · cases h

end Daemon

end ForgeRelay
