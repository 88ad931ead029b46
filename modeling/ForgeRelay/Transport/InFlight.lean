import ForgeRelay.Lib.Slots
import ForgeRelay.Transport.Daemon

/-!
# Work in flight

A task is on the queue or with a worker, a completion with a worker or on the queue of the I/O
thread. The steps between them neither lose nor double any.
-/

namespace ForgeRelay

open Program

/-- The task that a worker is about to serve, or to enqueue. -/
def Worker.tasks : Worker → List Task
  | .popped task => [task]
  | .enqueueing _ continuation _ => [continuation]
  | _ => []

/-- The completion that a worker is about to hand over. -/
def Worker.completions : Worker → List Completion
  | .enqueueing _ _ done | .completing _ done => [done]
  | _ => []

namespace Server

def tasks (s : Server) : List Task := s.queue ++ s.workers.flatMap Worker.tasks

def completions (s : Server) : List Completion :=
  s.doneQueue ++ s.workers.flatMap Worker.completions

/-- Tasks and completions are handed on, but for the tasks that enter and those that leave, and
nothing else happens. -/
structure Carries (s s' : Server) (enter leave : List Task) : Prop where
  tasks : (s'.tasks ++ leave).Perm (enter ++ s.tasks)
  completions : s'.completions.Perm s.completions
  service : s'.service = s.service
  connections : s'.connections = s.connections
  nextConnId : s'.nextConnId = s.nextConnId

variable {sha : Sha256} {env : RequestEnv} {s s' s'' : Server} {i : Nat} {enter leave : List Task}

theorem Carries.refl (s : Server) : s.Carries s [] [] :=
  ⟨by rw [List.append_nil, List.nil_append], .refl _, rfl, rfl, rfl⟩

theorem Carries.trans (h : s.Carries s' enter leave) (h' : s'.Carries s'' [] []) :
    s.Carries s'' enter leave := by
  have htasks := h'.tasks
  rw [List.append_nil, List.nil_append] at htasks
  exact ⟨(htasks.append_right _).trans h.tasks, h'.completions.trans h.completions,
    h'.service.trans h.service, h'.connections.trans h.connections,
    h'.nextConnId.trans h.nextConnId⟩

theorem Carries.mem (h : s.Carries s' enter leave) {t : Task} (ht : t ∈ s'.tasks) :
    t ∈ enter ∨ t ∈ s.tasks :=
  List.mem_append.mp (h.tasks.subset (List.mem_append_left _ ht))

private theorem tasks_set {v w : Worker} (hget : s.workers[i]? = some v)
    (hworkers : s'.workers = s.workers.set i w)
    (h : (s'.queue ++ w.tasks ++ leave).Perm (enter ++ s.queue ++ v.tasks)) :
    (s'.tasks ++ leave).Perm (enter ++ s.tasks) := by
  have hslots := Slots.flatMap_set_perm (g := Worker.tasks) (b := w) hget
  rw [← hworkers] at hslots
  rw [List.perm_iff_count] at *
  intro t
  have hslots := hslots t
  have hqueues := h t
  simp only [tasks, List.count_append] at *
  omega

private theorem completions_set {v w : Worker} (made : List Completion)
    (hget : s.workers[i]? = some v) (hworkers : s'.workers = s.workers.set i w)
    (h : (s'.doneQueue ++ w.completions).Perm (made ++ s.doneQueue ++ v.completions)) :
    s'.completions.Perm (made ++ s.completions) := by
  have hslots := Slots.flatMap_set_perm (g := Worker.completions) (b := w) hget
  rw [← hworkers] at hslots
  rw [List.perm_iff_count] at *
  intro done
  have hslots := hslots done
  have hqueues := h done
  simp only [completions, List.count_append] at *
  omega

theorem close_inFlight (s : Server) (connId : Nat) :
    (s.close connId).tasks = s.tasks ∧ (s.close connId).completions = s.completions := by
  obtain ⟨hworkers, hqueue, hdone, -⟩ := s.close_elsewhere connId
  rw [tasks, completions, hworkers, hqueue, hdone]
  exact ⟨rfl, rfl⟩

theorem isSome_update {connections : Nat → Option Connection} {connId : Nat} {conn : Connection}
    (c : Nat) (h : (connections c).isSome) :
    (Function.update connections connId (some conn) c).isSome := by
  by_cases hc : c = connId
  · rw [hc, Function.update_self]
    rfl
  · rwa [Function.update_of_ne hc]

theorem Carries.notify {sleeps : Worker → Bool} {woken : Option Nat} {workers : List Worker}
    (h : notifyOne sleeps s.workers woken = some workers) :
    s.Carries { s with workers := workers } [] [] := by
  unfold notifyOne at h
  split at h
  · split at h <;> cases h
    exact .refl s
  · rename_i i
    split at h
    · rename_i w hget
      split at h <;> cases h
      have htasks : w.wake.tasks = w.tasks := by cases w <;> rfl
      have hdone : w.wake.completions = w.completions := by cases w <;> rfl
      refine ⟨tasks_set hget rfl ?_, completions_set [] hget rfl ?_, rfl, rfl, rfl⟩
      · rw [htasks, List.append_nil, List.nil_append]
      · rw [hdone, List.nil_append]
    · cases h

theorem pop_carries (h : s.pop i = some s') : s.Carries s' [] [] := by
  unfold Server.pop at h
  split at h
  · cases h
    exact .refl s
  · rename_i task queue hget hqueue
    cases h
    refine ⟨tasks_set hget rfl ?_, completions_set [] hget rfl (.refl _), rfl, rfl, rfl⟩
    change (queue ++ [task] ++ []).Perm ([] ++ s.queue ++ [])
    rw [hqueue, List.append_nil, List.append_nil, List.nil_append]
    exact List.perm_append_singleton _ _
  · cases h

theorem enqueue_carries {woken : Option Nat} (h : s.enqueue i woken = some s') :
    s.Carries s' [] [] := by
  unfold Server.enqueue at h
  split at h
  · rename_i wait task done hget
    split at h
    · cases h
    split at h
    · obtain ⟨workers, hnotify, rfl⟩ := Option.map_eq_some_iff.mp h
      refine Carries.trans ?_ (.notify hnotify)
      refine ⟨tasks_set hget rfl ?_, completions_set [] hget rfl (.refl _), rfl, rfl, rfl⟩
      change (s.queue ++ [task] ++ [] ++ []).Perm ([] ++ s.queue ++ [task])
      rw [List.append_nil, List.append_nil, List.nil_append]
    · split at h
      · cases h
        refine ⟨tasks_set hget rfl ?_, completions_set [] hget rfl (.refl _), rfl, rfl, rfl⟩
        change (s.queue ++ [task] ++ []).Perm ([] ++ s.queue ++ [task])
        rw [List.append_nil, List.nil_append]
      · cases h
  · cases h

theorem complete_carries {woken : Option Nat} (h : s.complete i woken = some s') :
    s.Carries s' [] [] := by
  have hidle : ([] ++ s.queue ++ [] : List Task) = s.queue ++ [] ++ [] := by simp
  unfold Server.complete at h
  split at h
  · rename_i wait done hget
    split at h
    · cases h
    split at h
    · obtain ⟨workers, hnotify, rfl⟩ := Option.map_eq_some_iff.mp h
      refine Carries.trans ?_ (.notify hnotify)
      refine ⟨tasks_set hget rfl (hidle ▸ .refl _), completions_set [] hget rfl ?_,
        rfl, rfl, rfl⟩
      change (s.doneQueue ++ [done] ++ []).Perm ([] ++ s.doneQueue ++ [done])
      rw [List.append_nil, List.nil_append]
    · split at h
      · cases h
        exact ⟨tasks_set hget rfl (hidle ▸ .refl _),
          completions_set [] hget rfl (.refl _), rfl, rfl, rfl⟩
      · cases h
  · cases h

theorem drop_carries {task : Task} (hget : s.workers[i]? = some (.popped task)) :
    s.Carries (s.setWorker i .idle) [] [task] :=
  ⟨tasks_set hget rfl (by
      change (s.queue ++ [] ++ [task]).Perm ([] ++ s.queue ++ [task])
      rw [List.append_nil, List.nil_append]),
    completions_set [] hget rfl (.refl _), rfl, rfl, rfl⟩

end Server

variable {sha : Sha256} {env : RequestEnv} {i : Nat} {task : Task} {result : HandleResult}
  {s s' : Server}

/-- The task of a frame. -/
def Task.request (connId : Nat) (peer : Bytes) (frame : FrFrame) : Task :=
  ⟨connId, peer, frame.type, frame.reqId, frame.payload, false, []⟩

theorem Server.receive_cases {connId : Nat} {frame : FrFrame} {woken : Option Nat}
    (h : s.receive connId frame woken = some s') : ∃ conn, s.connections connId = some conn ∧
      (s.Carries s' [.request connId conn.peer frame] [] ∨
        s' = { s with
          connections := Function.update s.connections connId
            (some (conn.sendError frame.reqId .eBusy (ascii "server busy"))) }) := by
  unfold Server.receive at h
  split at h
  · cases h
  rename_i conn hconn
  refine ⟨conn, hconn, ?_⟩
  split at h
  · obtain ⟨workers, hnotify, rfl⟩ := Option.map_eq_some_iff.mp h
    have hqueue : s.Carries { s with queue := s.queue ++ [.request connId conn.peer frame] }
        [.request connId conn.peer frame] [] := by
      refine ⟨?_, .refl _, rfl, rfl, rfl⟩
      rw [List.append_nil]
      exact List.perm_append_comm.append_right _
    exact .inl (hqueue.trans (.notify hnotify))
  · split at h
    · cases h
      exact .inr rfl
    · cases h

/-- The completion of a task. -/
def HandleResult.completion (result : HandleResult) (download : Option (Bytes × Nat))
    (task : Task) : Completion :=
  ⟨task.connId, stamp download result.out, result.closeConnection⟩

theorem Worker.handled_tasks (download : Option (Bytes × Nat)) :
    (Worker.handled download task result).tasks =
      if result.hasMore then [task.continuation result.continuationKey] else [] := by
  unfold Worker.handled
  dsimp only
  split <;> rfl

theorem Worker.handled_completions (download : Option (Bytes × Nat)) :
    (Worker.handled download task result).completions = [result.completion download task] := by
  unfold Worker.handled
  dsimp only
  split <;> rfl

theorem Served.tasks (h : Served sha env i task result s s')
    (hget : s.workers[i]? = some (.popped task)) :
    (s'.tasks ++ [task]).Perm
      ((if result.hasMore then [task.continuation result.continuationKey] else []) ++ s.tasks) := by
  refine Server.tasks_set hget h.workers ?_
  rw [h.queue, Worker.handled_tasks]
  exact List.perm_append_comm.append_right _

theorem Served.completions (h : Served sha env i task result s s')
    (hget : s.workers[i]? = some (.popped task)) :
    s'.completions.Perm
      (result.completion (downloadOf s.service s'.service task) task :: s.completions) := by
  refine Server.completions_set [_] hget h.workers ?_
  rw [h.doneQueue, Worker.handled_completions]
  change (s.doneQueue ++ [_]).Perm ([_] ++ s.doneQueue ++ [])
  rw [List.append_nil]
  exact List.perm_append_comm

section Outboxes

variable {conn conn' : Connection} {connId : Nat} {out : List OutFrame}

/-- The connection after these frames have been appended. -/
structure Connection.Extends (conn conn' : Connection) (out : List OutFrame) : Prop where
  outbox : conn'.outbox = conn.outbox ++ out.flatMap (frameBytes ·.frame)
  history : conn'.history = conn.history ++ out

theorem Connection.Extends.refl (conn : Connection) : conn.Extends conn [] := by
  constructor <;> simp

theorem Connection.Extends.trans {conn'' : Connection} {out' : List OutFrame}
    (h : conn.Extends conn' out) (h' : conn'.Extends conn'' out') :
    conn.Extends conn'' (out ++ out') := by
  constructor
  · rw [h'.outbox, h.outbox, List.flatMap_append, List.append_assoc]
  · rw [h'.history, h.history, List.append_assoc]

theorem Connection.sendError_extends (conn : Connection) (reqId : UInt32) (code : FrStatus)
    (message : Bytes) : conn.Extends (conn.sendError reqId code message)
      [⟨errorFrame (if reqId = 0 then 1 else reqId) code message, none⟩] := ⟨rfl, rfl⟩

private theorem deliver_extends {connections : Nat → Option Connection} {done : Completion}
    (hc : deliver connections done connId = some conn') :
    ∃ conn out, connections connId = some conn ∧ conn.Extends conn' out ∧
      ∀ f ∈ out, done.connId = connId ∧ f ∈ done.out := by
  have hsame : ∀ conn, connections connId = some conn → ∃ conn' out,
      connections connId = some conn' ∧ conn'.Extends conn out ∧
        ∀ f ∈ out, done.connId = connId ∧ f ∈ done.out :=
    fun conn hconn => ⟨conn, [], hconn, .refl conn, List.forall_mem_nil _⟩
  cases hconn : connections done.connId with
  | none =>
    rw [deliver, hconn] at hc
    exact hsame _ hc
  | some conn =>
    rw [deliver, hconn] at hc
    dsimp only at hc
    split at hc
    · exact hsame _ hc
    by_cases hid : connId = done.connId
    · rw [hid, Function.update_self] at hc
      cases hc
      exact ⟨conn, done.out, hid ▸ hconn, ⟨rfl, rfl⟩, fun f hf => ⟨hid.symm, hf⟩⟩
    · rw [Function.update_of_ne hid] at hc
      exact hsame _ hc

theorem drain_extends (queue : List Completion) {connections : Nat → Option Connection}
    (hc : (queue.foldl deliver connections) connId = some conn') :
    ∃ conn out, connections connId = some conn ∧ conn.Extends conn' out ∧
      ∀ f ∈ out, ∃ done ∈ queue, done.connId = connId ∧ f ∈ done.out := by
  induction queue generalizing connections with
  | nil => exact ⟨conn', [], hc, .refl conn', List.forall_mem_nil _⟩
  | cons done queue ih =>
    obtain ⟨conn₁, out', hconn₁, hext', hout'⟩ := ih hc
    obtain ⟨conn, out, hconn, hext, hout⟩ := deliver_extends hconn₁
    refine ⟨conn, out ++ out', hconn, hext.trans hext', List.forall_mem_append.mpr ⟨?_, ?_⟩⟩
    · exact fun f hf => ⟨done, List.mem_cons_self, hout f hf⟩
    · intro f hf
      obtain ⟨done', hmem, hdone'⟩ := hout' f hf
      exact ⟨done', List.mem_cons_of_mem _ hmem, hdone'⟩

end Outboxes

private theorem stampFrom_frames (key : Bytes) (offset : Nat) (frames : List FrFrame) :
    (stampFrom key offset frames).map (·.frame) = frames := by
  induction frames generalizing offset with
  | nil => rfl
  | cons f frames ih => rw [stampFrom, List.map_cons, ih]

theorem stamp_frames (download : Option (Bytes × Nat)) (frames : List FrFrame) :
    (stamp download frames).map (·.frame) = frames := by
  cases download with
  | none => rw [stamp, List.map_map]; exact List.map_id _
  | some d => exact stampFrom_frames _ _ _

end ForgeRelay
