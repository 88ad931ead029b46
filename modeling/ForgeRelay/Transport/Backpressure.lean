import ForgeRelay.Service.Authorization
import ForgeRelay.Transport.Server

/-!
# When the workers sleep for ever

Room in the two queues is made by `pop_task` and `drain_completions`, which notify nobody. So a
pool whose last worker goes to sleep is not woken any more; as long as it finds room, it runs.
-/

namespace ForgeRelay

/-- The worker is in a wait of `enqueue` or `push_completion`, asleep or just woken. -/
def Worker.waits : Worker → Bool
  | .enqueueing .ready _ _ | .completing .ready _ => false
  | .enqueueing _ _ _ | .completing _ _ => true
  | _ => false

/-- The worker sleeps on a condition variable. -/
def Worker.asleep (w : Worker) : Bool := w.sleepsForTasks || w.sleepsForCompletions

/-- There are workers, and whatever happens from here on, all of them sleep. -/
def Server.Frozen (sha : Sha256) (s : Server) : Prop :=
  s.workers ≠ [] ∧ ∀ events s', s.play sha events = some s' → ∀ w ∈ s'.workers, w.asleep = true

variable {sha : Sha256} {s s' : Server}

private theorem notifyOne_none {sleeps : Worker → Bool} {workers workers' : List Worker}
    {woken : Option Nat} (h : notifyOne sleeps workers woken = some workers')
    (hnone : ∀ w ∈ workers, sleeps w = false) : workers' = workers := by
  unfold notifyOne at h
  split at h
  · split at h
    · cases h
    · cases h
      rfl
  · split at h
    · rename_i hget
      rw [hnone _ (List.mem_of_getElem? hget)] at h
      cases h
    · cases h

private theorem notifyOne_getElem? {sleeps : Worker → Bool} {workers workers' : List Worker}
    {woken : Option Nat} {i : Nat} {w : Worker}
    (h : notifyOne sleeps workers woken = some workers') (hget : workers[i]? = some w)
    (hawake : sleeps w = false) : workers'[i]? = some w := by
  unfold notifyOne at h
  split at h
  · split at h
    · cases h
    · cases h
      exact hget
  · rename_i j
    split at h
    · rename_i w' hget'
      split at h
      · rename_i hsleeps
        cases h
        have hne : j ≠ i := by
          rintro rfl
          rw [hget] at hget'
          cases hget'
          rw [hawake] at hsleeps
          cases hsleeps
        rw [List.getElem?_set_ne hne]
        exact hget
      · cases h
    · cases h

private theorem sleeps_of_awake {w : Worker} (h : w.waits = false) :
    w.sleepsForTasks = false ∧ w.sleepsForCompletions = false := by
  cases w with
  | idle | popped task => exact ⟨rfl, rfl⟩
  | enqueueing wait task done | completing wait done =>
    cases wait with
    | ready => exact ⟨rfl, rfl⟩
    | parked | woken => cases h

private theorem asleep_waits {w : Worker} (h : w.asleep = true) : w.waits = true := by
  cases hw : w.waits with
  | true => rfl
  | false =>
    obtain ⟨htasks, hdone⟩ := sleeps_of_awake hw
    rw [Worker.asleep, htasks, hdone] at h
    cases h

/-- Some worker is in no wait. -/
def SomeAwake (workers : List Worker) : Prop :=
  ∃ (i : Nat) (w : Worker), workers[i]? = some w ∧ w.waits = false

/-- Another worker than `i` is in no wait. -/
def OtherAwake (workers : List Worker) (i : Nat) : Prop :=
  ∃ (j : Nat) (w : Worker), j ≠ i ∧ workers[j]? = some w ∧ w.waits = false

/-- A worker finds room where it needs it, unless another one runs. -/
def Server.RoomForLast (s : Server) : ServerEvent → Prop
  | .enqueue i _ => s.queue.length < queueCapacity ∨ OtherAwake s.workers i
  | .complete i _ => s.doneQueue.length < doneQueueHighWater ∨ OtherAwake s.workers i
  | _ => True

section Workers

variable {workers workers' : List Worker} {i : Nat} {w w' : Worker}

private theorem someAwake_set (hget : workers[i]? = some w) (hawake : w'.waits = false) :
    SomeAwake (workers.set i w') :=
  ⟨i, w', List.getElem?_set_self (List.getElem?_eq_some_iff.mp hget).1, hawake⟩

theorem OtherAwake.set (h : OtherAwake workers i) : SomeAwake (workers.set i w) := by
  obtain ⟨j, u, hne, hget, hawake⟩ := h
  exact ⟨j, u, (List.getElem?_set_ne hne.symm).trans hget, hawake⟩

theorem SomeAwake.notify {sleeps : Worker → Bool} {woken : Option Nat} (h : SomeAwake workers)
    (hsleeps : ∀ w : Worker, w.waits = false → sleeps w = false)
    (hnotify : notifyOne sleeps workers woken = some workers') : SomeAwake workers' := by
  obtain ⟨i, w, hget, hawake⟩ := h
  exact ⟨i, w, notifyOne_getElem? hnotify hget (hsleeps w hawake), hawake⟩

end Workers

private theorem handled_awake (download : Option (Bytes × Nat)) (task : Task)
    (result : HandleResult) : (Worker.handled download task result).waits = false := by
  unfold Worker.handled
  dsimp only
  split <;> rfl

private theorem pop_someAwake {i : Nat} (h : s.pop i = some s') (hsome : SomeAwake s.workers) :
    SomeAwake s'.workers := by
  unfold Server.pop at h
  split at h
  · cases h
    exact hsome
  · rename_i hget hqueue
    cases h
    exact someAwake_set hget rfl
  · cases h

private theorem serve_someAwake {i : Nat} {env : RequestEnv} (h : s.serve sha i env = some s') :
    SomeAwake s'.workers := by
  unfold Server.serve at h
  split at h
  · rename_i task hget
    have hset : ∀ w : Worker, w.waits = false → SomeAwake (s.workers.set i w) :=
      fun _ => someAwake_set hget
    dsimp only at h
    split at h
    · split at h
      · cases h
        exact hset _ (handled_awake _ _ _)
      · cases h
    · split at h
      · cases h
        exact hset .idle rfl
      · split at h
        · cases h
          exact hset _ (handled_awake _ _ _)
        · split at h
          · cases h
            exact hset _ (handled_awake _ _ _)
          · cases h
  · cases h

private theorem enqueue_someAwake {i : Nat} {woken : Option Nat} (h : s.enqueue i woken = some s')
    (hroom : s.RoomForLast (.enqueue i woken)) : SomeAwake s'.workers := by
  unfold Server.enqueue at h
  split at h
  · rename_i wait task done hget
    split at h
    · cases h
    split at h
    · obtain ⟨workers, hnotify, rfl⟩ := Option.map_eq_some_iff.mp h
      exact (someAwake_set hget rfl).notify (fun _ hw => (sleeps_of_awake hw).1) hnotify
    · rename_i hfull
      split at h
      · cases h
        exact (hroom.resolve_left hfull).set
      · cases h
  · cases h

private theorem complete_someAwake {i : Nat} {woken : Option Nat} (h : s.complete i woken = some s')
    (hroom : s.RoomForLast (.complete i woken)) : SomeAwake s'.workers := by
  unfold Server.complete at h
  split at h
  · rename_i wait done hget
    split at h
    · cases h
    split at h
    · obtain ⟨workers, hnotify, rfl⟩ := Option.map_eq_some_iff.mp h
      exact (someAwake_set hget rfl).notify (fun _ hw => (sleeps_of_awake hw).2) hnotify
    · rename_i hfull
      split at h
      · cases h
        exact (hroom.resolve_left hfull).set
      · cases h
  · cases h

private theorem step_someAwake {e : ServerEvent} (hsome : SomeAwake s.workers)
    (hroom : s.RoomForLast e) (h : s.step sha e = some s') : SomeAwake s'.workers := by
  cases e with
  | accept peer | drain | maintenance env =>
    cases h
    exact hsome
  | close connId =>
    cases h
    exact (s.close_elsewhere connId).1.symm ▸ hsome
  | receive connId frame woken =>
    simp only [Server.step, Server.receive] at h
    split at h
    · cases h
    split at h
    · obtain ⟨workers, hnotify, rfl⟩ := Option.map_eq_some_iff.mp h
      exact hsome.notify (fun _ hw => (sleeps_of_awake hw).1) hnotify
    · split at h
      · cases h
        exact hsome
      · cases h
  | reject connId status =>
    obtain ⟨conn, -, rfl⟩ := Option.map_eq_some_iff.mp h
    exact hsome
  | flush connId n =>
    obtain ⟨conn, -, rfl⟩ := Option.map_eq_some_iff.mp h
    dsimp only
    split
    · exact (Server.close_elsewhere _ connId).1.symm ▸ hsome
    · exact hsome
  | pop worker => exact pop_someAwake h hsome
  | serve worker env => exact serve_someAwake h
  | enqueue worker woken => exact enqueue_someAwake h hroom
  | complete worker woken => exact complete_someAwake h hroom

private theorem not_frozen (hsome : SomeAwake s.workers) : ¬ s.Frozen sha := by
  intro ⟨_, hasleep⟩
  obtain ⟨i, w, hget, hawake⟩ := hsome
  have hwaits := asleep_waits (hasleep [] s rfl w (List.mem_of_getElem? hget))
  rw [hawake] at hwaits
  cases hwaits

/-- As long as the last worker that runs finds room, the pool does not freeze. -/
theorem pool_never_frozen {service : Service} {workers : Nat} {events : List ServerEvent}
    (hworkers : 0 < workers)
    (hrun : (Server.start service workers).PlayWith sha Server.RoomForLast events s) :
    ¬ s.Frozen sha := by
  refine not_frozen (hrun.invariant (fun _ _ _ => step_someAwake) ⟨0, .idle, ?_, rfl⟩)
  rw [Server.start, List.getElem?_replicate, if_pos hworkers]

def samplePing : FrFrame := sampleFrame .ping (pure ())

/-- A worker handles requests, whose completions nobody drains. -/
def sampleRounds (n : Nat) : List ServerEvent :=
  (List.replicate n [.pop 0, .serve 0 (sampleRequestEnv 1), .complete 0 none]).flatten

/-- There is room in both queues. -/
def Server.roomy (s : Server) (_ : ServerEvent) : Bool :=
  s.queue.length < queueCapacity && s.doneQueue.length < doneQueueHighWater

private theorem roomy_roomForLast (s : Server) (e : ServerEvent) (h : s.roomy e = true) :
    s.RoomForLast e := by
  rw [Server.roomy, Bool.and_eq_true, decide_eq_true_iff, decide_eq_true_iff] at h
  cases e with
  | enqueue i woken => exact .inl h.1
  | complete i woken => exact .inl h.2
  | _ => trivial

/-- A worker handles two requests, which are drained. -/
theorem pool_never_frozen_sample : ∃ s, (Server.start sampleService 1).playIf sampleSha
    Server.roomy (.accept [] :: .receive 1 samplePing none :: .receive 1 samplePing none ::
      sampleRounds 2 ++ [.drain]) = some s ∧ ¬ s.Frozen sampleSha := by
  have hplay : ((Server.start sampleService 1).playIf sampleSha Server.roomy
      (.accept [] :: .receive 1 samplePing none :: .receive 1 samplePing none ::
        sampleRounds 2 ++ [.drain])).isSome = true := by
    decide +kernel
  obtain ⟨s, hs⟩ := Option.isSome_iff_exists.mp hplay
  exact ⟨s, hs, pool_never_frozen (by decide) (Server.playIf_playWith roomy_roomForLast hs)⟩

private theorem sleeping_step {e : ServerEvent}
    (hsleep : ∀ w ∈ s.workers, w.sleepsForCompletions = true)
    (h : s.step sha e = some s') : s'.workers = s.workers := by
  have hstate : ∀ (i : Nat) (w : Worker), s.workers[i]? = some w →
      ∃ done, w = Worker.completing .parked done := by
    intro i w hget
    have hw := hsleep w (List.mem_of_getElem? hget)
    unfold Worker.sleepsForCompletions at hw
    split at hw
    · exact ⟨_, rfl⟩
    · cases hw
  cases e with
  | accept peer | drain | maintenance env =>
    cases h
    rfl
  | close connId =>
    cases h
    exact (s.close_elsewhere connId).1
  | receive connId frame woken =>
    simp only [Server.step, Server.receive] at h
    split at h
    · cases h
    split at h
    · obtain ⟨workers, hnotify, rfl⟩ := Option.map_eq_some_iff.mp h
      refine notifyOne_none hnotify fun w hw => ?_
      obtain ⟨i, hget⟩ := List.getElem?_of_mem hw
      obtain ⟨done, rfl⟩ := hstate i w hget
      rfl
    · split at h
      · cases h
        rfl
      · cases h
  | reject connId status =>
    obtain ⟨conn, -, rfl⟩ := Option.map_eq_some_iff.mp h
    rfl
  | flush connId n =>
    obtain ⟨conn, -, rfl⟩ := Option.map_eq_some_iff.mp h
    dsimp only
    split
    · exact (Server.close_elsewhere _ connId).1
    · rfl
  | pop i =>
    simp only [Server.step, Server.pop] at h
    split at h
    · cases h
      rfl
    · rename_i hget _
      obtain ⟨done, hw⟩ := hstate i _ hget
      cases hw
    · cases h
  | serve i env =>
    simp only [Server.step, Server.serve] at h
    split at h
    · rename_i hget
      obtain ⟨done, hw⟩ := hstate i _ hget
      cases hw
    · cases h
  | enqueue i woken =>
    simp only [Server.step, Server.enqueue] at h
    split at h
    · rename_i hget
      obtain ⟨done, hw⟩ := hstate i _ hget
      cases hw
    · cases h
  | complete i woken =>
    simp only [Server.step, Server.complete] at h
    split at h
    · rename_i hget
      obtain ⟨done, hw⟩ := hstate i _ hget
      cases hw
      rw [if_pos rfl] at h
      cases h
    · cases h

private theorem frozen_of_sleeping (hworkers : s.workers ≠ [])
    (hsleep : ∀ w ∈ s.workers, w.sleepsForCompletions = true) : s.Frozen sha := by
  refine ⟨hworkers, fun events s' hrun => ?_⟩
  have hsame : s'.workers = s.workers := by
    clear hworkers
    induction events generalizing s with
    | nil =>
      cases hrun
      rfl
    | cons e events ih =>
      obtain ⟨s₁, hstep, hrest⟩ := Option.bind_eq_some_iff.mp hrun
      have hworkers := sleeping_step hsleep hstep
      rw [ih (hworkers ▸ hsleep) hrest, hworkers]
  rw [hsame]
  intro w hw
  rw [Worker.asleep, hsleep w hw, Bool.or_true]

/-- A client sends 129 requests, and all completions are drained while the one worker sleeps. -/
theorem pool_freezes : ∃ events s,
    (Server.start sampleService 1).play sampleSha events = some s ∧ s.Frozen sampleSha := by
  have hplay : (((Server.start sampleService 1).play sampleSha (.accept [] ::
      List.replicate 129 (.receive 1 samplePing none) ++ sampleRounds 129)).map fun s =>
      s.workers.map Worker.sleepsForCompletions) = some [true] := by
    decide +kernel
  obtain ⟨s, hs, hworkers⟩ := Option.map_eq_some_iff.mp hplay
  refine ⟨_, s, hs, frozen_of_sleeping ?_ fun w hw => ?_⟩
  · intro hnil
    rw [hnil] at hworkers
    cases hworkers
  · have hmem : w.sleepsForCompletions ∈ s.workers.map Worker.sleepsForCompletions :=
      List.mem_map_of_mem hw
    rw [hworkers, List.mem_singleton] at hmem
    exact hmem

end ForgeRelay
