import ForgeRelay.Transport.InFlight

/-!
# Downloads and their connections

The state of a download is kept under the number of its connection, and its continuation leads
from slice to slice. A slice that cannot be read ends the chain, and a request that is handled
behind the close of its connection begins one; both leave a state behind that nothing removes, or
only the end of the connection.
-/

namespace ForgeRelay

open Program

/-- The task continues this download. -/
def Task.continues (key : Bytes) (task : Task) : Bool := task.isGetContinue && task.getKey == key

/-- Every download belongs to an open connection and has exactly one continuation: on the queue,
with the worker that serves it, or with the one that is about to enqueue it. -/
def Server.DownloadsLive (s : Server) : Prop := ∀ key state, s.service.gets key = some state →
  (∃ connId n, key = getKey connId n ∧ (s.connections connId).isSome) ∧
    s.tasks.countP (·.continues key) = 1

/-- Closing a connection removes the downloads of this connection, and no others. -/
structure Service.ClosesOwn (s : Service) : Prop where
  own : ∀ connId n, (onConnectionClosed connId s).gets (getKey connId n) = none
  others : ∀ connId key, (∀ n, key ≠ getKey connId n) →
    (onConnectionClosed connId s).gets key = s.gets key

/-- The download that a task starts or continues, and its state before the slice. -/
def Service.sliceOf (s : Service) (session : ClientSession) (task : Task) :
    Option (Bytes × GetState) :=
  if task.isGetContinue then (s.gets task.getKey).map fun state => (task.getKey, state)
  else if FrMsgType.ofByte task.type = some .getArtifact then
    match requireRole session .reader, decodeFrame decodeGetArtifactReq task.frame with
    | .ok _, .ok req =>
      let key := getKey task.connId s.getSeq
      some (key, (s.gets key).getD (newGet task.frame req))
    | _, _ => none
  else none

/-- The slice is the last one. -/
def Task.ends (task : Task) (state : GetState) (sent : UInt64) : Bool :=
  state.remaining == 0 || task.isGetContinue && sent == 0

/-- What a slice that can be read leaves of its download. -/
def SliceDone (task : Task) (key : Bytes) (state : GetState) (sent : UInt64)
    (gets : Bytes → Option GetState) (result : HandleResult) (gets' : Bytes → Option GetState) :
    Prop :=
  if task.ends state sent then result.hasMore = false ∧ gets' = Function.update gets key none
  else result.hasMore = true ∧ result.continuationKey = key ∧
    gets' = Function.update gets key (some state)

variable {sha : Sha256} {env : RequestEnv} {session : ClientSession} {task : Task}
  {s s' : Service} {result : HandleResult} {key key' : Bytes} {state state' : GetState}
  {out : List FrFrame} {sent : UInt64}

private theorem Service.sliceOf_of_continues (hcontinues : task.continues key = true)
    (hget : s.gets key = some state) : s.sliceOf session task = some (key, state) := by
  rw [Task.continues, Bool.and_eq_true, beq_iff_eq] at hcontinues
  obtain ⟨hkind, rfl⟩ := hcontinues
  rw [sliceOf, if_pos hkind, hget]
  rfl

private theorem Service.sliceOf_cases (h : s.sliceOf session task = some (key, state)) :
    task.continues key = true ∧ s.gets key = some state ∨
      task.isGetContinue = false ∧ key = getKey task.connId s.getSeq := by
  unfold sliceOf at h
  split at h
  · rename_i hkind
    obtain ⟨state', hget, heq⟩ := Option.map_eq_some_iff.mp h
    cases heq
    exact .inl ⟨by rw [Task.continues, hkind, beq_self_eq_true]; rfl, hget⟩
  · rename_i hkind
    split at h
    · split at h
      · cases h
        exact .inr ⟨Bool.eq_false_iff.mpr hkind, rfl⟩
      · cases h
    · cases h

private theorem endOfGet_ok (out : List FrFrame) (reqId : UInt32) (state : GetState) :
    ∃ result, endOfGet out reqId state = .ok result ∧ result.hasMore = false :=
  ⟨_, rfl, rfl⟩

private theorem handleGetContinue_done (hkind : task.isGetContinue = true)
    (hget : s.gets task.getKey = some state)
    (hslice : sendSlice s.store state = .ok (state', out, sent)) :
    ∃ result gets, (handleGetContinue task.getKey).run s = (.ok result, { s with gets := gets }) ∧
      SliceDone task task.getKey state' sent s.gets result gets := by
  rw [handleGetContinue, Prog.run_lift, hget]
  dsimp only
  rw [hslice]
  dsimp only
  by_cases hends : state'.remaining = 0 ∨ sent = 0
  · obtain ⟨result, hresult, hmore⟩ := endOfGet_ok out state'.reqId state'
    rw [if_pos hends, hresult]
    refine ⟨result, _, rfl, ?_⟩
    rw [SliceDone, if_pos (by simpa [Task.ends, hkind] using hends)]
    exact ⟨hmore, rfl⟩
  · rw [if_neg hends]
    refine ⟨_, _, rfl, ?_⟩
    rw [SliceDone, if_neg (by simpa [Task.ends, hkind] using hends)]
    exact ⟨rfl, rfl, rfl⟩

private theorem startGet_done {req : GetArtifactReq} (hkind : task.isGetContinue = false)
    (hslice :
      sendSlice s.store ((s.gets (getKey task.connId s.getSeq)).getD (newGet task.frame req)) =
        .ok (state', out, sent)) :
    ∃ result gets, (startGet task.connId task.frame req).run s =
        (.ok result, { s with getSeq := s.getSeq + 1, gets := gets }) ∧
      SliceDone task (getKey task.connId s.getSeq) state' sent s.gets result gets := by
  rw [newGet] at hslice
  rw [startGet, Prog.run_lift]
  dsimp only
  rw [hslice]
  dsimp only
  by_cases hends : state'.remaining = 0
  · obtain ⟨result, hresult, hmore⟩ := endOfGet_ok out (outReqId task.frame) state'
    rw [if_pos hends, hresult, Function.update_idem]
    refine ⟨result, _, rfl, ?_⟩
    rw [SliceDone, if_pos (by simp [Task.ends, hends])]
    exact ⟨hmore, rfl⟩
  · rw [if_neg hends, Function.update_idem]
    refine ⟨_, _, rfl, ?_⟩
    rw [SliceDone, if_neg (by simp [Task.ends, hends, hkind])]
    exact ⟨rfl, rfl, rfl⟩

private theorem handle_cases {session' : ClientSession} {r : Except Error HandleResult}
    {s₁ : Service} (hframe : (handleFrame sha env task.connId task.peer session task.frame).run s =
      (.ok (session', r), s₁))
    (hkind : task.isGetContinue = false)
    (h : handleTask sha env session task s = (.ok result, s')) :
    r = .ok result ∧ s' = s₁ ∨
      (∃ e, r = .error e) ∧ SameDownloads s₁ s' ∧ result.hasMore = false := by
  rw [handleTask, if_neg (Bool.eq_false_iff.mp hkind), handle, Prog.run_bind, hframe] at h
  cases r with
  | ok result' =>
    cases h
    exact .inl ⟨rfl, rfl⟩
  | error e =>
    obtain ⟨code, what, close, -, rfl, hsame⟩ : ∃ code what close, what.length ≤ maxStringLen ∧
        result = refusal task code what close ∧ SameDownloads s₁ s' := by
      cases e with
      | fr code what =>
        exact handleFailed_refusal env task.peer session' task (e := .fr code what) h
      | std what => exact handleFailed_refusal env task.peer session' task (e := .std what) h
    exact .inr ⟨⟨e, rfl⟩, hsame, rfl⟩

private theorem handleTask_slice (h : handleTask sha env session task s = (.ok result, s')) :
    match s.sliceOf session task with
    | none => s'.gets = s.gets ∧ result.hasMore = false
    | some (key, state) => ∀ state' out sent, sendSlice s.store state = .ok (state', out, sent) →
        SliceDone task key state' sent s.gets result s'.gets := by
  rw [Service.sliceOf]
  by_cases hkind : task.isGetContinue = true
  · rw [handleTask, if_pos hkind] at h
    rw [if_pos hkind]
    cases hget : s.gets task.getKey with
    | none =>
      rw [handleGetContinue_none hget] at h
      cases h
      exact ⟨rfl, rfl⟩
    | some state =>
      intro state' out sent hslice
      obtain ⟨result', gets, hrun, hdone⟩ := handleGetContinue_done hkind hget hslice
      rw [hrun] at h
      cases h
      exact hdone
  rw [if_neg hkind]
  have hkind := Bool.eq_false_iff.mpr hkind
  by_cases htype : FrMsgType.ofByte task.type = some .getArtifact
  · have hget := handleFrame_get sha env task.connId task.peer session task.frame htype s
    rw [if_pos htype]
    rw [handleGetArtifact] at hget
    cases hrole : requireRole session .reader with
    | error e =>
      rw [hrole] at hget
      rcases handle_cases hget hkind h with ⟨hr, -⟩ | ⟨-, hsame, hmore⟩
      · cases hr
      · exact ⟨hsame.gets, hmore⟩
    | ok u =>
      cases hreq : decodeFrame decodeGetArtifactReq task.frame with
      | error e =>
        rw [hrole, decode, hreq] at hget
        rcases handle_cases hget hkind h with ⟨hr, -⟩ | ⟨-, hsame, hmore⟩
        · cases hr
        · exact ⟨hsame.gets, hmore⟩
      | ok req =>
        intro state' out sent hslice
        obtain ⟨result', gets, hrun, hdone⟩ := startGet_done hkind hslice
        rw [hrole, decode, hreq] at hget
        change _ = (Except.ok (session, ((startGet task.connId task.frame req).run s).1),
          ((startGet task.connId task.frame req).run s).2) at hget
        rw [hrun] at hget
        rcases handle_cases hget hkind h with ⟨hr, rfl⟩ | ⟨⟨e, he⟩, -⟩
        · cases hr
          exact hdone
        · cases he
  · rw [if_neg htype]
    obtain ⟨session', r, s₁, hframe, hreached⟩ := handleFrame_reached (s := s)
    rcases handle_cases hframe hkind h with ⟨rfl, rfl⟩ | ⟨⟨e, rfl⟩, hsame, hmore⟩
    · cases hreached with
      | replied hsame => exact ⟨hsame.gets, rfl⟩
      | download htype' => exact absurd htype' htype
    · cases hreached with
      | failed hsame' => exact ⟨(hsame'.trans hsame).gets, hmore⟩
      | download htype' => exact absurd htype' htype

namespace Server

variable {s s' : Server} {i : Nat} {connId : Nat} {enter leave : List Task}

theorem DownloadsLive.of_same (h : s.DownloadsLive)
    (hgets : ∀ key state, s'.service.gets key = some state → s.service.gets key = some state)
    (hopen : ∀ connId n state, s'.service.gets (getKey connId n) = some state →
      (s.connections connId).isSome → (s'.connections connId).isSome)
    (htasks : ∀ key state, s'.service.gets key = some state →
      s'.tasks.countP (·.continues key) = s.tasks.countP (·.continues key)) :
    s'.DownloadsLive := by
  intro key state hget
  obtain ⟨⟨connId, n, rfl, hconn⟩, hcount⟩ := h key state (hgets key state hget)
  exact ⟨⟨connId, n, rfl, hopen connId n state hget hconn⟩, (htasks _ state hget).trans hcount⟩

theorem Carries.count (h : s.Carries s' enter leave) (henter : ∀ t ∈ enter, t.isGetContinue = false)
    (hleave : ∀ t ∈ leave, t.isGetContinue = false) (key : Bytes) :
    s'.tasks.countP (·.continues key) = s.tasks.countP (·.continues key) := by
  have hnone : ∀ tasks : List Task, (∀ t ∈ tasks, t.isGetContinue = false) →
      tasks.countP (·.continues key) = 0 := by
    intro tasks htasks
    refine List.countP_eq_zero.mpr fun t ht => ?_
    rw [Task.continues, htasks t ht]
    exact Bool.false_ne_true
  have hcount := h.tasks.countP_eq (·.continues key)
  rwa [List.countP_append, List.countP_append, hnone enter henter, hnone leave hleave, Nat.add_zero,
    Nat.zero_add] at hcount

theorem DownloadsLive.carries (h : s.DownloadsLive) (hcarry : s.Carries s' enter leave)
    (henter : ∀ t ∈ enter, t.isGetContinue = false)
    (hleave : ∀ t ∈ leave, t.isGetContinue = false) : s'.DownloadsLive := by
  refine h.of_same (fun key state hget => ?_) (fun connId n state _ hconn => ?_)
    fun key _ _ => hcarry.count henter hleave key
  · rwa [hcarry.service] at hget
  · rwa [hcarry.connections]

private theorem DownloadsLive.of_open (h : s.DownloadsLive)
    (hservice : s'.service.gets = s.service.gets)
    (hqueue : s'.queue = s.queue) (hworkers : s'.workers = s.workers)
    (hopen : ∀ connId, (s.connections connId).isSome → (s'.connections connId).isSome) :
    s'.DownloadsLive := by
  refine h.of_same (fun key state hget => hservice ▸ hget) (fun connId _ _ _ => hopen connId)
    fun key _ _ => ?_
  rw [tasks, tasks, hqueue, hworkers]

theorem DownloadsLive.close (h : s.DownloadsLive) (connId : Nat) :
    (s.close connId).DownloadsLive := by
  obtain ⟨hworkers, hqueue, -⟩ := s.close_elsewhere connId
  unfold Server.close at hworkers hqueue ⊢
  split at hworkers
  · exact h
  refine h.of_same (fun key state hget => ?_) (fun c n state hget hconn => ?_) fun key _ _ => rfl
  · dsimp only [onConnectionClosed] at hget
    split at hget
    · cases hget
    · exact hget
  · have hc : c ≠ connId := by
      intro hc
      dsimp only [onConnectionClosed] at hget
      rw [if_pos (isPrefixOf_getKey.mpr hc)] at hget
      cases hget
    dsimp only
    rwa [Function.update_of_ne hc]

private theorem deliver_isSome {connections : Nat → Option Connection} {done : Completion} {c : Nat}
    (h : (connections c).isSome) : (deliver connections done c).isSome := by
  cases hconn : connections done.connId with
  | none => rwa [deliver, hconn]
  | some conn =>
    rw [deliver, hconn]
    dsimp only
    split
    · exact h
    · exact isSome_update c h

private theorem drain_isSome {c : Nat} (h : (s.connections c).isSome) :
    (s.drain.connections c).isSome := by
  have hfold : ∀ (queue : List Completion) (connections : Nat → Option Connection),
      (connections c).isSome → ((queue.foldl deliver connections) c).isSome := by
    intro queue
    induction queue with
    | nil => exact fun connections hc => hc
    | cons done queue ih => exact fun connections hc => ih _ (deliver_isSome hc)
  exact hfold s.doneQueue s.connections h

private theorem step_downloadsLive {e : ServerEvent} (hlive : s.DownloadsLive)
    (hother : e.isOther = true) (h : s.step sha e = some s') : s'.DownloadsLive := by
  cases e with
  | accept peer =>
    cases h
    exact hlive.of_open rfl rfl rfl fun c => isSome_update c
  | receive connId frame woken =>
    obtain ⟨conn, -, hcarry | rfl⟩ := receive_cases h
    · exact hlive.carries hcarry (fun t ht => List.mem_singleton.mp ht ▸ rfl) fun t ht => nomatch ht
    · exact hlive.of_open rfl rfl rfl fun c => isSome_update c
  | reject connId status =>
    obtain ⟨conn, -, rfl⟩ := Option.map_eq_some_iff.mp h
    exact hlive.of_open rfl rfl rfl fun c => isSome_update c
  | drain =>
    cases h
    exact hlive.of_open rfl rfl rfl fun c => drain_isSome
  | flush connId n =>
    obtain ⟨conn, -, rfl⟩ := Option.map_eq_some_iff.mp h
    have hflush : Server.DownloadsLive { s with
        connections := Function.update s.connections connId
          (some { conn with outbox := conn.outbox.drop n }) } :=
      hlive.of_open rfl rfl rfl fun c => isSome_update c
    dsimp only
    split
    · exact hflush.close connId
    · exact hflush
  | close connId =>
    cases h
    exact hlive.close connId
  | maintenance env =>
    cases h
    exact hlive.of_open rfl rfl rfl fun c => id
  | pop worker =>
    exact hlive.carries (pop_carries h) (fun t ht => nomatch ht) fun t ht => nomatch ht
  | serve worker env => cases hother
  | enqueue worker woken =>
    exact hlive.carries (enqueue_carries h) (fun t ht => nomatch ht) fun t ht => nomatch ht
  | complete worker woken =>
    exact hlive.carries (complete_carries h) (fun t ht => nomatch ht) fun t ht => nomatch ht

private theorem served_downloadsLive {result : HandleResult} {session : ClientSession}
    (hlive : s.DownloadsLive) (h : Served sha env i task result s s')
    (hget : s.workers[i]? = some (.popped task))
    (hhandle : handleTask sha env session task s.service = (.ok result, s'.service))
    (hread : ∀ key state, s.service.sliceOf session task = some (key, state) →
      ∃ state' out sent, sendSlice s.service.store state = .ok (state', out, sent) ∧
        (task.ends state' sent = true ∨ task.isGetContinue = true ∨
          (s.connections task.connId).isSome ∧ s.tasks.countP (·.continues key) = 0)) :
    s'.DownloadsLive := by
  have hopen : ∀ c, (s.connections c).isSome → (s'.connections c).isSome := by
    intro c hc
    rw [← Option.isSome_map (f := (·.anonymous))] at hc ⊢
    rwa [h.connections c]
  have hcount : ∀ key', s'.tasks.countP (·.continues key') + [task].countP (·.continues key') =
      (if result.hasMore ∧ result.continuationKey = key' then 1 else 0) +
        s.tasks.countP (·.continues key') := by
    intro key'
    have hperm := (h.tasks hget).countP_eq (·.continues key')
    rw [List.countP_append, List.countP_append] at hperm
    rw [hperm]
    congr 1
    by_cases hmore : result.hasMore = true
    · simp [hmore, Task.continues, Task.continuation, List.countP_cons]
    · simp [hmore]
  have hslice := handleTask_slice hhandle
  cases hof : s.service.sliceOf session task with
  | none =>
    rw [hof] at hslice
    obtain ⟨hgets, hmore⟩ := hslice
    refine hlive.of_same (fun key state hs => hgets ▸ hs) (fun c _ _ _ => hopen c)
      fun key state hs => ?_
    have hcontinues : ¬ task.continues key = true := by
      intro hcontinues
      rw [Service.sliceOf_of_continues hcontinues (hgets ▸ hs)] at hof
      cases hof
    have hcount := hcount key
    rw [hmore, List.countP_singleton, if_neg hcontinues] at hcount
    simpa using hcount
  | some slice =>
    obtain ⟨key, state⟩ := slice
    rw [hof] at hslice
    obtain ⟨state', out, sent, hsend, hmay⟩ := hread key state hof
    have hdone := hslice state' out sent hsend
    have hothers : ∀ key', key' ≠ key → ∀ state, s.service.gets key' = some state →
        ¬ task.continues key' = true := by
      intro key' hne state₁ hget' hcontinues
      rw [Service.sliceOf_of_continues hcontinues hget'] at hof
      cases hof
      exact hne rfl
    rw [SliceDone] at hdone
    split at hdone
    · obtain ⟨hmore, hgets⟩ := hdone
      have hold : ∀ key' state', s'.service.gets key' = some state' →
          key' ≠ key ∧ s.service.gets key' = some state' := by
        intro key' state₁ hs
        rw [hgets] at hs
        by_cases hkey : key' = key
        · rw [hkey, Function.update_self] at hs
          cases hs
        · rw [Function.update_of_ne hkey] at hs
          exact ⟨hkey, hs⟩
      refine hlive.of_same (fun key' state₁ hs => (hold key' state₁ hs).2) (fun c _ _ _ => hopen c)
        fun key' state₁ hs => ?_
      obtain ⟨hne, hs⟩ := hold key' state₁ hs
      have hcount := hcount key'
      rw [hmore, List.countP_singleton, if_neg (hothers key' hne state₁ hs)] at hcount
      simpa using hcount
    · rename_i hends
      obtain ⟨hmore, hkey, hgets⟩ := hdone
      intro key' state₁ hs
      have hcount := hcount key'
      rw [List.countP_singleton] at hcount
      by_cases hsame : key' = key
      · subst hsame
        have hmade : result.hasMore = true ∧ result.continuationKey = key' := ⟨hmore, hkey⟩
        rw [if_pos hmade] at hcount
        rcases Service.sliceOf_cases hof with ⟨hcontinues, hbefore⟩ | ⟨hkind, hown⟩
        · obtain ⟨⟨c, n, hc, hconn⟩, hone⟩ := hlive key' state hbefore
          rw [if_pos hcontinues] at hcount
          exact ⟨⟨c, n, hc, hopen c hconn⟩, by omega⟩
        · obtain ⟨hconn, hzero⟩ := (hmay.resolve_left hends).resolve_left
            (Bool.eq_false_iff.mp hkind)
          have hnot : ¬ task.continues key' = true := by
            rw [Task.continues, hkind, Bool.false_and]
            exact Bool.false_ne_true
          rw [if_neg hnot] at hcount
          exact ⟨⟨_, _, hown, hopen _ hconn⟩, by omega⟩
      · rw [hgets, Function.update_of_ne hsame] at hs
        obtain ⟨⟨c, n, hc, hconn⟩, hone⟩ := hlive key' state₁ hs
        have hother : ¬ (result.hasMore = true ∧ result.continuationKey = key') :=
          fun hmade => hsame (hmade.2.symm.trans hkey)
        rw [if_neg hother, if_neg (hothers key' hsame state₁ hs)] at hcount
        exact ⟨⟨c, n, hc, hopen c hconn⟩, by omega⟩

end Server

private theorem Server.DownloadsLive.closesOwn {s : Server} (h : s.DownloadsLive) :
    s.service.ClosesOwn := by
  refine ⟨fun connId n => if_pos (isPrefixOf_getKey.mpr rfl), fun connId key hkey => ?_⟩
  dsimp only [onConnectionClosed]
  split
  · rename_i hprefix
    cases hget : s.service.gets key with
    | none => rfl
    | some state =>
      obtain ⟨⟨c, n, rfl, -⟩, -⟩ := h key state hget
      exact absurd (isPrefixOf_getKey.mp hprefix ▸ rfl) (hkey n)
  · rfl

namespace Daemon

/-- The slice of the task that is handled can be read. If a request is answered with the first of
several slices, its connection is still open, and no continuation has the key of its download. -/
def tends (d : Daemon) : DaemonEvent → Bool
  | .handle i _ =>
    match d.server.workers[i]? with
    | some (.popped task) =>
      match d.server.service.sliceOf ((d.sessionOf task.connId).getD .fresh) task with
      | some (key, state) =>
        match sendSlice d.server.service.store state with
        | .ok (state, _, sent) => task.ends state sent || task.isGetContinue ||
            (d.server.connections task.connId).isSome &&
              d.server.tasks.countP (·.continues key) == 0
        | .error _ => false
      | none => true
    | _ => true
  | _ => true

def TendedStep (sha : Sha256) (d : Daemon) (e : DaemonEvent) (d' : Daemon) : Prop :=
  d.tends e = true ∧ Step sha d e d'

variable {d d' : Daemon} {i : Nat}

private theorem tends_handle {session : ClientSession} (h : d.tends (.handle i env) = true)
    (hget : d.server.workers[i]? = some (.popped task))
    (hsession : task.isGetContinue = false → d.sessionOf task.connId = some session)
    (hof : d.server.service.sliceOf session task = some (key, state)) :
    ∃ state' out sent, sendSlice d.server.service.store state = .ok (state', out, sent) ∧
      (task.ends state' sent = true ∨ task.isGetContinue = true ∨
        (d.server.connections task.connId).isSome ∧
          d.server.tasks.countP (·.continues key) = 0) := by
  have hsame : d.server.service.sliceOf ((d.sessionOf task.connId).getD .fresh) task =
      some (key, state) := by
    rw [← hof]
    cases hkind : task.isGetContinue with
    | true => rw [Service.sliceOf, Service.sliceOf, if_pos hkind, if_pos hkind]
    | false => rw [hsession hkind, Option.getD_some]
  simp only [tends, hget, hsame] at h
  split at h
  · rename_i state' out sent hsend
    refine ⟨state', out, sent, hsend, ?_⟩
    simpa [or_assoc] using h
  · cases h

private theorem step_downloadsLive {e : DaemonEvent} (hlive : d.server.DownloadsLive)
    (h : TendedStep sha d e d') : d'.server.DownloadsLive := by
  obtain ⟨htends, hstep⟩ := h
  cases e with
  | other e =>
    rw [Step, step] at hstep
    split at hstep
    · rename_i hother
      obtain ⟨server, hserver, rfl⟩ := Option.map_eq_some_iff.mp hstep
      exact Server.step_downloadsLive hlive hother hserver
    · cases hstep
  | look i =>
    obtain ⟨task, hget, hkind, hserver | hserver⟩ := look_cases hstep
    · rwa [hserver]
    · rw [hserver]
      exact hlive.carries (Server.drop_carries hget) (fun t ht => nomatch ht)
        fun t ht => List.mem_singleton.mp ht ▸ hkind
  | handle i env =>
    obtain ⟨task, result, session, hget, hsession, hhandle, hserved⟩ := handle_served hstep
    exact Server.served_downloadsLive hlive hserved hget hhandle
      fun key state hof => tends_handle htends hget hsession hof

end Daemon

/-- As long as slices can be read and no request is handled behind the end of its connection. -/
theorem downloads_live {store : Store} {auth : AuthDb} {workers : Nat} {events : List DaemonEvent}
    {d : Daemon}
    (hrun : Trace.Run (Daemon.TendedStep sha) (.start (.start store auth) workers) events d) :
    d.server.DownloadsLive ∧ d.server.service.ClosesOwn := by
  have hlive : d.server.DownloadsLive :=
    hrun.invariant (fun _ _ _ _ hlive hstep => Daemon.step_downloadsLive hlive hstep)
      fun key state hget => nomatch hget
  exact ⟨hlive, hlive.closesOwn⟩

/-- A worker serves a request. -/
def sampleServing (frame : FrFrame) : List DaemonEvent :=
  [.other (.receive 1 frame none), .other (.pop 0), .look 0, .handle 0 (sampleRequestEnv 3)]

/-- `bob` connects, authenticates and sends a request. -/
def sampleDialogue (frame : FrFrame) : List DaemonEvent :=
  .other (.accept []) :: sampleServing (sampleFrame .auth (encodeAuthReq ⟨sampleToken⟩)) ++
    .other (.complete 0 none) :: sampleServing frame

/-- A request for an artifact that does not exist. -/
def sampleMissing : FrFrame :=
  sampleFrame .getArtifact
    (encodeGetArtifactReq ⟨⟨ascii "team", ascii "app", ascii "2.0"⟩, 0, 2⟩)

theorem downloads_live_sample : ∃ d,
    Trace.playIf (Daemon.step sampleSha) Daemon.tends (.start sampleArchive 1)
      (sampleDialogue (sampleGet 2)) = some d ∧
      d.server.DownloadsLive ∧ d.server.service.ClosesOwn := by
  obtain ⟨d, hd⟩ : ∃ d, Trace.playIf (Daemon.step sampleSha) Daemon.tends (.start sampleArchive 1)
      (sampleDialogue (sampleGet 2)) = some d :=
    Option.isSome_iff_exists.mp (by decide +kernel)
  exact ⟨d, hd, downloads_live (Trace.playIf_run hd fun _ _ _ htends hstep => ⟨htends, hstep⟩)⟩

/-- The request is answered with an error, and its download stays without a continuation. -/
theorem download_stranded : ∃ d,
    Trace.Run (Daemon.Step sampleSha) (.start sampleArchive 1) (sampleDialogue sampleMissing) d ∧
      ¬ d.server.DownloadsLive := by
  have hleft : (Trace.playIf (Daemon.step sampleSha) (fun _ _ => true) (.start sampleArchive 1)
      (sampleDialogue sampleMissing)).map (fun d =>
        ((d.server.service.gets (getKey 1 0)).isSome, d.server.tasks.length)) = some (true, 0) := by
    decide +kernel
  obtain ⟨d, hd, hstate⟩ := Option.map_eq_some_iff.mp hleft
  refine ⟨d, Trace.playIf_run hd fun _ _ _ _ hstep => hstep, fun hlive => ?_⟩
  obtain ⟨hsome, hlength⟩ := Prod.mk.inj hstate
  obtain ⟨state, hget⟩ := Option.isSome_iff_exists.mp hsome
  obtain ⟨-, hone⟩ := hlive _ state hget
  rw [List.length_eq_zero_iff.mp hlength] at hone
  cases hone

end ForgeRelay
