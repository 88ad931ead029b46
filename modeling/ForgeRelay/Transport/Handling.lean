import ForgeRelay.Service.Authorization
import ForgeRelay.Service.Downloads
import ForgeRelay.Storage.Durability
import ForgeRelay.Transport.Server

/-!
# What a worker gets for its task

One reply, a slice of a download, or nothing if the download has ended; and what serving a task
does to the server.
-/

namespace ForgeRelay

open Program

/-- `worker_loop` between `pop_task` and the queues: the result, if no exception ends the process,
and the service after it. -/
def handleTask (sha : Sha256) (env : RequestEnv) (session : ClientSession) (task : Task)
    (s : Service) : Except Error HandleResult × Service :=
  if task.isGetContinue then
    let (r, s) := (handleGetContinue task.getKey).run s
    (workerResult task r, s)
  else
    let (r, s) := (handle sha env task.connId task.peer session task.frame).run s
    (workerResult task (r.map Prod.fst), s)

/-- The reply to an exception. -/
def refusal (task : Task) (code : FrStatus) (what : Bytes) (close : Bool) : HandleResult :=
  { HandleResult.empty with
    out := [errorFrame (outReqId task.frame) code what], closeConnection := close }

/-- A slice of a download as a worker gets it, and the states of the downloads after it. -/
inductive Streamed (task : Task) (key : Bytes) (gets : Bytes → Option GetState)
    (state : GetState) : HandleResult → (Bytes → Option GetState) → Prop
  | failed {code : FrStatus} {what : Bytes} {close : Bool} (hlen : what.length ≤ maxStringLen) :
      Streamed task key gets state (refusal task code what close)
        (Function.update gets key (some state))
  | last {pieces : List Bytes} {sent : UInt64} (hslice : IsSlice state pieces sent) :
      Streamed task key gets state
        { HandleResult.empty with
          out := pieces.map (dataFrame state.reqId) ++
            [lastFrame state.reqId (state.advance sent).sent] }
        (Function.update gets key none)
  | more {pieces : List Bytes} {sent : UInt64} (hslice : IsSlice state pieces sent) :
      Streamed task key gets state
        { HandleResult.empty with
          out := pieces.map (dataFrame state.reqId), hasMore := true, continuationKey := key }
        (Function.update gets key (some (state.advance sent)))

/-- What a worker gets for its task. -/
inductive Handled (task : Task) (s : Service) : HandleResult → Service → Prop
  | replied {payload : Bytes} {close : Bool} {s' : Service} (hkind : task.isGetContinue = false)
      (hsame : SameDownloads s s') :
      Handled task s { makeOk task.frame payload with closeConnection := close } s'
  | refused {code : FrStatus} {what : Bytes} {close : Bool} {s' : Service}
      (hkind : task.isGetContinue = false) (hsame : SameDownloads s s')
      (hlen : what.length ≤ maxStringLen) : Handled task s (refusal task code what close) s'
  | started {req : GetArtifactReq} {result : HandleResult} {s' : Service}
      (hkind : task.isGetContinue = false)
      (htype : FrMsgType.ofByte task.type = some .getArtifact)
      (hreq : decodeFrame decodeGetArtifactReq task.frame = .ok req)
      (hseq : s'.getSeq = s.getSeq + 1)
      (hslice : Streamed task (getKey task.connId s.getSeq) s.gets (newGet task.frame req) result
        s'.gets) : Handled task s result s'
  | gone (hkind : task.isGetContinue = true) (hget : s.gets task.getKey = none) :
      Handled task s .empty s
  | continued {state : GetState} {result : HandleResult} {s' : Service}
      (hkind : task.isGetContinue = true) (hget : s.gets task.getKey = some state)
      (hseq : s'.getSeq = s.getSeq)
      (hslice : Streamed task task.getKey s.gets state result s'.gets) : Handled task s result s'

variable {sha : Sha256} {env : RequestEnv} {session : ClientSession} {task : Task}
  {s s' : Service} {result : HandleResult}

theorem workerCatch_short {code : FrStatus} {what : Bytes} (hlen : what.length ≤ maxStringLen) :
    workerCatch task (.fr code what) = .ok (refusal task code what false) ∧
      workerCatch task (.std what) = .ok (refusal task .eInternal what false) := by
  have hmax : maxStringLen + 6 ≤ frFrameMaxPayload := by decide
  have hcatch : ∀ code : FrStatus,
      (payloadOf (encodeErrorPayload ⟨code.code, what⟩)).map (fun payload =>
        { HandleResult.empty with
          out := emit [] .error (if task.reqId = 0 then 1 else task.reqId) payload }) =
        .ok (refusal task code what false) := by
    intro code
    rw [payloadOf_error code hlen]
    have hemit := emit_of_le [] .error (outReqId_ne_zero task.frame)
      (show (errorPayload code what).length ≤ _ by rw [errorPayload_length]; omega)
    exact congrArg (fun out => Except.ok ({ HandleResult.empty with out := out } : HandleResult))
      hemit
  exact ⟨hcatch code, hcatch .eInternal⟩

theorem workerCatch_ok {e : Error} (h : workerCatch task e = .ok result) :
    ∃ code what, what.length ≤ maxStringLen ∧ result = refusal task code what false := by
  have hcases : ∀ code what, e = .fr code what ∨ e = .std what →
      ∃ code what, what.length ≤ maxStringLen ∧ result = refusal task code what false := by
    intro code what he
    by_cases hlen : what.length ≤ maxStringLen
    · obtain ⟨hfr, hstd⟩ := workerCatch_short hlen
      rcases he with rfl | rfl
      · exact ⟨code, what, hlen, Except.ok.inj (h.symm.trans hfr)⟩
      · exact ⟨.eInternal, what, hlen, Except.ok.inj (h.symm.trans hstd)⟩
    · have hlong : ∀ code : FrStatus, payloadOf (encodeErrorPayload ⟨code.code, what⟩) =
          .error (.of .eArg "string field exceeds protocol limit") :=
        fun code => payloadOf_error_long (Nat.not_le.mp hlen)
      rcases he with rfl | rfl <;>
      · simp only [workerCatch, hlong] at h
        cases h
  cases e with
  | fr code what => exact hcases code what (.inl rfl)
  | std what => exact hcases .eInternal what (.inr rfl)

theorem replyError_refusal (env : RequestEnv) (peer : Bytes) (session : ClientSession)
    (task : Task) (s : Service) (code : FrStatus) (what : Bytes) :
    ∃ code' what' close, what'.length ≤ maxStringLen ∧
      workerResult task
          (((replyError env peer session task.frame code what).run s).1.map Prod.fst) =
        .ok (refusal task code' what' close) ∧
      SameDownloads s ((replyError env peer session task.frame code what).run s).2 := by
  by_cases hlen : what.length ≤ maxStringLen
  · obtain ⟨session', close, s', hsame, hrun⟩ := replyError_short (s := s) hlen
    rw [hrun]
    exact ⟨code, what, close, hlen, rfl, hsame⟩
  · obtain ⟨s', hsame, hrun⟩ := replyError_long (s := s) (Nat.not_le.mp hlen)
    rw [hrun]
    have hshort : (ascii "string field exceeds protocol limit").length ≤ maxStringLen := by decide
    exact ⟨.eArg, _, false, hshort, (workerCatch_short hshort).1, hsame⟩

/-- How `handle` ends after an exception of the request. -/
def handleFailed (env : RequestEnv) (peer : Bytes) (session : ClientSession) (frame : FrFrame) :
    Error → ServiceM (HandleResult × ClientSession)
  | .fr code what => replyError env peer session frame code what
  | .std what => throw (.std what)

theorem handleFailed_refusal (env : RequestEnv) (peer : Bytes) (session : ClientSession)
    (task : Task) {e : Error}
    (h : (workerResult task (((handleFailed env peer session task.frame e).run s).1.map Prod.fst),
      ((handleFailed env peer session task.frame e).run s).2) = (.ok result, s')) :
    ∃ code what close, what.length ≤ maxStringLen ∧ result = refusal task code what close ∧
      SameDownloads s s' := by
  cases e with
  | fr code what =>
    obtain ⟨code', what', close, hlen, hresult, hsame⟩ :=
      replyError_refusal env peer session task s code what
    obtain ⟨h₁, rfl⟩ := Prod.mk.inj h
    exact ⟨code', what', close, hlen, Except.ok.inj (h₁.symm.trans hresult), hsame⟩
  | std what =>
    obtain ⟨h₁, rfl⟩ := Prod.mk.inj h
    rw [handleFailed, Prog.run_throw] at h₁
    dsimp only [Except.map, workerResult] at h₁
    obtain ⟨code, what', hlen, rfl⟩ := workerCatch_ok h₁
    exact ⟨code, what', false, hlen, rfl, .refl _⟩

theorem Sliced.streamed {key : Bytes} {gets gets' : Bytes → Option GetState} {state : GetState}
    {r : Except Error HandleResult} (hslice : Sliced key gets state r gets')
    (h : workerResult task r = .ok result) : Streamed task key gets state result gets' := by
  cases hslice with
  | failed e =>
    obtain ⟨code, what, hlen, rfl⟩ := workerCatch_ok h
    exact .failed hlen
  | last hslice =>
    cases h
    exact .last hslice
  | more hslice =>
    cases h
    exact .more hslice

theorem handleTask_handled (hkept : KeptDownloads s)
    (h : handleTask sha env session task s = (.ok result, s')) : Handled task s result s' := by
  unfold handleTask at h
  split at h
  · rename_i hkind
    dsimp only at h
    cases hget : s.gets task.getKey with
    | none =>
      rw [handleGetContinue_none hget] at h
      cases h
      exact .gone hkind hget
    | some state =>
      obtain ⟨r, gets, hslice, hrun⟩ := handleGetContinue_sliced hget (hkept.reqId _ _ hget)
      rw [hrun] at h
      obtain ⟨hresult, rfl⟩ := Prod.mk.inj h
      exact .continued hkind hget rfl (hslice.streamed hresult)
  rename_i hkind
  have hkind := Bool.eq_false_iff.mpr hkind
  dsimp only at h
  obtain ⟨session', r, s₁, hreached, hrun⟩ := handle_reached (s := s)
  rw [hrun] at h
  have hrefused : ∀ e, r = .error e → ∃ code what close, what.length ≤ maxStringLen ∧
      result = refusal task code what close ∧ SameDownloads s₁ s' := by
    rintro e rfl
    cases e with
    | fr code what => exact handleFailed_refusal env task.peer session' task (e := .fr code what) h
    | std what => exact handleFailed_refusal env task.peer session' task (e := .std what) h
  cases hreached with
  | replied hsame =>
    cases h
    exact .replied hkind hsame
  | failed hsame =>
    obtain ⟨code, what, close, hlen, rfl, hsame'⟩ := hrefused _ rfl
    exact .refused hkind (hsame.trans hsame') hlen
  | @download req _ _ htype hreq hstart =>
    obtain ⟨r', gets, hslice, hstart'⟩ := startGet_sliced
      (hkept.fresh task.connId)
    obtain ⟨rfl, rfl⟩ := Prod.mk.inj (hstart.symm.trans hstart')
    cases hslice with
    | failed e =>
      obtain ⟨code, what, close, hlen, rfl, hsame⟩ := hrefused _ rfl
      refine .started hkind htype hreq hsame.getSeq ?_
      rw [hsame.gets]
      exact .failed hlen
    | last hslice =>
      cases h
      exact .started hkind htype hreq rfl (.last hslice)
    | more hslice =>
      cases h
      exact .started hkind htype hreq rfl (.more hslice)

theorem errorFrame_encodable {reqId : UInt32} {code : FrStatus} {what : Bytes} (hid : reqId ≠ 0)
    (hlen : what.length ≤ maxStringLen) : (errorFrame reqId code what).Encodable := by
  refine ⟨frMsgTypeValid_toByte .error, rfl, hid, ?_⟩
  have hmax : maxStringLen + 6 ≤ frFrameMaxPayload := by decide
  change (errorPayload code what).length ≤ _
  rw [errorPayload_length]
  omega

theorem handleTask_encodable (h : handleTask sha env session task s = (.ok result, s')) :
    ∀ f ∈ result.out, f.Encodable := by
  have hrefusal : ∀ code what close, what.length ≤ maxStringLen →
      ∀ f ∈ (refusal task code what close).out, f.Encodable := by
    intro code what close hlen f hf
    obtain rfl := List.mem_singleton.mp hf
    exact errorFrame_encodable (outReqId_ne_zero _) hlen
  have hcaught : ∀ {e}, workerCatch task e = .ok result → ∀ f ∈ result.out, f.Encodable := by
    intro e he
    obtain ⟨code, what, hlen, rfl⟩ := workerCatch_ok he
    exact hrefusal code what false hlen
  unfold handleTask at h
  split at h
  · rcases hrun : (handleGetContinue task.getKey).run s with ⟨e | result', s₁⟩
    · rw [hrun] at h
      exact hcaught (Prod.mk.inj h).1
    · rw [hrun] at h
      cases h
      exact handleGetContinue_encodable hrun
  obtain ⟨session', r, s₁, hreached, hrun⟩ := handle_reached (s := s)
  rw [hrun] at h
  cases r with
  | error e =>
    obtain ⟨code, what, close, hlen, rfl, -⟩ : ∃ code what close, what.length ≤ maxStringLen ∧
        result = refusal task code what close ∧ SameDownloads s₁ s' := by
      cases e with
      | fr code what =>
        exact handleFailed_refusal env task.peer session' task (e := .fr code what) h
      | std what => exact handleFailed_refusal env task.peer session' task (e := .std what) h
    exact hrefusal code what close hlen
  | ok result' =>
    cases h
    cases hreached with
    | replied hsame => exact makeOk_encodable _ _
    | download htype hreq hstart => exact startGet_encodable hstart

theorem Streamed.get_cases {key : Bytes} {gets gets' : Bytes → Option GetState} {state : GetState}
    (h : Streamed task key gets state result gets') {key' : Bytes} {state' : GetState}
    (hget : gets' key' = some state') :
    key' = key ∧ state'.reqId = state.reqId ∨ gets key' = some state' := by
  by_cases hkey : key' = key
  · subst hkey
    left
    cases h <;> rw [Function.update_self] at hget <;> cases hget <;> exact ⟨rfl, rfl⟩
  · right
    cases h <;> rwa [Function.update_of_ne hkey] at hget

/-- The service after its start, so many tasks, and anything that does not touch the downloads, as
the maintenance does, or the operations of storage. -/
inductive Service.Reached (sha : Sha256) : Nat → Service → Prop
  | start (store : Store) (auth : AuthDb) : Reached sha 0 (.start store auth)
  | task {n : Nat} {s s' : Service} {env : RequestEnv} {session : ClientSession} {task : Task}
      {result : HandleResult} (h : Reached sha n s)
      (hrun : handleTask sha env session task s = (.ok result, s')) : Reached sha (n + 1) s'
  | elsewhere {n : Nat} {s s' : Service} (h : Reached sha n s) (hsame : SameDownloads s s') :
      Reached sha n s'
  | close {n : Nat} {s : Service} (h : Reached sha n s) (connId : Nat) :
      Reached sha n (onConnectionClosed connId s)

theorem KeptDownloads.same (h : KeptDownloads s) (hsame : SameDownloads s s') :
    KeptDownloads s' := by
  constructor
  · intro key state hget
    rw [hsame.gets] at hget
    obtain ⟨connId, n, hlt, hkey⟩ := h.used key state hget
    exact ⟨connId, n, hsame.getSeq ▸ hlt, hkey⟩
  · intro key state hget
    exact h.reqId key state (hsame.gets ▸ hget)

theorem KeptDownloads.streamed (h : KeptDownloads s) {key : Bytes} {state : GetState}
    (hslice : Streamed task key s.gets state result s'.gets) (hused : s'.Used key)
    (hmono : s.getSeq.toNat ≤ s'.getSeq.toNat) (hid : state.reqId ≠ 0) : KeptDownloads s' := by
  constructor
  · intro key' state' hget
    rcases hslice.get_cases hget with ⟨rfl, -⟩ | hget
    · exact hused
    · obtain ⟨connId, n, hlt, hkey⟩ := h.used key' state' hget
      exact ⟨connId, n, hlt.trans_le hmono, hkey⟩
  · intro key' state' hget
    rcases hslice.get_cases hget with ⟨-, hsame⟩ | hget
    · rwa [hsame]
    · exact h.reqId key' state' hget

/-- As long as the numbers of the downloads do not wrap around. -/
theorem Service.Reached.kept {n : Nat} (h : Service.Reached sha n s) (hn : n < 2^64) :
    KeptDownloads s ∧ s.getSeq.toNat ≤ n := by
  induction h with
  | start store auth => exact ⟨.start store auth, Nat.le_refl _⟩
  | @task n s s' env session task result h hrun ih =>
    obtain ⟨hkept, hseq⟩ := ih (by omega)
    cases handleTask_handled hkept hrun with
    | replied hkind hsame => exact ⟨hkept.same hsame, hsame.getSeq ▸ hseq.trans (Nat.le_succ n)⟩
    | refused hkind hsame hlen =>
      exact ⟨hkept.same hsame, hsame.getSeq ▸ hseq.trans (Nat.le_succ n)⟩
    | started hkind htype hreq hseq' hslice =>
      have hsucc : s'.getSeq.toNat = s.getSeq.toNat + 1 := by
        rw [hseq', UInt64.toNat_add]
        exact Nat.mod_eq_of_lt (by rw [UInt64.toNat_one]; omega)
      refine ⟨hkept.streamed hslice ⟨_, _, ?_, rfl⟩ (by omega) (outReqId_ne_zero _), by omega⟩
      omega
    | gone hkind hget => exact ⟨hkept, hseq.trans (Nat.le_succ n)⟩
    | @continued state result s' hkind hget hseq' hslice =>
      obtain ⟨connId, m, hlt, hkey⟩ := hkept.used _ _ hget
      refine ⟨hkept.streamed hslice ⟨connId, m, hseq' ▸ hlt, hkey⟩ (hseq' ▸ Nat.le_refl _)
        (hkept.reqId _ _ hget), hseq' ▸ hseq.trans (Nat.le_succ n)⟩
  | elsewhere h hsame ih =>
    obtain ⟨hkept, hseq⟩ := ih hn
    exact ⟨hkept.same hsame, hsame.getSeq ▸ hseq⟩
  | @close n s h connId ih =>
    obtain ⟨hkept, hseq⟩ := ih hn
    have hget : ∀ key state, (onConnectionClosed connId s).gets key = some state →
        s.gets key = some state := by
      intro key state hget
      dsimp only [onConnectionClosed] at hget
      split at hget
      · cases hget
      · exact hget
    exact ⟨⟨fun key state h => hkept.used key state (hget key state h),
      fun key state h => hkept.reqId key state (hget key state h)⟩, hseq⟩

/-- The connection, up to who has authenticated on it. -/
def Connection.anonymous (conn : Connection) : Connection := { conn with session := .fresh }

/-- What serving a task does: the service is as after `handleTask`, the worker has the result, and
of the connections only the session may change. -/
structure Served (sha : Sha256) (env : RequestEnv) (i : Nat) (task : Task) (result : HandleResult)
    (s s' : Server) : Prop where
  handled : ∃ session, handleTask sha env session task s.service = (.ok result, s'.service)
  workers : s'.workers =
    s.workers.set i (.handled (downloadOf s.service s'.service task) task result)
  queue : s'.queue = s.queue
  doneQueue : s'.doneQueue = s.doneQueue
  connections : ∀ c, (s'.connections c).map (·.anonymous) = (s.connections c).map (·.anonymous)

/-- The session of the connection, which a request is handled with. -/
def Server.sessionOf (s : Server) (connId : Nat) : Option ClientSession :=
  (s.connections connId).map (·.session)

/-- A task whose connection is closed is dropped, unless it continues a download. -/
theorem serve_served {s s' : Server} {i : Nat} (h : s.serve sha i env = some s') :
    ∃ task, s.workers[i]? = some (.popped task) ∧
      ((task.isGetContinue = false ∧ s.connections task.connId = none ∧
          s' = s.setWorker i .idle) ∨
        ∃ result session, (task.isGetContinue = false → s.sessionOf task.connId = some session) ∧
          handleTask sha env session task s.service = (.ok result, s'.service) ∧
          Served sha env i task result s s') := by
  unfold Server.serve at h
  split at h
  · rename_i task hget
    refine ⟨task, hget, ?_⟩
    dsimp only at h
    split at h
    · rename_i hkind
      split at h
      · rename_i result hresult
        cases h
        have hhandle : handleTask sha env .fresh task s.service =
            (.ok result, ((handleGetContinue task.getKey).run s.service).2) := by
          rw [handleTask, if_pos hkind]
          exact Prod.ext hresult rfl
        refine .inr ⟨result, .fresh, fun hrequest => ?_, hhandle,
          ⟨⟨_, hhandle⟩, rfl, rfl, rfl, fun _ => rfl⟩⟩
        rw [hkind] at hrequest
        cases hrequest
      · cases h
    · rename_i hkind
      split at h
      · rename_i hnone
        cases h
        exact .inl ⟨Bool.eq_false_iff.mpr hkind, hnone, rfl⟩
      · rename_i conn hconn
        have hsession : s.sessionOf task.connId = some conn.session := by
          rw [Server.sessionOf, hconn]
          rfl
        split at h
        · rename_i result session service hrun
          cases h
          have hhandle : handleTask sha env conn.session task s.service =
            (.ok result, service) := by
            rw [handleTask, if_neg hkind, hrun]
            rfl
          refine .inr ⟨result, conn.session, fun _ => hsession, hhandle,
            ⟨⟨_, hhandle⟩, rfl, rfl, rfl, fun c => ?_⟩⟩
          dsimp only
          by_cases hc : c = task.connId
          · subst hc
            rw [Function.update_self, hconn]
            rfl
          · rw [Function.update_of_ne hc]
        · rename_i e service hrun
          split at h
          · rename_i result hresult
            cases h
            have hhandle : handleTask sha env conn.session task s.service =
                (.ok result, service) := by
              rw [handleTask, if_neg hkind, hrun]
              exact Prod.ext hresult rfl
            exact .inr ⟨result, conn.session, fun _ => hsession, hhandle,
              ⟨⟨_, hhandle⟩, rfl, rfl, rfl, fun _ => rfl⟩⟩
          · cases h
  · cases h

theorem serve_nextConnId {s s' : Server} {i : Nat} (h : s.serve sha i env = some s') :
    s'.nextConnId = s.nextConnId := by
  unfold Server.serve at h
  split at h
  · dsimp only at h
    split at h
    · split at h <;> cases h
      rfl
    · split at h
      · cases h
        rfl
      · split at h
        · cases h
          rfl
        · split at h <;> cases h
          rfl
  · cases h

def sampleToken : Bytes := tokenText (List.replicate 32 1)

/-- A service with the artifact of the sample upload and the reader `bob`. -/
def sampleArchive : Service :=
  .start (played sampleSha samplePublish).2.store
    ((AuthDb.empty.userAdd 1 (ascii "bob") .reader >>= fun db =>
      db.tokenCreate sampleSha 1 (List.replicate 32 1)
        (ascii "bob") 0).toOption.elim .empty Prod.snd)

/-- `bob` connects and authenticates. -/
def sampleLogin : List ServerEvent :=
  [.accept [], .receive 1 (sampleFrame .auth (encodeAuthReq ⟨sampleToken⟩)) none, .pop 0,
    .serve 0 (sampleRequestEnv 3), .complete 0 none, .drain]

/-- A request for so many bytes of the sample artifact. -/
def sampleGet (length : UInt64) : FrFrame :=
  sampleFrame .getArtifact
    (encodeGetArtifactReq ⟨⟨ascii "team", ascii "app", ascii "1.0"⟩, 0, length⟩)

end ForgeRelay
