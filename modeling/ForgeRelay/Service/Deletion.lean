import ForgeRelay.Lib.Interleave
import ForgeRelay.Lib.Trace
import ForgeRelay.Service.Authorization
import ForgeRelay.Storage.Durability
import ForgeRelay.Storage.ArtifactTable

/-!
# Deletions beside other requests

A DELETE_ARTIFACT request checks in one critical section whether the client may delete the
artifact, and deletes in another whatever has the reference then. So a publisher deletes only what
is its own as long as nobody else publishes under the reference in between.
-/

namespace ForgeRelay

open Program

/-- A request that is being handled. -/
structure Request where
  frame : FrFrame
  rest : ServiceM (HandleResult × ClientSession)

/-- The service and the requests that are being handled. -/
structure Requests where
  service : Service
  running : List Request

inductive RequestEvent
  | start (env : RequestEnv) (connId : Nat) (peer : Bytes) (session : ClientSession)
      (frame : FrFrame)
  | step (i : Nat)
  | resume (key : Bytes)
  | maintenance (env : CallEnv)
  | disconnect (connId : Nat)

namespace Requests

/-- Nothing is being handled. -/
def start (store : Store) (auth : AuthDb) : Requests := ⟨.start store auth, []⟩

/-- What the `i`-th request is about to do. -/
def label? (pool : Requests) (i : Nat) : Option Section := pool.running[i]?.bind (·.rest.head?)

/-- The `i`-th request takes its next step. -/
def advance (pool : Requests) (i : Nat) : Requests :=
  match pool.running[i]? with
  | none => pool
  | some r =>
    ⟨(r.rest.advance pool.service).2,
      pool.running.set i { r with rest := (r.rest.advance pool.service).1 }⟩

/-- What an event does. -/
def next (sha : Sha256) (pool : Requests) : RequestEvent → Requests
  | .start env connId peer session frame =>
    { pool with running := pool.running ++ [⟨frame, handle sha env connId peer session frame⟩] }
  | .step i => pool.advance i
  | .resume key => { pool with service := ((handleGetContinue key).run pool.service).2 }
  | .maintenance env =>
    { pool with service :=
      { pool.service with store := ((runMaintenance env).run pool.service.store).2 } }
  | .disconnect connId => { pool with service := onConnectionClosed connId pool.service }

/-- One event that meets the condition. -/
def Step (sha : Sha256) (cond : Requests → RequestEvent → Prop) (pool : Requests)
    (e : RequestEvent) (pool' : Requests) : Prop :=
  cond pool e ∧ pool' = pool.next sha e

end Requests

/-- The reference as artifacts have it. -/
def ArtifactRef.key (ref : ArtifactRef) : Bytes × Bytes × Bytes := (ref.ns, ref.name, ref.version)

/-- The client is an admin, or a publisher who has created whatever has the reference. -/
def MayDelete (session : ClientSession) (ref : ArtifactRef) (db : Db) : Prop :=
  session.role = .admin ∨ session.role = .publisher ∧
    ∀ a ∈ db.artifact, a.ref = ref.key → a.creator = session.username

/-- What a request relies on at its next step. -/
def Assured : Section → Service → Prop
  | .deleting session ref, s => ArtifactKeys s.store.db ∧ MayDelete session ref s.store.db
  | _, s => ArtifactKeys s.store.db

/-- What a step of a request with this frame does to the artifacts. -/
inductive TableStep (frame : FrFrame) : Section → Service → Service → Prop
  | same {sec : Section} {s s' : Service} (h : SameTable s.store s'.store) :
      TableStep frame sec s s'
  | published {s s' : Service} {sessionId : Bytes} {info : SessionInfo} {now : Int64}
      (htype : FrMsgType.ofByte frame.type = some .commitUpload)
      (hdecode : decodeFrame getStr frame = .ok sessionId)
      (hinfo : s.store.db.session? sessionId = some info)
      (h : Published now info s.store s'.store) : TableStep frame .mutex s s'
  | deleted {session : ClientSession} {ref : ArtifactRef} {s s' : Service} {row : ArtifactRow}
      (hrow : s.store.db.artifact? ref.ns ref.name ref.version = some row)
      (h : Deleted row.id s.store s'.store) : TableStep frame (.deleting session ref) s s'

theorem Assured.keys {sec : Section} {s : Service} (h : Assured sec s) :
    ArtifactKeys s.store.db := by
  cases sec with
  | deleting session ref => exact h.1
  | _ => exact h

theorem TableStep.keys {frame : FrFrame} {sec : Section} {s s' : Service}
    (h : TableStep frame sec s s') (hkeys : ArtifactKeys s.store.db) :
    ArtifactKeys s'.store.db := by
  cases h with
  | same h => exact h.keys hkeys
  | published htype hdecode hinfo h => exact h.keys hkeys
  | deleted hrow h => exact h.keys hkeys

/-- Safe from every state, with the keys of the artifacts as the invariant. -/
abbrev Tame {α : Type} (frame : FrFrame) (p : ServiceM α) : Prop :=
  Prog.Steady (fun s => ArtifactKeys s.store.db) Assured (TableStep frame) p

namespace Tame

open Prog

variable {α β : Type} {frame : FrFrame} {sec : Section}

theorem pure (a : α) : Tame frame (Pure.pure a : ServiceM α) := Steady.pure a

theorem throw (e : Error) : Tame frame (MonadExcept.throw e : ServiceM α) := Steady.throw e

theorem bind {p : ServiceM α} {k : α → ServiceM β} (hp : Tame frame p)
    (hk : ∀ a, Tame frame (k a)) : Tame frame (p >>= k) := Steady.bind hp hk

theorem ofExcept (r : Except Error α) : Tame frame (Prog.ofExcept r : ServiceM α) := by
  cases r with
  | error e => exact .throw e
  | ok a => exact .pure a

theorem lift {act : Service → Except Error α × Service}
    (hsec : ∀ s : Service, ArtifactKeys s.store.db → Assured sec s)
    (hact : ∀ s, SameTable s.store (act s).2.store) : Tame frame (Prog.lift sec act) :=
  Steady.lift hsec fun s hs => ⟨.same (hact s), (hact s).keys hs.keys⟩

theorem locked {p : StorageM α} (hp : Stays sameTable p) : Tame frame (locked p) :=
  lift (fun _ => id) fun s => (hp.run (s := s.store) trivial).1.1

private theorem readOnly {p : StorageM α} (hp : ReadOnly p) : Tame frame (ForgeRelay.locked p) :=
  lift (fun _ => id) fun s => .of_db (congrArg Store.db (hp s.store))

theorem registry {f : AuthDb → Except Error α} : Tame frame (registry f) :=
  lift (fun _ => id) fun _ => .refl _

theorem registryUpdate {f : AuthDb → Except Error (α × AuthDb)} :
    Tame frame (registryUpdate f) := by
  refine lift (fun _ => id) fun s => ?_
  split <;> exact .refl _

theorem reply {enc : MsgEncoder} : Tame frame (replyOk frame enc) :=
  .bind (ofExcept _) fun _ => .pure _

theorem outcome {p : ServiceM α} (hp : Tame frame p) : Tame frame (outcome p) :=
  Steady.tryCatch (bind hp fun _ => pure _) fun _ => pure _

end Tame

section Handlers

open Prog

variable {sha : Sha256} {env : RequestEnv} {connId : Nat} {peer : Bytes} {session : ClientSession}
  {frame : FrFrame}

private theorem audit_tame (action target : Bytes) : Tame frame (audit env session action target) :=
  .registryUpdate

private theorem handleCommitUpload_tame (htype : FrMsgType.ofByte frame.type = some .commitUpload) :
    Tame frame (handleCommitUpload sha env session frame) := by
  have hcommit : ∀ sessionId, decodeFrame getStr frame = .ok sessionId →
      Tame frame (locked do
        let _ ← getAllowedSession session sessionId
        commitSession sha env.call sessionId) := by
    refine fun sessionId hdecode => Steady.lift (fun _ => id) fun s hs => ?_
    suffices heffect : ∀ s', ((getAllowedSession session sessionId >>= fun _ =>
        commitSession sha env.call sessionId).run s.store).2 = s' →
        TableStep frame .mutex s { s with store := s' } from
      ⟨heffect _ rfl, (heffect _ rfl).keys hs⟩
    rintro s' rfl
    have hread := getAllowedSession_readOnly session sessionId s.store
    rw [run_bind]
    rcases hcheck : (getAllowedSession session sessionId).run s.store with ⟨e | info, store⟩
    · rw [hcheck] at hread
      exact .same (.of_db (congrArg Store.db hread))
    · rw [hcheck] at hread
      obtain rfl : store = s.store := hread
      rcases commitSession_table sha env.call sessionId s.store with hsame | ⟨row, hrow, hnew⟩
      · exact .same hsame
      · exact .published htype hdecode hrow hnew
  unfold handleCommitUpload decode
  cases hdecode : decodeFrame getStr frame with
  | error e => exact .throw e
  | ok sessionId =>
    change Tame frame (locked _ >>= _)
    exact .bind (hcommit sessionId hdecode) fun _ => .reply

private theorem handleAbortUpload_tame : Tame frame (handleAbortUpload env session frame) := by
  refine .bind (.ofExcept _) fun sessionId => .bind (.lift (fun _ => id) fun s => ?_) fun _ =>
    .pure _
  have hread := getAllowedSession_readOnly session sessionId s.store
  have habort := ((sameTable_admits env.call.now).abortSession env.call rfl sessionId).run
    (s := s.store) trivial
  rw [run_bind]
  rcases hcheck : (getAllowedSession session sessionId).run s.store with ⟨e | info, store⟩
  · rw [hcheck] at hread
    exact .of_db (congrArg Store.db hread)
  · rw [hcheck] at hread
    obtain rfl : store = s.store := hread
    dsimp only
    rcases hrun : (abortSession env.call sessionId).run s.store with ⟨e | u, store⟩ <;>
    · rw [hrun] at habort
      exact habort.1.1

private theorem startGet_tame {req : GetArtifactReq} : Tame frame (startGet connId frame req) := by
  refine .lift (fun _ => id) fun s => ?_
  dsimp only
  split
  · exact .refl _
  · split <;> exact .refl _

private theorem handleDeleteArtifact_tame :
    Tame frame (handleDeleteArtifact env session frame) := by
  refine .bind (.ofExcept _) fun ref s hs => safe_bind (safe_lift hs fun s₁ hs₁ => ?_)
  have hread := requireDeleteAllowed_readOnly session ref s₁.store
  refine ⟨.same (.of_db (congrArg Store.db hread)), ?_⟩
  rcases hcheck : (requireDeleteAllowed session ref).run s₁.store with ⟨e | u, store⟩
  all_goals
    rw [hcheck] at hread
    obtain rfl : store = s₁.store := hread
  · exact hs₁
  obtain ⟨-, hallowed⟩ := requireDeleteAllowed_ok (congrArg Prod.fst hcheck)
  have hmay : MayDelete session ref s₁.store.db := by
    refine hallowed.imp_right fun ⟨hrole, row, hrow, hcreator⟩ => ⟨hrole, fun a ha href => ?_⟩
    obtain ⟨hmem, hkey⟩ := Db.artifact?_some hrow
    rw [Table.eq_of_key hs₁.keys.refs ha hmem (href.trans hkey.symm)]
    exact hcreator
  have hrest : ∀ marked : Int64, Tame frame (do
      audit env session (ascii "artifact.delete") (refToString ref)
      replyOk frame (encodeDeleteArtifactOk ⟨marked⟩)) :=
    fun _ => .bind (audit_tame _ _) fun _ => .reply
  refine safe_seq (I := fun s : Service => ArtifactKeys s.store.db)
    (safe_lift (show Assured (.deleting session ref) s₁ from ⟨hs₁, hmay⟩) fun s₂ hs₂ => ?_)
    hrest fun e s₂ hs₂ => hs₂
  rcases deleteArtifact_table env.call ref.ns ref.name ref.version s₂.store with
    hsame | ⟨row, hrow, hdeleted⟩
  · exact ⟨.same hsame, hsame.keys hs₂.keys⟩
  · exact ⟨.deleted hrow hdeleted, hdeleted.keys hs₂.keys⟩

private theorem dispatchBusiness_tame :
    Tame frame (dispatchBusiness sha env connId session frame) := by
  have hadmits := sameTable_admits env.call.now
  unfold dispatchBusiness
  split
  · exact .bind (.ofExcept _) fun _ => .bind (.ofExcept _) fun _ =>
      .bind (.locked (hadmits.createSession _ _ _ _ _ _ _ _ fun _ _ _ => trivial).stays)
        fun _ => .reply
  · exact .bind (.ofExcept _) fun _ => .bind (.readOnly (getAllowedSession_readOnly _ _)) fun _ =>
      .bind (.locked (hadmits.putChunk _ _ rfl _ _ _)) fun _ => .reply
  · refine .bind (.ofExcept _) fun _ => .bind (.readOnly ?_) fun _ => ?_
    · exact .bind (getAllowedSession_readOnly _ _) fun _ => .bind (sessionProgress_readOnly _)
        fun _ => .pure _
    · dsimp only
      split
      · exact .throw _
      · exact .reply
  · exact handleCommitUpload_tame ‹_›
  · exact handleAbortUpload_tame
  · exact .bind (.ofExcept _) fun _ => .bind (.ofExcept _) fun _ => startGet_tame
  · exact .bind (.ofExcept _) fun _ => .bind (.ofExcept _) fun _ =>
      .bind (.readOnly (listArtifacts_readOnly _ _ _ _)) fun _ => .reply
  · exact .bind (.ofExcept _) fun _ => .bind (.ofExcept _) fun _ =>
      .bind (.readOnly (showArtifact_readOnly _ _ _)) fun _ => .reply
  · refine .bind (.ofExcept _) fun _ => .bind (.readOnly ?_) fun _ =>
      .bind (.lift (fun _ => id) fun _ => .refl _) fun _ => .reply
    exact .bind (.select _) fun _ => .bind usedBytes_readOnly fun _ => .pure _
  · exact handleDeleteArtifact_tame
  · exact .bind (.ofExcept _) fun _ => .bind (.ofExcept _) fun _ =>
      .bind (.locked (hadmits.collectGarbage _ _ _)) fun _ => .bind (audit_tame _ _) fun _ => .reply
  · exact .bind (.ofExcept _) fun _ => .bind (.ofExcept _) fun _ => .bind .registryUpdate fun _ =>
      .bind (audit_tame _ _) fun _ => .pure _
  · exact .bind (.ofExcept _) fun _ => .bind (.ofExcept _) fun _ => .bind .registryUpdate fun _ =>
      .bind (audit_tame _ _) fun _ => .pure _
  · exact .bind (.ofExcept _) fun _ => .bind .registry fun _ => .reply
  · exact .bind (.ofExcept _) fun _ => .bind (.ofExcept _) fun _ => .bind .registryUpdate fun _ =>
      .bind (audit_tame _ _) fun _ => .reply
  · exact .bind (.ofExcept _) fun _ => .bind (.ofExcept _) fun _ => .bind .registryUpdate fun _ =>
      .bind (audit_tame _ _) fun _ => .pure _
  · exact .bind (.ofExcept _) fun _ => .bind (.ofExcept _) fun _ => .bind .registry fun _ => .reply
  · exact .bind (.ofExcept _) fun _ => .bind (.readOnly (listSessions_readOnly _)) fun _ => .reply
  · refine .bind (.ofExcept _) fun _ => .bind (.ofExcept _) fun _ => .bind ?_ fun _ =>
      .bind (audit_tame _ _) fun _ => .pure _
    exact .lift (fun _ => id) fun s =>
      ((hadmits.abortSession env.call rfl _).run (s := s.store) trivial).1.1
  · exact .throw _

private theorem handleFrame_tame : Tame frame (handleFrame sha env connId peer session frame) := by
  unfold handleFrame
  split
  · split <;> exact .pure _
  · refine .bind (.outcome ?_) fun r => ?_
    · refine .bind (.lift (fun _ => id) fun s => ?_) fun _ => .bind (.ofExcept _) fun _ => .registry
      split
      · split <;> exact .refl _
      · exact .refl _
    · cases r <;> exact .pure _
  · exact .pure _
  · exact .pure _
  · refine .bind (.outcome ?_) fun _ => .pure _
    split
    · exact .throw _
    · exact dispatchBusiness_tame

private theorem handle_tame : Tame frame (handle sha env connId peer session frame) := by
  refine .bind handleFrame_tame fun ⟨session', result⟩ => ?_
  cases result with
  | ok result => exact .pure _
  | error e =>
    cases e with
    | std what => exact .throw _
    | fr code what =>
      change Tame frame (replyError env peer session' frame code what)
      unfold replyError
      dsimp only
      split
      · exact .bind (.lift (fun _ => id) fun _ => .refl _) fun _ => .bind (.ofExcept _) fun _ =>
          .pure _
      · exact .bind (.ofExcept _) fun _ => .pure _

end Handlers

section

variable {frame : FrFrame} {sec : Section} {s s' : Service} {a : ArtifactRow}

private theorem TableStep.new (h : TableStep frame sec s s') (ha : a ∈ s'.store.db.artifact) :
    a ∈ s.store.db.artifact ∨ ∃ sessionId info, sec = .mutex ∧
      FrMsgType.ofByte frame.type = some .commitUpload ∧
      decodeFrame getStr frame = .ok sessionId ∧
      s.store.db.session? sessionId = some info ∧
      (∀ b ∈ s.store.db.artifact, b.ref ≠ (info.ns, info.name, info.version)) ∧
      a.ref = (info.ns, info.name, info.version) ∧ a.creator = info.owner := by
  cases h with
  | same h => exact .inl (h.artifact ▸ ha)
  | @published _ _ sessionId info now htype hdecode hinfo h =>
    rw [h.artifact] at ha
    refine (List.mem_append.mp ha).imp_right fun ha => ?_
    rw [List.mem_singleton.mp ha]
    exact ⟨sessionId, info, rfl, htype, hdecode, hinfo, h.free, rfl, rfl⟩
  | deleted hrow h =>
    rw [h.artifact] at ha
    exact .inl (Table.mem_delete.mp ha).1

theorem TableStep.removed (h : TableStep frame sec s s') (hassured : Assured sec s)
    (ha : a ∈ s.store.db.artifact) (hgone : a ∉ s'.store.db.artifact) :
    ∃ session ref, sec = .deleting session ref ∧ a.ref = ref.key ∧
      (session.role = .admin ∨ session.role = .publisher ∧ a.creator = session.username) := by
  cases h with
  | same h => exact absurd (h.artifact ▸ ha) hgone
  | published htype hdecode hinfo h =>
    refine absurd ?_ hgone
    rw [h.artifact]
    exact List.mem_append_left _ ha
  | @deleted session ref _ _ row hrow h =>
    obtain ⟨hkeys, hmay⟩ := hassured
    rw [h.artifact, Table.mem_delete, not_and] at hgone
    have hid : a.id = row.id := by simpa using hgone ha
    obtain ⟨hmem, href⟩ := Db.artifact?_some hrow
    obtain rfl : a = row := Table.eq_of_key hkeys.ids ha hmem hid
    exact ⟨session, ref, rfl, href, hmay.imp_right fun ⟨hrole, hown⟩ => ⟨hrole, hown a ha href⟩⟩

/-- What others do is no harm to a request if what is new under the reference of its deletion is
the publisher's own. -/
theorem Assured.elsewhere (h : Assured sec s) (hkeys : ArtifactKeys s'.store.db)
    (hnew : ∀ session ref, sec = .deleting session ref → session.role ≠ .admin →
      ∀ a ∈ s'.store.db.artifact, a.ref = ref.key →
        a ∈ s.store.db.artifact ∨ a.creator = session.username) : Assured sec s' := by
  cases sec with
  | deleting session ref =>
    refine ⟨hkeys, h.2.imp_right fun ⟨hrole, hown⟩ => ⟨hrole, fun a ha href => ?_⟩⟩
    rcases hnew session ref rfl (by rw [hrole]; decide) a ha href with hold | hcreator
    · exact hown a hold href
    · exact hcreator
  | _ => exact hkeys

end

namespace Requests

variable {sha : Sha256} {pool pool' : Requests}

/-- A deletion for this session has passed its check, and comes next. -/
def Pending (pool : Requests) (session : ClientSession) (ref : ArtifactRef) : Prop :=
  ∃ i, pool.label? i = some (.deleting session ref)

/-- The `i`-th request is about to commit this upload session, and no artifact has its
reference. -/
def Publishes (pool : Requests) (i : Nat) (info : SessionInfo) : Prop :=
  ∃ r sessionId, pool.running[i]? = some r ∧ r.rest.head? = some .mutex ∧
    FrMsgType.ofByte r.frame.type = some .commitUpload ∧
    decodeFrame getStr r.frame = .ok sessionId ∧
    pool.service.store.db.session? sessionId = some info ∧
    ∀ a ∈ pool.service.store.db.artifact, a.ref ≠ (info.ns, info.name, info.version)

/-- Only a publisher itself commits an upload session for the reference of its pending deletion. -/
def Undisturbed (pool : Requests) : RequestEvent → Prop
  | .step i => ∀ info session ref, pool.Publishes i info → pool.Pending session ref →
      session.role ≠ .admin → ref.key = (info.ns, info.name, info.version) →
      info.owner = session.username
  | _ => True

/-- Every request is safe where it stands. -/
structure Guarded (pool : Requests) : Prop where
  keys : ArtifactKeys pool.service.store.db
  safe : ∀ (i : Nat) (r : Request), pool.running[i]? = some r →
    Prog.Safe Assured (TableStep r.frame) r.rest (fun _ _ => True) pool.service

private theorem label?_eq {i : Nat} {r : Request} (hget : pool.running[i]? = some r) :
    pool.label? i = r.rest.head? := by
  rw [label?, hget]
  rfl

private theorem next_sameTable {e : RequestEvent} (he : ∀ i, e ≠ .step i) :
    SameTable pool.service.store (pool.next sha e).service.store := by
  cases e with
  | start env connId peer session frame => exact .refl _
  | step i => exact absurd rfl (he i)
  | resume key =>
    rw [next, handleGetContinue, Prog.run_lift]
    dsimp only
    split
    · exact .refl _
    · split
      · exact .refl _
      · split <;> exact .refl _
  | maintenance env =>
    exact (((sameTable_admits env.now).runMaintenance env rfl).run
      (s := pool.service.store) trivial).1.1
  | disconnect connId => exact .refl _

private theorem advance_cases (pool : Requests) (i : Nat) :
    pool.advance i = pool ∨ ∃ r l, pool.running[i]? = some r ∧ r.rest.head? = some l ∧
      pool.advance i = ⟨(r.rest.advance pool.service).2,
        pool.running.set i { r with rest := (r.rest.advance pool.service).1 }⟩ := by
  rw [advance]
  cases hget : pool.running[i]? with
  | none => exact .inl rfl
  | some r =>
    cases hhead : r.rest.head? with
    | some l => exact .inr ⟨r, l, rfl, hhead, rfl⟩
    | none =>
      left
      obtain ⟨hlt, rfl⟩ := List.getElem?_eq_some_iff.mp hget
      dsimp only
      rw [Prog.advance_of_none hhead]
      exact congrArg (Requests.mk pool.service) (List.set_getElem_self hlt)

theorem Guarded.start {store : Store} (auth : AuthDb) (hkeys : ArtifactKeys store.db) :
    (start store auth).Guarded :=
  ⟨hkeys, fun i r hget => by cases hget⟩

theorem Guarded.elsewhere (h : pool.Guarded) {i : Nat} {r : Request} {service : Service}
    (hget : pool.running[i]? = some r) (hkeys : ArtifactKeys service.store.db)
    (hnew : ∀ session ref, pool.Pending session ref → session.role ≠ .admin →
      ∀ a ∈ service.store.db.artifact, a.ref = ref.key →
        a ∈ pool.service.store.db.artifact ∨ a.creator = session.username) :
    Prog.Safe Assured (TableStep r.frame) r.rest (fun _ _ => True) service := by
  refine (h.safe i r hget).elsewhere fun l hhead hassured => hassured.elsewhere hkeys ?_
  rintro session ref rfl
  exact hnew session ref ⟨i, (label?_eq hget).trans hhead⟩

theorem Guarded.advance (h : pool.Guarded) {i : Nat} (hcond : pool.Undisturbed (.step i)) :
    (pool.advance i).Guarded := by
  rcases pool.advance_cases i with heq | ⟨r, l, hget, hhead, heq⟩
  · rw [heq]
    exact h
  rw [heq]
  obtain ⟨hassured, hstep, hrest⟩ := (h.safe i r hget).advance hhead
  have hkeys := hstep.keys hassured.keys
  refine ⟨hkeys, fun j r' hget' => ?_⟩
  by_cases hj : j = i
  · subst hj
    rw [List.getElem?_set_self (List.getElem?_eq_some_iff.mp hget).1] at hget'
    cases hget'
    exact hrest
  · rw [List.getElem?_set_ne (Ne.symm hj)] at hget'
    refine h.elsewhere hget' hkeys fun session ref hpending hrole a ha href => ?_
    refine (hstep.new ha).imp_right ?_
    rintro ⟨sessionId, info, rfl, htype, hdecode, hinfo, hfree, haref, hcreator⟩
    rw [hcreator]
    exact hcond info session ref ⟨r, sessionId, hget, hhead, htype, hdecode, hinfo, hfree⟩
      hpending hrole (href.symm.trans haref)

theorem Guarded.next (h : pool.Guarded) {e : RequestEvent} (hcond : pool.Undisturbed e) :
    (pool.next sha e).Guarded := by
  by_cases he : ∃ i, e = .step i
  · obtain ⟨i, rfl⟩ := he
    exact h.advance hcond
  have hsame : SameTable pool.service.store (pool.next sha e).service.store :=
      next_sameTable fun i hi => he ⟨i, hi⟩
  have hkeys := hsame.keys h.keys
  have hold : ∀ (i : Nat) (r : Request), pool.running[i]? = some r →
      Prog.Safe Assured (TableStep r.frame) r.rest (fun _ _ => True)
        (pool.next sha e).service := fun i r hget =>
    h.elsewhere hget hkeys fun session ref _ _ a ha _ => .inl (hsame.artifact ▸ ha)
  refine ⟨hkeys, ?_⟩
  cases e with
  | step i => exact absurd ⟨i, rfl⟩ he
  | start env connId peer session frame =>
    intro i r hget
    rcases List.mem_append.mp (List.mem_of_getElem? hget) with hmem | hmem
    · obtain ⟨j, hj⟩ := List.getElem?_of_mem hmem
      exact hold j r hj
    · rw [List.mem_singleton.mp hmem]
      exact Prog.safe_mono (handle_tame _ h.keys) fun _ _ _ => trivial
  | resume key => exact hold
  | maintenance env => exact hold
  | disconnect connId => exact hold

theorem Guarded.removed (h : pool.Guarded) {e : RequestEvent} {a : ArtifactRow}
    (ha : a ∈ pool.service.store.db.artifact)
    (hgone : a ∉ (pool.next sha e).service.store.db.artifact) :
    ∃ i session ref, e = .step i ∧ pool.label? i = some (.deleting session ref) ∧
      a.ref = ref.key ∧
      (session.role = .admin ∨ session.role = .publisher ∧ a.creator = session.username) := by
  by_cases he : ∃ i, e = .step i
  · obtain ⟨i, rfl⟩ := he
    change a ∉ (pool.advance i).service.store.db.artifact at hgone
    rcases pool.advance_cases i with heq | ⟨r, l, hget, hhead, heq⟩
    · exact absurd ha (heq ▸ hgone)
    rw [heq] at hgone
    obtain ⟨hassured, hstep, -⟩ := (h.safe i r hget).advance hhead
    obtain ⟨session, ref, rfl, hrest⟩ := hstep.removed hassured ha hgone
    exact ⟨i, session, ref, rfl, (label?_eq hget).trans hhead, hrest⟩
  · have hsame : SameTable pool.service.store (pool.next sha e).service.store :=
      next_sameTable fun i hi => he ⟨i, hi⟩
    exact absurd (hsame.artifact ▸ ha) hgone

/-- The deletions of publishers that come next remove only what is the publisher's own. -/
def DeletesOwn (sha : Sha256) (pool : Requests) : Prop :=
  ∀ i session ref, pool.label? i = some (.deleting session ref) → session.role = .publisher →
    ∀ a ∈ pool.service.store.db.artifact,
      a ∉ (pool.next sha (.step i)).service.store.db.artifact → a.creator = session.username

/-- From storage that a run has reached, in every state that undisturbed events reach, a publisher
deletes only its own artifacts, and no event but a deletion removes an artifact. -/
theorem publisher_deletes_own {history : List Event} {sys : System} {auth : AuthDb}
    {events : List RequestEvent}
    (hstore : Trace.Run (System.Step sha anywhere) .initial history sys)
    (hrun : Trace.Run (Step sha Undisturbed) (start sys.store auth) events pool) :
    pool.DeletesOwn sha ∧ ∀ e, ∀ a ∈ pool.service.store.db.artifact,
      a ∉ (pool.next sha e).service.store.db.artifact →
        ∃ i session ref, e = .step i ∧ pool.label? i = some (.deleting session ref) ∧
          a.ref = ref.key ∧ (session.role = .admin ∨ session.role = .publisher) := by
  have hkept := System.run_kept hstore anywhere_harmless (Set.Subset.refl _) (.empty _ _ _)
  have hguarded : pool.Guarded := hrun.invariant
    (fun pool e pool' _ hguarded hstep => by
      obtain ⟨hcond, rfl⟩ := hstep
      exact hguarded.next hcond)
    (.start auth hkept.inv.rows.keys)
  refine ⟨fun i session ref hlabel hrole a ha hgone => ?_, fun e a ha hgone => ?_⟩
  · obtain ⟨j, session', ref', hj, hlabel', -, hmay⟩ := hguarded.removed ha hgone
    cases hj
    obtain ⟨rfl, rfl⟩ : session = session' ∧ ref = ref' := by
      simpa using hlabel.symm.trans hlabel'
    rcases hmay with hadmin | ⟨-, hcreator⟩
    · rw [hrole] at hadmin
      cases hadmin
    · exact hcreator
  · obtain ⟨i, session, ref, rfl, hlabel, href, hmay⟩ := hguarded.removed ha hgone
    exact ⟨i, session, ref, rfl, hlabel, href, hmay.imp_right And.left⟩

end Requests

/-- `alice` has published; `bob` has uploaded another artifact under the same reference. -/
def sampleRivals : List Move :=
  samplePublish ++
    [(Action.call (.createSession (ascii "team") (ascii "app") (ascii "1.0") 1
        (sampleSha.hex (ascii "b")) (ascii "bob"))).at ⟨3, ascii "s2", ascii "2"⟩,
      (Action.call (.putChunk (ascii "s2") 0 (ascii "b"))).at ⟨4, ascii "s2", ascii "2"⟩]

private theorem sampleRivals_run : Trace.Run (System.Step sampleSha anywhere) .initial
    (played sampleSha sampleRivals).1 (played sampleSha sampleRivals).2 :=
  played_run (fun _ _ => .inr fun _ _ => trivial) (by decide +kernel)

/-- A client of this name with this role. -/
def sampleClient (name : String) (role : Role) : ClientSession := ⟨true, true, ascii name, role, 0⟩

def sampleDelete : FrFrame :=
  sampleFrame .deleteArtifact (putRef ⟨ascii "team", ascii "app", ascii "1.0"⟩)

/-- `alice` is about to delete her artifact. -/
def sampleDeletion : List RequestEvent :=
  [.start (sampleRequestEnv 5) 1 [] (sampleClient "alice" .publisher) sampleDelete, .step 0]

/-- In between an administrator deletes it, and `bob` publishes. -/
def sampleDisturbed : List RequestEvent :=
  sampleDeletion ++
    [.start (sampleRequestEnv 5) 2 [] (sampleClient "root" .admin) sampleDelete, .step 1, .step 1,
      .start (sampleRequestEnv 6) 3 [] (sampleClient "bob" .publisher)
        (sampleFrame .commitUpload (putStr (ascii "s2"))), .step 2]

namespace Requests

/-- One event after the other. -/
def play (sha : Sha256) (pool : Requests) (events : List RequestEvent) : Requests :=
  events.foldl (next sha) pool

theorem play_run {sha : Sha256} {cond : Requests → RequestEvent → Prop} {pool : Requests}
    {events : List RequestEvent} (hcond : ∀ pool, ∀ e ∈ events, cond pool e) :
    Trace.Run (Step sha cond) pool events (pool.play sha events) := by
  induction events generalizing pool with
  | nil => exact .nil pool
  | cons e events ih =>
    exact .cons ⟨hcond pool e List.mem_cons_self, rfl⟩
      (ih fun pool e he => hcond pool e (List.mem_cons_of_mem _ he))

def sampleRequests (events : List RequestEvent) : Requests :=
  (start (played sampleSha sampleRivals).2.store .empty).play sampleSha events

/-- The deletion that follows its check at once. -/
theorem publisher_deletes_own_sample :
    ((sampleRequests sampleDeletion).service.store.db.artifact.map (·.creator)) = [ascii "alice"] ∧
      (sampleRequests sampleDeletion).DeletesOwn sampleSha := by
  have hrun : Trace.Run (Step sampleSha Undisturbed) (start (played sampleSha sampleRivals).2.store
      .empty) sampleDeletion (sampleRequests sampleDeletion) := by
    refine .cons ⟨trivial, rfl⟩ (.single ⟨?_, rfl⟩)
    rintro info session ref ⟨r, sessionId, hget, -, htype, -⟩
    cases hget
    cases htype.symm.trans (by decide +kernel :
      FrMsgType.ofByte sampleDelete.type = some .deleteArtifact)
  exact ⟨by decide +kernel, (publisher_deletes_own sampleRivals_run hrun).1⟩

/-- The deletion that is overtaken removes the artifact of `bob`. -/
theorem publisher_deletes_another :
    ¬ ∀ {sha : Sha256} {history : List Event} {sys : System} {auth : AuthDb}
      {events : List RequestEvent} {pool : Requests},
      Trace.Run (System.Step sha anywhere) .initial history sys →
      Trace.Run (Step sha fun _ _ => True) (start sys.store auth) events pool →
        pool.DeletesOwn sha := by
  intro hall
  have hrun : Trace.Run (Step sampleSha fun _ _ => True) (start (played sampleSha
      sampleRivals).2.store .empty) sampleDisturbed (sampleRequests sampleDisturbed) :=
    play_run fun _ _ _ => trivial
  have hown : (sampleRequests sampleDisturbed).DeletesOwn sampleSha := hall sampleRivals_run hrun
  have hlabel : (sampleRequests sampleDisturbed).label? 0 =
      some (.deleting (sampleClient "alice" .publisher)
        ⟨ascii "team", ascii "app", ascii "1.0"⟩) := by
    decide +kernel
  have hbefore : (sampleRequests sampleDisturbed).service.store.db.artifact.map (·.creator) =
      [ascii "bob"] := by decide +kernel
  have hafter : ((sampleRequests sampleDisturbed).next sampleSha
      (.step 0)).service.store.db.artifact = [] := by decide +kernel
  obtain ⟨a, ha⟩ := List.exists_mem_of_length_pos (show 0 <
    (sampleRequests sampleDisturbed).service.store.db.artifact.length by decide +kernel)
  have hgone : a ∉ ((sampleRequests sampleDisturbed).next sampleSha
      (.step 0)).service.store.db.artifact := by
    rw [hafter]
    exact List.not_mem_nil
  have hcreator : a.creator = ascii "alice" := hown 0 _ _ hlabel (by rw [sampleClient]) a ha hgone
  have hbob : a.creator ∈ [ascii "bob"] := hbefore ▸ List.mem_map_of_mem ha
  rw [hcreator] at hbob
  revert hbob
  decide

end Requests

end ForgeRelay
