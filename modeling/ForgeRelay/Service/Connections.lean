import ForgeRelay.Service.Replies

/-!
# Requests over many connections

The service with the `ClientSession` of each connection, and what happens to it: connections are
opened and closed, requests are handled one after the other, downloads are continued, and the
maintenance runs.
-/

namespace ForgeRelay

open Program

/-- The service and the sessions of its connections. -/
structure Clients where
  service : Service
  sessions : Nat → Option ClientSession

/-- Nobody is connected. -/
def Clients.start (store : Store) (auth : AuthDb) : Clients := ⟨.start store auth, fun _ => none⟩

inductive ClientEvent
  | connect (connId : Nat)
  | request (connId : Nat) (env : RequestEnv) (peer : Bytes) (frame : FrFrame)
  | resume (key : Bytes)
  | maintenance (env : CallEnv)
  | disconnect (connId : Nat)

namespace Clients

/-- The answer to a request, if there is such a connection. -/
def reply (sha : Sha256) (c : Clients) (connId : Nat) (env : RequestEnv) (peer : Bytes)
    (frame : FrFrame) : Option (Except Error HandleResult) :=
  (c.sessions connId).map fun session =>
    ((handle sha env connId peer session frame).run c.service).1.map Prod.fst

/-- What an event does. -/
def next (sha : Sha256) (c : Clients) : ClientEvent → Clients
  | .connect connId =>
    if (c.sessions connId).isSome then c
    else { c with sessions := Function.update c.sessions connId (some .fresh) }
  | .request connId env peer frame =>
    match c.sessions connId with
    | none => c
    | some session =>
      match (handle sha env connId peer session frame).run c.service with
      | (.ok (_, session), service) =>
        ⟨service, Function.update c.sessions connId (some session)⟩
      | (.error _, service) => { c with service := service }
  | .resume key => { c with service := ((handleGetContinue key).run c.service).2 }
  | .maintenance env =>
    { c with service := { c.service with store := ((runMaintenance env).run c.service.store).2 } }
  | .disconnect connId =>
    ⟨onConnectionClosed connId c.service, Function.update c.sessions connId none⟩

/-- One event after the other. -/
def run (sha : Sha256) (c : Clients) (events : List ClientEvent) : Clients :=
  events.foldl (next sha) c

theorem run_append {sha : Sha256} (c : Clients) (before after : List ClientEvent) :
    c.run sha (before ++ after) = (c.run sha before).run sha after := List.foldl_append

end Clients

/-- A property that every operation of the registry keeps. -/
structure AuthDb.Stable (sha : Sha256) (P : AuthDb → Prop) : Prop where
  userAdd : ∀ {db db' : AuthDb} {now : Int64} {username : Bytes} {role : Role}, P db →
    db.userAdd now username role = .ok db' → P db'
  userDisable : ∀ {db db' : AuthDb} {username : Bytes}, P db →
    db.userDisable username = .ok db' → P db'
  tokenCreate : ∀ {db db' : AuthDb} {now : Int64} {random username token : Bytes}
    {ttlHours : UInt32}, P db → db.tokenCreate sha now random username ttlHours = .ok (token, db') →
    P db'
  tokenRevoke : ∀ {db db' : AuthDb} {now : Int64} {tokenId : UInt64}, P db →
    db.tokenRevoke now tokenId = .ok db' → P db'
  audit : ∀ {db : AuthDb} {now : Int64} {actor action target result : Bytes}, P db →
    P (db.audit now actor action target result)

/-- A property of the service that storage, the downloads and the registry can change under. -/
structure Service.Stable (sha : Sha256) (P : Service → Prop) : Prop where
  store : ∀ {s : Service} {store : Store}, P s → P { s with store := store }
  downloads : ∀ {s : Service} {gets : Bytes → Option GetState} {getSeq : UInt64}, P s →
    P { s with gets := gets, getSeq := getSeq }
  auth : ∀ s : Service, AuthDb.Stable sha fun auth => P { s with auth := auth }

theorem AuthDb.Stable.service {sha : Sha256} {P : AuthDb → Prop} (hP : AuthDb.Stable sha P) :
    Service.Stable sha fun s => P s.auth := ⟨id, id, fun _ => hP⟩

/-- A run of the program keeps the property of the service. -/
def Keeps {α : Type} (P : Service → Prop) (p : ServiceM α) : Prop := ∀ s, P s → P (p.run s).2

namespace Keeps

variable {α β : Type} {P : Service → Prop} {sha : Sha256}

theorem pure (a : α) : Keeps P (Pure.pure a : ServiceM α) := fun _ h => h

theorem throw (e : Error) : Keeps P (MonadExcept.throw e : ServiceM α) := fun _ h => h

theorem ofExcept (r : Except Error α) : Keeps P (Prog.ofExcept r : ServiceM α) := by
  cases r <;> exact fun _ h => h

theorem bind {p : ServiceM α} {k : α → ServiceM β} (hp : Keeps P p)
    (hk : ∀ a, Keeps P (k a)) : Keeps P (p >>= k) := by
  intro s h
  have hfirst := hp s h
  rw [Prog.run_bind]
  rcases hrun : p.run s with ⟨r | a, s'⟩
  · rw [hrun] at hfirst
    exact hfirst
  · rw [hrun] at hfirst
    exact hk a s' hfirst

theorem outcome {p : ServiceM α} (hp : Keeps P p) : Keeps P (ForgeRelay.outcome p) := by
  intro s h
  rw [outcome_run]
  exact hp s h

theorem onStore (hstore : ∀ {s : Service} {store : Store}, P s → P { s with store := store })
    {sec : Section} {p : StorageM α} : Keeps P (ForgeRelay.onStore sec p) := by
  intro s h
  rw [ForgeRelay.onStore, Prog.run_lift]
  exact hstore h

theorem registry {f : AuthDb → Except Error α} : Keeps P (ForgeRelay.registry f) := by
  intro s h
  rw [ForgeRelay.registry, Prog.run_lift]
  exact h

theorem registryUpdate {f : AuthDb → Except Error (α × AuthDb)}
    (hf : ∀ s a auth, P s → f s.auth = .ok (a, auth) → P { s with auth := auth }) :
    Keeps P (ForgeRelay.registryUpdate f) := by
  intro s h
  rw [ForgeRelay.registryUpdate, Prog.run_lift]
  cases hrun : f s.auth with
  | error e => exact h
  | ok result => exact hf _ _ _ h hrun

theorem reply {frame : FrFrame} {enc : MsgEncoder} : Keeps P (replyOk frame enc) :=
  bind (ofExcept _) fun _ => pure _

end Keeps

section Handlers

variable {P : Service → Prop} {sha : Sha256} {env : RequestEnv} {connId : Nat} {peer : Bytes}
  {session : ClientSession} {frame : FrFrame}

private theorem audit_keeps (hP : Service.Stable sha P) (action target : Bytes) :
    Keeps P (audit env session action target) :=
  .registryUpdate fun s _ _ h hok => by
    cases hok
    exact (hP.auth s).audit h

theorem registryUpdate_map_keeps {f : AuthDb → Except Error AuthDb}
    (hf : ∀ s auth, P s → f s.auth = .ok auth → P { s with auth := auth }) :
    Keeps P (registryUpdate fun auth => (f auth).map ((), ·)) :=
  .registryUpdate fun s _ _ h hok => by
    cases hrun : f s.auth with
    | error e =>
      rw [hrun] at hok
      cases hok
    | ok auth =>
      rw [hrun] at hok
      cases hok
      exact hf _ _ h hrun

private theorem handleAbortUpload_keeps (hP : Service.Stable sha P) :
    Keeps P (handleAbortUpload env session frame) := by
  refine .bind (.ofExcept _) fun sessionId => .bind (fun s h => ?_) fun _ => .pure _
  rw [Prog.run_lift]
  split
  · exact hP.store ((hP.auth s).audit h)
  · exact hP.store h

theorem startGet_keeps (hdownloads : ∀ {s : Service} {gets : Bytes → Option GetState}
    {getSeq : UInt64}, P s → P { s with gets := gets, getSeq := getSeq }) {req : GetArtifactReq} :
    Keeps P (startGet connId frame req) := by
  intro s h
  rw [startGet, Prog.run_lift]
  dsimp only
  split
  · exact hdownloads h
  · split <;> exact hdownloads h

private theorem dispatchBusiness_keeps (hP : Service.Stable sha P) :
    Keeps P (dispatchBusiness sha env connId session frame) := by
  have haudit (action target : Bytes) : Keeps P (audit env session action target) :=
    audit_keeps hP action target
  unfold dispatchBusiness
  split
  · exact .bind (.ofExcept _) fun _ => .bind (.ofExcept _) fun _ =>
      .bind (.onStore hP.store) fun _ => .reply
  · exact .bind (.ofExcept _) fun _ => .bind (.onStore hP.store) fun _ =>
      .bind (.onStore hP.store) fun _ => .reply
  · refine .bind (.ofExcept _) fun _ => .bind (.onStore hP.store) fun _ => ?_
    dsimp only
    split
    · exact .throw _
    · exact .reply
  · exact .bind (.ofExcept _) fun _ => .bind (.onStore hP.store) fun _ => .reply
  · exact handleAbortUpload_keeps hP
  · exact .bind (.ofExcept _) fun _ => .bind (.ofExcept _) fun _ => startGet_keeps hP.downloads
  · exact .bind (.ofExcept _) fun _ => .bind (.ofExcept _) fun _ =>
      .bind (.onStore hP.store) fun _ => .reply
  · exact .bind (.ofExcept _) fun _ => .bind (.ofExcept _) fun _ =>
      .bind (.onStore hP.store) fun _ => .reply
  · refine .bind (.ofExcept _) fun _ => .bind (.onStore hP.store) fun _ =>
      .bind (fun s h => ?_) fun _ => .reply
    rw [Prog.run_lift]
    exact h
  · exact .bind (.ofExcept _) fun _ => .bind (.onStore hP.store) fun _ =>
      .bind (.onStore hP.store) fun _ => .bind (haudit _ _) fun _ => .reply
  · exact .bind (.ofExcept _) fun _ => .bind (.ofExcept _) fun _ =>
      .bind (.onStore hP.store) fun _ => .bind (haudit _ _) fun _ => .reply
  · exact .bind (.ofExcept _) fun _ => .bind (.ofExcept _) fun _ =>
      .bind (registryUpdate_map_keeps fun s _ => (hP.auth s).userAdd) fun _ =>
      .bind (haudit _ _) fun _ => .pure _
  · exact .bind (.ofExcept _) fun _ => .bind (.ofExcept _) fun _ =>
      .bind (registryUpdate_map_keeps fun s _ => (hP.auth s).userDisable) fun _ =>
      .bind (haudit _ _) fun _ => .pure _
  · exact .bind (.ofExcept _) fun _ => .bind .registry fun _ => .reply
  · exact .bind (.ofExcept _) fun _ => .bind (.ofExcept _) fun _ =>
      .bind (.registryUpdate fun s _ _ => (hP.auth s).tokenCreate) fun _ =>
      .bind (haudit _ _) fun _ => .reply
  · exact .bind (.ofExcept _) fun _ => .bind (.ofExcept _) fun _ =>
      .bind (registryUpdate_map_keeps fun s _ => (hP.auth s).tokenRevoke) fun _ =>
      .bind (haudit _ _) fun _ => .pure _
  · exact .bind (.ofExcept _) fun _ => .bind (.ofExcept _) fun _ => .bind .registry fun _ => .reply
  · exact .bind (.ofExcept _) fun _ => .bind (.onStore hP.store) fun _ => .reply
  · exact .bind (.ofExcept _) fun _ => .bind (.ofExcept _) fun _ =>
      .bind (.onStore hP.store) fun _ => .bind (haudit _ _) fun _ => .pure _
  · exact .throw _

private theorem handleFrame_keeps
    (hbusiness : Keeps P (dispatchBusiness sha env connId session frame)) :
    Keeps P (handleFrame sha env connId peer session frame) := by
  have hdefault : Keeps P (do
      let result ← outcome (if session.authenticated = false then
        throw (.of .eUnauthenticated "authentication required")
        else dispatchBusiness sha env connId session frame)
      return (session, result)) := by
    refine .bind (.outcome ?_) fun _ => .pure _
    split
    · exact .throw _
    · exact hbusiness
  unfold handleFrame
  split
  · split <;> exact .pure _
  · refine .bind (.outcome fun s h => ?_) fun r => ?_
    · rw [verifyAuth_state]
      exact h
    · cases r <;> exact .pure _
  · exact .pure _
  · exact .pure _
  · exact hdefault

theorem replyError_keeps {code : FrStatus} {what : Bytes}
    (hstats : FrMsgType.ofByte frame.type = some .auth → ∀ {s stats}, P s →
      P { s with ipStats := stats }) :
    Keeps P (replyError env peer session frame code what) := by
  unfold replyError
  dsimp only
  split
  · rename_i hfailed
    refine .bind (fun s h => ?_) fun _ => .bind (.ofExcept _) fun _ => .pure _
    rw [noteAuthFailure, Prog.run_lift]
    exact hstats hfailed.2 h
  · exact .bind (.ofExcept _) fun _ => .pure _

theorem handle_keeps_of (hbusiness : Keeps P (dispatchBusiness sha env connId session frame))
    (hstats : FrMsgType.ofByte frame.type = some .auth → ∀ {s stats}, P s →
      P { s with ipStats := stats }) :
    Keeps P (handle sha env connId peer session frame) := by
  refine .bind (handleFrame_keeps hbusiness) fun result => ?_
  obtain ⟨session', result⟩ := result
  cases result with
  | ok result => exact .pure _
  | error e =>
    cases e with
    | std what => exact .throw _
    | fr code what => exact replyError_keeps hstats

/-- Requests change storage, the registry by its operations and the downloads, and AUTH what is
recorded of the addresses. -/
theorem handle_keeps (hP : Service.Stable sha P)
    (hstats : FrMsgType.ofByte frame.type = some .auth → ∀ {s stats}, P s →
      P { s with ipStats := stats }) :
    Keeps P (handle sha env connId peer session frame) :=
  handle_keeps_of (dispatchBusiness_keeps hP) hstats

theorem handleGetContinue_keeps (hdownloads : ∀ {s : Service} {gets : Bytes → Option GetState}
    {getSeq : UInt64}, P s → P { s with gets := gets, getSeq := getSeq }) (key : Bytes) :
    Keeps P (handleGetContinue key) := by
  intro s h
  rw [handleGetContinue, Prog.run_lift]
  split
  · exact h
  · split
    · exact h
    · split <;> exact hdownloads h

end Handlers

namespace Clients

variable {sha : Sha256} {P : AuthDb → Prop} {c : Clients}

theorem next_keepsAuth (hP : AuthDb.Stable sha P) (h : P c.service.auth) (e : ClientEvent) :
    P (c.next sha e).service.auth := by
  cases e with
  | connect connId =>
    simp only [next]
    split <;> exact h
  | request connId env peer frame =>
    cases hsession : c.sessions connId with
    | none => simpa [next, hsession] using h
    | some session =>
      have hkeeps : Keeps (fun s => P s.auth) (handle sha env connId peer session frame) :=
        handle_keeps hP.service fun _ _ _ => id
      have hrun := hkeeps c.service h
      simp only [next, hsession]
      split <;> simp_all
  | resume key =>
    exact handleGetContinue_keeps (P := fun s => P s.auth) hP.service.downloads key c.service h
  | maintenance env => exact h
  | disconnect connId => exact h

theorem run_keepsAuth (hP : AuthDb.Stable sha P) (h : P c.service.auth)
    (events : List ClientEvent) : P (c.run sha events).service.auth := by
  induction events generalizing c with
  | nil => exact h
  | cons e events ih => exact ih (next_keepsAuth hP h e)

end Clients

end ForgeRelay
