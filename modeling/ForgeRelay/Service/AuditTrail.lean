import ForgeRelay.Service.RateLimit

/-!
# The audit trail

Eight of the handlers write a row to `audit_event` after their operation, with the username that
the session has from AUTH as the actor. So the rows are those of the requests whose operation
succeeded, in the order in which they were handled, and the actor is the user that the last AUTH
of the connection verified.
-/

namespace ForgeRelay

open Program

/-- What a handler that writes an audit does before: the operation, with the action and the target
of the row that is due when it succeeds. -/
def auditedOperation (sha : Sha256) (env : RequestEnv) (session : ClientSession)
    (frame : FrFrame) : Option (ServiceM (Bytes × Bytes)) :=
  match FrMsgType.ofByte frame.type with
  | some .abortUpload => some do
    let sessionId ← decode getStr frame
    locked (getAllowedSession session sessionId >>= fun _ => abortSession env.call sessionId)
    return (ascii "session.abort", sessionId)
  | some .deleteArtifact => some do
    let ref ← decode decodeRef frame
    locked (requireDeleteAllowed session ref)
    let _ ← onStore (.deleting session ref) (deleteArtifact env.call ref.ns ref.name ref.version)
    return (ascii "artifact.delete", refToString ref)
  | some .runGc => some do
    Prog.ofExcept (requireRole session .admin)
    let req ← decode decodeRunGcReq frame
    let _ ← locked (collectGarbage env.cfg env.call req.dryRun)
    return (if req.dryRun then ascii "gc.dry_run" else ascii "gc.run", ascii "storage")
  | some .userAdd => some do
    Prog.ofExcept (requireRole session .admin)
    let req ← decode decodeUserAddReq frame
    registryUpdate fun auth =>
      (auth.userAdd env.call.now req.username (Role.ofU8 req.role)).map ((), ·)
    return (ascii "user.add", req.username)
  | some .userDisable => some do
    Prog.ofExcept (requireRole session .admin)
    let username ← decode getStr frame
    registryUpdate fun auth => (auth.userDisable username).map ((), ·)
    return (ascii "user.disable", username)
  | some .tokenCreate => some do
    Prog.ofExcept (requireRole session .admin)
    let req ← decode decodeTokenCreateReq frame
    let _ ← registryUpdate fun auth =>
      auth.tokenCreate sha env.call.now env.random req.username req.ttlHours
    return (ascii "token.create", req.username)
  | some .tokenRevoke => some do
    Prog.ofExcept (requireRole session .admin)
    let tokenId ← decode getU64 frame
    registryUpdate fun auth => (auth.tokenRevoke env.call.now tokenId).map ((), ·)
    return (ascii "token.revoke", ascii (toString tokenId.toNat))
  | some .sessionAbort => some do
    Prog.ofExcept (requireRole session .admin)
    let sessionId ← decode getStr frame
    onStore .unlocked (abortSession env.call sessionId)
    return (ascii "session.abort", sessionId)
  | _ => none

/-- The rows that are due for what an operation returns. -/
def dueRows (now : Int64) (actor : Bytes) : Option (Except Error (Bytes × Bytes)) → List AuditRow
  | some (.ok (action, target)) => [⟨actor, action, target, ascii "ok", now⟩]
  | _ => []

/-- What an operation returns in this state. -/
def operationResult (op : Option (ServiceM (Bytes × Bytes))) (s : Service) :
    Option (Except Error (Bytes × Bytes)) := op.map fun p => (p.run s).1

/-- The program writes no row. -/
def Silent {α : Type} (p : ServiceM α) : Prop :=
  ∀ rows, Keeps (fun s => s.auth.auditEvent = rows) p

/-- The program writes the rows that are due for the operation. -/
def Audits {α : Type} (env : RequestEnv) (session : ClientSession) (p : ServiceM α)
    (op : Option (ServiceM (Bytes × Bytes))) : Prop :=
  ∀ s, (p.run s).2.auth.auditEvent =
    s.auth.auditEvent ++ dueRows env.call.now session.username (operationResult op s)

section

variable {α β : Type} {sha : Sha256} {env : RequestEnv} {connId : Nat} {peer : Bytes}
  {session : ClientSession} {frame : FrFrame}

namespace Silent

theorem ofExcept (r : Except Error α) : Silent (Prog.ofExcept r : ServiceM α) :=
  fun _ => .ofExcept r

theorem onStore {sec : Section} {p : StorageM α} : Silent (ForgeRelay.onStore sec p) :=
  fun _ => .onStore id

theorem reply {enc : MsgEncoder} : Silent (replyOk frame enc) := fun _ => .reply

theorem bind {p : ServiceM α} {k : α → ServiceM β} (hp : Silent p) (hk : ∀ a, Silent (k a)) :
    Silent (p >>= k) := fun rows => .bind (hp rows) fun a => hk a rows

theorem registryUpdate {f : AuthDb → Except Error (α × AuthDb)}
    (hf : ∀ db a db', f db = .ok (a, db') → db'.auditEvent = db.auditEvent) :
    Silent (ForgeRelay.registryUpdate f) :=
  fun _ => .registryUpdate fun s a auth h hok => (hf s.auth a auth hok).trans h

private theorem registryUpdate_map {f : AuthDb → Except Error AuthDb}
    (hf : ∀ db db', f db = .ok db' → db'.auditEvent = db.auditEvent) :
    Silent (ForgeRelay.registryUpdate fun db => (f db).map ((), ·)) :=
  fun _ => registryUpdate_map_keeps fun s auth h hok => (hf s.auth auth hok).trans h

end Silent

namespace Audits

theorem of_silent {p : ServiceM α} (hp : Silent p) : Audits env session p none := by
  intro s
  rw [hp _ s rfl]
  exact (List.append_nil _).symm

theorem bind {q : ServiceM α} {k : α → ServiceM β} {l : α → ServiceM (Bytes × Bytes)}
    (hq : Silent q) (hk : ∀ a, Audits env session (k a) (some (l a))) :
    Audits env session (q >>= k) (some (q >>= l)) := by
  intro s
  have hsilent := hq _ s rfl
  rw [operationResult, Option.map_some, Prog.run_bind, Prog.run_bind]
  rcases hrun : q.run s with ⟨e | a, s'⟩
  · rw [hrun] at hsilent
    exact hsilent.trans (List.append_nil _).symm
  · rw [hrun] at hsilent
    rw [← hsilent]
    exact hk a s'

theorem audit (action target : Bytes) {k : Unit → ServiceM α} (hk : Silent (k ())) :
    Audits env session (ForgeRelay.audit env session action target >>= k)
      (some (pure (action, target))) := by
  intro s
  rw [ForgeRelay.audit, ForgeRelay.registryUpdate, Prog.run_bind, Prog.run_lift]
  exact hk _ _ rfl

end Audits

private theorem AuthDb.userAdd_auditEvent {db db' : AuthDb} {now : Int64} {username : Bytes}
    {role : Role}
    (h : db.userAdd now username role = .ok db') : db'.auditEvent = db.auditEvent := by
  obtain ⟨rfl, -⟩ := userAdd_ok h
  rfl

private theorem AuthDb.userDisable_auditEvent {db db' : AuthDb} {username : Bytes}
    (h : db.userDisable username = .ok db') : db'.auditEvent = db.auditEvent := by
  rw [userDisable_ok h]

private theorem AuthDb.tokenCreate_auditEvent {db db' : AuthDb} {now : Int64}
    {random username token : Bytes} {ttlHours : UInt32}
    (h : db.tokenCreate sha now random username ttlHours = .ok (token, db')) :
    db'.auditEvent = db.auditEvent := by
  obtain ⟨-, u, -, -, -, -, rfl, -⟩ := tokenCreate_ok h
  rfl

private theorem AuthDb.tokenRevoke_auditEvent {db db' : AuthDb} {now : Int64} {tokenId : UInt64}
    (h : db.tokenRevoke now tokenId = .ok db') : db'.auditEvent = db.auditEvent := by
  rw [tokenRevoke_ok h]

private theorem handleAbortUpload_audits (htype : FrMsgType.ofByte frame.type = some .abortUpload) :
    Audits env session (handleAbortUpload env session frame)
      (auditedOperation sha env session frame) := by
  unfold handleAbortUpload auditedOperation
  rw [htype]
  refine .bind (.ofExcept _) fun sessionId s => ?_
  rw [operationResult, Option.map_some, Prog.run_bind, Prog.run_bind, locked, onStore,
    Prog.run_lift, Prog.run_lift]
  rcases (getAllowedSession session sessionId >>= fun _ => abortSession env.call sessionId).run
    s.store with ⟨e | u, store⟩
  · exact (List.append_nil _).symm
  · rfl

/-- Every other handler writes none, whatever it reads or changes. -/
private theorem dispatchBusiness_audits :
    Audits env session (dispatchBusiness sha env connId session frame)
      (auditedOperation sha env session frame) := by
  cases htype : FrMsgType.ofByte frame.type with
  | none =>
    unfold dispatchBusiness auditedOperation
    rw [htype]
    exact .of_silent fun _ => .throw _
  | some type =>
    by_cases habort : type = .abortUpload
    · subst habort
      unfold dispatchBusiness
      rw [htype]
      exact handleAbortUpload_audits htype
    unfold dispatchBusiness auditedOperation
    rw [htype]
    cases type with
    | hello | auth | ping | close | data | ok | error => exact .of_silent fun _ => .throw _
    | abortUpload => exact absurd rfl habort
    | createUpload =>
      exact .of_silent (.bind (.ofExcept _) fun _ => .bind (.ofExcept _) fun _ =>
        .bind .onStore fun _ => .reply)
    | putChunk =>
      exact .of_silent (.bind (.ofExcept _) fun _ => .bind .onStore fun _ =>
        .bind .onStore fun _ => .reply)
    | queryUpload =>
      refine .of_silent (.bind (.ofExcept _) fun _ => .bind .onStore fun _ => ?_)
      dsimp only
      split
      · exact fun _ => .throw _
      · exact .reply
    | commitUpload =>
      exact .of_silent (.bind (.ofExcept _) fun _ => .bind .onStore fun _ => .reply)
    | getArtifact =>
      exact .of_silent (.bind (.ofExcept _) fun _ => .bind (.ofExcept _) fun _ _ =>
        startGet_keeps id)
    | listArtifacts | showArtifact =>
      exact .of_silent (.bind (.ofExcept _) fun _ => .bind (.ofExcept _) fun _ =>
        .bind .onStore fun _ => .reply)
    | status =>
      refine .of_silent (.bind (.ofExcept _) fun _ => .bind .onStore fun _ =>
        .bind (fun _ s h => ?_) fun _ => .reply)
      rw [Prog.run_lift]
      exact h
    | userList =>
      exact .of_silent (.bind (.ofExcept _) fun _ => .bind (fun _ => .registry) fun _ => .reply)
    | tokenList =>
      exact .of_silent (.bind (.ofExcept _) fun _ => .bind (.ofExcept _) fun _ =>
        .bind (fun _ => .registry) fun _ => .reply)
    | sessionList =>
      exact .of_silent (.bind (.ofExcept _) fun _ => .bind .onStore fun _ => .reply)
    | deleteArtifact =>
      exact .bind (.ofExcept _) fun _ => .bind .onStore fun _ => .bind .onStore fun _ =>
        .audit _ _ .reply
    | runGc =>
      exact .bind (.ofExcept _) fun _ => .bind (.ofExcept _) fun _ => .bind .onStore fun _ =>
        .audit _ _ .reply
    | userAdd =>
      exact .bind (.ofExcept _) fun _ => .bind (.ofExcept _) fun _ =>
        .bind (.registryUpdate_map fun _ _ => AuthDb.userAdd_auditEvent) fun _ =>
        .audit _ _ fun _ => .pure _
    | userDisable =>
      exact .bind (.ofExcept _) fun _ => .bind (.ofExcept _) fun _ =>
        .bind (.registryUpdate_map fun _ _ => AuthDb.userDisable_auditEvent) fun _ =>
        .audit _ _ fun _ => .pure _
    | tokenCreate =>
      exact .bind (.ofExcept _) fun _ => .bind (.ofExcept _) fun _ =>
        .bind (.registryUpdate fun _ _ _ => AuthDb.tokenCreate_auditEvent) fun _ =>
        .audit _ _ .reply
    | tokenRevoke =>
      exact .bind (.ofExcept _) fun _ => .bind (.ofExcept _) fun _ =>
        .bind (.registryUpdate_map fun _ _ => AuthDb.tokenRevoke_auditEvent) fun _ =>
        .audit _ _ fun _ => .pure _
    | sessionAbort =>
      exact .bind (.ofExcept _) fun _ => .bind (.ofExcept _) fun _ => .bind .onStore fun _ =>
        .audit _ _ fun _ => .pure _

/-- The row that a request adds: that of its operation, if its client is authenticated. -/
def requestRows (sha : Sha256) (env : RequestEnv) (session : ClientSession) (frame : FrFrame)
    (s : Service) : Option Bytes → List AuditRow
  | some actor =>
    dueRows env.call.now actor (operationResult (auditedOperation sha env session frame) s)
  | none => []

/-- The user of an authenticated session. -/
def ClientSession.actor (session : ClientSession) : Option Bytes :=
  if session.authenticated then some session.username else none

theorem SameIdentity.actor {session session' : ClientSession} (h : SameIdentity session session') :
    session'.actor = session.actor := by
  rw [ClientSession.actor, ClientSession.actor, h.authenticated, h.username]

private theorem auditedOperation_of_not_business (h : frame.isBusiness = false) :
    auditedOperation sha env session frame = none := by
  unfold FrFrame.isBusiness at h
  unfold auditedOperation
  split <;> simp_all

private theorem requestRows_of_not_business (h : frame.isBusiness = false) (s : Service)
    (actor : Option Bytes) : requestRows sha env session frame s actor = [] := by
  cases actor with
  | none => rfl
  | some actor =>
    rw [requestRows, auditedOperation_of_not_business h]
    rfl

private theorem verifyAuth_silent : Silent (verifyAuth sha env peer frame) := by
  intro rows s h
  rw [verifyAuth_state]
  exact h

private theorem handleFrame_silent (h : frame.isBusiness = false) :
    Silent (handleFrame sha env connId peer session frame) := by
  unfold handleFrame
  split
  · split <;> exact fun _ => .pure _
  · refine .bind (fun rows => .outcome (verifyAuth_silent rows)) fun r => ?_
    cases r <;> exact fun _ => .pure _
  · exact fun _ => .pure _
  · exact fun _ => .pure _
  · rename_i hhello hauth hping hclose
    unfold FrFrame.isBusiness at h
    split at h <;> simp_all

variable (sha env connId peer session frame) in
private theorem handleFrame_audits (s : Service) :
    ((handleFrame sha env connId peer session frame).run s).2.auth.auditEvent =
      s.auth.auditEvent ++ requestRows sha env session frame s session.actor := by
  cases hbusiness : frame.isBusiness with
  | false =>
    rw [requestRows_of_not_business hbusiness, handleFrame_silent hbusiness _ s rfl,
      List.append_nil]
  | true =>
    rw [handleFrame_business hbusiness, Prog.run_bind, outcome_run, ClientSession.actor]
    cases hauth : session.authenticated with
    | false => exact (List.append_nil _).symm
    | true => exact dispatchBusiness_audits s

variable (sha env connId peer session frame) in
private theorem handle_audits (s : Service) :
    ((handle sha env connId peer session frame).run s).2.auth.auditEvent =
      s.auth.auditEvent ++ requestRows sha env session frame s session.actor := by
  rw [← handleFrame_audits sha env connId peer, handle, Prog.run_bind]
  rcases (handleFrame sha env connId peer session frame).run s with ⟨e | ⟨session', result⟩, s'⟩
  · rfl
  · cases result with
    | ok result => rfl
    | error e =>
      cases e with
      | std what => rfl
      | fr code what => exact replyError_keeps (P := fun s => s.auth.auditEvent =
          s'.auth.auditEvent) (fun _ _ _ => id) s' rfl

end

namespace Clients

variable {sha : Sha256} {c : Clients}

/-- The user that the last AUTH of each connection verified, after an event. -/
def verifiedNext (sha : Sha256) (c : Clients) (verified : Nat → Option Bytes) :
    ClientEvent → Nat → Option Bytes
  | .request connId env peer frame =>
    if (c.sessions connId).isSome ∧ FrMsgType.ofByte frame.type = some .auth then
      match ((verifyAuth sha env peer frame).run c.service).1 with
      | .ok ok => Function.update verified connId (some ok.username)
      | .error _ => verified
    else verified
  | .disconnect connId => Function.update verified connId none
  | _ => verified

/-- The rows that an event should add. -/
def eventRows (sha : Sha256) (c : Clients) (verified : Nat → Option Bytes) :
    ClientEvent → List AuditRow
  | .request connId env _ frame =>
    match c.sessions connId with
    | some session => requestRows sha env session frame c.service (verified connId)
    | none => []
  | _ => []

/-- The rows that the events should add, one after the other. -/
def trail (sha : Sha256) (c : Clients) (verified : Nat → Option Bytes) :
    List ClientEvent → List AuditRow
  | [] => []
  | e :: events =>
    c.eventRows sha verified e ++ (c.next sha e).trail sha (c.verifiedNext sha verified e) events

/-- The users that the sessions have kept. -/
def actors (c : Clients) (connId : Nat) : Option Bytes := (c.sessions connId).bind (·.actor)

private theorem actors_update (service : Service) (connId : Nat) (session : Option ClientSession) :
    actors ⟨service, Function.update c.sessions connId session⟩ =
      Function.update c.actors connId (session.bind (·.actor)) := by
  funext id
  change (Function.update c.sessions connId session id).bind _ = _
  by_cases hid : id = connId
  · subst hid
    rw [Function.update_self, Function.update_self]
  · rw [Function.update_of_ne hid, Function.update_of_ne hid]
    rfl

private theorem update_actors {connId : Nat} {session : ClientSession} {actor : Option Bytes}
    (hsession : c.sessions connId = some session) (hactor : session.actor = actor) :
    Function.update c.actors connId actor = c.actors := by
  refine Function.update_eq_self_iff.mpr ?_
  rw [actors, hsession, ← hactor]
  rfl

private theorem next_actors (e : ClientEvent) :
    (c.next sha e).actors = c.verifiedNext sha c.actors e := by
  cases e with
  | connect connId =>
    simp only [next, verifiedNext]
    split
    · rfl
    · rename_i hnone
      rw [actors_update]
      refine Function.update_eq_self_iff.mpr ?_
      rw [Option.not_isSome_iff_eq_none] at hnone
      rw [actors, hnone]
      rfl
  | resume key => rfl
  | maintenance env => rfl
  | disconnect connId => exact actors_update _ connId none
  | request connId env peer frame =>
    simp only [next, verifiedNext]
    cases hsession : c.sessions connId with
    | none => rfl
    | some session =>
      simp only [Option.isSome_some, true_and]
      by_cases hauth : FrMsgType.ofByte frame.type = some .auth ∧
          ∃ ok, (verifyAuth sha env peer frame).run c.service = (.ok ok, c.service)
      · obtain ⟨htype, ok, hverify⟩ := hauth
        obtain ⟨result, hrun, -⟩ := handle_verified connId session htype hverify
        rw [if_pos htype, hrun, hverify, actors_update]
        rfl
      · have hsame : (if FrMsgType.ofByte frame.type = some .auth then
            match ((verifyAuth sha env peer frame).run c.service).1 with
            | .ok ok => Function.update c.actors connId (some ok.username)
            | .error _ => c.actors
            else c.actors) = c.actors := by
          split
          · rename_i htype
            have hstate := verifyAuth_state sha env peer frame c.service
            rcases hverify : (verifyAuth sha env peer frame).run c.service with ⟨e | ok, s'⟩
            · rfl
            · rw [hverify] at hstate
              exact absurd ⟨htype, ok, hverify.trans (by rw [← hstate])⟩ hauth
          · rfl
        rw [hsame]
        rcases hrun : (handle sha env connId peer session frame).run c.service with
          ⟨e | ⟨result, session'⟩, s'⟩
        · rfl
        · have hidentity := (handle_identity hrun).resolve_right <| by
            rintro ⟨ok, htype, hverify⟩
            exact hauth ⟨htype, ok, hverify⟩
          dsimp only
          rw [actors_update]
          exact update_actors hsession hidentity.actor.symm

private theorem next_auditEvent (e : ClientEvent) :
    (c.next sha e).service.auth.auditEvent =
      c.service.auth.auditEvent ++ c.eventRows sha c.actors e := by
  cases e with
  | connect connId =>
    simp only [next, eventRows, List.append_nil]
    split <;> rfl
  | resume key =>
    change _ = c.service.auth.auditEvent ++ []
    rw [List.append_nil]
    exact handleGetContinue_keeps (P := fun s => s.auth.auditEvent = c.service.auth.auditEvent)
      id key c.service rfl
  | maintenance env => exact (List.append_nil _).symm
  | disconnect connId => exact (List.append_nil _).symm
  | request connId env peer frame =>
    simp only [next, eventRows, actors]
    cases hsession : c.sessions connId with
    | none => exact (List.append_nil _).symm
    | some session =>
      rw [Option.bind_some, ← handle_audits sha env connId peer session frame c.service]
      dsimp only
      rcases (handle sha env connId peer session frame).run c.service with
        ⟨e | ⟨result, session'⟩, s'⟩ <;> rfl

/-- The rows of the audit trail are, in the order of the requests, one for each request whose
operation is audited and succeeded, with the user that the last AUTH on its connection verified. -/
theorem audit_trail_exact (sha : Sha256) (store : Store) (auth : AuthDb)
    (events : List ClientEvent) :
    ((start store auth).run sha events).service.auth.auditEvent =
      auth.auditEvent ++ (start store auth).trail sha (fun _ => none) events := by
  have hrun (events : List ClientEvent) : ∀ c : Clients,
      (c.run sha events).service.auth.auditEvent =
        c.service.auth.auditEvent ++ c.trail sha c.actors events := by
    induction events with
    | nil => exact fun c => (List.append_nil _).symm
    | cons e events ih =>
      intro c
      rw [trail, ← next_actors, ← List.append_assoc, ← next_auditEvent]
      exact ih _
  exact hrun events (start store auth)

/-- `root` has added `bob` and made a token for it; what `bob` asks for is refused. -/
example :
    let events := sampleLogins ++ [sampleRequest 0 2 .userDisable (putStr (ascii "root"))]
    (start .empty (rootAuth 1)).trail prefixSha (fun _ => none) events =
      [⟨ascii "root", ascii "user.add", ascii "bob", ascii "ok", 2⟩,
        ⟨ascii "root", ascii "token.create", ascii "bob", ascii "ok", 2⟩] := by
  decide +kernel

end Clients

end ForgeRelay
