import ForgeRelay.Service.Replies
import ForgeRelay.Storage.ReadOnly

/-!
# Who may change what

A request that changes storage or the registry comes from an authenticated session with the role
for it, and a publisher changes only what is its own.
-/

namespace ForgeRelay

open Program

/-- Storage and the registry are as before. -/
structure SameData (s s' : Service) : Prop where
  store : s'.store = s.store
  auth : s'.auth = s.auth

theorem SameData.refl (s : Service) : SameData s s := ⟨rfl, rfl⟩

theorem SameData.trans {s s' s'' : Service} (h : SameData s s') (h' : SameData s' s'') :
    SameData s s'' :=
  ⟨h'.store.trans h.store, h'.auth.trans h.auth⟩

/-- The upload session with this id belongs to the client. -/
def OwnsSession (session : ClientSession) (s : Service) (sessionId : Bytes) : Prop :=
  ∃ info, s.store.db.session? sessionId = some info ∧ info.owner = session.username

/-- What a publisher may change with this frame. -/
def PublisherMay (session : ClientSession) (s : Service) (frame : FrFrame) : Prop :=
  match FrMsgType.ofByte frame.type with
  | some .createUpload => True
  | some .putChunk => ∃ req, decodeFrame decodePutChunkReq frame = .ok req ∧
      OwnsSession session s req.sessionId
  | some .commitUpload | some .abortUpload =>
    ∃ sessionId, decodeFrame getStr frame = .ok sessionId ∧ OwnsSession session s sessionId
  | some .deleteArtifact => ∃ ref info, decodeFrame decodeRef frame = .ok ref ∧
      s.store.db.artifact? ref.ns ref.name ref.version = some info ∧ info.creator = session.username
  | _ => False

/-- The session may change the data with this frame. -/
def Permitted (session : ClientSession) (s : Service) (frame : FrFrame) : Prop :=
  session.authenticated = true ∧
    (session.role = .admin ∨ session.role = .publisher ∧ PublisherMay session s frame)

/-- The data is as in `s₀` after the program, unless `C` holds. -/
def ChangesOnlyIf {α : Type} (C : Prop) (s₀ : Service) (p : ServiceM α) (s : Service) : Prop :=
  SameData s₀ (p.run s).2 ∨ C

section Rules

variable {α β : Type} {C : Prop} {s₀ s : Service}

private theorem changesOnlyIf_pure {a : α} (h : SameData s₀ s) :
    ChangesOnlyIf C s₀ (pure a : ServiceM α) s := .inl h

private theorem changesOnlyIf_throw {e : Error} (h : SameData s₀ s) :
    ChangesOnlyIf C s₀ (throw e : ServiceM α) s := .inl h

private theorem changesOnlyIf_bind {p : ServiceM α} {k : α → ServiceM β}
    (hp : SameData s₀ (p.run s).2)
    (hk : ∀ a s', p.run s = (.ok a, s') → SameData s₀ s' → ChangesOnlyIf C s₀ (k a) s') :
    ChangesOnlyIf C s₀ (p >>= k) s := by
  rw [ChangesOnlyIf, Prog.run_bind]
  rcases hrun : p.run s with ⟨r | a, s'⟩
  · rw [hrun] at hp
    exact .inl hp
  · rw [hrun] at hp
    exact hk a s' hrun hp

private theorem changesOnlyIf_check {r : Except Error α} {k : α → ServiceM β} (h : SameData s₀ s)
    (hk : ∀ a, r = .ok a → ChangesOnlyIf C s₀ (k a) s) :
    ChangesOnlyIf C s₀ (Prog.ofExcept r >>= k) s := by
  cases r with
  | error e => exact .inl h
  | ok a => exact hk a rfl

private theorem sameData_onStore {sec : Section} {p : StorageM α} (hp : ReadOnly p)
    (h : SameData s₀ s) :
    SameData s₀ ((onStore sec p).run s).2 := by
  rw [onStore, Prog.run_lift]
  exact h.trans ⟨hp s.store, rfl⟩

private theorem changesOnlyIf_read {sec : Section} {p : StorageM α} {k : α → ServiceM β}
    (hp : ReadOnly p) (h : SameData s₀ s) (hk : ∀ a s', (p.run s.store).1 = .ok a → SameData s₀ s' →
      ChangesOnlyIf C s₀ (k a) s') :
    ChangesOnlyIf C s₀ (onStore sec p >>= k) s := by
  refine changesOnlyIf_bind (sameData_onStore hp h) fun a s' hrun hs' => hk a s' ?_ hs'
  rw [onStore, Prog.run_lift] at hrun
  exact congrArg Prod.fst hrun

private theorem changesOnlyIf_guarded {γ : Type} {sec : Section} {p : StorageM α}
    {q : α → StorageM β} {k : β → ServiceM γ} (hp : ReadOnly p) (h : SameData s₀ s)
    (hC : ∀ a, (p.run s.store).1 = .ok a → C) :
    ChangesOnlyIf C s₀ (onStore sec (p >>= q) >>= k) s := by
  have hstore := hp s.store
  rcases hrun : p.run s.store with ⟨e | a, store⟩
  · rw [hrun] at hstore
    refine changesOnlyIf_bind ?_ fun a s' hok _ => ?_
    · rw [onStore, Prog.run_lift, Prog.run_bind, hrun]
      exact h.trans ⟨hstore, rfl⟩
    · rw [onStore, Prog.run_lift, Prog.run_bind, hrun] at hok
      cases hok
  · exact .inr (hC a (congrArg Prod.fst hrun))

private theorem changesOnlyIf_reply {frame : FrFrame} {enc : MsgEncoder} (h : SameData s₀ s) :
    ChangesOnlyIf C s₀ (replyOk frame enc) s :=
  changesOnlyIf_check h fun _ _ => changesOnlyIf_pure h

end Rules

variable {session : ClientSession} {frame : FrFrame} {s : Service}

private theorem requireRole_authenticated {required : Role}
    (h : requireRole session required = .ok ()) :
    session.authenticated = true := by
  unfold requireRole at h
  split at h
  · cases h
  · rename_i hauth
    simpa using hauth

private theorem requireRole_admin (h : requireRole session .admin = .ok ()) :
    Permitted session s frame := by
  unfold requireRole at h
  split at h
  · cases h
  rename_i hauth
  split at h
  · rename_i hrole
    exact ⟨by simpa using hauth, .inl hrole⟩
  · cases h

private theorem requireRole_publisher (h : requireRole session .publisher = .ok ())
    (hmay : PublisherMay session s frame) : Permitted session s frame := by
  unfold requireRole at h
  split at h
  · cases h
  rename_i hauth
  refine ⟨by simpa using hauth, ?_⟩
  cases hrole : session.role <;> simp [hrole] at h ⊢
  exact hmay

theorem requireSessionAllowed_ok {info : SessionInfo}
    (h : requireSessionAllowed session info = .ok ()) :
    requireRole session .publisher = .ok () ∧
      (session.role = .admin ∨ info.owner = session.username) := by
  unfold requireSessionAllowed at h
  cases hrole : requireRole session .publisher with
  | error e => rw [hrole] at h; cases h
  | ok u =>
    rw [hrole] at h
    refine ⟨rfl, ?_⟩
    change (if session.role ≠ .admin ∧ info.owner ≠ session.username then _ else _) = _ at h
    split at h
    · cases h
    · rename_i hnot
      by_contra hboth
      exact hnot ⟨fun hadmin => hboth (.inl hadmin), fun howner => hboth (.inr howner)⟩

theorem getAllowedSession_readOnly (session : ClientSession) (sessionId : Bytes) :
    ReadOnly (getAllowedSession session sessionId) :=
  .bind (loadSession_readOnly _) fun _ => .bind (.ofExcept _) fun _ => .pure _

private theorem getAllowedSession_ok {sessionId : Bytes} {info : SessionInfo} {store : Store}
    (h : ((getAllowedSession session sessionId).run store).1 = .ok info) :
    requireRole session .publisher = .ok () ∧
      (session.role = .admin ∨ ∃ info, store.db.session? sessionId = some info ∧
        info.owner = session.username) := by
  rw [getAllowedSession, Prog.run_bind, loadSession, Prog.run_bind, run_select] at h
  cases hfound : store.db.session? sessionId with
  | none =>
    rw [hfound] at h
    cases h
  | some row =>
    rw [hfound] at h
    dsimp only [Prog.run_pure] at h
    cases hcheck : requireSessionAllowed session row with
    | error e =>
      rw [hcheck] at h
      cases h
    | ok u =>
      obtain ⟨hrole, howner⟩ := requireSessionAllowed_ok hcheck
      exact ⟨hrole, howner.imp_right fun ho => ⟨row, rfl, ho⟩⟩

theorem requireDeleteAllowed_readOnly (session : ClientSession) (ref : ArtifactRef) :
    ReadOnly (requireDeleteAllowed session ref) :=
  .bind (.ofExcept _) fun _ => .ite (.pure _) <| .ite (.throw _) <|
    .bind (showArtifact_readOnly _ _ _) fun _ => .ite (.throw _) (.pure _)

private theorem showArtifact_creator {ns name version : Bytes} {store : Store} {info : ArtifactInfo}
    (h : ((showArtifact ns name version).run store).1 = .ok info) :
    ∃ row, store.db.artifact? ns name version = some row ∧ info.creator = row.creator := by
  rw [showArtifact, Prog.run_bind, run_select] at h
  cases hfound : store.db.artifact? ns name version with
  | none =>
    rw [hfound] at h
    cases h
  | some row =>
    rw [hfound] at h
    cases h
    exact ⟨row, rfl, rfl⟩

theorem requireDeleteAllowed_ok {ref : ArtifactRef} {store : Store}
    (h : ((requireDeleteAllowed session ref).run store).1 = .ok ()) :
    session.authenticated = true ∧ (session.role = .admin ∨ session.role = .publisher ∧
      ∃ row, store.db.artifact? ref.ns ref.name ref.version = some row ∧
        row.creator = session.username) := by
  rw [requireDeleteAllowed] at h
  cases hrole : requireRole session .reader with
  | error e =>
    rw [hrole] at h
    cases h
  | ok u =>
    refine ⟨requireRole_authenticated hrole, ?_⟩
    rw [hrole] at h
    by_cases hadmin : session.role = .admin
    · exact .inl hadmin
    change (Prog.run (if _ then _ else _) _).1 = _ at h
    rw [if_neg hadmin] at h
    by_cases hpublisher : session.role = .publisher
    · rw [if_neg (not_not.mpr hpublisher), Prog.run_bind] at h
      refine .inr ⟨hpublisher, ?_⟩
      rcases hshow : (showArtifact ref.ns ref.name ref.version).run store with ⟨r | info, store'⟩
      · rw [hshow] at h
        cases h
      · obtain ⟨row, hrow, hcreator⟩ := showArtifact_creator (congrArg Prod.fst hshow)
        rw [hshow] at h
        dsimp only at h
        split at h
        · cases h
        · rename_i hsame
          exact ⟨row, hrow, hcreator ▸ not_not.mp hsame⟩
    · rw [if_pos hpublisher] at h
      cases h

section Handlers

variable {sha : Sha256} {env : RequestEnv} {connId : Nat} {type : FrMsgType}

private theorem createUpload_permitted (htype : FrMsgType.ofByte frame.type = some .createUpload) :
    ChangesOnlyIf (Permitted session s frame) s (handleCreateUpload env session frame) s :=
  changesOnlyIf_check (.refl s) fun _ hrole =>
    .inr (requireRole_publisher hrole (by rw [PublisherMay, htype]; trivial))

private theorem putChunk_permitted (htype : FrMsgType.ofByte frame.type = some .putChunk) :
    ChangesOnlyIf (Permitted session s frame) s (handlePutChunk sha env session frame) s := by
  refine changesOnlyIf_check (.refl s) fun req hreq => ?_
  refine changesOnlyIf_read (getAllowedSession_readOnly _ _) (.refl s)
    fun info s' hinfo _ => .inr ?_
  obtain ⟨hrole, hadmin | howner⟩ := getAllowedSession_ok hinfo
  · exact ⟨(requireRole_authenticated hrole), .inl hadmin⟩
  · exact requireRole_publisher hrole (by rw [PublisherMay, htype]; exact ⟨req, hreq, howner⟩)

private theorem ownsSession_permitted {sessionId : Bytes} {info : SessionInfo}
    (htype : FrMsgType.ofByte frame.type = some .commitUpload ∨
      FrMsgType.ofByte frame.type = some .abortUpload)
    (hdecode : decodeFrame getStr frame = .ok sessionId)
    (hinfo : ((getAllowedSession session sessionId).run s.store).1 = .ok info) :
    Permitted session s frame := by
  obtain ⟨hrole, hadmin | howner⟩ := getAllowedSession_ok hinfo
  · exact ⟨requireRole_authenticated hrole, .inl hadmin⟩
  · refine requireRole_publisher hrole ?_
    rcases htype with htype | htype <;> rw [PublisherMay, htype] <;>
      exact ⟨sessionId, hdecode, howner⟩

private theorem commitUpload_permitted (htype : FrMsgType.ofByte frame.type = some .commitUpload) :
    ChangesOnlyIf (Permitted session s frame) s (handleCommitUpload sha env session frame) s :=
  changesOnlyIf_check (.refl s) fun _ hdecode =>
    changesOnlyIf_guarded (getAllowedSession_readOnly _ _) (.refl s) fun _ hinfo =>
      ownsSession_permitted (.inl htype) hdecode hinfo

private theorem abortUpload_permitted (htype : FrMsgType.ofByte frame.type = some .abortUpload) :
    ChangesOnlyIf (Permitted session s frame) s (handleAbortUpload env session frame) s := by
  refine changesOnlyIf_check (.refl s) fun sessionId hdecode => ?_
  have hstore : ((getAllowedSession session sessionId).run s.store).2 = s.store :=
    getAllowedSession_readOnly session sessionId s.store
  rcases hrun : (getAllowedSession session sessionId).run s.store with ⟨e | info, store⟩
  · rw [hrun] at hstore
    refine .inl ?_
    rw [Prog.run_bind, Prog.run_lift, Prog.run_bind, hrun]
    exact ⟨hstore, rfl⟩
  · exact .inr (ownsSession_permitted (.inr htype) hdecode (congrArg Prod.fst hrun))

private theorem deleteArtifact_permitted
    (htype : FrMsgType.ofByte frame.type = some .deleteArtifact) :
    ChangesOnlyIf (Permitted session s frame) s (handleDeleteArtifact env session frame) s := by
  refine changesOnlyIf_check (.refl s) fun ref href => ?_
  refine changesOnlyIf_read (requireDeleteAllowed_readOnly _ _) (.refl s)
    fun _ s' hcheck _ => .inr ?_
  obtain ⟨hauth, hadmin | ⟨hpublisher, row, hrow, hcreator⟩⟩ := requireDeleteAllowed_ok hcheck
  · exact ⟨hauth, .inl hadmin⟩
  · exact ⟨hauth, .inr ⟨hpublisher, by
      rw [PublisherMay, htype]
      exact ⟨ref, row, href, hrow, hcreator⟩⟩⟩

private theorem admin_permitted {k : Unit → ServiceM HandleResult} :
    ChangesOnlyIf (Permitted session s frame) s
      (Prog.ofExcept (requireRole session .admin) >>= k) s :=
  changesOnlyIf_check (.refl s) fun _ hrole => .inr (requireRole_admin hrole)

private theorem queryUpload_permitted {C : Prop} :
    ChangesOnlyIf C s (handleQueryUpload session frame) s := by
  refine changesOnlyIf_check (.refl s) fun sessionId _ => ?_
  refine changesOnlyIf_read (.bind (getAllowedSession_readOnly _ _) fun _ =>
    .bind (sessionProgress_readOnly _) fun _ => .pure _) (.refl s) fun result s' _ hs' => ?_
  obtain ⟨info, progress⟩ := result
  dsimp only
  split
  · exact changesOnlyIf_throw hs'
  · exact changesOnlyIf_reply hs'

private theorem startGet_sameData {req : GetArtifactReq} :
    SameData s ((startGet connId frame req).run s).2 := by
  rw [startGet, Prog.run_lift]
  dsimp only
  split
  · exact ⟨rfl, rfl⟩
  · split <;> exact ⟨rfl, rfl⟩

private theorem getArtifact_permitted {C : Prop} :
    ChangesOnlyIf C s (handleGetArtifact connId session frame) s :=
  changesOnlyIf_check (.refl s) fun _ _ => changesOnlyIf_check (.refl s) fun _ _ =>
    .inl startGet_sameData

private theorem listArtifacts_permitted {C : Prop} :
    ChangesOnlyIf C s (handleListArtifacts session frame) s :=
  changesOnlyIf_check (.refl s) fun _ _ => changesOnlyIf_check (.refl s) fun _ _ =>
    changesOnlyIf_read (listArtifacts_readOnly _ _ _ _) (.refl s) fun _ _ _ => changesOnlyIf_reply

private theorem showArtifact_permitted {C : Prop} :
    ChangesOnlyIf C s (handleShowArtifact session frame) s :=
  changesOnlyIf_check (.refl s) fun _ _ => changesOnlyIf_check (.refl s) fun _ _ =>
    changesOnlyIf_read (showArtifact_readOnly _ _ _) (.refl s) fun _ _ _ => changesOnlyIf_reply

private theorem status_permitted {C : Prop} :
    ChangesOnlyIf C s (handleStatus env session frame) s := by
  refine changesOnlyIf_check (.refl s) fun _ _ => ?_
  refine changesOnlyIf_read (.bind artifactCount_readOnly fun _ => .bind usedBytes_readOnly fun _ =>
    .pure _) (.refl s) fun result s' _ hs' => ?_
  refine changesOnlyIf_bind ?_ fun _ _ _ => changesOnlyIf_reply
  rw [Prog.run_lift]
  exact hs'

private theorem dispatchBusiness_permitted :
    ChangesOnlyIf (Permitted session s frame) s
      (dispatchBusiness sha env connId session frame) s := by
  unfold dispatchBusiness
  cases htype : FrMsgType.ofByte frame.type with
  | none => exact changesOnlyIf_throw (.refl s)
  | some type =>
    cases type with
    | createUpload => exact createUpload_permitted htype
    | putChunk => exact putChunk_permitted htype
    | queryUpload => exact queryUpload_permitted
    | commitUpload => exact commitUpload_permitted htype
    | abortUpload => exact abortUpload_permitted htype
    | getArtifact => exact getArtifact_permitted
    | listArtifacts => exact listArtifacts_permitted
    | showArtifact => exact showArtifact_permitted
    | status => exact status_permitted
    | deleteArtifact => exact deleteArtifact_permitted htype
    | runGc | userAdd | userDisable | userList | tokenCreate | tokenRevoke | tokenList
    | sessionList | sessionAbort => exact admin_permitted
    | hello | auth | ping | close | data | ok | error => exact changesOnlyIf_throw (.refl s)

end Handlers

variable {sha : Sha256} {env : RequestEnv} {connId : Nat} {peer : Bytes}

/-- Whether the frame is handled by `dispatch_business`. -/
def FrFrame.isBusiness (frame : FrFrame) : Bool :=
  match FrMsgType.ofByte frame.type with
  | some .hello | some .auth | some .ping | some .close => false
  | _ => true

private theorem changesOnlyIf_outcome {α β : Type} {C : Prop} {p : ServiceM α}
    {k : Except Error α → ServiceM β} {s₀ : Service} (hp : ChangesOnlyIf C s₀ p s)
    (hk : ∀ r s', SameData s₀ s' → ChangesOnlyIf C s₀ (k r) s') :
    ChangesOnlyIf C s₀ (outcome p >>= k) s := by
  rcases hp with hp | hC
  · refine changesOnlyIf_bind ?_ fun a s' _ hs' => hk a s' hs'
    rw [outcome_run]
    exact hp
  · exact .inr hC

private theorem handleFrame_permitted :
    ChangesOnlyIf (Permitted session s frame) s
      (handleFrame sha env connId peer session frame) s := by
  have hbusiness : ChangesOnlyIf (Permitted session s frame) s
      (if session.authenticated = false then
        throw (.of .eUnauthenticated "authentication required")
      else dispatchBusiness sha env connId session frame) s := by
    split
    · exact changesOnlyIf_throw (.refl s)
    · exact dispatchBusiness_permitted
  have hdefault := changesOnlyIf_outcome hbusiness fun r s' (hs' : SameData s s') =>
    (changesOnlyIf_pure hs' : ChangesOnlyIf (Permitted session s frame) s (pure (session, r)) s')
  unfold handleFrame
  split
  · split <;> exact changesOnlyIf_pure (.refl s)
  · refine changesOnlyIf_outcome (.inl (by rw [verifyAuth_state]; exact .refl s)) fun r s' hs' => ?_
    cases r <;> exact changesOnlyIf_pure hs'
  · exact changesOnlyIf_pure (.refl s)
  · exact changesOnlyIf_pure (.refl s)
  · exact hdefault

private theorem noteAuthFailure_sameData : SameData s ((noteAuthFailure env peer).run s).2 := by
  rw [noteAuthFailure, Prog.run_lift]
  exact ⟨rfl, rfl⟩

private theorem replyError_sameData {C : Prop} {code : FrStatus} {what : Bytes} {s₀ : Service}
    (h : SameData s₀ s) : ChangesOnlyIf C s₀ (replyError env peer session frame code what) s := by
  unfold replyError
  dsimp only
  split
  · refine changesOnlyIf_bind (h.trans noteAuthFailure_sameData) fun _ s' _ hs' => ?_
    exact changesOnlyIf_check hs' fun _ _ => changesOnlyIf_pure hs'
  · exact changesOnlyIf_check h fun _ _ => changesOnlyIf_pure h

private theorem handle_permitted :
    ChangesOnlyIf (Permitted session s frame) s (handle sha env connId peer session frame) s := by
  have hframe : ChangesOnlyIf (Permitted session s frame) s
      (handleFrame sha env connId peer session frame) s := handleFrame_permitted
  rcases hframe with hsame | hpermitted
  · refine changesOnlyIf_bind hsame fun result s' _ hs' => ?_
    obtain ⟨session', result⟩ := result
    cases result with
    | ok result => exact changesOnlyIf_pure hs'
    | error e =>
      cases e with
      | fr code what => exact replyError_sameData hs'
      | std what => exact changesOnlyIf_throw hs'
  · exact .inr hpermitted

theorem handleFrame_business (hbusiness : frame.isBusiness = true) :
    handleFrame sha env connId peer session frame = (do
      let result ← outcome (if session.authenticated = false then
        throw (.of .eUnauthenticated "authentication required")
        else dispatchBusiness sha env connId session frame)
      return (session, result)) := by
  unfold FrFrame.isBusiness at hbusiness
  unfold handleFrame
  split <;> simp_all

theorem handle_business (hbusiness : frame.isBusiness = true)
    (hauth : session.authenticated = true) :
    (handle sha env connId peer session frame).run s =
      match (dispatchBusiness sha env connId session frame).run s with
      | (.ok result, s') => (.ok (result, session), s')
      | (.error (.fr code what), s') => (replyError env peer session frame code what).run s'
      | (.error (.std what), s') => (.error (.std what), s') := by
  rw [handle, Prog.run_bind, handleFrame_business hbusiness, Prog.run_bind, outcome_run,
    if_neg (by rw [hauth]; exact Bool.noConfusion)]
  rcases (dispatchBusiness sha env connId session frame).run s with
    ⟨⟨code, what⟩ | what | result, s'⟩ <;> rfl

theorem handle_unauthenticated (sha : Sha256) (env : RequestEnv) (connId : Nat) (peer : Bytes)
    (s : Service) (hauth : session.authenticated = false) (hbusiness : frame.isBusiness = true) :
    (handle sha env connId peer session frame).run s =
      (.ok ({ HandleResult.empty with
        out := [errorFrame (outReqId frame) .eUnauthenticated (ascii "authentication required")] },
        session), s) := by
  have hkind : FrMsgType.ofByte frame.type ≠ some .auth := by
    intro htype
    rw [FrFrame.isBusiness, htype] at hbusiness
    cases hbusiness
  rw [handle, Prog.run_bind, handleFrame_business hbusiness, Prog.run_bind, outcome_run,
    if_pos hauth]
  exact replyError_run (fun h => hkind h.2) (by decide)

/-- Only a permitted request changes storage or the registry; one without authentication gets an
ERROR frame with the status for that, and changes nothing at all. -/
theorem handle_authorized (sha : Sha256) (env : RequestEnv) (connId : Nat) (peer : Bytes)
    (session : ClientSession) (frame : FrFrame) (s : Service) :
    (¬ SameData s ((handle sha env connId peer session frame).run s).2 →
      Permitted session s frame) ∧
    (session.authenticated = false → frame.isBusiness = true → ∃ reply,
      (handle sha env connId peer session frame).run s =
        (.ok ({ HandleResult.empty with out := [reply] }, session), s) ∧
      reply.type = FrMsgType.error.toByte ∧
      decodeFrame decodeErrorPayload reply =
        .ok ⟨FrStatus.eUnauthenticated.code, ascii "authentication required"⟩) :=
  ⟨fun hchanged => handle_permitted.resolve_left hchanged, fun hauth hbusiness =>
    ⟨_, handle_unauthenticated _ _ _ _ _ hauth hbusiness, rfl, decode_errorFrame (by decide)⟩⟩

/-- The environment of a request at this time. -/
def sampleRequestEnv (now : Int64) : RequestEnv :=
  ⟨sampleConfig, sampleEnv now, now, List.replicate 32 7, none⟩

/-- A frame with this payload. -/
def sampleFrame (type : FrMsgType) (enc : MsgEncoder) : FrFrame :=
  ⟨type.toByte, 0, 9, (payloadOf enc).toOption.getD []⟩

/-- A service on whose storage the session `s1` of `alice` is open. -/
def sampleService : Service :=
  .start ((createSession sampleConfig (sampleEnv 0) (ascii "team") (ascii "app") (ascii "1.0") 1
    (sampleSha.hex (ascii "a")) (ascii "alice")).run .empty).2 .empty

/-- The publisher `alice` uploads a chunk; a client that has not authenticated asks for the
status. -/
theorem handle_authorized_sample :
    Permitted ⟨true, true, ascii "alice", .publisher, 0⟩ sampleService
      (sampleFrame .putChunk (encodePutChunkReq ⟨ascii "s1", 0, ascii "a"⟩)) ∧
    ∃ reply, (handle sampleSha (sampleRequestEnv 1) 1 [] .fresh (sampleFrame .status (pure ()))).run
        sampleService = (.ok ({ HandleResult.empty with out := [reply] }, .fresh), sampleService) ∧
      reply.type = FrMsgType.error.toByte ∧
      decodeFrame decodeErrorPayload reply =
        .ok ⟨FrStatus.eUnauthenticated.code, ascii "authentication required"⟩ := by
  refine ⟨(handle_authorized sampleSha (sampleRequestEnv 1) 1 [] ⟨true, true, ascii "alice",
    .publisher, 0⟩ (sampleFrame .putChunk (encodePutChunkReq ⟨ascii "s1", 0, ascii "a"⟩))
    sampleService).1 fun hsame => ?_, (handle_authorized sampleSha (sampleRequestEnv 1) 1 [] .fresh
    (sampleFrame .status (pure ())) sampleService).2 rfl (by decide)⟩
  have hchunks := congrArg (fun store : Store => store.db.chunk.length) hsame.store
  revert hchunks
  decide +kernel

end ForgeRelay
