import ForgeRelay.Storage.QuietPrograms

/-!
# Programs that change sessions

Creating, expiring, aborting and committing sessions, and the maintenance. A program that does
not use the mutex may be anywhere in between: `commit_session` relies on it that its session
stays live until it is published.
-/

namespace ForgeRelay

open Program Prog

/-- At every step the keys are unique, and the session that is being committed is live. So is that
which has been claimed, if there is a count of rows. -/
structure CommitsLive (l : Label) (s : Store) : Prop where
  keys : s.db.SessionKeys
  live : ∀ sessionId, l.session? = some sessionId → s.db.Live sessionId
  claimed : ∀ sessionId, l.claimed? = some sessionId → 0 < s.changes → s.db.Live sessionId

/-- Without the mutex no more than the unique keys is relied on. -/
def HasKeys (_ : Label) (s : Store) : Prop := s.db.SessionKeys

/-- What a step may do with the mutex: publish if it stands for a commit. -/
def LockedStep (l : Label) : Store → Store → Prop :=
  Lawful (fun _ => True) (l.session?.isSome = true)

/-- What a step may do without the mutex: end the sessions that its label says. -/
def UnlockedStep (l : Label) : Store → Store → Prop := Lawful l.ends False

private theorem commitsLive_undemanding : Undemanding (·.db.SessionKeys) CommitsLive where
  start {l _} hl hkeys := by
    refine ⟨hkeys, fun id hid => ?_, fun id hid => ?_⟩ <;> simp [Label.relies, hid] at hl
  inv h := h.keys
  keep := Quiet.keys

theorem hasKeys_undemanding : Undemanding (·.db.SessionKeys) HasKeys where
  start _ hkeys := hkeys
  inv h := h
  keep := Quiet.keys

private theorem committing_undemanding (sessionId : Bytes) :
    Undemanding (CommitsLive (.committing sessionId)) fun _ =>
      CommitsLive (.committing sessionId) where
  start _ h := h
  inv h := h
  keep hquiet h :=
    ⟨hquiet.keys h.keys, fun id hid => hquiet.live (h.live id hid), fun _ hid => by cases hid⟩

private theorem Peaceful.steady {α : Type} {I : Store → Prop} {J : Label → Store → Prop}
    {ends : Label → SessionInfo → Prop} {publishes : Label → Prop} {p : StorageM α}
    (hp : Peaceful I J p) : Steady I J (fun l => Lawful (ends l) (publishes l)) p :=
  Steady.weaken hp fun _ _ _ => Quiet.lawful

section

variable {J : Label → Store → Prop} {ends : Label → SessionInfo → Prop} {publishes : Label → Prop}

private theorem steady_stmt {α : Type} (h : Undemanding (·.db.SessionKeys) J)
    {f : Db → Except Error (α × Db)}
    (hf : ∀ s a db, s.db.SessionKeys → f s.db = .ok (a, db) →
      Lawful (ends .plain) (publishes .plain) s { s with db := db }) :
    Steady (·.db.SessionKeys) J (fun l => Lawful (ends l) (publishes l)) (stmt f) := by
  refine Steady.lift (fun _ hkeys => h.start rfl hkeys) fun s hJ => ?_
  have hkeys := h.inv hJ
  cases hstep : f s.db with
  | error e => exact ⟨Lawful.refl s, hkeys⟩
  | ok r =>
    have hlaw := hf s r.1 r.2 hkeys hstep
    exact ⟨hlaw, hlaw.keys hkeys⟩

private theorem steady_updateSessions (h : Undemanding (·.db.SessionKeys) J)
    {cond : SessionInfo → Bool} {state : SessionState}
    (hcond : ∀ row, cond row = true →
      row.state.live = true ∧ (state.live = true ∨ ends .plain row)) :
    Steady (·.db.SessionKeys) J (fun l => Lawful (ends l) (publishes l))
      (updateSessions cond state) := by
  refine Steady.lift (fun _ hkeys => h.start rfl hkeys) fun s hJ => ?_
  have hset : Lawful (ends .plain) (publishes .plain) s
      { s with db := s.db.setSessionState cond state } :=
    lawful_setSessionState fun row _ => hcond row
  have hlaw := hset.recount (s.db.countSessions cond)
  exact ⟨hlaw, hlaw.keys (h.inv hJ)⟩

private theorem steady_transition (h : Undemanding (·.db.SessionKeys) J) {sessionId : Bytes}
    {source target : SessionState} (hsource : source.live = true) (htarget : target.live = true)
    (hclaim : (Label.counting sessionId target).relies = false) :
    Steady (·.db.SessionKeys) J (fun l => Lawful (ends l) (publishes l))
      (transition sessionId source target) := by
  refine Steady.bind (steady_updateSessions h fun row hrow => ?_) fun rows =>
    Steady.bind (peaceful_dbChanges h hclaim rows).steady fun _ => Steady.pure _
  simp only [Bool.and_eq_true, beq_iff_eq] at hrow
  exact ⟨hrow.2 ▸ hsource, .inl htarget⟩

theorem steady_abortSession (h : Undemanding (·.db.SessionKeys) J) (env : CallEnv)
    (sessionId : Bytes) :
    Steady (·.db.SessionKeys) J UnlockedStep (abortSession env sessionId) := by
  refine Steady.bind (peaceful_loadSession h sessionId).steady fun session => ?_
  split
  · exact Steady.pure ()
  rename_i hterminal
  have hlive : session.state.live = true := by
    cases hstate : session.state <;> simp [hstate, SessionState.live] at hterminal ⊢
  refine Steady.labelled fun s hkeys => safe_transaction (h.start rfl hkeys) Lawful.refl ?_
  intro s' hJ
  rw [run_bind, run_transition]
  have hlaw : UnlockedStep (.aborting sessionId session.state) s' (s'.updateSessions
      (fun r => r.id == sessionId && r.state == session.state) .aborted) := by
    refine (lawful_setSessionState fun row _ hrow => ?_).recount _
    simp only [Bool.and_eq_true, beq_iff_eq] at hrow
    exact ⟨hrow.2 ▸ hlive, .inr hrow⟩
  have hkeys' := hlaw.keys (h.inv hJ)
  obtain ⟨hquiet, hkeys''⟩ :=
    (peaceful_markUnreferencedParts (hasKeys_undemanding.at (l := .plain) rfl)
      sessionId env.now _ hkeys').run Quiet.refl fun _ _ _ => Quiet.trans
  dsimp only
  split
  · exact ⟨hlaw.trans_quiet hquiet, hkeys''⟩
  · exact h.inv hJ

theorem steady_runMaintenance (env : CallEnv) :
    Steady (·.db.SessionKeys) HasKeys UnlockedStep (runMaintenance env) := by
  have h := hasKeys_undemanding
  refine Steady.bind (peaceful_cleanupTempFiles h).steady fun _ => ?_
  have hexpire : Steady (·.db.SessionKeys) (fun _ => HasKeys (.expiring env.now))
      (fun _ => UnlockedStep (.expiring env.now))
      (updateSessions (isOverdue env.now) .expired) := by
    refine steady_updateSessions (h.at rfl) fun row hrow => ⟨?_, .inr hrow⟩
    simp only [isOverdue, Bool.and_eq_true, beq_iff_eq] at hrow
    rw [hrow.1]
    rfl
  refine Steady.bind (Steady.labelled hexpire) fun expired => ?_
  refine Steady.bind (peaceful_dbChanges h rfl expired).steady fun _ => ?_
  refine Steady.bind (steady_updateSessions h fun row hrow => ⟨?_, .inl rfl⟩) fun rolledBack => ?_
  · simp only [isCommitting, beq_iff_eq] at hrow
    rw [hrow]
    rfl
  refine Steady.bind (peaceful_dbChanges h rfl rolledBack).steady fun _ => ?_
  refine Steady.bind (peaceful_select h _).steady fun terminal => ?_
  exact Steady.bind (Steady.forM fun id => (peaceful_markUnreferencedParts h id _).steady)
    fun _ => Steady.pure _

end

theorem UnlockedStep.locked {l : Label} {s s' : Store} (h : UnlockedStep l s s') :
    LockedStep l s s' :=
  h.mono (fun _ _ => trivial) False.elim

/-- All steps of the program are lawful with the mutex. -/
abbrev Locked {α : Type} (p : StorageM α) : Prop :=
  Steady (·.db.SessionKeys) CommitsLive LockedStep p

private theorem locked_tx {α : Type} {p : StorageM α}
    (hp : Steady (·.db.SessionKeys) (fun _ => CommitsLive .plain) (fun _ => LockedStep .plain) p) :
    Locked (tx p) :=
  Steady.transaction hp (fun _ => commitsLive_undemanding.start rfl) (fun _ h => h.1) Lawful.refl
    fun _ _ _ => Lawful.trans

private theorem locked_createSession (cfg : StorageConfig) (env : CallEnv) (ns name version : Bytes)
    (expectedSize : UInt64) (expectedDigest owner : Bytes) :
    Locked (createSession cfg env ns name version expectedSize expectedDigest owner) := by
  have h := commitsLive_undemanding.at (l := .plain) rfl
  unfold createSession
  iterate 3
    split
    · exact Steady.throw _
  refine locked_tx (Steady.bind (peaceful_select h _).steady fun active => ?_)
  split
  · exact Steady.throw _
  refine Steady.bind (peaceful_query h _).steady fun used => ?_
  split
  · exact Steady.throw _
  refine Steady.bind (steady_stmt h fun s b db _ hstep => ?_) fun _ => Steady.pure _
  cases hinsert : s.db.insertSession
      (newSession cfg env ns name version expectedSize expectedDigest owner) with
  | error e => simp [hinsert, Except.map] at hstep
  | ok db' =>
    simp only [hinsert, Except.map, Except.ok.injEq, Prod.mk.injEq, true_and] at hstep
    exact hstep ▸ lawful_insertSession hinsert

private theorem locked_expireSessionIfDue (session : SessionInfo) (now : Int64) :
    Locked (expireSessionIfDue session now) := by
  have h := commitsLive_undemanding
  unfold expireSessionIfDue
  split
  · refine Steady.bind (steady_stmt h fun s b db _ hstep => ?_) fun _ =>
      (peaceful_markUnreferencedParts h _ _).steady
    cases hstep
    refine lawful_setSessionState fun row _ hrow => ⟨?_, .inr trivial⟩
    simp only [Bool.and_eq_true, beq_iff_eq] at hrow
    rw [hrow.2]
    rfl
  · exact Steady.pure ()

private theorem locked_putChunk (sha : Sha256) (env : CallEnv) (sessionId : Bytes)
    (ordinal : UInt64) (data : Bytes) : Locked (putChunk sha env sessionId ordinal data) := by
  have h := commitsLive_undemanding
  refine Steady.bind (peaceful_loadSession h _).steady fun session => ?_
  refine Steady.bind (locked_expireSessionIfDue session _) fun _ => ?_
  refine Steady.bind (peaceful_loadSession h _).steady fun session => ?_
  iterate 4
    split
    · exact Steady.throw _
  exact Steady.bind (peaceful_chunkStorePut h sha _ _ _).steady fun _ =>
    (peaceful_tx h fun h => peaceful_registerPart h _ _ _ _ _).steady

private theorem safe_committing {α : Type} {sessionId : Bytes} {s : Store} {p : StorageM α}
    (hp : Peaceful (CommitsLive (.committing sessionId))
      (fun _ => CommitsLive (.committing sessionId)) p)
    (hs : CommitsLive (.committing sessionId) s) :
    Safe CommitsLive LockedStep (p.labelled (.committing sessionId))
      (fun _ => CommitsLive (.committing sessionId)) s :=
  safe_labelled (safe_weaken (hp s hs) fun _ _ _ => Quiet.lawful)

theorem CommitsLive.row_live {sessionId : Bytes} {s : Store}
    (h : CommitsLive (.committing sessionId) s) {row : SessionInfo}
    (hrow : row ∈ s.db.uploadSession) (hid : row.id = sessionId) : row.state.live = true := by
  obtain ⟨live, hlive, hlid, hstate⟩ := h.2 sessionId rfl
  rwa [Table.eq_of_key h.1 hrow hlive (hid.trans hlid.symm)]

private theorem insertArtifact_locked {sessionId : Bytes} {row : ArtifactRow} {s : Store} {id : Nat}
    {db : Db} (hinsert : s.db.insertArtifact row = .ok (id, db)) :
    LockedStep (.committing sessionId) s { s with db := db } ∧
      db.uploadSession = s.db.uploadSession := by
  unfold Db.insertArtifact at hinsert
  split at hinsert
  · cases hinsert
  split at hinsert
  · cases hinsert
    exact ⟨⟨id, fun row hrow => ⟨row.state, hrow, .inl rfl⟩, fun _ _ => .inr rfl⟩, rfl⟩
  · cases hinsert

private theorem safe_publish_body (now : Int64) (session : SessionInfo)
    (manifest : List ManifestEntry) {s : Store} (hs : CommitsLive (.committing session.id) s) :
    Safe (fun _ => CommitsLive (.committing session.id))
      (fun _ => LockedStep (.committing session.id)) (publish now session manifest)
      (fun _ s' => s'.db.SessionKeys) s := by
  have h := committing_undemanding session.id
  refine safe_seq ((peaceful_select h _).steady s hs) (fun found s₁ h₁ => ?_) fun _ _ hs' => hs'.1
  split
  · exact h₁.1
  have hinsert : Steady (CommitsLive (.committing session.id))
      (fun _ => CommitsLive (.committing session.id))
      (fun _ => LockedStep (.committing session.id))
      (stmt (·.insertArtifact (session.artifactRow now))) := by
    refine Steady.lift (fun _ hs => hs) fun s' hs' => ?_
    dsimp only
    cases hstep : s'.db.insertArtifact (session.artifactRow now) with
    | error e => exact ⟨Lawful.refl s', hs'⟩
    | ok r =>
      obtain ⟨hlaw, hsame⟩ := insertArtifact_locked hstep
      refine ⟨hlaw, hlaw.keys hs'.1, fun id hid => ?_, fun _ hid => by cases hid⟩
      obtain ⟨row, hrow, hrest⟩ := hs'.2 id hid
      exact ⟨row, hsame.symm ▸ hrow, hrest⟩
  refine safe_seq (hinsert s₁ h₁) (fun artifactId s₂ h₂ => ?_) fun _ _ hs' => hs'.1
  refine safe_seq (Peaceful.steady (Steady.forM fun entry => ?_) s₂ h₂) (fun _ s₃ h₃ => ?_)
    fun _ _ hs' => hs'.1
  · exact Steady.bind (peaceful_exec h fun _ => ⟨rfl, rfl⟩) fun _ => peaceful_insert h
      fun db db' hdb => by
        unfold Db.insertArtifactChunk at hdb
        split at hdb <;> cases hdb
        exact ⟨rfl, rfl⟩
  refine safe_bind (safe_lift h₃ fun s' hs' => ?_)
  have hlaw : LockedStep (.committing session.id) s' { s' with
      db := s'.db.setSessionState (·.id == session.id) .completed } :=
    lawful_setSessionState fun row hrow hid =>
      ⟨hs'.row_live hrow (beq_iff_eq.mp hid), .inr trivial⟩
  exact ⟨hlaw, hlaw.keys hs'.1⟩

private theorem safe_publish (now : Int64) (session : SessionInfo) (manifest : List ManifestEntry)
    {s : Store} (hs : CommitsLive (.committing session.id) s) :
    Safe CommitsLive LockedStep
      ((tx (publish now session manifest)).labelled (.committing session.id))
      (fun _ s' => s'.db.SessionKeys) s := by
  refine safe_labelled (safe_transaction hs Lawful.refl fun s' hs' => ?_)
  have hrun := (safe_publish_body now session manifest hs').run Lawful.refl fun _ _ _ =>
    Lawful.trans
  split
  · exact hrun
  · exact hs'.1

private theorem safe_rollbackAndThrow {α : Type} {Q : Except Error α → Store → Prop} {s : Store}
    (sessionId : Bytes) (e : Error) (hs : s.db.SessionKeys)
    (hQ : ∀ e s', s'.db.SessionKeys → Q (.error e) s') :
    Safe CommitsLive LockedStep (rollbackAndThrow sessionId e) Q s :=
  safe_seq (Steady.bind (steady_transition commitsLive_undemanding rfl rfl rfl)
    (fun _ => Steady.pure ()) s hs) (fun _ => hQ e) hQ

private theorem safe_commitBody (sha : Sha256) (now : Int64) (session : SessionInfo) {s : Store}
    (hs : CommitsLive (.committing session.id) s) :
    Safe CommitsLive LockedStep (commitBody sha now session) (fun _ s' => s'.db.SessionKeys) s := by
  have h := committing_undemanding session.id
  have hback : ∀ e s', s'.db.SessionKeys → Safe CommitsLive LockedStep
      (rollbackAndThrow session.id e : StorageM ArtifactInfo)
      (fun _ s'' => s''.db.SessionKeys) s' :=
    fun e s' hs' => safe_rollbackAndThrow session.id e hs' fun _ _ => id
  have hreserve : Peaceful (CommitsLive (.committing session.id))
      (fun _ => CommitsLive (.committing session.id)) (reserveManifest (chunkCount session)) := by
    refine peaceful_lift h fun s' => ?_
    split <;> exact Quiet.refl s'
  refine safe_seq (safe_committing hreserve hs) (fun _ s₁ h₁ => ?_) fun _ _ hs' => hs'.1
  refine safe_seq (safe_committing (peaceful_select h _) h₁) (fun parts s₂ h₂ => ?_)
    fun _ _ hs' => hs'.1
  cases hscan : scanParts session.chunkSize 0 0 [] parts with
  | error e => exact hback e s₂ h₂.1
  | ok scanned =>
    obtain ⟨manifest, total⟩ := scanned
    dsimp only
    iterate 2
      split
      · exact hback _ s₂ h₂.1
    have hread : Safe CommitsLive LockedStep (tryCatchThe Error
        ((readChunks manifest).labelled (.committing session.id)) (rollbackAndThrow session.id))
        (fun r s' => match r with
          | .error _ => s'.db.SessionKeys
          | .ok _ => CommitsLive (.committing session.id) s') s₂ := by
      refine safe_tryCatch (safe_mono (safe_committing (peaceful_readChunks h _) h₂) ?_)
      rintro (e | content) s' hs'
      · exact safe_rollbackAndThrow session.id e hs'.1 fun _ _ => id
      · exact hs'
    refine safe_bind (safe_mono hread fun r s₃ h₃ => ?_)
    cases r with
    | error e => exact h₃
    | ok content =>
      dsimp only
      split
      · exact hback _ s₃ h₃.1
      refine safe_seq (safe_publish now session manifest h₃) (fun published s₄ h₄ => ?_)
        fun _ _ => id
      cases published with
      | none => exact hback _ s₄ h₄
      | some artifactId => exact h₄

private theorem safe_loadSession {sessionId : Bytes} {s : Store} (hs : s.db.SessionKeys) :
    Safe CommitsLive LockedStep (loadSession sessionId)
      (fun r s' => s'.db.SessionKeys ∧ ∀ session, r = .ok session → session.id = sessionId) s := by
  have hstart : CommitsLive .plain s := commitsLive_undemanding.start rfl hs
  refine safe_bind (safe_lift hstart fun s' hs' => ⟨Lawful.refl s', ?_⟩)
  dsimp only
  cases hfound : s'.db.session? sessionId with
  | none => exact ⟨hs'.1, fun session hsession => by cases hsession⟩
  | some found =>
    refine ⟨hs'.1, fun session hsession => ?_⟩
    cases hsession
    exact (Db.session?_some hfound).2

private theorem safe_startCommit {sessionId : Bytes} {s : Store} (hs : s.db.SessionKeys) :
    Safe CommitsLive LockedStep (transition sessionId .open .committing)
      (fun r s' => s'.db.SessionKeys ∧ (r = .ok true → s'.db.Live sessionId)) s := by
  refine safe_bind (safe_lift (commitsLive_undemanding.start rfl hs) fun s' hs' => ?_)
  have hlaw : LockedStep .plain s'
      (s'.updateSessions (fun r => r.id == sessionId && r.state == .open) .committing) := by
    refine (lawful_setSessionState fun row _ hrow => ⟨?_, .inl rfl⟩).recount _
    simp only [Bool.and_eq_true, beq_iff_eq] at hrow
    rw [hrow.2]
    rfl
  have hclaimed : CommitsLive (.counting sessionId .committing)
      (s'.updateSessions (fun r => r.id == sessionId && r.state == .open) .committing) := by
    refine ⟨hlaw.keys hs'.keys, fun _ hid => (by cases hid), fun id hid hcount => ?_⟩
    obtain rfl := Option.some.inj hid
    obtain ⟨row, hrow, hopen⟩ := List.countP_pos_iff.mp hcount
    refine ⟨_, Table.mem_update.mpr ⟨row, hrow, if_pos hopen⟩, ?_, rfl⟩
    simp only [Bool.and_eq_true, beq_iff_eq] at hopen
    exact hopen.1
  -- whatever the count is now, the session is live if it is positive
  refine ⟨hlaw, safe_bind (safe_tryCatch (safe_lift hclaimed fun s'' hs'' => ?_))⟩
  refine ⟨Lawful.refl s'', hs''.keys, fun hchanged => hs''.claimed sessionId rfl ?_⟩
  exact of_decide_eq_true (Except.ok.inj hchanged)

private theorem locked_commitSession (sha : Sha256) (env : CallEnv) (sessionId : Bytes) :
    Locked (commitSession sha env sessionId) := by
  intro s hs
  refine safe_bind (safe_mono (safe_loadSession hs) fun r s₁ h₁ => ?_)
  rcases r with e | session
  · exact h₁.1
  have hid := h₁.2 session rfl
  refine safe_seq (locked_expireSessionIfDue session env.now s₁ h₁.1) (fun _ s₂ h₂ => ?_)
    fun _ _ => id
  refine safe_bind (safe_mono (safe_startCommit h₂) fun r s₃ h₃ => ?_)
  rcases r with e | changed
  · exact h₃.1
  dsimp only
  split
  · rename_i hchanged
    subst hchanged
    refine safe_commitBody sha env.now session ⟨h₃.1, fun id heq => ?_,
      fun _ hid => by cases hid⟩
    cases heq
    exact hid ▸ h₃.2 rfl
  · refine Steady.bind (peaceful_loadSession commitsLive_undemanding _).steady (fun session => ?_)
      s₃ h₃.1
    split
    · exact Steady.throw _
    · exact Steady.throw _

theorem locked_program (sha : Sha256) (cfg : StorageConfig) (env : CallEnv) (call : Call)
    (hcall : call ≠ .runMaintenance) : Locked (call.program sha cfg env) := by
  have h := commitsLive_undemanding
  cases call with
  | createSession =>
    exact Steady.bind (locked_createSession _ _ _ _ _ _ _ _) fun _ => Steady.pure ()
  | putChunk => exact Steady.bind (locked_putChunk _ _ _ _ _) fun _ => Steady.pure ()
  | commitSession => exact Steady.bind (locked_commitSession _ _ _) fun _ => Steady.pure ()
  | abortSession =>
    exact (steady_abortSession h _ _).weaken fun _ _ _ => UnlockedStep.locked
  | deleteArtifact =>
    exact Steady.bind (peaceful_deleteArtifact h _ _ _ _).steady fun _ => Steady.pure ()
  | collectGarbage =>
    exact Steady.bind (peaceful_collectGarbage h _ _ _).steady fun _ => Steady.pure ()
  | runMaintenance => exact absurd rfl hcall

end ForgeRelay
