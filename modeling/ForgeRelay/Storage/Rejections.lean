import ForgeRelay.Storage.CommitFailures
import ForgeRelay.Storage.Uploading

/-!
# Parts that are rejected

`put_chunk` places the chunk file in front of the transaction that registers the part. A call that
fails leaves the tables as they are but for the expiry of the session, and leaves the files as they
are unless it is the transaction that fails behind a new file. Such a file has no row in `chunk`,
and the garbage collection does not find it.
-/

namespace ForgeRelay

open Program Prog

variable {sha : Sha256} {s s' : Store}

/-- Every chunk file has a row, so that the garbage collection can find it. -/
def FilesHaveRows (s : Store) : Prop :=
  ∀ path, (s.files path).isSome → ∃ c ∈ s.db.chunk, frChunkRelPath c.digest = .ok path

/-- The chunk files are the same, and no chunk has lost its row. -/
structure KeepsRows (s s' : Store) : Prop where
  files : s'.files = s.files
  rows : ∀ c ∈ s.db.chunk, ∃ c' ∈ s'.db.chunk, c'.digest = c.digest

namespace KeepsRows

theorem of_chunk (hfiles : s'.files = s.files) (hchunk : s'.db.chunk = s.db.chunk) :
    KeepsRows s s' :=
  ⟨hfiles, fun c hc => ⟨c, hchunk ▸ hc, rfl⟩⟩

theorem trans {s'' : Store} (h : KeepsRows s s') (h' : KeepsRows s' s'') : KeepsRows s s'' := by
  refine ⟨h'.files.trans h.files, fun c hc => ?_⟩
  obtain ⟨c', hc', hdigest⟩ := h.rows c hc
  obtain ⟨c'', hc'', hdigest'⟩ := h'.rows c' hc'
  exact ⟨c'', hc'', hdigest'.trans hdigest⟩

private theorem of_update (hfiles : s'.files = s.files) {cond : ChunkRow → Bool}
    {f : ChunkRow → ChunkRow}
    (hchunk : s'.db.chunk = Table.update cond f s.db.chunk) (hf : ∀ c, (f c).digest = c.digest) :
    KeepsRows s s' := by
  refine ⟨hfiles, fun c hc => ⟨_, hchunk ▸ Table.mem_update.mpr ⟨c, hc, rfl⟩, ?_⟩⟩
  split
  · exact hf c
  · rfl

private theorem filesHaveRows (h : KeepsRows s s') (hs : FilesHaveRows s) : FilesHaveRows s' := by
  intro path hpath
  obtain ⟨c, hc, hrel⟩ := hs path (h.files ▸ hpath)
  obtain ⟨c', hc', hdigest⟩ := h.rows c hc
  exact ⟨c', hc', hdigest ▸ hrel⟩

end KeepsRows

def keepsRows : Bound Store Error where
  inv _ := True
  rel := KeepsRows
  err _ := True
  refl _ := .of_chunk rfl rfl
  trans := .trans

private theorem keepsRows_spares (now : Int64) :
    Spares now keepsRows (fun _ => True) fun _ => True where
  fr _ _ _ := trivial
  reserve := trivial
  scratch _ hdb hfiles := ⟨.of_chunk hfiles (by rw [hdb]), trivial⟩
  insertChunk {s row} _ _ _ := by
    refine ⟨⟨rfl, fun c hc => ⟨c, ?_, rfl⟩⟩, trivial⟩
    unfold Db.insertChunkOrIgnore
    dsimp only
    split
    · exact hc
    · exact List.mem_append_left _ hc
  reactivate _ := ⟨.of_update rfl rfl fun _ => rfl, trivial⟩
  markPending _ := ⟨.of_update rfl rfl fun _ => rfl, trivial⟩
  setSessionState _ _ := ⟨.of_chunk rfl rfl, trivial⟩
  insertSession _ _ hdb := ⟨.of_chunk rfl (by rw [Db.insertSession_ok hdb]), trivial⟩
  deleteParts _ := ⟨.of_chunk rfl rfl, trivial⟩
  insertPart _ _ _ hdb := ⟨.of_chunk rfl (by rw [Db.insertPart_ok hdb]), trivial⟩
  insertArtifactChunk _ _ hdb := ⟨.of_chunk rfl (by rw [Db.insertArtifactChunk_ok hdb]), trivial⟩
  sessions _ _ _ := trivial
  parts _ _ _ := trivial
  dataLength _ _ _ := trivial

/-- A program within the bound, wherever it is interrupted. -/
private theorem filesHaveRows_wp {α : Type} {p : StorageM α} (hp : Stays keepsRows p)
    (hs : FilesHaveRows s) :
    wp anywhere FilesHaveRows p (Outcome FilesHaveRows fun _ => FilesHaveRows) s := by
  refine wp_of_exec fun r s' hexec => ?_
  have hs' : FilesHaveRows s' := (hp.exec hexec (fun _ => trivial) trivial).1.filesHaveRows hs
  rcases r with _ | _ | _ <;> exact hs'

private theorem collectCandidate_filesHaveRows {cfg : StorageConfig} {env : CallEnv} {dryRun : Bool}
    {candidate : Bytes × Int64 × Int64} {report : GcReport} (hs : FilesHaveRows s) :
    wp anywhere FilesHaveRows (collectCandidate cfg env dryRun candidate report)
      (Outcome FilesHaveRows fun _ => FilesHaveRows) s := by
  obtain ⟨digest, rawSize, pendingAt⟩ := candidate
  unfold collectCandidate
  dsimp only
  split
  · exact hs
  refine wp_seq (filesHaveRows_wp (within_chunkReferenced digest) hs) fun referenced s₁ hs₁ => ?_
  split
  · exact filesHaveRows_wp (.seq (within_exec (keepsRows_spares 0).reactivate)
      fun _ => .pure trivial) hs₁
  split
  · exact hs₁
  -- the file is removed: the row is only needed if there is no path for it
  refine wp_seq (R := fun _ s₂ => FilesHaveRows s₂ ∧ ∀ path, frChunkRelPath digest = .ok path →
    s₂.files path = none) ?_ fun _ s₂ hs₂ => ?_
  · unfold chunkStoreRemove chunkPath
    cases hpath : frChunkRelPath digest with
    | error e => exact hs₁
    | ok path =>
      refine wp_fileStep hs₁ ⟨fun path' hpath' => ?_, ?_⟩
      · by_cases hsame : path' = path
        · rw [hsame] at hpath'
          simp at hpath'
        · exact hs₁ path' (by simpa [Function.update_of_ne hsame] using hpath')
      · rintro path' hpath'
        obtain rfl := Except.ok.inj hpath'
        exact Function.update_self _ _ _
  refine wp_seq (wp_exec' (R := fun _ => FilesHaveRows) hs₂.1 fun path hpath => ?_)
    fun _ _ hs₃ => hs₃
  obtain ⟨c, hc, hrel⟩ := hs₂.1 path hpath
  refine ⟨c, Table.mem_delete.mpr ⟨hc, ?_⟩, hrel⟩
  rw [beq_eq_false_iff_ne]
  rintro rfl
  rw [show s₂.files path = none from hs₂.2 path hrel] at hpath
  cases hpath

private theorem collectGarbage_filesHaveRows {cfg : StorageConfig} {env : CallEnv} {dryRun : Bool}
    (hs : FilesHaveRows s) :
    wp anywhere FilesHaveRows (collectGarbage cfg env dryRun)
      (Outcome FilesHaveRows fun _ => FilesHaveRows) s := by
  refine wp_seq (filesHaveRows_wp (within_select _) hs) fun candidates s₁ hs₁ => ?_
  generalize (⟨Int64.ofNat candidates.length, 0, 0⟩ : GcReport) = report
  induction candidates generalizing report s₁ with
  | nil => exact hs₁
  | cons candidate rest ih =>
    exact wp_seq (collectCandidate_filesHaveRows hs₁) fun report s₂ hs₂ => ih s₂ hs₂ report

/-- `put_chunk` in front of the transaction. -/
def preparePut (sha : Sha256) (env : CallEnv) (sessionId : Bytes) (ordinal : UInt64)
    (data : Bytes) : StorageM Unit := do
  let session ← loadSession sessionId
  expireSessionIfDue session env.now
  let session ← loadSession sessionId
  if session.state = .expired then MonadExcept.throw (.of .eExpired "upload session expired")
  else if session.state ≠ .open then MonadExcept.throw (.of .eState "session is not OPEN")
  else if chunkCount session ≤ ordinal then
    MonadExcept.throw (.of .eRange "chunk ordinal beyond expectation")
  else if data.length = 0 ∨ session.chunkSize.toNat < data.length then
    MonadExcept.throw (.of .eRange "chunk length must be within (0, chunk_size]")
  else chunkStorePut sha env.tmpTag data (sha.hex data)

private theorem putChunk_eq (sha : Sha256) (env : CallEnv) (sessionId : Bytes) (ordinal : UInt64)
    (data : Bytes) : putChunk sha env sessionId ordinal data =
      preparePut sha env sessionId ordinal data >>= fun _ =>
        tx (registerPart env.now sessionId ordinal data (sha.hex data)) := by
  unfold putChunk preparePut
  simp only [bind_bind]
  refine congrArg _ (funext fun _ => congrArg _ (funext fun _ => congrArg _
    (funext fun session => ?_)))
  repeat' split
  all_goals rfl

/-- What the steps of `put_chunk` are for. -/
inductive PutStep
  | prepare
  /-- The registering transaction: BEGIN, its statements and COMMIT. -/
  | register
  deriving DecidableEq, Repr

/-- `put_chunk` with its steps named. -/
def putSteps (sha : Sha256) (env : CallEnv) (sessionId : Bytes) (ordinal : UInt64)
    (data : Bytes) : Prog Store PutStep Error ChunkAccept := do
  (preparePut sha env sessionId ordinal data).tag .prepare
  (tx (registerPart env.now sessionId ordinal data (sha.hex data))).tag .register

section

variable {env : CallEnv} {sessionId data : Bytes} {ordinal : UInt64}

/-- Whatever fails in it, a call of `put_chunk` is a run of its named steps. -/
private theorem putChunk_exec_iff {r : Except Error ChunkAccept} :
    Exec anywhere (putChunk sha env sessionId ordinal data) s (some r) s' ↔
      ∃ faults, FaultyRun (putSteps sha env sessionId ordinal data) s faults r s' := by
  refine exec_iff_faultyRun ?_
  rw [putChunk_eq, putSteps, tag_bind, tag_bind, tag_tag]
  simp only [tag_tag]

/-- The session is there and OPEN, not due, and the part fits it. -/
def Accepts (now : Int64) (sessionId : Bytes) (ordinal : UInt64) (data : Bytes) (s : Store) :
    Prop :=
  ∃ session, s.db.session? sessionId = some session ∧ session.state = .open ∧
    now < session.expiresAt ∧ ordinal < chunkCount session ∧ 0 < data.length ∧
    data.length ≤ session.chunkSize.toNat

/-- The file of the chunk is there. -/
def Stored (sha : Sha256) (s : Store) (data : Bytes) : Prop :=
  (s.files (relPath (sha.hex data))).isSome

/-- The files are the same, and the tables too but for the expiry of the session if it is due, as
far as it has come. -/
def Untouched (now : Int64) (sessionId : Bytes) (s s' : Store) : Prop :=
  s'.files = s.files ∧ (s'.db = s.db ∨ ∃ session, s.db.session? sessionId = some session ∧
    session.state = .open ∧ session.expiresAt ≤ now ∧
    ∃ r s₁, Exec anywhere (expireSessionIfDue session now) s r s₁ ∧ s'.db = s₁.db)

private theorem TmpOnly.untouched {now : Int64} (h : TmpOnly s s') : Untouched now sessionId s s' :=
  ⟨h.files, .inl h.db⟩

private theorem Untouched.keepsRows {now : Int64} (h : Untouched now sessionId s s') :
    KeepsRows s s' := by
  obtain ⟨hfiles, hdb | ⟨session, -, -, -, r, s₁, hexec, hdb⟩⟩ := h
  · exact .of_chunk hfiles (by rw [hdb])
  · have hrows := ((keepsRows_spares now).expireSessionIfDue session).exec hexec (fun _ => trivial)
      trivial
    exact ⟨hfiles, hdb ▸ hrows.1.rows⟩

private theorem expireDue_wp {now : Int64} {session : SessionInfo}
    (hkeys : (s.db.uploadSession.map (·.id)).Nodup)
    (hsession : s.db.session? sessionId = some session)
    (hdue : session.state = .open ∧ session.expiresAt ≤ now) :
    wp anywhere (Untouched now sessionId s) (expireSessionIfDue session now)
      (Outcome (Untouched now sessionId s) fun _ s' => Untouched now sessionId s s' ∧
        ∀ row, s'.db.session? sessionId = some row → row.state ≠ .open) s := by
  obtain ⟨hrow, hid⟩ := Db.session?_some hsession
  refine wp_of_exec fun r s' hexec => ?_
  have hfiles := (((keepsRows_spares now).expireSessionIfDue session).exec hexec (fun _ => trivial)
    trivial).1.files
  have huntouched : Untouched now sessionId s s' :=
    ⟨hfiles, .inr ⟨session, hsession, hdue.1, hdue.2, r, s', hexec, rfl⟩⟩
  rcases r with _ | e | _
  · exact huntouched
  · exact huntouched
  refine ⟨huntouched, fun row hrow' hopen => ?_⟩
  obtain ⟨faults, hfaulty⟩ := (exec_iff_faultyRun expireSteps_tag.symm).mp hexec
  rcases faultyRun_expire hkeys hrow hdue hfaulty with ⟨hreleased, -⟩ | ⟨⟨_, hr⟩, -⟩
  case inr => cases hr
  obtain ⟨hmem, hid'⟩ := Db.session?_some hrow'
  refine hreleased.closed (List.countP_pos_iff.mpr ⟨row, hmem, ?_⟩)
  simp [hid', hid, hopen]

theorem chunkStorePut_places {tag : Bytes} {crash : Store → Prop}
    (hcrash : ∀ s', TmpOnly s s' → crash s') :
    wp anywhere crash (chunkStorePut sha tag data (sha.hex data))
      (Outcome crash fun _ s' => TmpOnly s s' ∧ Stored sha s data ∨ ¬ Stored sha s data ∧
        ∃ tmp, s' = { s with
          files := Function.update s.files (relPath (sha.hex data)) (some (chunkFile data))
          tmp := tmp }) s := by
  unfold chunkStorePut
  rw [if_neg (by simp [sha.hex_valid]), if_neg (by simp), chunkPath_hex, bind_pure_left]
  refine wp_seq (R := fun b s' => s' = s ∧ b = (s.files (relPath (sha.hex data))).isSome)
    (wp_fileStep (hcrash s ⟨rfl, rfl, rfl⟩) ⟨rfl, rfl⟩) ?_
  rintro b s' ⟨rfl, rfl⟩
  by_cases hthere : (s'.files (relPath (sha.hex data))).isSome = true
  · rw [if_pos hthere]
    exact .inl ⟨⟨rfl, rfl, rfl⟩, hthere⟩
  · rw [if_neg hthere]
    refine wp_imp (writeChunkFile_wp hcrash) fun _ s'' hs'' => ?_
    rcases hs'' with ⟨-, hthere'⟩ | hs''
    · exact absurd hthere' hthere
    · exact .inr ⟨hthere, hs''⟩

/-- What `put_chunk` has done in front of the transaction, however it ends there. -/
private theorem preparePut_wp (hkeys : (s.db.uploadSession.map (·.id)).Nodup) :
    wp anywhere (Untouched env.now sessionId s) (preparePut sha env sessionId ordinal data)
      (Outcome (Untouched env.now sessionId s) fun _ s' =>
        Accepts env.now sessionId ordinal data s ∧ s'.db = s.db ∧
        (s'.files = s.files ∧ Stored sha s data ∨ ¬ Stored sha s data ∧ s'.files =
          Function.update s.files (relPath (sha.hex data)) (some (chunkFile data)))) s := by
  have hself : Untouched env.now sessionId s s := ⟨rfl, .inl rfl⟩
  have hload : ∀ s', Untouched env.now sessionId s s' →
      wp anywhere (Untouched env.now sessionId s) (loadSession sessionId)
        (Outcome (Untouched env.now sessionId s) fun session s'' =>
          s'' = s' ∧ s'.db.session? sessionId = some session) s' := by
    intro s' hs'
    refine wp_seq (wp_select' (R := fun found s'' => s'' = s' ∧ found = s'.db.session? sessionId)
      hs' ⟨rfl, rfl⟩) ?_
    rintro found s'' ⟨rfl, rfl⟩
    cases hfound : s''.db.session? sessionId with
    | none => exact hs'
    | some session => exact ⟨rfl, rfl⟩
  refine wp_seq (hload s hself) ?_
  rintro session s' ⟨rfl, hsession⟩
  by_cases hdue : session.state = .open ∧ session.expiresAt ≤ env.now
  · refine wp_seq (expireDue_wp hkeys hsession hdue) fun _ s₁ ⟨hs₁, hclosed⟩ => ?_
    refine wp_seq (hload s₁ hs₁) ?_
    rintro row s₂ ⟨rfl, hrow⟩
    split
    · exact hs₁
    · rw [if_pos (hclosed row hrow)]
      exact hs₁
  · rw [expireSessionIfDue, if_neg hdue, bind_pure_left]
    refine wp_seq (hload s' hself) ?_
    rintro row s₂ ⟨rfl, hrow⟩
    obtain rfl := Option.some.inj (hsession.symm.trans hrow)
    split
    · exact hself
    split
    · exact hself
    rename_i hopen
    split
    · exact hself
    rename_i hordinal
    split
    · exact hself
    rename_i hlength
    have hopen := not_not.mp hopen
    have haccepts : Accepts env.now sessionId ordinal data s₂ := by
      refine ⟨session, hsession, hopen, ?_, UInt64.not_le.mp hordinal, by omega, by omega⟩
      exact Int64.not_le.mp fun hle => hdue ⟨hopen, hle⟩
    refine wp_imp (chunkStorePut_places fun s' hs' => hs'.untouched) fun _ s' hs' => ?_
    rcases hs' with ⟨htmp, hstored⟩ | ⟨hnew, tmp, rfl⟩
    · exact ⟨haccepts, htmp.db, .inl ⟨htmp.files, hstored⟩⟩
    · exact ⟨haccepts, rfl, .inr ⟨hnew, rfl⟩⟩

private theorem Untouched.new_file {now : Int64} (hnew : ¬ Stored sha s data) (hs' : s'.files =
    Function.update s.files (relPath (sha.hex data)) (some (chunkFile data))) :
    ¬ Untouched now sessionId s s' := by
  rintro ⟨hfiles, -⟩
  refine hnew ?_
  rw [Stored, ← hfiles, hs', Function.update_self]
  rfl

/-- A call that fails leaves nothing behind unless its transaction fails behind a new file. -/
private theorem putSteps_untouched_iff (hkeys : (s.db.uploadSession.map (·.id)).Nodup) {e : Error}
    {faults : List PutStep}
    (h : FaultyRun (putSteps sha env sessionId ordinal data) s faults (.error e) s') :
    Untouched env.now sessionId s s' ↔ Stored sha s data ∨ .register ∉ faults := by
  have hprepare : ∀ {faults r s₁}, FaultyRun
      ((preparePut sha env sessionId ordinal data).tag PutStep.prepare) s faults r s₁ →
      .register ∉ faults ∧ Outcome (Untouched env.now sessionId s) (fun _ s₁ =>
        Accepts env.now sessionId ordinal data s ∧ s₁.db = s.db ∧
        (s₁.files = s.files ∧ Stored sha s data ∨ ¬ Stored sha s data ∧ s₁.files =
          Function.update s.files (relPath (sha.hex data)) (some (chunkFile data)))) r s₁ := by
    intro faults r s₁ hfaulty
    obtain ⟨faults', hprepare, rfl⟩ := hfaulty.of_tag
    exact ⟨by simp, wp_sound (preparePut_wp hkeys) hprepare.exec⟩
  unfold putSteps at h
  rcases h.of_bind with ⟨_, -, hfaulty⟩ | ⟨_, before, after, s₁, hfaulty, htx, rfl⟩
  · obtain ⟨hnone, huntouched⟩ := hprepare hfaulty
    exact iff_of_true huntouched (.inr hnone)
  obtain ⟨-, -, hdb, hfiles⟩ := hprepare hfaulty
  rcases faultyRun_tx htx with ⟨_, hr, -⟩ | ⟨_, -, rfl, rfl⟩
  · cases hr
  rcases hfiles with ⟨hfiles, hstored⟩ | ⟨hnew, hfiles⟩
  · exact iff_of_true ⟨hfiles, .inl hdb⟩ (.inl hstored)
  · refine iff_of_false (Untouched.new_file hnew hfiles) ?_
    rintro (hstored | hnone)
    · exact hnew hstored
    · exact hnone (by simp)

/-- The name that the temporary file would get is taken. -/
def NameTaken (env : CallEnv) (s : Store) : Prop := ∃ f ∈ s.tmp, f.1 = tmpFileName env.tmpTag

private theorem chunkStorePut_taken (hnew : ¬ Stored sha s data) (htaken : NameTaken env s) :
    ∃ e, (chunkStorePut sha env.tmpTag data (sha.hex data)).run s = (.error e, s) := by
  obtain ⟨f, hf, hname⟩ := htaken
  have hany : s.tmp.any (·.1 == tmpFileName env.tmpTag) = true :=
    List.any_eq_true.mpr ⟨f, hf, beq_iff_eq.mpr hname⟩
  have hcreate : (tmpFileCreate (tmpFileName env.tmpTag)).run s =
      (.error (.of .eIo "create temp chunk: tmpfile: retries exhausted"), s) := by
    rw [tmpFileCreate, run_fileStep, if_pos hany]
  refine ⟨.of .eIo "create temp chunk: tmpfile: retries exhausted", ?_⟩
  unfold chunkStorePut
  rw [if_neg (by simp [sha.hex_valid]), if_neg (by simp), chunkPath_hex, bind_pure_left, run_bind,
    fileExists, run_fileStep]
  dsimp only
  have hnot : ¬ (s.files (relPath (sha.hex data))).isSome = true := hnew
  rw [if_neg hnot, writeChunkFile, run_bind, hcreate]

/-- An accepted part reaches the transaction, unless there is no temporary file to be had. -/
private theorem preparePut_run (haccepts : Accepts env.now sessionId ordinal data s) :
    (preparePut sha env sessionId ordinal data).run s =
      (chunkStorePut sha env.tmpTag data (sha.hex data)).run s := by
  obtain ⟨session, hsession, hopen, hdue, hordinal, hpos, hfits⟩ := haccepts
  unfold preparePut
  rw [run_bind, loadSession_run hsession]
  dsimp only
  rw [run_bind, expireSessionIfDue_run hdue]
  dsimp only
  rw [run_bind, loadSession_run hsession]
  dsimp only
  rw [if_neg (by rw [hopen]; simp), if_neg (not_not.mpr hopen), if_neg (UInt64.not_le.mpr hordinal),
    if_neg (by omega)]

private theorem run_tx_error {α : Type} {p : StorageM α} {e : Error}
    (h : (tx p).run s = (.error e, s')) : s' = s := by
  rw [tx, transaction, run_lift] at h
  rcases hrun : p.run s with ⟨e' | a, s₁⟩
  · rw [hrun] at h
    exact (congrArg Prod.snd h).symm
  · rw [hrun] at h
    cases h

private theorem putChunk_untouched_iff (hkeys : (s.db.uploadSession.map (·.id)).Nodup) {e : Error}
    (h : (putChunk sha env sessionId ordinal data).run s = (.error e, s')) :
    Untouched env.now sessionId s s' ↔ Stored sha s data ∨
      ¬ Accepts env.now sessionId ordinal data s ∨ NameTaken env s := by
  have hspec := wp_sound (preparePut_wp hkeys)
    (exec_run anywhere (preparePut sha env sessionId ordinal data) s)
  rw [putChunk_eq, run_bind] at h
  rcases hrun : (preparePut sha env sessionId ordinal data).run s with ⟨e' | _, s₁⟩
  · rw [hrun] at h hspec
    cases h
    refine iff_of_true hspec ?_
    by_contra hnone
    obtain ⟨hnew, haccepts, hfresh⟩ := not_or.mp hnone |>.imp id not_or.mp
    have hput : (preparePut sha env sessionId ordinal data).run s = _ :=
      preparePut_run (not_not.mp haccepts)
    rw [hrun, chunkStorePut_run fun f hf hname => hfresh ⟨f, hf, hname⟩] at hput
    cases hput
  · rw [hrun] at h hspec
    obtain ⟨haccepts, hdb, hfiles⟩ := hspec
    obtain rfl := run_tx_error h
    rcases hfiles with ⟨hfiles, hstored⟩ | ⟨hnew, hfiles⟩
    · exact iff_of_true ⟨hfiles, .inl hdb⟩ (.inl hstored)
    refine iff_of_false (Untouched.new_file hnew hfiles) ?_
    rintro (hstored | hnot | htaken)
    · exact hnew hstored
    · exact hnot haccepts
    · obtain ⟨e', hput⟩ := chunkStorePut_taken hnew htaken
      rw [preparePut_run haccepts, hput] at hrun
      cases hrun

private theorem registerPart_ok {now : Int64} {digestHex : Bytes} {a : ChunkAccept}
    (h : (registerPart now sessionId ordinal data digestHex).run s = (.ok a, s')) :
    s'.db.uploadSession = s.db.uploadSession ∧
      ∃ p ∈ s'.db.uploadPart, p.sessionId = sessionId ∧ p.digest = digestHex := by
  unfold registerPart at h
  rw [run_bind, run_select] at h
  dsimp only at h
  cases hfound : s.db.partDigest? sessionId ordinal.toInt64 with
  | some existing =>
    rw [hfound] at h
    dsimp only at h
    split at h
    · cases h
      rename_i hsame
      obtain ⟨p, hp, rfl⟩ := Option.map_eq_some_iff.mp hfound
      have hkey := List.find?_some hp
      simp only [Bool.and_eq_true, beq_iff_eq] at hkey
      exact ⟨rfl, p, List.mem_of_find?_eq_some hp, hkey.1, hsame⟩
    · cases h
  | none =>
    rw [hfound] at h
    simp only [run_bind, run_exec] at h
    rcases hinsert : (Db.insertPart _ _) with e | db
    · rw [stmt, run_lift, hinsert] at h
      cases h
    · rw [stmt, run_lift, hinsert] at h
      cases h
      rw [Db.insertPart_ok hinsert]
      exact ⟨(insertChunkOrIgnore_same s.db _).2.uploadSession,
        _, List.mem_append_right _ (List.mem_singleton_self _), rfl, rfl⟩

private theorem registerPart_filesHaveRows {contents leaked : Set Bytes} {a : ChunkAccept}
    {s₁ : Store} (hinv' : StoreInv sha contents leaked s') (hs : FilesHaveRows s)
    (haccepts : Accepts env.now sessionId ordinal data s) (hdb : s₁.db = s.db)
    (hfiles : ∀ path, path ≠ relPath (sha.hex data) → s₁.files path = s.files path)
    (h : (registerPart env.now sessionId ordinal data (sha.hex data)).run s₁ = (.ok a, s')) :
    FilesHaveRows s' := by
  obtain ⟨session, hsession, hopen, -, hordinal, -⟩ := haccepts
  obtain ⟨hmem, hid⟩ := Db.session?_some hsession
  obtain ⟨hsessions, p, hp, hpid, hdigest⟩ := registerPart_ok h
  have hkeeps : KeepsRows s₁ s' := by
    have hstays : Stays keepsRows (registerPart env.now sessionId ordinal data (sha.hex data)) :=
      (keepsRows_spares env.now).registerPart sessionId ordinal (sha.hex data) trivial
        ⟨session, trivial, hid, hordinal⟩
    have hrun := hstays.run (s := s₁) trivial
    rw [h] at hrun
    exact hrun.1.1
  intro path hpath
  by_cases hsame : path = relPath (sha.hex data)
  · have href : s'.db.Referenced (sha.hex data) := by
      refine .inr (Db.inLivePart_iff.mpr ⟨p, hp, hdigest, session, ?_, hid.trans hpid.symm, ?_⟩)
      · rwa [hsessions, hdb]
      · rw [hopen]
        rfl
    obtain ⟨c, hc, hdigest', -⟩ := (hinv'.held _ href).row
    refine ⟨c, hc, ?_⟩
    rw [hdigest', frChunkRelPath_of_valid (sha.hex_valid data) (sha.hex_length data), hsame]
    rfl
  · rw [hkeeps.files, hfiles path hsame] at hpath
    obtain ⟨c, hc, hrel⟩ := hs path hpath
    obtain ⟨c', hc', hdigest'⟩ := hkeeps.rows c (hdb ▸ hc)
    exact ⟨c', hc', hdigest' ▸ hrel⟩

private theorem putChunk_filesHaveRows {contents leaked : Set Bytes}
    {r : Option (Except Error ChunkAccept)}
    (hinv : StoreInv sha contents leaked s) (hinv' : StoreInv sha contents leaked s')
    (hs : FilesHaveRows s) (hexec : Exec anywhere (putChunk sha env sessionId ordinal data) s r s')
    (hr : (∃ a, r = some (.ok a)) ∨ Stored sha s data ∨
      ¬ Accepts env.now sessionId ordinal data s) : FilesHaveRows s' := by
  obtain ⟨spared, hspared⟩ : ∃ P : Prop, P ↔ Stored sha s data ∨
    ¬ Accepts env.now sessionId ordinal data s := ⟨_, Iff.rfl⟩
  have hwp : wp anywhere (fun s' => spared → FilesHaveRows s')
      (putChunk sha env sessionId ordinal data)
      (Outcome (fun s' => spared → FilesHaveRows s') fun a s' => ∃ s₁,
        Accepts env.now sessionId ordinal data s ∧ s₁.db = s.db ∧
        (∀ path, path ≠ relPath (sha.hex data) → s₁.files path = s.files path) ∧
        (registerPart env.now sessionId ordinal data (sha.hex data)).run s₁ = (.ok a, s')) s := by
    rw [putChunk_eq]
    refine wp_seq (wp_of_exec fun r s₁ hprepare => ?_) (R := fun _ s₁ =>
      Accepts env.now sessionId ordinal data s ∧ s₁.db = s.db ∧
      (∀ path, path ≠ relPath (sha.hex data) → s₁.files path = s.files path) ∧
      (spared → FilesHaveRows s₁)) ?_
    · have hspec := wp_sound (preparePut_wp hinv.rows.sessionKeys) hprepare
      rcases r with _ | _ | _
      · exact fun _ => hspec.keepsRows.filesHaveRows hs
      · exact fun _ => hspec.keepsRows.filesHaveRows hs
      · obtain ⟨haccepts, hdb, ⟨hfiles, -⟩ | ⟨hnew, hfiles⟩⟩ := hspec
        · exact ⟨haccepts, hdb, fun _ _ => by rw [hfiles], fun _ =>
            (KeepsRows.of_chunk hfiles (by rw [hdb])).filesHaveRows hs⟩
        · refine ⟨haccepts, hdb, fun path hne => by rw [hfiles, Function.update_of_ne hne],
            fun h => ?_⟩
          exact ((hspared.mp h).elim hnew fun hnot => hnot haccepts).elim
    rintro - s₁ ⟨haccepts, hdb, hfiles, hcrash⟩
    refine wp_atomic hcrash hcrash (wp_run.mpr ?_)
    rcases hrun : (registerPart env.now sessionId ordinal data (sha.hex data)).run s₁ with
      ⟨_ | a, s₂⟩
    · trivial
    · exact ⟨s₁, haccepts, hdb, hfiles, hrun⟩
  have hends := wp_sound hwp hexec
  rcases r with _ | e | a
  · exact hends (hspared.mpr (hr.resolve_left (by simp)))
  · exact hends (hspared.mpr (hr.resolve_left (by simp)))
  · obtain ⟨s₁, haccepts, hdb, hfiles, hrun⟩ := hends
    exact registerPart_filesHaveRows hinv' hs haccepts hdb hfiles hrun

end

/-- The call of `put_chunk`, if it is one, returns, finds the chunk stored or is refused. -/
def Tidy (sha : Sha256) (sys : System) (e : Event) : Prop :=
  ∀ sessionId ordinal data, e.action = .call (.putChunk sessionId ordinal data) →
    e.returned = true ∨ Stored sha sys.store data ∨
      ¬ Accepts e.env.now sessionId ordinal data sys.store

private theorem keepsRows_action {now : Int64} {sys sys' : System} {e : Event}
    (hnow : e.env.now = now) (h : System.Step sha anywhere sys e sys')
    (hput : ∀ sessionId ordinal data, e.action ≠ .call (.putChunk sessionId ordinal data))
    (hgc : ∀ dryRun, e.action ≠ .call (.collectGarbage dryRun)) :
    KeepsRows sys.store sys'.store := by
  have hspares := keepsRows_spares now
  have hstep : ∀ {α : Type} {p : StorageM α} {s s' : Store} {r}, Stays keepsRows p →
      Exec anywhere p s r s' → KeepsRows s s' := fun hp hexec =>
    (hp.exec hexec (fun _ => trivial) trivial).1
  cases h with
  | «open» hexec => exact hstep (hspares.openStorage _ _ hnow) hexec
  | close => exact .of_chunk rfl rfl
  | @call s s' cfg call env r hexec =>
    refine hstep ?_ hexec
    cases call with
    | createSession =>
      exact .seq (hspares.createSession _ _ _ _ _ _ _ _ fun _ _ _ => trivial).stays
        fun _ => .pure trivial
    | putChunk sessionId ordinal data => exact absurd rfl (hput sessionId ordinal data)
    | commitSession =>
      refine .seq (hspares.commitSession _ _ hnow _ fun _ _ _ _ _ hdb => ?_) fun _ => .pure trivial
      exact ⟨.of_chunk rfl (by rw [(Db.insertArtifact_ok hdb).2]), trivial⟩
    | abortSession => exact hspares.abortSession _ hnow _
    | deleteArtifact =>
      exact .seq (hspares.deleteArtifact _ hnow _ _ _ fun _ => ⟨.of_chunk rfl rfl, trivial⟩)
        fun _ => .pure trivial
    | collectGarbage dryRun => exact absurd rfl (hgc dryRun)
    | runMaintenance => exact .seq (hspares.runMaintenance _ hnow) fun _ => .pure trivial

private theorem filesHaveRows_step {sys sys' : System} {e : Event} (htidy : Tidy sha sys e)
    (h : System.Step sha anywhere sys e sys') (hinv : StoreInv sha Set.univ Set.univ sys.store)
    (hinv' : StoreInv sha Set.univ Set.univ sys'.store) (hs : FilesHaveRows sys.store) :
    FilesHaveRows sys'.store := by
  by_cases hput : ∃ sessionId ordinal data, e.action = .call (.putChunk sessionId ordinal data)
  · obtain ⟨sessionId, ordinal, data, haction⟩ := hput
    have htidy := htidy _ _ _ haction
    cases h with
    | «open» => cases haction
    | close => cases haction
    | call hexec =>
      cases haction
      obtain ⟨r', hexec', hreturned⟩ := exec_discard hexec
      exact putChunk_filesHaveRows hinv hinv' hs hexec'
        (htidy.imp_left fun h => hreturned (returnedOk_eq h))
  by_cases hgc : ∃ dryRun, e.action = .call (.collectGarbage dryRun)
  · obtain ⟨dryRun, haction⟩ := hgc
    cases h with
    | «open» => cases haction
    | close => cases haction
    | call hexec =>
      cases haction
      refine wp_everywhere (wp_seq (collectGarbage_filesHaveRows hs) (fun _ s' hs' => ?_)) hexec
      exact (wp_pure ()).mpr hs'
  · exact (keepsRows_action rfl h (fun sessionId ordinal data heq =>
      hput ⟨sessionId, ordinal, data, heq⟩) fun dryRun heq => hgc ⟨dryRun, heq⟩).filesHaveRows hs

/-- A call of `put_chunk` that throws in a state that a run reaches leaves no trace if and only if
the chunk is stored already or it is not the registering transaction that fails; if nothing outside
fails, if and only if the chunk is stored, the part is refused before its file is written or the
temporary file cannot be created. In a run whose calls all return, find their chunk stored or are
refused, every chunk file has its row. -/
theorem rejected_put_leaves_no_trace_iff {sha : Sha256} :
    (∀ {events sys env sessionId ordinal data e s'},
      Trace.Run (System.Step sha anywhere) .initial events sys →
      (Exec anywhere (putChunk sha env sessionId ordinal data) sys.store (some (.error e)) s' ↔
        ∃ faults, FaultyRun (putSteps sha env sessionId ordinal data) sys.store faults
          (.error e) s') ∧
      (∀ faults,
        FaultyRun (putSteps sha env sessionId ordinal data) sys.store faults (.error e) s' →
        (Untouched env.now sessionId sys.store s' ↔
          Stored sha sys.store data ∨ .register ∉ faults)) ∧
      ((putChunk sha env sessionId ordinal data).run sys.store = (.error e, s') →
        (Untouched env.now sessionId sys.store s' ↔ Stored sha sys.store data ∨
          ¬ Accepts env.now sessionId ordinal data sys.store ∨ NameTaken env sys.store))) ∧
    ∀ {events sys}, Trace.Run (fun sys e sys' => System.Step sha anywhere sys e sys' ∧
      Tidy sha sys e) .initial events sys → FilesHaveRows sys.store := by
  have hreached : ∀ {events sys}, Trace.Run (System.Step sha anywhere) .initial events sys →
      StoreInv sha Set.univ Set.univ sys.store := fun hrun =>
    (System.run_kept hrun anywhere_harmless (Set.subset_univ _) (.empty _ _ _)).inv
  refine ⟨fun hrun => ?_, fun hrun => ?_⟩
  · have hkeys := (hreached hrun).rows.sessionKeys
    exact ⟨putChunk_exec_iff, fun _ hfaulty => putSteps_untouched_iff hkeys hfaulty,
      fun hrun => putChunk_untouched_iff hkeys hrun⟩
  · refine (hrun.invariant (I := fun sys => StoreInv sha Set.univ Set.univ sys.store ∧
      FilesHaveRows sys.store) ?_ ⟨.empty _ _ _, fun path hpath => by cases hpath⟩).2
    rintro sys e sys' - ⟨hinv, hs⟩ ⟨hstep, htidy⟩
    have hinv' := (hstep.kept anywhere_harmless (Set.subset_univ _) hinv).inv
    exact ⟨hinv', filesHaveRows_step htidy hstep hinv hinv' hs⟩

/-- The part that the sample upload has put comes again with another content. -/
def sampleConflict : Except Error ChunkAccept × Store :=
  (putChunk sampleSha (sampleEnv 1) (ascii "s1") 0 (ascii "b")).run
    (played sampleSha sampleUpload).2.store

theorem rejected_put_leaves_no_trace_sample :
    Untouched 1 (ascii "s1") (played sampleSha sampleUpload).2.store
      ((putChunk sampleSha (sampleEnv 1) (ascii "s1") 7 (ascii "b")).run
        (played sampleSha sampleUpload).2.store).2 := by
  have hrun : Trace.Run (System.Step sampleSha anywhere) .initial (played sampleSha sampleUpload).1
      (played sampleSha sampleUpload).2 :=
    played_run (fun _ _ => .inr fun _ _ => trivial) (by decide +kernel)
  obtain ⟨e, s', hput⟩ : ∃ e s', (putChunk sampleSha (sampleEnv 1) (ascii "s1") 7 (ascii "b")).run
      (played sampleSha sampleUpload).2.store = (.error e, s') := by
    have hresult : ((putChunk sampleSha (sampleEnv 1) (ascii "s1") 7 (ascii "b")).run
        (played sampleSha sampleUpload).2.store).1.isOk = false := by decide +kernel
    rcases hput : (putChunk sampleSha (sampleEnv 1) (ascii "s1") 7 (ascii "b")).run
        (played sampleSha sampleUpload).2.store with ⟨e | a, s'⟩
    · exact ⟨e, s', rfl⟩
    · rw [hput] at hresult
      cases hresult
  refine hput ▸ ((rejected_put_leaves_no_trace_iff.1 hrun).2.2 hput).mpr (.inr (.inl ?_))
  rintro ⟨session, hsession, -, -, hordinal, -⟩
  have hcount : ((played sampleSha sampleUpload).2.store.db.session? (ascii "s1")).all
      (fun session => decide (¬ (7 : UInt64) < chunkCount session)) = true := by decide +kernel
  rw [hsession] at hcount
  exact of_decide_eq_true hcount hordinal

/-- The registration is refused, but the file of the other content stays, and has no row. -/
theorem rejected_put_leaves_trace :
    Trace.Run (System.Step sampleSha anywhere) .initial (played sampleSha sampleUpload).1
      (played sampleSha sampleUpload).2 ∧ ∃ e s',
    (putChunk sampleSha (sampleEnv 1) (ascii "s1") 0 (ascii "b")).run
      (played sampleSha sampleUpload).2.store = (.error e, s') ∧
    ¬ Untouched 1 (ascii "s1") (played sampleSha sampleUpload).2.store s' ∧
    ¬ FilesHaveRows s' := by
  refine ⟨played_run (fun _ _ => .inr fun _ _ => trivial) (by decide +kernel), ?_⟩
  have hresult : sampleConflict.1.isOk = false := by decide +kernel
  have hfile : (sampleConflict.2.files (relPath (sampleSha.hex (ascii "b")))).isSome := by
    decide +kernel
  have hbefore : ((played sampleSha sampleUpload).2.store.files
      (relPath (sampleSha.hex (ascii "b")))).isSome = false := by decide +kernel
  have hrows : (sampleConflict.2.db.chunk.map (·.digest)) = [sampleSha.hex (ascii "a")] := by
    decide +kernel
  rcases hput : sampleConflict with ⟨e | a, s'⟩
  case ok =>
    rw [hput] at hresult
    cases hresult
  rw [hput] at hfile hrows
  refine ⟨e, s', hput, fun h => ?_, fun h => ?_⟩
  · rw [h.1, hbefore] at hfile
    cases hfile
  · obtain ⟨c, hc, hrel⟩ := h _ hfile
    have hdigest : c.digest = sampleSha.hex (ascii "a") := by
      have hmem := List.mem_map_of_mem (f := (·.digest)) hc
      rw [hrows] at hmem
      exact List.mem_singleton.mp hmem
    rw [hdigest, frChunkRelPath_of_valid (sampleSha.hex_valid _) (sampleSha.hex_length _)] at hrel
    exact absurd (Except.ok.inj hrel) (by decide)

end ForgeRelay
