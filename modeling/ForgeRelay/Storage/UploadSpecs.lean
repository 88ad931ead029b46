import ForgeRelay.Storage.Marking

/-!
# Creating sessions, uploading chunks and aborting

These operations keep the invariant and the published artifacts, wherever they are interrupted.
-/

namespace ForgeRelay

open Program Prog

variable {sha : Sha256} {contents leaked : Set Bytes} {s₀ s : Store}
  {interrupts : Label → Store → Prop} {crash : Store → Prop}

theorem Good.congr {s' : Store} (h : Good sha contents s₀ leaked s) (hdb : s'.db = s.db)
    (hfiles : s'.files = s.files) : Good sha contents s₀ leaked s' :=
  ⟨h.inv.congr hdb hfiles, hdb ▸ h.same⟩

/-- Only temporary files differ. -/
structure TmpOnly (s s' : Store) : Prop where
  db : s'.db = s.db
  files : s'.files = s.files
  changes : s'.changes = s.changes

/-- The latest temporary file has this content. -/
def HasTmp (s : Store) (name content : Bytes) (s' : Store) : Prop :=
  TmpOnly s s' ∧ ∃ others, s'.tmp = (name, content) :: others

theorem tmpFileUnlink_wp {name : Bytes} {s' : Store} (hcrash : ∀ s', TmpOnly s s' → crash s')
    (htmp : TmpOnly s s') :
    wp interrupts crash (tmpFileUnlink name) (Outcome (TmpOnly s) fun _ => TmpOnly s) s' := by
  rw [tmpFileUnlink, fileStep, wp_lift]
  exact ⟨fun _ => ⟨hcrash s' htmp, fun _ => htmp⟩, htmp.db, htmp.files, htmp.changes⟩

theorem tmpFileWrite_wp {name content data : Bytes} {s' : Store}
    (hcrash : ∀ s', TmpOnly s s' → crash s') (htmp : HasTmp s name content s') :
    wp interrupts crash (tmpFileWrite name data)
      (Outcome (TmpOnly s) fun _ => HasTmp s name (content ++ data)) s' := by
  rw [tmpFileWrite, fileStep, wp_lift]
  refine ⟨fun _ => ⟨hcrash s' htmp.1, fun _ => htmp.1⟩,
    ⟨htmp.1.db, htmp.1.files, htmp.1.changes⟩, ?_⟩
  obtain ⟨-, others, htmp⟩ := htmp
  exact ⟨Table.update (·.1 == name) (fun f => (f.1, f.2 ++ data)) others, by
    simp [htmp, Table.update]⟩

theorem silentStep_wp {R : Unit → Store → Prop} {s' : Store}
    (hcrash : ∀ s', TmpOnly s s' → crash s') (htmp : TmpOnly s s') (hR : R () s') :
    wp interrupts crash silentStep (Outcome (TmpOnly s) R) s' := by
  rw [silentStep, fileStep, wp_lift]
  exact ⟨fun _ => ⟨hcrash s' htmp, fun _ => htmp⟩, hR⟩

private theorem tmpFileFill_wp {name data : Bytes} {s' : Store}
    (hcrash : ∀ s', TmpOnly s s' → crash s') (htmp : HasTmp s name [] s') :
    wp interrupts crash (tmpFileFill name data)
      (Outcome (TmpOnly s) fun _ => HasTmp s name (chunkFile data)) s' := by
  refine wp_seq (tmpFileWrite_wp hcrash htmp) ?_
  rw [List.nil_append]
  intro _ s₁ h₁
  refine wp_seq (R := fun _ => HasTmp s name (chunkFile data)) ?_ fun _ s₂ h₂ => ?_
  · by_cases hdata : data.length ≠ 0
    · rw [if_pos hdata]
      exact tmpFileWrite_wp hcrash h₁
    · rw [if_neg hdata]
      have hnil : data = [] := List.length_eq_zero_iff.mp (not_not.mp hdata)
      subst hnil
      rw [chunkFile, List.append_nil]
      exact h₁
  have hsilent : ∀ s', HasTmp s name (chunkFile data) s' → wp interrupts crash silentStep
      (Outcome (TmpOnly s) fun _ => HasTmp s name (chunkFile data)) s' :=
    fun s' hs' => silentStep_wp hcrash hs'.1 hs'
  exact wp_seq (hsilent s₂ h₂) fun _ s₃ h₃ => wp_seq (hsilent s₃ h₃) fun _ s₄ h₄ => hsilent s₄ h₄

theorem tmpFileRename_wp {name content target : Bytes} {R : Unit → Store → Prop} {s' : Store}
    (hcrash : ∀ s', TmpOnly s s' → crash s') (htmp : HasTmp s name content s')
    (hR : ∀ tmp, R () { s with
      files := Function.update s.files target (some content), tmp := tmp }) :
    wp interrupts crash (tmpFileRename name target) (Outcome (TmpOnly s) R) s' := by
  rw [tmpFileRename, fileStep, wp_lift]
  refine ⟨fun _ => ⟨hcrash s' htmp.1, fun _ => htmp.1⟩, ?_⟩
  obtain ⟨⟨hdb, hfiles, hchanges⟩, others, htmps⟩ := htmp
  simp only [htmps, List.find?_cons, beq_self_eq_true, hdb, hfiles, hchanges]
  exact hR _

/-- Writing a chunk file touches temporary files only, until the complete file is renamed into
its place; afterwards there is a file. -/
theorem writeChunkFile_wp {tag target data : Bytes}
    (hcrash : ∀ s', TmpOnly s s' → crash s') :
    wp interrupts crash (writeChunkFile tag target data)
      (Outcome crash fun _ s' => (TmpOnly s s' ∧ (s.files target).isSome) ∨
        ∃ tmp, s' = { s with
          files := Function.update s.files target (some (chunkFile data)), tmp := tmp }) s := by
  have hself : TmpOnly s s := ⟨rfl, rfl, rfl⟩
  have hunlink : ∀ s', TmpOnly s s' → wp interrupts crash
      (attempt (tmpFileUnlink (tmpFileName tag))) (Outcome crash fun _ => TmpOnly s) s' :=
    fun s' hs' => wp_attempt (tmpFileUnlink_wp hcrash hs')
  have hexists : ∀ s', TmpOnly s s' → wp interrupts crash (fileExists target)
      (Outcome crash fun b s'' => s'' = s' ∧ b = (s.files target).isSome) s' :=
    fun s' hs' => wp_fileStep (hcrash s' hs') ⟨rfl, by rw [hs'.files]⟩
  unfold writeChunkFile
  refine wp_seq (R := fun _ => HasTmp s (tmpFileName tag) []) (wp_fileStep (hcrash s hself) ?_) ?_
  · split
    · exact hcrash s hself
    · exact ⟨⟨rfl, rfl, rfl⟩, s.tmp, rfl⟩
  intro _ s₁ h₁
  refine wp_seq (wp_catch (tmpFileFill_wp hcrash h₁) ?_) ?_
  · intro e s' hs'
    exact wp_seq (hunlink s' hs') fun _ s'' hs'' => hcrash s'' hs''
  intro _ s₂ h₂
  refine wp_seq (hexists s₂ h₂.1) ?_
  rintro b s' ⟨rfl, rfl⟩
  by_cases hthere : (s.files target).isSome = true
  · rw [if_pos hthere]
    exact wp_imp (hunlink s' h₂.1) fun _ s'' hs'' => .inl ⟨hs'', hthere⟩
  · rw [if_neg hthere]
    refine wp_catch (tmpFileRename_wp hcrash h₂ fun tmp => .inr ⟨tmp, rfl⟩) ?_
    intro e s'' hs''
    refine wp_seq (hunlink s'' hs'') fun _ s₃ h₃ => wp_seq (hexists s₃ h₃) ?_
    rintro b s₄ ⟨rfl, rfl⟩
    rw [if_neg hthere]
    exact hcrash s₄ h₃

theorem chunkPath_hex (data : Bytes) :
    chunkPath (sha.hex data) = Pure.pure (relPath (sha.hex data)) := by
  rw [chunkPath, frChunkRelPath_of_valid (sha.hex_valid data) (sha.hex_length data)]
  rfl

private theorem chunkStorePut_wp {tag data : Bytes} (hdata : data ∈ contents)
    (htol : Tolerant sha contents s₀ leaked interrupts crash)
    (hgood : Good sha contents s₀ leaked s) :
    wp interrupts crash (chunkStorePut sha tag data (sha.hex data))
      (Outcome crash fun _ s' => Good sha contents s₀ leaked s' ∧ s'.db = s.db ∧
        (s'.files (relPath (sha.hex data))).isSome) s := by
  have htmp : ∀ s', TmpOnly s s' → Good sha contents s₀ leaked s' :=
    fun s' hs' => hgood.congr hs'.db hs'.files
  have hcrash : ∀ s', TmpOnly s s' → crash s' := fun s' hs' => htol.good s' (htmp s' hs')
  unfold chunkStorePut
  rw [if_neg (by simp [sha.hex_valid]), if_neg (by simp), chunkPath_hex, bind_pure_left]
  refine wp_seq (R := fun b s' => s' = s ∧ b = (s.files (relPath (sha.hex data))).isSome)
    (wp_fileStep (htol.good s hgood) ⟨rfl, rfl⟩) ?_
  rintro b s' ⟨rfl, rfl⟩
  by_cases hthere : (s'.files (relPath (sha.hex data))).isSome = true
  · rw [if_pos hthere]
    exact ⟨hgood, rfl, hthere⟩
  · rw [if_neg hthere]
    refine wp_imp (writeChunkFile_wp hcrash) fun _ s'' hs'' => ?_
    rcases hs'' with ⟨hs'', hthere'⟩ | ⟨tmp, rfl⟩
    · exact absurd hthere' hthere
    · exact ⟨⟨hgood.inv.addFile hdata, hgood.same⟩, rfl, by simp⟩

theorem insertChunkOrIgnore_same (db : Db) (row : ChunkRow) :
    SameArtifacts db (db.insertChunkOrIgnore row) ∧
      SameUploads db (db.insertChunkOrIgnore row) := by
  unfold Db.insertChunkOrIgnore
  split <;> exact ⟨⟨rfl, rfl, rfl⟩, ⟨rfl, rfl⟩⟩

theorem Db.insertPart_ok {db db' : Db} {row : PartRow} (h : db.insertPart row = .ok db') :
    db' = { db with uploadPart := db.uploadPart ++ [row] } := by
  unfold Db.insertPart at h
  split at h
  · cases h
  · split at h <;> cases h
    rfl

theorem Db.insertSession_ok {db db' : Db} {row : SessionInfo} (h : db.insertSession row = .ok db') :
    db' = { db with uploadSession := db.uploadSession ++ [row] } := by
  unfold Db.insertSession at h
  split at h <;> cases h
  rfl

theorem Db.insertArtifact_ok {db db' : Db} {row : ArtifactRow} {id : Nat}
    (h : db.insertArtifact row = .ok (id, db')) :
    id = db.artifactSeq + 1 ∧
      db' = { db with artifact := db.artifact ++ [{ row with id := id }], artifactSeq := id } := by
  unfold Db.insertArtifact at h
  split at h
  · cases h
  · split at h <;> cases h
    exact ⟨rfl, rfl⟩

theorem Db.insertArtifactChunk_ok {db db' : Db} {row : ArtifactChunkRow}
    (h : db.insertArtifactChunk row = .ok db') :
    db' = { db with artifactChunk := db.artifactChunk ++ [row] } := by
  unfold Db.insertArtifactChunk at h
  split at h <;> cases h
  rfl

/-- The tables after the statements of `put_chunk` on the chunk. -/
def Db.withChunk (db : Db) (row : ChunkRow) : Db :=
  (db.insertChunkOrIgnore row).reactivate (ChunkRow.isPending row.digest)

theorem StoreInv.withChunk (h : StoreInv sha contents leaked s) {row : ChunkRow} {data : Bytes}
    (hdata : data ∈ contents) (hdigest : row.digest = sha.hex data)
    (hstate : row.state = .active) :
    StoreInv sha contents (leaked ∪ {row.digest}) { s with db := s.db.withChunk row } := by
  have hinsert := h.insertChunk hdata hdigest hstate
  have hactive := hinsert.reactivate (ChunkRow.isPending row.digest) fun c hc => by
    simp only [ChunkRow.isPending, Bool.and_eq_true, beq_iff_eq] at hc
    exact hc.1
  rwa [Set.union_assoc, Set.union_self] at hactive

theorem registerPart_wp {now : Int64} {sessionId data : Bytes} {ordinal : UInt64}
    (hdata : data ∈ contents) (hsize : data.length < 2^64)
    (hgood : Good sha contents s₀ leaked s)
    (hlive : ∃ r ∈ s.db.uploadSession, r.id = sessionId ∧ r.state.live = true)
    (hfile : (s.files (relPath (sha.hex data))).isSome) :
    wp (fun _ _ => False) (fun _ => True) (registerPart now sessionId ordinal data (sha.hex data))
      (Outcome (fun _ => True) fun _ s' => Good sha contents s₀ leaked s') s := by
  refine wp_seq (wp_select' (R := fun found s' => s' = s) trivial rfl) ?_
  rintro found s' rfl
  cases found with
  | some existing =>
    by_cases hsame : existing = sha.hex data
    · simp only [if_pos hsame]
      exact hgood
    · simp only [if_neg hsame]
      trivial
  | none =>
    obtain ⟨len, hlen⟩ : ∃ len, len = UInt64.ofNat data.length := ⟨_, rfl⟩
    obtain ⟨row, hrow⟩ : ∃ row : ChunkRow,
      row = ⟨sha.hex data, len.toInt64, len.toInt64, .active, none, now⟩ := ⟨_, rfl⟩
    have hdigest : row.digest = sha.hex data := by rw [hrow]
    have hinv := hgood.inv.withChunk hdata hdigest (by rw [hrow])
    have hheld : Held { s' with db := s'.db.withChunk row } (sha.hex data) :=
      ⟨hdigest ▸ s'.db.insertChunk_reactivate_row row, hfile⟩
    obtain ⟨hsame, huploads⟩ := insertChunkOrIgnore_same s'.db row
    simp only [← hlen]
    refine wp_seq (wp_exec' (R := fun _ s₁ => s₁ = { s' with
      db := (s'.db.insertChunkOrIgnore row) }) trivial (by rw [hrow])) ?_
    rintro - s₁ rfl
    refine wp_seq (wp_exec' (R := fun _ s₂ => s₂ = { s' with db := (s'.db.withChunk row) }) trivial
      (by rw [Db.withChunk, hdigest])) ?_
    rintro - s₂ rfl
    refine wp_seq (wp_insert (R := fun _ s₃ => Good sha contents s₀ leaked s₃) trivial
      fun db' hinsert => ?_) fun _ _ hgood' => hgood'
    have hlength : len.toNat = data.length := hlen ▸ UInt64.toNat_ofNat_of_lt' hsize
    have hpart := hinv.insertPart hdata rfl hlength hheld hinsert
    have hdb := Db.insertPart_ok hinsert
    -- the session is live, so the new part refers to the chunk
    have href : db'.Referenced row.digest := by
      obtain ⟨r, hr, hid, hstate⟩ := hlive
      rw [hdb, hdigest]
      refine .inr (Db.inLivePart_iff.mpr ⟨⟨sessionId, ordinal.toInt64, sha.hex data, len⟩,
        List.mem_append_right _ (List.mem_singleton_self _), rfl, r, ?_, hid, hstate⟩)
      exact huploads.uploadSession ▸ hr
    refine ⟨hpart.settle href, ?_⟩
    rw [hdb]
    exact ⟨hsame.artifact.trans hgood.same.artifact,
      hsame.artifactSeq.trans hgood.same.artifactSeq,
      hsame.artifactChunk.trans hgood.same.artifactChunk⟩

theorem putChunk_wp {env : CallEnv} {sessionId data : Bytes} {ordinal : UInt64}
    (hdata : data ∈ contents)
    (htol : Tolerant sha contents s₀ leaked interrupts crash)
    (hgood : Good sha contents s₀ leaked s) :
    wp interrupts crash (putChunk sha env sessionId ordinal data)
      (Outcome crash fun _ s' => Good sha contents s₀ leaked s') s := by
  refine wp_seq (loadSession_wp (R := fun session s' => s' = s ∧ session ∈ s.db.uploadSession)
    (htol.good s hgood) fun session hsession _ => ⟨rfl, hsession⟩) ?_
  rintro session s' ⟨rfl, hsession⟩
  refine wp_seq (wp_imp (expireSessionIfDue_wp htol hgood hsession) fun _ _ h => h.1) ?_
  intro _ s₁ hgood₁
  have hcrash₁ := htol.good s₁ hgood₁
  refine wp_seq (loadSession_wp (R := fun session s' => s' = s₁ ∧
    session ∈ s₁.db.uploadSession ∧ session.id = sessionId) hcrash₁
    fun session hsession hid => ⟨rfl, hsession, hid⟩) ?_
  rintro session s₂ ⟨rfl, hsession, hid⟩
  by_cases hexpired : session.state = .expired
  · rw [if_pos hexpired]
    exact hcrash₁
  rw [if_neg hexpired]
  by_cases hopen : session.state ≠ .open
  · rw [if_pos hopen]
    exact hcrash₁
  rw [if_neg hopen]
  by_cases hrange : chunkCount session ≤ ordinal
  · rw [if_pos hrange]
    exact hcrash₁
  rw [if_neg hrange]
  by_cases hlength : data.length = 0 ∨ session.chunkSize.toNat < data.length
  · rw [if_pos hlength]
    exact hcrash₁
  rw [if_neg hlength]
  have hsize : data.length < 2^64 := by
    have hchunk := session.chunkSize.toNat_lt
    omega
  refine wp_seq (chunkStorePut_wp hdata htol hgood₁) ?_
  rintro - s₃ ⟨hgood₃, hdb, hfile⟩
  have hlive : ∃ r ∈ s₃.db.uploadSession, r.id = sessionId ∧ r.state.live = true :=
    ⟨session, hdb ▸ hsession, hid, by rw [not_not.mp hopen]; rfl⟩
  exact wp_atomic (htol.good s₃ hgood₃) (htol.good s₃ hgood₃)
    (registerPart_wp hdata hsize hgood₃ hlive hfile)

theorem createSession_spec {cfg : StorageConfig} {env : CallEnv} {ns name version : Bytes}
    {expectedSize : UInt64} {expectedDigest owner : Bytes} {R : SessionInfo → Store → Prop}
    (hcrash : crash s)
    (hcreated : ∀ db, (s.db.countOpenSessions owner : Int) < cfg.maxSessionsPerOwner.toInt →
      s.db.insertSession
          (newSession cfg env ns name version expectedSize expectedDigest owner) = .ok db →
        R (newSession cfg env ns name version expectedSize expectedDigest owner)
          { s with db := db }) :
    wp interrupts crash
      (createSession cfg env ns name version expectedSize expectedDigest owner)
      (Outcome crash R) s := by
  unfold createSession
  split
  · exact hcrash
  split
  · exact hcrash
  split
  · exact hcrash
  refine wp_atomic hcrash hcrash ?_
  refine wp_seq (wp_select' (R := fun active s' => s' = s ∧ active = s.db.countOpenSessions owner)
    trivial ⟨rfl, rfl⟩) ?_
  rintro active s' ⟨rfl, rfl⟩
  split
  · trivial
  rename_i hlimit
  refine wp_seq (wp_query (R := fun used s₁ => s₁ = s') trivial fun _ _ => rfl) ?_
  rintro used s₁ rfl
  split
  · trivial
  refine wp_seq (wp_insert (R := fun _ s₂ =>
    R (newSession cfg env ns name version expectedSize expectedDigest owner) s₂) trivial
      fun db hinsert => ?_) fun _ _ h => h
  exact hcreated db (not_le.mp hlimit) hinsert

theorem createSession_wp {cfg : StorageConfig} {env : CallEnv} {ns name version : Bytes}
    {expectedSize : UInt64} {expectedDigest owner : Bytes}
    (htol : Tolerant sha contents s₀ leaked interrupts crash)
    (hgood : Good sha contents s₀ leaked s) :
    wp interrupts crash
      (createSession cfg env ns name version expectedSize expectedDigest owner)
      (Outcome crash fun session s' => Good sha contents s₀ leaked s' ∧
        session = newSession cfg env ns name version expectedSize expectedDigest owner ∧
        s.db.insertSession session = .ok s'.db ∧ s'.tmp = s.tmp) s := by
  refine createSession_spec (htol.good s hgood) fun db _ hinsert => ?_
  refine ⟨⟨hgood.inv.insertSession hinsert, ?_⟩, rfl, hinsert, rfl⟩
  obtain rfl := Db.insertSession_ok hinsert
  exact ⟨hgood.same.artifact, hgood.same.artifactSeq, hgood.same.artifactChunk⟩

theorem abortSession_wp {env : CallEnv} {sessionId : Bytes}
    (htol : Tolerant sha contents s₀ leaked interrupts crash)
    (hgood : Good sha contents s₀ leaked s) :
    wp interrupts crash (abortSession env sessionId)
      (Outcome crash fun _ s' => Good sha contents s₀ leaked s') s := by
  have hcrash := htol.good s hgood
  refine wp_seq (loadSession_wp (R := fun session s' => s' = s) hcrash fun _ _ _ => rfl) ?_
  rintro session s' rfl
  by_cases hterminal : session.state = .aborted ∨ session.state = .expired ∨
      session.state = .completed
  · rw [if_pos hterminal]
    exact hgood
  rw [if_neg hterminal]
  have hlive : session.state.live = true := by
    cases hstate : session.state <;> simp [hstate, SessionState.live] at hterminal ⊢
  have hinside : Tolerant sha contents s₀ leaked (fun _ _ => False) fun _ => True := .inside
  refine wp_labelled.mpr (wp_atomic hcrash hcrash ?_)
  refine wp_seq (transition_wp hinside hgood hlive (by simp)) fun _ s₁ h₁ => ?_
  exact wp_imp (markUnreferencedParts_wp hinside h₁.1) fun _ _ h => h.1

end ForgeRelay
