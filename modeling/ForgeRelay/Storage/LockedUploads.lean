import ForgeRelay.Storage.LockedCalls

/-!
# Uploads with the mutex, among the threads without it

`put_chunk` writes the file of a chunk and registers the part; `commit_session` publishes what it
has read. The other threads may end the session, delete its parts and remove its temporary files
in between.
-/

namespace ForgeRelay

open Program Prog

variable {sha : Sha256} {contents : Set Bytes} {gone : ArtifactRow → Prop} {s₀ s s' : Store}
  {α : Type}

/-- Whatever temporary file has the name, it has this content. -/
structure TmpHolds (sha : Sha256) (contents : Set Bytes) (gone : ArtifactRow → Prop) (s₀ : Store)
    (name content : Bytes) (s : Store) : Prop where
  intact : IntactSince sha contents gone s₀ s
  content : ∀ f ∈ s.tmp, f.1 = name → f.2 = content

section

variable {name content data : Bytes}

theorem TmpHolds.meddle (h : TmpHolds sha contents gone s₀ name content s)
    (hmeddles : Meddles s s') : TmpHolds sha contents gone s₀ name content s' :=
  ⟨h.intact.meddle hmeddles, fun f hf => h.content f (hmeddles.tmp hf)⟩

private theorem keeps_tmpStep {R : α → Store → Prop} {act : Store → Except Error α × Store}
    (hs : TmpHolds sha contents gone s₀ name content s)
    (hact : ∀ s, TmpHolds sha contents gone s₀ name content s →
      Outcome (IntactSince sha contents gone s₀) R (act s).1 (act s).2) :
    KeepsIntact sha contents gone s₀ (fileStep act) R s :=
  keeps_step (fun _ h => h.intact) (fun _ _ => TmpHolds.meddle) hs hact

private theorem keeps_tmpFileCreate (hs : IntactSince sha contents gone s₀ s) :
    KeepsIntact sha contents gone s₀ (tmpFileCreate name)
      (fun _ => TmpHolds sha contents gone s₀ name []) s := by
  apply keeps_step (fun _ => id) (fun _ _ => IntactSince.meddle) hs
  intro s₁ hs₁
  split
  · exact hs₁
  · rename_i hnone
    refine ⟨hs₁.torn ⟨_, rfl⟩, fun f hf hname => ?_⟩
    rcases List.mem_cons.mp hf with rfl | hf
    · rfl
    · have hthere : s₁.tmp.any (·.1 == name) = true :=
        List.any_eq_true.mpr ⟨f, hf, beq_iff_eq.mpr hname⟩
      exact absurd hthere hnone

private theorem keeps_tmpFileWrite (part : Bytes)
    (hs : TmpHolds sha contents gone s₀ name content s) :
    KeepsIntact sha contents gone s₀ (tmpFileWrite name part)
      (fun _ => TmpHolds sha contents gone s₀ name (content ++ part)) s := by
  apply keeps_tmpStep hs
  intro s₁ hs₁
  refine ⟨hs₁.intact.torn ⟨_, rfl⟩, fun f hf hname => ?_⟩
  obtain ⟨f₀, hf₀, rfl⟩ := Table.mem_update.mp hf
  by_cases hsame : f₀.1 = name
  · simp only [beq_iff_eq.mpr hsame, if_true]
    rw [hs₁.content f₀ hf₀ hsame]
  · simp only [beq_eq_false_iff_ne.mpr hsame, Bool.false_eq_true, if_false] at hname
    exact absurd hname hsame

private theorem keeps_silentStep (hs : TmpHolds sha contents gone s₀ name content s) :
    KeepsIntact sha contents gone s₀ silentStep
      (fun _ => TmpHolds sha contents gone s₀ name content) s :=
  keeps_tmpStep hs fun _ h => h

private theorem keeps_tmpFileFill (hs : TmpHolds sha contents gone s₀ name [] s) :
    KeepsIntact sha contents gone s₀ (tmpFileFill name data)
      (fun _ => TmpHolds sha contents gone s₀ name (chunkFile data)) s := by
  apply wpAmong_seq (keeps_tmpFileWrite _ hs)
  intro _ s₁ hs₁
  rw [List.nil_append] at hs₁
  apply wpAmong_seq (R := fun _ => TmpHolds sha contents gone s₀ name (chunkFile data))
  · split
    · exact keeps_tmpFileWrite data hs₁
    · rename_i hempty
      have hnil := List.length_eq_zero_iff.mp (not_not.mp hempty)
      subst hnil
      rw [chunkFile, List.append_nil]
      exact hs₁
  intro _ s₂ hs₂
  apply wpAmong_seq (keeps_silentStep hs₂)
  intro _ s₃ hs₃
  apply wpAmong_seq (keeps_silentStep hs₃)
  intro _ s₄ hs₄
  exact keeps_silentStep hs₄

theorem ArtifactsInv.addFile (h : ArtifactsInv sha contents s) (hdata : data ∈ contents)
    {tmp : List (Bytes × Bytes)} :
    ArtifactsInv sha contents { s with
      files := Function.update s.files (relPath (sha.hex data)) (some (chunkFile data))
      tmp := tmp } := by
  refine { h with files := ?_, present := ?_ }
  · intro path file hfile
    dsimp only at hfile
    by_cases hpath : path = relPath (sha.hex data)
    · rw [hpath, Function.update_self] at hfile
      exact ⟨data, hdata, hpath, (Option.some.inj hfile).symm⟩
    · rw [Function.update_of_ne hpath] at hfile
      exact h.files path file hfile
  · intro r hr
    dsimp only
    by_cases hpath : relPath r.entry.digest = relPath (sha.hex data)
    · rw [hpath, Function.update_self]
      rfl
    · rw [Function.update_of_ne hpath]
      exact h.present r hr

private theorem keeps_tmpFileRename (hdata : data ∈ contents)
    (hs : TmpHolds sha contents gone s₀ name (chunkFile data) s) :
    KeepsIntact sha contents gone s₀ (tmpFileRename name (relPath (sha.hex data)))
      (fun _ => IntactSince sha contents gone s₀) s := by
  apply keeps_tmpStep hs
  intro s₁ hs₁
  cases hfound : s₁.tmp.find? (·.1 == name) with
  | none => exact hs₁.intact
  | some f =>
    have hname := List.find?_some hfound
    have hfile := hs₁.content f (List.mem_of_find?_eq_some hfound) (beq_iff_eq.mp hname)
    dsimp only
    rw [hfile]
    exact ⟨hs₁.intact.intact.addFile hdata, hs₁.intact.evolves⟩

private theorem keeps_writeChunkFile (tag : Bytes) (hdata : data ∈ contents)
    (hs : IntactSince sha contents gone s₀ s) :
    KeepsIntact sha contents gone s₀ (writeChunkFile tag (relPath (sha.hex data)) data)
      (fun _ => IntactSince sha contents gone s₀) s := by
  apply wpAmong_seq (keeps_tmpFileCreate hs)
  intro _ s₁ hs₁
  apply wpAmong_seq (R := fun _ => TmpHolds sha contents gone s₀ (tmpFileName tag) (chunkFile data))
  · apply wpAmong_catch (keeps_tmpFileFill hs₁)
    intro e s₂ hs₂
    apply wpAmong_seq (keeps_quietly (within_attempt (meddling_tmpFileUnlink _)) hs₂)
    exact fun _ s₃ hs₃ => hs₃
  intro _ s₂ hs₂
  apply wpAmong_seq (R := fun _ => TmpHolds sha contents gone s₀ (tmpFileName tag) (chunkFile data))
  · exact keeps_tmpStep hs₂ fun _ h => h
  intro there s₃ hs₃
  cases there with
  | true =>
    exact keeps_quietly (within_attempt (meddling_tmpFileUnlink _)) hs₃.intact
  | false =>
    apply wpAmong_catch (keeps_tmpFileRename hdata hs₃)
    intro e s₄ hs₄
    apply keeps_quietly _ hs₄
    refine .seq (within_attempt (meddling_tmpFileUnlink _)) fun _ => ?_
    refine .seq (meddling_fileExists _) fun there => ?_
    exact .ite (fun _ => .pure trivial) fun _ => .throw trivial

private theorem keeps_chunkStorePut (tag : Bytes) (hdata : data ∈ contents)
    (hs : IntactSince sha contents gone s₀ s) :
    KeepsIntact sha contents gone s₀ (chunkStorePut sha tag data (sha.hex data))
      (fun _ => IntactSince sha contents gone s₀) s := by
  rw [chunkStorePut, if_neg (by simp [sha.hex_valid]), if_neg (by simp), chunkPath_hex,
    bind_pure_left]
  apply wpAmong_seq (keeps_quietly (meddling_fileExists _) hs)
  intro there s₁ hs₁
  cases there with
  | true => exact hs₁
  | false => exact keeps_writeChunkFile tag hdata hs₁

end

/-- The bound of the steps that keep the artifacts intact. -/
def intactBound (sha : Sha256) (contents : Set Bytes) (gone : ArtifactRow → Prop) (s₀ : Store) :
    Bound Store Error where
  inv := IntactSince sha contents gone s₀
  rel _ _ := True
  err _ := True
  refl _ := trivial
  trans _ _ := trivial

theorem IntactSince.insertChunk (h : IntactSince sha contents gone s₀ s) {row : ChunkRow}
    {data : Bytes} (hdata : data ∈ contents) (hdigest : row.digest = sha.hex data) :
    IntactSince sha contents gone s₀ { s with db := s.db.insertChunkOrIgnore row } := by
  refine ⟨?_, h.evolves.trans (insertChunkOrIgnore_same s.db row).1.evolves⟩
  unfold Db.insertChunkOrIgnore
  split
  · exact h.intact
  · refine { h.intact with chunkData := fun c hc => ?_ }
    rcases List.mem_append.mp hc with hc | hc
    · exact h.intact.chunkData c hc
    · rw [List.mem_singleton.mp hc]
      exact ⟨data, hdata, hdigest⟩

theorem IntactSince.insertPart (h : IntactSince sha contents gone s₀ s) {row : PartRow} {db : Db}
    {data : Bytes} (hdata : data ∈ contents) (hregisters : Registers sha row data)
    (hinsert : s.db.insertPart row = .ok db) :
    IntactSince sha contents gone s₀ { s with db := db } := by
  rw [Db.insertPart_ok hinsert]
  refine ⟨{ h.intact with partData := fun p hp => ?_ }, h.evolves.trans ⟨le_refl _, ?_, ?_⟩⟩
  · rcases List.mem_append.mp hp with hp | hp
    · exact h.intact.partData p hp
    · rw [List.mem_singleton.mp hp]
      exact ⟨data, hdata, hregisters⟩
  · exact fun a ha _ => ha
  · exact fun a ha _ => ⟨ha, rfl⟩

private theorem within_registerPart {now : Int64} {sessionId data : Bytes} {ordinal : UInt64}
    (hdata : data ∈ contents) (hsize : data.length < 2^64) :
    Stays (intactBound sha contents gone s₀)
      (registerPart now sessionId ordinal data (sha.hex data)) := by
  apply Within.seq (within_select _)
  intro found
  cases found with
  | some existing => exact .ite (fun _ => .pure trivial) fun _ => .throw trivial
  | none =>
    apply Within.seq (within_exec ?_)
    · intro _
      apply Within.seq (within_exec ?_)
      · intro _
        apply Within.seq (within_insert ?_ fun _ => trivial)
        · exact fun _ => .pure trivial
        · intro s db hs hinsert
          have hregisters : Registers sha ⟨sessionId, ordinal.toInt64, sha.hex data,
            UInt64.ofNat data.length⟩ data := ⟨rfl, UInt64.toNat_ofNat_of_lt' hsize⟩
          exact ⟨trivial, IntactSince.insertPart hs hdata hregisters hinsert⟩
      · intro s hs
        exact ⟨trivial, IntactSince.meddle hs (Meddles.updateChunks s _ fun _ => rfl)⟩
    · intro s hs
      exact ⟨trivial, IntactSince.insertChunk hs hdata rfl⟩

theorem keeps_putChunk (env : CallEnv) (sessionId : Bytes) (ordinal : UInt64) {data : Bytes}
    (hdata : data ∈ contents) (hs : IntactSince sha contents gone s₀ s) :
    KeepsIntact sha contents gone s₀ (putChunk sha env sessionId ordinal data)
      (fun _ => IntactSince sha contents gone s₀) s := by
  apply wpAmong_seq (keeps_quietly (meddling_loadSession sessionId) hs)
  intro session s₁ hs₁
  apply wpAmong_seq (keeps_quietly (meddling_expireSessionIfDue session env.now) hs₁)
  intro _ s₂ hs₂
  apply wpAmong_seq (keeps_quietly (meddling_loadSession sessionId) hs₂)
  intro session s₃ hs₃
  split
  · exact hs₃
  split
  · exact hs₃
  split
  · exact hs₃
  split
  · exact hs₃
  rename_i hlength
  have hsize : data.length < 2^64 :=
    (Nat.not_lt.mp (not_or.mp hlength).2).trans_lt session.chunkSize.toNat_lt
  apply wpAmong_seq (keeps_chunkStorePut env.tmpTag hdata hs₃)
  intro _ s₄ hs₄
  apply keeps_tx (fun _ => id) (fun _ _ => IntactSince.meddle) hs₄
  intro s₅ accept s₆ hs₅ hrun
  have hwithin : Stays (intactBound sha contents gone s₀)
      (registerPart env.now sessionId ordinal data (sha.hex data)) :=
    within_registerPart hdata hsize
  have hbound := (hwithin.run hs₅).1.2
  rw [hrun] at hbound
  exact hbound

/-- The other threads change no file. -/
structure IntactWith (sha : Sha256) (contents : Set Bytes) (gone : ArtifactRow → Prop)
    (s₀ : Store) (files : Bytes → Option Bytes) (s : Store) : Prop where
  intact : IntactSince sha contents gone s₀ s
  files : s.files = files

theorem IntactWith.meddle {files : Bytes → Option Bytes}
    (h : IntactWith sha contents gone s₀ files s) (hmeddles : Meddles s s') :
    IntactWith sha contents gone s₀ files s' :=
  ⟨h.intact.meddle hmeddles, hmeddles.files.trans h.files⟩

private theorem keeps_readChunks {files : Bytes → Option Bytes} {chunks : List Bytes} {i off : Nat}
    (hknown : ∀ data ∈ chunks, data ∈ contents) (hsize : ∀ data ∈ chunks, data.length < 2^64)
    (hs : IntactWith sha contents gone s₀ files s) :
    KeepsIntact sha contents gone s₀ (readChunks (manifestOf sha i off chunks))
      (fun content s' => IntactWith sha contents gone s₀ files s' ∧
        (∀ data ∈ chunks, (files (relPath (sha.hex data))).isSome) ∧
        (sha.NoCollision contents → content = chunks.flatten)) s := by
  induction chunks generalizing i off s with
  | nil => exact ⟨hs, fun _ h => (by cases h), fun _ => rfl⟩
  | cons data rest ih =>
    obtain ⟨hdata, hrest⟩ := List.forall_mem_cons.mp hknown
    obtain ⟨hlength, hlengths⟩ := List.forall_mem_cons.mp hsize
    apply wpAmong_seq (R := fun content s' => IntactWith sha contents gone s₀ files s' ∧
      (files (relPath (sha.hex data))).isSome ∧ (sha.NoCollision contents → content = data))
    · rw [chunkStoreGet, chunkStoreGetRange_hex, fileStep]
      apply keeps_step (fun _ h => h.intact) (fun _ _ => IntactWith.meddle) hs
      intro s₁ hs₁
      cases hfile : s₁.files (relPath (sha.hex data)) with
      | none => exact hs₁.intact
      | some file =>
        dsimp only
        cases hread : chunkFileRange file 0 (UInt64.ofNat (2^64 - 1)) with
        | error e => exact hs₁.intact
        | ok content =>
          refine ⟨hs₁, by rw [← hs₁.files, hfile]; rfl, fun hsha => ?_⟩
          obtain ⟨data', hdata', hpath, rfl⟩ := hs₁.intact.intact.files _ _ hfile
          have hhex := relPath_injective (sha.hex_length _) (sha.hex_length _) hpath
          obtain rfl := hsha.eq_of_hex hdata hdata' hhex
          rw [chunkFileRange_chunkFile hlength (by simp)] at hread
          rw [← Except.ok.inj hread, UInt64.toNat_zero, List.drop_zero, List.take_of_length_le]
          rw [UInt64.toNat_ofNat_of_lt' (by decide)]
          omega
    · rintro content s₁ ⟨hs₁, hthere, hcontent⟩
      apply wpAmong_seq (ih hrest hlengths hs₁)
      rintro others s₂ ⟨hs₂, hothers, hflat⟩
      refine ⟨hs₂, List.forall_mem_cons.mpr ⟨hthere, hothers⟩, fun hsha => ?_⟩
      rw [hcontent hsha, hflat hsha, List.flatten_cons]

private theorem Meddles.withManifests (h : Meddles s s') (rows : List ArtifactChunkRow) :
    Meddles { s with db := { s.db with artifactChunk := s.db.artifactChunk ++ rows } }
      { s' with db := { s'.db with artifactChunk := s'.db.artifactChunk ++ rows } } :=
  ⟨⟨h.same.artifact, h.same.artifactSeq, by rw [h.same.artifactChunk]⟩, h.files, h.tmp, h.parts,
    h.chunks⟩

/-- The loop that writes the manifest; the rows of chunks change their states. -/
private theorem insertEntries_meddles {id : Nat} {entries : List ManifestEntry}
    (hrun : (entries.forM fun entry => do
      exec (·.reactivate (ChunkRow.isPending entry.digest))
      stmt fun db => (db.insertArtifactChunk ⟨id, entry⟩).map ((), ·)).run s = (.ok (), s')) :
    Meddles { s with db := { s.db with
      artifactChunk := s.db.artifactChunk ++ entries.map (⟨id, ·⟩) } } s' := by
  induction entries generalizing s with
  | nil =>
    cases hrun
    simp only [List.map_nil, List.append_nil]
    exact .refl _
  | cons e rest ih =>
    simp only [run_forM_cons, run_bind, run_exec, stmt, run_lift] at hrun
    cases hinsert : (s.db.reactivate (ChunkRow.isPending e.digest)).insertArtifactChunk ⟨id, e⟩ with
    | error err =>
      rw [hinsert] at hrun
      cases hrun
    | ok db =>
      simp only [hinsert, Except.map] at hrun
      have hrest := ih hrun
      rw [Db.insertArtifactChunk_ok hinsert] at hrest
      have hfirst := (Meddles.updateChunks s (ChunkRow.isPending e.digest)
        (f := fun c => { c with state := .active, pendingAt := none })
        fun _ => rfl).withManifests ((e :: rest).map (⟨id, ·⟩))
      apply hfirst.trans
      simpa [Db.reactivate, List.append_assoc] using hrest

private theorem publish_meddles {now : Int64} {session : SessionInfo}
    {manifest : List ManifestEntry}
    {published : Option Nat} (hrun : (publish now session manifest).run s = (.ok published, s')) :
    s' = s ∨ s.db.artifact? session.ns session.name session.version = none ∧
      Meddles { s with db := s.db.published (session.artifactRow now) manifest session.id } s' := by
  simp only [publish, run_bind, run_select] at hrun
  cases hfree : s.db.artifact? session.ns session.name session.version with
  | some a =>
    rw [hfree] at hrun
    cases hrun
    exact .inl rfl
  | none =>
    refine .inr ⟨rfl, ?_⟩
    simp only [hfree, Option.isSome_none, Bool.false_eq_true, if_false, run_bind, stmt,
      run_lift] at hrun
    cases hinsert : s.db.insertArtifact (session.artifactRow now) with
    | error e =>
      rw [hinsert] at hrun
      cases hrun
    | ok inserted =>
      obtain ⟨artifactId, db⟩ := inserted
      obtain ⟨rfl, rfl⟩ := Db.insertArtifact_ok hinsert
      simp only [hinsert] at hrun
      split at hrun
      · rename_i hloop
        rw [run_exec] at hrun
        cases hrun
        have hsessions := Meddles.sessions { s with
          db := s.db.published (session.artifactRow now) manifest session.id } s.db.uploadSession
        have hentries := insertEntries_meddles hloop
        exact (hsessions.trans hentries).trans (meddling_setSessionState _ _ _)
      · cases hrun

theorem ArtifactsInv.publish (h : ArtifactsInv sha contents s) (row : ArtifactRow)
    {chunks : List Bytes} (sessionId : Bytes) (hfree : ∀ a ∈ s.db.artifact, a.ref ≠ row.ref)
    (hknown : ∀ data ∈ chunks, data ∈ contents) (hsmall : chunks.length < 2^63)
    (hsize : row.size.toNat = chunks.flatten.length)
    (hdigest : sha.NoCollision contents → row.digest = sha.hex chunks.flatten)
    (hthere : ∀ data ∈ chunks, (s.files (relPath (sha.hex data))).isSome) :
    ArtifactsInv sha contents
      { s with db := s.db.published row (manifestOf sha 0 0 chunks) sessionId } := by
  have hmem {r : ArtifactChunkRow} :
      r ∈ (s.db.published row (manifestOf sha 0 0 chunks) sessionId).artifactChunk ↔
        r ∈ s.db.artifactChunk ∨
          ∃ e ∈ manifestOf sha 0 0 chunks, ⟨s.db.artifactSeq + 1, e⟩ = r := by
    simp only [Db.published, Db.setSessionState, List.mem_append, List.mem_map]
  have hentry {e : ManifestEntry} (he : e ∈ manifestOf sha 0 0 chunks) :
      ∃ data ∈ chunks, sha.hex data = e.digest := mem_manifestOf_digest.mp ⟨e, he, rfl⟩
  refine { h with
    artifactKeys := Table.nodup_append h.artifactKeys ?_
    artifactRefs := Table.nodup_append h.artifactRefs ?_
    artifactIds := fun a ha => ?_
    manifestIds := fun r hr => ?_
    manifestData := fun r hr => ?_
    present := fun r hr => ?_
    depicted := fun hsha a ha => ?_ }
  · simp only [List.mem_map, not_exists, not_and]
    intro a ha hid
    have hle := h.artifactIds a ha
    omega
  · rw [List.mem_map]
    rintro ⟨a, ha, href⟩
    exact hfree a ha href
  · rcases List.mem_append.mp ha with ha | ha
    · exact (h.artifactIds a ha).trans (Nat.le_succ _)
    · exact (congrArg ArtifactRow.id (List.mem_singleton.mp ha)).le
  · rcases hmem.mp hr with hr | ⟨e, -, rfl⟩
    · exact (h.manifestIds r hr).trans (Nat.le_succ _)
    · exact le_refl _
  · rcases hmem.mp hr with hr | ⟨e, he, rfl⟩
    · exact h.manifestData r hr
    · obtain ⟨data, hdata, hhex⟩ := hentry he
      exact ⟨data, hknown data hdata, hhex.symm⟩
  · rcases hmem.mp hr with hr | ⟨e, he, rfl⟩
    · exact h.present r hr
    · obtain ⟨data, hdata, hhex⟩ := hentry he
      exact hhex ▸ hthere data hdata
  · rcases List.mem_append.mp ha with ha | ha
    · obtain ⟨chunks', hdepicts⟩ := h.depicted hsha a ha
      refine ⟨chunks', ?_⟩
      dsimp only
      rwa [Db.manifest_published_of_le (h.artifactIds a ha)]
    · rw [List.mem_singleton.mp ha]
      exact ⟨chunks, hknown, hsmall, Db.manifest_published h.manifestIds hsmall, hsize,
        hdigest hsha⟩

private theorem keeps_rollbackAndThrow {R : α → Store → Prop} (sessionId : Bytes) (e : Error)
    (hs : IntactSince sha contents gone s₀ s) :
    KeepsIntact sha contents gone s₀ (rollbackAndThrow sessionId e : StorageM α) R s := by
  have hrollback : Stays meddling (rollbackToOpen sessionId) :=
    .seq (meddling_transition _ _ _) fun _ => .pure trivial
  apply wpAmong_seq (keeps_quietly hrollback hs)
  exact fun _ _ h => h

private theorem keeps_publish (now : Int64) (session : SessionInfo) {chunks : List Bytes}
    {s₂ : Store}
    (hs : IntactWith sha contents gone s₀ s₂.files s) (hknown : ∀ data ∈ chunks, data ∈ contents)
    (hsmall : chunks.length < 2^63) (hsize : session.expectedSize.toNat = chunks.flatten.length)
    (hdigest : sha.NoCollision contents → session.expectedDigest = sha.hex chunks.flatten)
    (hthere : ∀ data ∈ chunks, (s₂.files (relPath (sha.hex data))).isSome) :
    KeepsIntact sha contents gone s₀
      ((tx (publish now session (manifestOf sha 0 0 chunks))).labelled (.committing session.id))
      (fun _ => IntactSince sha contents gone s₀) s := by
  apply wpAmong_labelled
  apply keeps_tx (fun _ h => h.intact) (fun _ _ => IntactWith.meddle) hs
  intro s₄ published s₅ hs₄ hrun
  rcases publish_meddles hrun with rfl | ⟨hfree, hmeddles⟩
  · exact hs₄.intact
  · refine IntactSince.meddle ⟨?_, hs₄.intact.evolves.trans Db.published_evolves⟩ hmeddles
    apply hs₄.intact.intact.publish _ _ (Db.artifact?_none hfree) hknown hsmall hsize hdigest
    exact hs₄.files ▸ hthere

private theorem keeps_commitBody (now : Int64) (session : SessionInfo)
    (hs : IntactSince sha contents gone s₀ s) :
    KeepsIntact sha contents gone s₀ (commitBody sha now session)
      (fun _ => IntactSince sha contents gone s₀) s := by
  apply wpAmong_seq (R := fun _ s' => IntactSince sha contents gone s₀ s' ∧
    (chunkCount session).toNat ≤ maxManifestEntries)
  · apply wpAmong_labelled
    apply keeps_step (fun _ => id) (fun _ _ => IntactSince.meddle) hs
    intro s₁ hs₁
    split
    · exact hs₁
    · exact ⟨hs₁, Nat.not_lt.mp ‹_›⟩
  rintro _ s₁ ⟨hs₁, hreserve⟩
  apply wpAmong_seq (R := fun parts s' => IntactSince sha contents gone s₀ s' ∧
    ∀ p ∈ parts, ∃ data ∈ contents, Registers sha p data)
  · apply wpAmong_labelled
    apply keeps_select (fun _ => id) (fun _ _ => IntactSince.meddle) hs₁
    exact fun s₂ hs₂ => ⟨hs₂, fun p hp => hs₂.intact.partData p (Db.mem_partsByOrdinal.mp hp).1⟩
  rintro parts s₂ ⟨hs₂, hparts⟩
  cases hscan : scanParts session.chunkSize 0 0 [] parts with
  | error e => exact keeps_rollbackAndThrow _ _ hs₂
  | ok scanned =>
    obtain ⟨manifest, total⟩ := scanned
    dsimp only
    split
    · exact keeps_rollbackAndThrow _ _ hs₂
    rename_i hcount
    split
    · exact keeps_rollbackAndThrow _ _ hs₂
    rename_i htotal
    obtain ⟨chunks, -, hknown, hsize, rfl, htotal'⟩ := scanParts_ok hparts hscan
    rw [manifestOf_length, not_not] at hcount
    have hflat : chunks.flatten.length < 2^64 := by
      apply (flatten_length_le hsize).trans_lt
      rw [hcount]
      exact chunkCount_mul_lt session
    -- the files that are read now are still there when the artifact is published
    have hread : KeepsIntact sha contents gone s₀ ((readChunks (manifestOf sha 0 0 chunks)).labelled
        (.committing session.id)) (fun content s' => IntactWith sha contents gone s₀ s₂.files s' ∧
        (∀ data ∈ chunks, (s₂.files (relPath (sha.hex data))).isSome) ∧
        (sha.NoCollision contents → content = chunks.flatten)) s₂ :=
      wpAmong_labelled (keeps_readChunks hknown
        (fun data hdata => (hsize data hdata).trans_lt session.chunkSize.toNat_lt) ⟨hs₂, rfl⟩)
    apply wpAmong_seq (wpAmong_catch hread fun e s₃ hs₃ => keeps_rollbackAndThrow _ e hs₃)
    rintro content s₃ ⟨hs₃, hthere, hcontent⟩
    split
    · exact keeps_rollbackAndThrow _ _ hs₃.intact
    rename_i hdigest
    have hpublish := keeps_publish now session hs₃ hknown
      (by rw [hcount]; exact hreserve.trans_lt (by decide))
      (by rw [← not_not.mp htotal, htotal', UInt64.toNat_ofNat_of_lt' hflat])
      (fun hsha => by rw [← hcontent hsha]; exact (not_not.mp hdigest).symm) hthere
    apply wpAmong_seq hpublish
    intro published s₄ hs₄
    cases published with
    | none => exact keeps_rollbackAndThrow _ _ hs₄
    | some id => exact hs₄

theorem keeps_commitSession (env : CallEnv) (sessionId : Bytes)
    (hs : IntactSince sha contents gone s₀ s) :
    KeepsIntact sha contents gone s₀ (commitSession sha env sessionId)
      (fun _ => IntactSince sha contents gone s₀) s := by
  apply wpAmong_seq (keeps_quietly (meddling_loadSession sessionId) hs)
  intro session s₁ hs₁
  apply wpAmong_seq (keeps_quietly (meddling_expireSessionIfDue session env.now) hs₁)
  intro _ s₂ hs₂
  apply wpAmong_seq (keeps_quietly (meddling_transition _ _ _) hs₂)
  intro changed s₃ hs₃
  cases changed with
  | true => exact keeps_commitBody env.now session hs₃
  | false =>
    apply wpAmong_seq (keeps_quietly (meddling_loadSession sessionId) hs₃)
    intro session s₄ hs₄
    split <;> exact hs₄

end ForgeRelay
