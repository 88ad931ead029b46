import ForgeRelay.Lib.Rivals
import ForgeRelay.Storage.Reading
import ForgeRelay.Storage.Steps

/-!
# What the threads without the mutex do to the store

They end sessions, delete parts, mark chunks and remove temporary files; no artifact, no manifest
and no chunk file changes. What is left of the invariant under such moves is that the published
artifacts are intact.
-/

namespace ForgeRelay

open Program Prog

variable {sha : Sha256} {contents leaked : Set Bytes} {gone : ArtifactRow → Prop} {s₀ s s' : Store}
  {α : Type}

/-- The rows of sessions may be any; parts, chunks and temporary files may only go. -/
structure Meddles (s s' : Store) : Prop where
  same : SameArtifacts s.db s'.db
  files : s'.files = s.files
  tmp : s'.tmp ⊆ s.tmp
  parts : s'.db.uploadPart ⊆ s.db.uploadPart
  chunks : ∀ c ∈ s'.db.chunk, ∃ c₀ ∈ s.db.chunk, c₀.digest = c.digest

theorem Meddles.refl (s : Store) : Meddles s s :=
  ⟨.refl _, rfl, fun _ => id, fun _ => id, fun c hc => ⟨c, hc, rfl⟩⟩

theorem Meddles.trans {s'' : Store} (h : Meddles s s') (h' : Meddles s' s'') : Meddles s s'' where
  same := ⟨h'.same.artifact.trans h.same.artifact, h'.same.artifactSeq.trans h.same.artifactSeq,
    h'.same.artifactChunk.trans h.same.artifactChunk⟩
  files := h'.files.trans h.files
  tmp _ hf := h.tmp (h'.tmp hf)
  parts _ hp := h.parts (h'.parts hp)
  chunks c hc := by
    obtain ⟨c₁, hc₁, hdigest₁⟩ := h'.chunks c hc
    obtain ⟨c₀, hc₀, hdigest₀⟩ := h.chunks c₁ hc₁
    exact ⟨c₀, hc₀, hdigest₀.trans hdigest₁⟩

theorem Meddles.sessions (s : Store) (rows : List SessionInfo) :
    Meddles s { s with db := { s.db with uploadSession := rows } } :=
  ⟨⟨rfl, rfl, rfl⟩, rfl, fun _ => id, fun _ => id, fun c hc => ⟨c, hc, rfl⟩⟩

theorem Meddles.recount (s : Store) (changes : Nat) : Meddles s { s with changes := changes } :=
  ⟨.refl _, rfl, fun _ => id, fun _ => id, fun c hc => ⟨c, hc, rfl⟩⟩

theorem Meddles.updateChunks (s : Store) (cond : ChunkRow → Bool) {f : ChunkRow → ChunkRow}
    (hf : ∀ c, (f c).digest = c.digest) :
    Meddles s { s with db := { s.db with chunk := Table.update cond f s.db.chunk } } := by
  refine ⟨⟨rfl, rfl, rfl⟩, rfl, fun _ => id, fun _ => id, fun c hc => ?_⟩
  obtain ⟨c₀, hc₀, rfl⟩ := Table.mem_update.mp hc
  refine ⟨c₀, hc₀, ?_⟩
  split
  · exact (hf c₀).symm
  · rfl

/-- The bound of these threads. -/
def meddling : Bound Store Error where
  inv _ := True
  rel := Meddles
  err _ := True
  refl := .refl
  trans := .trans

theorem meddling_exec {f : Db → Db} (hf : ∀ s : Store, Meddles s { s with db := f s.db }) :
    Stays meddling (exec f) := within_exec fun _ => ⟨hf _, trivial⟩

theorem meddling_reactivate (cond : ChunkRow → Bool) : Stays meddling (exec (·.reactivate cond)) :=
  meddling_exec fun s => Meddles.updateChunks s cond fun _ => rfl

theorem meddling_markPending (now : Int64) (digest : Bytes) (s : Store) :
    Meddles s { s with db := s.db.markPending now digest } :=
  Meddles.updateChunks s _ fun _ => rfl

theorem meddling_setSessionState (cond : SessionInfo → Bool) (state : SessionState) (s : Store) :
    Meddles s { s with db := s.db.setSessionState cond state } := Meddles.sessions s _

private theorem meddling_deleteParts (sessionId : Bytes) (s : Store) :
    Meddles s { s with db := s.db.deleteParts sessionId } :=
  ⟨⟨rfl, rfl, rfl⟩, rfl, fun _ => id, fun _ hp => (Table.mem_delete.mp hp).1,
    fun c hc => ⟨c, hc, rfl⟩⟩

theorem meddling_deleteChunk (digest : Bytes) (s : Store) :
    Meddles s { s with db := s.db.deleteChunk digest } :=
  ⟨⟨rfl, rfl, rfl⟩, rfl, fun _ => id, fun _ => id,
    fun c hc => ⟨c, (Table.mem_delete.mp hc).1, rfl⟩⟩

theorem meddling_loadSession (sessionId : Bytes) : Stays meddling (loadSession sessionId) := by
  apply Within.seq (within_select _)
  intro found
  cases found with
  | none => exact .throw trivial
  | some session => exact .pure trivial

private theorem meddling_markUnreferencedParts (sessionId : Bytes) (now : Int64) :
    Stays meddling (markUnreferencedParts sessionId now) := by
  apply Within.seq (within_select _)
  intro digests
  apply Within.seq (meddling_exec (meddling_deleteParts sessionId))
  intro _
  induction digests with
  | nil => exact .pure trivial
  | cons digest rest ih =>
    apply Within.seq (.labelled (.seq (within_chunkReferenced digest) fun _ => ?_))
    · exact fun _ => ih
    · exact .ite (fun _ => .pure trivial) fun _ => meddling_exec (meddling_markPending now digest)

theorem meddling_expireSessionIfDue (session : SessionInfo) (now : Int64) :
    Stays meddling (expireSessionIfDue session now) := by
  apply Within.ite
  · intro _
    apply Within.seq (meddling_exec fun s => meddling_setSessionState _ _ s)
    exact fun _ => meddling_markUnreferencedParts session.id now
  · exact fun _ => .pure trivial

private theorem meddling_updateSessions (cond : SessionInfo → Bool) (state : SessionState) :
    Stays meddling (updateSessions cond state) :=
  .lift fun s _ =>
    ⟨⟨(meddling_setSessionState cond state s).trans (.recount _ _), trivial⟩, trivial⟩

theorem meddling_transition (sessionId : Bytes) (source target : SessionState) :
    Stays meddling (transition sessionId source target) := by
  apply Within.seq (meddling_updateSessions _ target)
  exact fun rows => .seq (within_dbChanges _ rows) fun _ => .pure trivial

theorem meddling_abortSession (env : CallEnv) (sessionId : Bytes) :
    Stays meddling (abortSession env sessionId) := by
  apply Within.seq (meddling_loadSession sessionId)
  intro session
  apply Within.ite
  · exact fun _ => .pure trivial
  · intro _
    apply Within.labelled
    apply within_tx
    exact .seq (meddling_transition _ _ _) fun _ => meddling_markUnreferencedParts _ _

private theorem meddling_fileStep {f : Store → α} (g : Store → Store) (hg : ∀ s, Meddles s (g s)) :
    Stays meddling (fileStep fun s => (.ok (f s), g s)) :=
  .lift fun s _ => ⟨⟨hg s, trivial⟩, trivial⟩

theorem meddling_tmpFileUnlink (name : Bytes) : Stays meddling (tmpFileUnlink name) :=
  meddling_fileStep _ fun _ =>
    ⟨.refl _, rfl, fun _ hf => (Table.mem_delete.mp hf).1, fun _ => id, fun c hc => ⟨c, hc, rfl⟩⟩

theorem meddling_fileExists (path : Bytes) : Stays meddling (fileExists path) :=
  meddling_fileStep _ .refl

private theorem meddling_cleanupTempFiles : Stays meddling cleanupTempFiles := by
  apply Within.seq (meddling_fileStep _ .refl)
  intro names
  induction names with
  | nil => exact .pure trivial
  | cons name rest ih =>
    refine .seq (.ite (fun _ => ?_) fun _ => .pure trivial) fun _ => .seq ih fun _ => .pure trivial
    exact .tryCatch (.seq (meddling_tmpFileUnlink name) fun _ => .pure trivial) fun _ _ =>
      .pure trivial

theorem meddling_runMaintenance (env : CallEnv) : Stays meddling (runMaintenance env) := by
  refine .seq meddling_cleanupTempFiles fun _ =>
    .seq (.labelled (meddling_updateSessions _ _)) fun expired =>
    .seq (within_dbChanges _ expired) fun _ => .seq (meddling_updateSessions _ _) fun rolledBack =>
    .seq (within_dbChanges _ rolledBack) fun _ => .seq (within_select _) fun terminal =>
    .seq ?_ fun _ => .pure trivial
  exact .forM fun id _ => meddling_markUnreferencedParts id env.now

theorem meddling_createSession (cfg : StorageConfig) (env : CallEnv) (ns name version : Bytes)
    (expectedSize : UInt64) (expectedDigest owner : Bytes) :
    Stays meddling (createSession cfg env ns name version expectedSize expectedDigest owner) := by
  refine .ite (fun _ => .throw trivial) fun _ => .ite (fun _ => .throw trivial) fun _ =>
    .ite (fun _ => .throw trivial) fun _ => within_tx ?_
  refine .seq (within_select _) fun active => .ite (fun _ => .throw trivial) fun _ => ?_
  apply Within.seq
  · apply within_stmt (V := fun _ => True)
    · intro s used db _ hstep
      cases hsum : s.db.sumActive with
      | error e =>
        rw [hsum] at hstep
        cases hstep
      | ok sum =>
        rw [hsum] at hstep
        cases hstep
        exact ⟨⟨.refl s, trivial⟩, trivial⟩
    · exact fun _ => trivial
  intro used
  apply Within.ite
  · exact fun _ => .throw trivial
  · intro _
    apply Within.seq (within_insert ?_ fun _ => trivial)
    · exact fun _ => .pure trivial
    · intro s db _ hinsert
      unfold Db.insertSession at hinsert
      split at hinsert
      · cases hinsert
      · cases hinsert
        exact ⟨Meddles.sessions s _, trivial⟩

/-- Chunk files hold what their digest says, whatever a manifest refers to is there, and every
artifact is the concatenation of its chunks, unless digests collide. -/
structure ArtifactsInv (sha : Sha256) (contents : Set Bytes) (s : Store) : Prop where
  artifactKeys : (s.db.artifact.map (·.id)).Nodup
  artifactRefs : (s.db.artifact.map (·.ref)).Nodup
  artifactIds : ∀ a ∈ s.db.artifact, a.id ≤ s.db.artifactSeq
  manifestIds : ∀ r ∈ s.db.artifactChunk, r.artifactId ≤ s.db.artifactSeq
  manifestData : ∀ r ∈ s.db.artifactChunk, ∃ data ∈ contents, r.entry.digest = sha.hex data
  partData : ∀ p ∈ s.db.uploadPart, ∃ data ∈ contents, Registers sha p data
  chunkData : ∀ c ∈ s.db.chunk, ∃ data ∈ contents, c.digest = sha.hex data
  files : ∀ path content, s.files path = some content →
    ∃ data ∈ contents, path = relPath (sha.hex data) ∧ content = chunkFile data
  present : ∀ r ∈ s.db.artifactChunk, (s.files (relPath r.entry.digest)).isSome
  depicted : sha.NoCollision contents → ∀ a ∈ s.db.artifact,
    ∃ chunks, Depicts sha contents (s.db.manifest a.id) a chunks

/-- The artifacts are intact and have evolved from those of `s₀`. -/
structure IntactSince (sha : Sha256) (contents : Set Bytes) (gone : ArtifactRow → Prop)
    (s₀ s : Store) : Prop where
  intact : ArtifactsInv sha contents s
  evolves : Evolves gone s₀.db s.db

theorem StoreInv.artifactsInv (h : StoreInv sha contents leaked s) :
    ArtifactsInv sha contents s where
  artifactKeys := h.rows.artifactKeys
  artifactRefs := h.rows.artifactRefs
  artifactIds := h.rows.artifactIds
  manifestIds := h.rows.manifestIds
  manifestData := h.rows.manifestData
  partData p hp := by
    obtain ⟨data, hdata, hdigest, hlength⟩ := h.rows.partData p hp
    exact ⟨data, hdata, hdigest, hlength⟩
  chunkData := h.rows.chunkData
  files := h.files
  present r hr := (h.held _ (.inl (Db.inManifest_iff.mpr ⟨r, hr, rfl⟩))).file
  depicted := h.depicted

theorem SameArtifacts.manifest {db db' : Db} (h : SameArtifacts db db') (id : Nat) :
    db'.manifest id = db.manifest id := by
  rw [Db.manifest, Db.manifest, h.artifactChunk]

theorem ArtifactsInv.meddle (h : ArtifactsInv sha contents s) (hmeddles : Meddles s s') :
    ArtifactsInv sha contents s' := by
  obtain ⟨⟨hartifact, hseq, hchunk⟩, hfiles, -, hparts, hchunks⟩ := hmeddles
  constructor
  · exact hartifact ▸ h.artifactKeys
  · exact hartifact ▸ h.artifactRefs
  · exact hartifact ▸ hseq ▸ h.artifactIds
  · exact hchunk ▸ hseq ▸ h.manifestIds
  · exact hchunk ▸ h.manifestData
  · exact fun p hp => h.partData p (hparts hp)
  · intro c hc
    obtain ⟨c₀, hc₀, hdigest⟩ := hchunks c hc
    exact hdigest ▸ h.chunkData c₀ hc₀
  · exact hfiles ▸ h.files
  · exact hchunk ▸ hfiles ▸ h.present
  · intro hsha a ha
    rw [SameArtifacts.manifest ⟨hartifact, hseq, hchunk⟩]
    exact h.depicted hsha a (hartifact ▸ ha)

theorem IntactSince.meddle (h : IntactSince sha contents gone s₀ s) (hmeddles : Meddles s s') :
    IntactSince sha contents gone s₀ s' :=
  ⟨h.intact.meddle hmeddles, h.evolves.trans hmeddles.same.evolves⟩

theorem ArtifactsInv.filesOf (h : ArtifactsInv sha contents s) (hsha : sha.NoCollision contents)
    {a : ArtifactRow} {chunks : List Bytes}
    (hdepicts : Depicts sha contents (s.db.manifest a.id) a chunks) : FilesOf sha chunks s := by
  intro data hdata
  obtain ⟨e, he, hdigest⟩ := mem_manifestOf_digest.mpr ⟨data, hdata, rfl⟩
  rw [← hdepicts.manifest, Db.mem_manifest] at he
  obtain ⟨r, hr, -, rfl⟩ := he
  have hpresent := h.present r hr
  rw [hdigest] at hpresent
  obtain ⟨content, hcontent⟩ := Option.isSome_iff_exists.mp hpresent
  obtain ⟨data', hdata', hpath, rfl⟩ := h.files _ _ hcontent
  have hhex := relPath_injective (sha.hex_length _) (sha.hex_length _) hpath
  rw [hcontent, hsha.eq_of_hex (hdepicts.known data hdata) hdata' hhex]

theorem ArtifactsInv.artifact?_eq (h : ArtifactsInv sha contents s) {a : ArtifactRow}
    (ha : a ∈ s.db.artifact) : s.db.artifact? a.ns a.name a.version = some a := by
  cases hfound : s.db.artifact? a.ns a.name a.version with
  | none => exact absurd rfl (Db.artifact?_none hfound a ha)
  | some b =>
    obtain ⟨hb, href⟩ := Db.artifact?_some hfound
    rw [Table.eq_of_key h.artifactRefs hb ha href]

theorem ArtifactsInv.laidOut (h : ArtifactsInv sha contents s) (hsha : sha.NoCollision contents)
    {a : ArtifactRow} {chunks : List Bytes}
    (hdepicts : Depicts sha contents (s.db.manifest a.id) a chunks) : a.LaidOut sha s chunks where
  manifest := hdepicts.manifest ▸ List.forall₂_same.mpr fun e _ => .refl e
  files := h.filesOf hsha hdepicts
  size := hdepicts.size

end ForgeRelay
