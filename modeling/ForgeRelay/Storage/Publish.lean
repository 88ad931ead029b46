import ForgeRelay.Storage.Changes

/-!
# What the publishing transaction does

The tables after the transaction of `commit_session`, and that they keep the invariant when the
manifest is made from what a live session has uploaded.
-/

namespace ForgeRelay

variable {sha : Sha256} {contents leaked : Set Bytes} {s : Store}

/-- The tables after a publishing transaction. -/
def Db.published (db : Db) (row : ArtifactRow) (manifest : List ManifestEntry)
    (sessionId : Bytes) : Db :=
  Db.setSessionState
    { db with
      artifact := db.artifact ++ [{ row with id := db.artifactSeq + 1 }]
      artifactSeq := db.artifactSeq + 1
      artifactChunk := db.artifactChunk ++ manifest.map (⟨db.artifactSeq + 1, ·⟩) }
    (·.id == sessionId) .completed

theorem Db.manifest_published_of_le {db : Db} {row : ArtifactRow} {manifest : List ManifestEntry}
    {sessionId : Bytes} {id : Nat} (hid : id ≤ db.artifactSeq) :
    (db.published row manifest sessionId).manifest id = db.manifest id := by
  have hnone : (manifest.map (ArtifactChunkRow.mk (db.artifactSeq + 1))).filter
      (·.artifactId == id) = [] := by
    rw [List.filter_eq_nil_iff]
    intro r hr
    obtain ⟨e, -, rfl⟩ := List.mem_map.mp hr
    simp only [beq_iff_eq]
    omega
  simp only [Db.manifest, Db.published, Db.setSessionState, List.filter_append, hnone,
    List.append_nil]

private theorem manifestOf_ordinal_ge {sha : Sha256} {i off : Nat} {chunks : List Bytes}
    (hsmall : i + chunks.length < 2^63) {e : ManifestEntry}
    (he : e ∈ manifestOf sha i off chunks) : (i : Int) ≤ e.ordinal.toInt := by
  induction chunks generalizing i off with
  | nil => cases he
  | cons data rest ih =>
    rw [List.length_cons] at hsmall
    rcases List.mem_cons.mp he with rfl | he
    · simp only [Int64.toInt_ofNat_of_lt (show i < 2^63 by omega), le_refl]
    · have hnext := ih (by omega) he
      omega

theorem manifestOf_sorted {sha : Sha256} {i off : Nat} {chunks : List Bytes}
    (hsmall : i + chunks.length < 2^63) :
    (manifestOf sha i off chunks).Pairwise fun a b => a.ordinal.toInt < b.ordinal.toInt := by
  induction chunks generalizing i off with
  | nil => exact List.Pairwise.nil
  | cons data rest ih =>
    rw [List.length_cons] at hsmall
    refine List.pairwise_cons.mpr ⟨fun e he => ?_, ih (by omega)⟩
    have hge := manifestOf_ordinal_ge (by omega) he
    simp only [Int64.toInt_ofNat_of_lt (show i < 2^63 by omega)]
    omega

theorem Db.manifest_published {db : Db}
    (hids : ∀ r ∈ db.artifactChunk, r.artifactId ≤ db.artifactSeq) {row : ArtifactRow}
    {chunks : List Bytes} {sessionId : Bytes} (hsmall : chunks.length < 2^63) :
    (db.published row (manifestOf sha 0 0 chunks) sessionId).manifest (db.artifactSeq + 1) =
      manifestOf sha 0 0 chunks := by
  have hold : db.artifactChunk.filter (·.artifactId == db.artifactSeq + 1) = [] := by
    rw [List.filter_eq_nil_iff]
    intro r hr
    have hid := hids r hr
    simp only [beq_iff_eq]
    omega
  have hnew : ((manifestOf sha 0 0 chunks).map
      (ArtifactChunkRow.mk (db.artifactSeq + 1))).filter (·.artifactId == db.artifactSeq + 1) =
      (manifestOf sha 0 0 chunks).map (ArtifactChunkRow.mk (db.artifactSeq + 1)) := by
    rw [List.filter_eq_self]
    intro r hr
    obtain ⟨e, -, rfl⟩ := List.mem_map.mp hr
    exact beq_self_eq_true _
  have hentries : ((manifestOf sha 0 0 chunks).map
      (ArtifactChunkRow.mk (db.artifactSeq + 1))).map (·.entry) = manifestOf sha 0 0 chunks := by
    rw [List.map_map]
    exact List.map_id _
  simp only [Db.manifest, Db.published, Db.setSessionState, List.filter_append, hold, hnew,
    List.nil_append, hentries]
  refine List.Pairwise.insertionSort_eq ((manifestOf_sorted (by omega)).imp ?_)
  exact fun h => le_of_lt h

theorem RowsInv.manifest_published {db : Db} (h : RowsInv sha contents db) {row : ArtifactRow}
    {chunks : List Bytes} {sessionId : Bytes} (hsmall : chunks.length < 2^63) :
    (db.published row (manifestOf sha 0 0 chunks) sessionId).manifest (db.artifactSeq + 1) =
      manifestOf sha 0 0 chunks := Db.manifest_published h.manifestIds hsmall

theorem StoreInv.publish (h : StoreInv sha contents leaked s) (row : ArtifactRow)
    {session : SessionInfo} {chunks : List Bytes} (hsession : session ∈ s.db.uploadSession)
    (hlive : session.state.live = true) (hfree : ∀ a ∈ s.db.artifact, a.ref ≠ row.ref)
    (hknown : ∀ data ∈ chunks, data ∈ contents)
    (hsmall : chunks.length < 2^63) (hsize : row.size.toNat = chunks.flatten.length)
    (hdigest : sha.NoCollision contents → row.digest = sha.hex chunks.flatten)
    (hheld : ∀ data ∈ chunks, Held s (sha.hex data))
    (hparts : ∀ p ∈ s.db.uploadPart, p.sessionId = session.id →
      ∃ data ∈ chunks, sha.hex data = p.digest) :
    StoreInv sha contents leaked
      { s with db := s.db.published row (manifestOf sha 0 0 chunks) session.id } := by
  have hmem {r : ArtifactChunkRow} :
      r ∈ (s.db.published row (manifestOf sha 0 0 chunks) session.id).artifactChunk ↔
        r ∈ s.db.artifactChunk ∨
          ∃ e ∈ manifestOf sha 0 0 chunks, ⟨s.db.artifactSeq + 1, e⟩ = r := by
    simp only [Db.published, Db.setSessionState, List.mem_append, List.mem_map]
  have hmem_artifact {a : ArtifactRow} :
      a ∈ (s.db.published row (manifestOf sha 0 0 chunks) session.id).artifact ↔
        a ∈ s.db.artifact ∨ a = { row with id := s.db.artifactSeq + 1 } := by
    simp only [Db.published, Db.setSessionState, List.mem_append, List.mem_singleton]
  have hmem_session {r : SessionInfo} :
      r ∈ (s.db.published row (manifestOf sha 0 0 chunks) session.id).uploadSession ↔
        ∃ r₀ ∈ s.db.uploadSession,
          (if r₀.id == session.id then { r₀ with state := .completed } else r₀) = r :=
    Table.mem_update
  have hnew {digest : Bytes} (hd : ∃ data ∈ chunks, sha.hex data = digest) :
      (s.db.published row (manifestOf sha 0 0 chunks) session.id).Referenced digest := by
    obtain ⟨e, he, hdigest⟩ := mem_manifestOf_digest (i := 0).mpr hd
    exact .inl (Db.inManifest_iff.mpr ⟨_, hmem.mpr (.inr ⟨e, he, rfl⟩), hdigest⟩)
  refine ⟨{ h.rows with
      sessionKeys := ?_
      partSession := fun p hp => ?_
      artifactKeys := Table.nodup_append h.rows.artifactKeys ?_
      artifactRefs := Table.nodup_append h.rows.artifactRefs ?_
      artifactIds := fun a ha => ?_
      manifestIds := fun r hr => ?_
      manifestData := fun r hr => ?_ }, h.files, fun digest href => ?_, fun hsha a ha => ?_,
    fun c hc hactive hnot => ?_⟩
  · have hkeys := Table.map_update (p := fun r => r.id == session.id)
      (f := fun r : SessionInfo => { r with state := .completed }) SessionInfo.id
      (fun _ => rfl) s.db.uploadSession
    exact hkeys ▸ h.rows.sessionKeys
  · obtain ⟨r, hr, hid⟩ := h.rows.partSession p hp
    exact ⟨_, hmem_session.mpr ⟨r, hr, rfl⟩, by split <;> exact hid⟩
  · simp only [List.mem_map, not_exists, not_and]
    intro a ha hid
    have hle := h.rows.artifactIds a ha
    omega
  · rw [List.mem_map]
    rintro ⟨a, ha, href⟩
    exact hfree a ha href
  · rcases hmem_artifact.mp ha with ha | rfl
    · exact (h.rows.artifactIds a ha).trans (Nat.le_succ _)
    · exact le_refl _
  · rcases hmem.mp hr with hr | ⟨e, -, rfl⟩
    · exact (h.rows.manifestIds r hr).trans (Nat.le_succ _)
    · exact le_refl _
  · rcases hmem.mp hr with hr | ⟨e, he, rfl⟩
    · exact h.rows.manifestData r hr
    · obtain ⟨data, hdata, hdigest⟩ := mem_manifestOf_digest.mp ⟨e, he, rfl⟩
      exact ⟨data, hknown data hdata, hdigest.symm⟩
  · -- a digest that is referenced now was referenced before, or is one of the chunks
    rcases href with hmanifest | hpart
    · obtain ⟨r, hr, rfl⟩ := Db.inManifest_iff.mp hmanifest
      rcases hmem.mp hr with hr | ⟨e, he, rfl⟩
      · have hold := h.held _ (.inl (Db.inManifest_iff.mpr ⟨r, hr, rfl⟩))
        exact ⟨hold.row, hold.file⟩
      · obtain ⟨data, hdata, hdigest⟩ := mem_manifestOf_digest.mp ⟨e, he, rfl⟩
        have hold := hheld data hdata
        rw [hdigest] at hold
        exact ⟨hold.row, hold.file⟩
    · obtain ⟨p, hp, rfl, r, hr, hid, hrlive⟩ := Db.inLivePart_iff.mp hpart
      obtain ⟨r₀, hr₀, rfl⟩ := hmem_session.mp hr
      by_cases hsame : r₀.id = session.id
      · simp [hsame, SessionState.live] at hrlive
      · simp only [beq_eq_false_iff_ne.mpr hsame] at hid hrlive
        have hold := h.held _ (.inr (Db.inLivePart_iff.mpr ⟨p, hp, rfl, r₀, hr₀, hid, hrlive⟩))
        exact ⟨hold.row, hold.file⟩
  · rcases hmem_artifact.mp ha with ha | rfl
    · obtain ⟨chunks', hdepicts⟩ := h.depicted hsha a ha
      exact ⟨chunks', by rwa [Db.manifest_published_of_le (h.rows.artifactIds a ha)]⟩
    · exact ⟨chunks, hknown, hsmall, h.rows.manifest_published hsmall, hsize, hdigest hsha⟩
  · rcases h.accounted c hc hactive hnot with (hmanifest | hpart) | hcleanup
    · obtain ⟨r, hr, hdigest⟩ := Db.inManifest_iff.mp hmanifest
      exact .inl (.inl (Db.inManifest_iff.mpr ⟨r, hmem.mpr (.inl hr), hdigest⟩))
    · obtain ⟨p, hp, hdigest, r, hr, hid, hrlive⟩ := Db.inLivePart_iff.mp hpart
      by_cases hsame : r.id = session.id
      · exact .inl (hnew (hdigest ▸ hparts p hp (hid.symm.trans hsame)))
      · have hr' := hmem_session.mpr ⟨r, hr, if_neg (by simpa using hsame)⟩
        exact .inl (.inr (Db.inLivePart_iff.mpr ⟨p, hp, hdigest, r, hr', hid, hrlive⟩))
    · obtain ⟨p, hp, hdigest, r, hr, hid, hstate⟩ := hcleanup
      by_cases hsame : r.id = session.id
      · have hrow := Table.eq_of_key h.rows.sessionKeys hr hsession hsame
        rw [hrow] at hstate
        rcases hstate with hs | hs <;> simp [hs, SessionState.live] at hlive
      · have hr' := hmem_session.mpr ⟨r, hr, if_neg (by simpa using hsame)⟩
        exact .inr ⟨p, hp, hdigest, r, hr', hid, hstate⟩

end ForgeRelay
