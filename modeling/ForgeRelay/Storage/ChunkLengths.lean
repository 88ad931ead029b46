import ForgeRelay.Storage.Reading
import ForgeRelay.Storage.Steps

/-!
# The lengths of chunks

No part and no chunk of a manifest is empty. A slice of a download calls its sink for no more
chunks than it has bytes.
-/

namespace ForgeRelay

open Program Prog

/-- No row is for a chunk without bytes. -/
structure NoEmptyChunks (s : Store) : Prop where
  parts : ∀ row ∈ s.db.uploadPart, row.length ≠ 0
  manifests : ∀ row ∈ s.db.artifactChunk, row.entry.length ≠ 0

theorem NoEmptyChunks.empty : NoEmptyChunks .empty :=
  ⟨List.forall_mem_nil _, List.forall_mem_nil _⟩

/-- The bound that keeps it so. -/
def noEmptyChunks : Bound Store Error where
  inv := NoEmptyChunks
  rel _ _ := True
  err _ := True
  refl _ := trivial
  trans _ _ := trivial

private theorem noEmptyChunks_step {s s' : Store} (hs : NoEmptyChunks s)
    (hparts : s'.db.uploadPart = s.db.uploadPart)
    (hmanifests : s'.db.artifactChunk = s.db.artifactChunk) : noEmptyChunks.Step s s' :=
  ⟨trivial, hparts ▸ hs.parts, hmanifests ▸ hs.manifests⟩

theorem noEmptyChunks_allows (now : Int64) :
    Allows now noEmptyChunks (fun _ => True) (· ≠ 0) where
  fr _ _ _ := trivial
  reserve := trivial
  files hs hdb := noEmptyChunks_step hs (by rw [hdb]) (by rw [hdb])
  insertChunk {s row} hs _ _ := by
    refine noEmptyChunks_step hs ?_ ?_ <;> exact by unfold Db.insertChunkOrIgnore; split <;> rfl
  reactivate hs := noEmptyChunks_step hs rfl rfl
  markPending hs := noEmptyChunks_step hs rfl rfl
  deleteChunk hs := noEmptyChunks_step hs rfl rfl
  setSessionState hs _ := noEmptyChunks_step hs rfl rfl
  insertSession hs _ hdb := by
    rw [Db.insertSession_ok hdb]
    exact noEmptyChunks_step hs rfl rfl
  deleteParts hs :=
    ⟨trivial, fun row hrow => hs.parts row (Table.mem_delete.mp hrow).1, hs.manifests⟩
  insertPart {s row db} hs hlength _ hdb := by
    rw [Db.insertPart_ok hdb]
    refine ⟨trivial, fun row' hrow' => ?_, hs.manifests⟩
    rcases List.mem_append.mp hrow' with hrow' | hrow'
    · exact hs.parts row' hrow'
    · exact List.mem_singleton.mp hrow' ▸ hlength
  insertArtifact _ _ _ _ hs hdb := by
    rw [(Db.insertArtifact_ok hdb).2]
    exact noEmptyChunks_step hs rfl rfl
  insertArtifactChunk {s row db} hs hlength hdb := by
    rw [Db.insertArtifactChunk_ok hdb]
    refine ⟨trivial, hs.parts, fun row' hrow' => ?_⟩
    rcases List.mem_append.mp hrow' with hrow' | hrow'
    · exact hs.manifests row' hrow'
    · exact List.mem_singleton.mp hrow' ▸ hlength
  removeArtifact hs :=
    ⟨trivial, hs.parts, fun row hrow => hs.manifests row (Table.mem_delete.mp hrow).1⟩
  sessions _ _ _ := trivial
  parts hs := hs.parts
  dataLength {session data} _ hpositive hdata hzero := by
    have hlt := session.chunkSize.toNat_lt
    have hsame : (UInt64.ofNat data.length).toNat = data.length :=
      UInt64.toNat_ofNat_of_lt' (by simp only [UInt64.size]; omega)
    rw [hzero, UInt64.toNat_zero] at hsame
    omega

private theorem readSliceEntries_count {offset remaining sent : UInt64}
    {entries : List ManifestEntry}
    {pieces : List Bytes} {s s' : Store} (hentries : ∀ entry ∈ entries, entry.length ≠ 0)
    (h : (readSliceEntries offset remaining entries).run s = (.ok (pieces, sent), s')) :
    pieces.length ≤ sent.toNat := by
  induction entries generalizing offset remaining pieces sent s with
  | nil =>
    cases h
    simp
  | cons entry entries ih =>
    obtain ⟨hlength, hrest⟩ := List.forall_mem_cons.mp hentries
    unfold readSliceEntries at h
    dsimp only at h
    split at h
    · cases h
      simp
    rename_i hmore
    split at h
    · exact ih hrest h
    rename_i hreaches
    split at h
    · cases h
      simp
    generalize hstart : (if entry.offset < offset then offset else entry.offset) = start at h
    -- the window reaches into the chunk, which has bytes
    have havailable : (entry.offset + entry.length - start).toNat ≠ 0 := by
      intro hzero
      have hnone : entry.offset + entry.length - start = 0 := UInt64.toNat_inj.mp hzero
      have hsame : entry.offset + entry.length = start := by
        rw [UInt64.sub_eq_iff_eq_add.mp hnone, UInt64.zero_add]
      split at hstart
      · exact hreaches (hsame.trans hstart.symm ▸ UInt64.le_refl _)
      · exact hlength (UInt64.add_eq_left.mp (hsame.trans hstart.symm))
    have hpositive : remaining.toNat ≠ 0 := fun hzero => hmore (UInt64.toNat_inj.mp hzero)
    generalize htake : (if remaining < entry.offset + entry.length - start then remaining
      else entry.offset + entry.length - start) = take at h
    have hmin : take.toNat = min remaining.toNat (entry.offset + entry.length - start).toNat := by
      rw [← htake, toNat_min]
    obtain ⟨data, s₁, -, h₁⟩ := run_bind_ok h
    obtain ⟨⟨rest, sent'⟩, s₂, hrun, h₂⟩ := run_bind_ok h₁
    cases h₂
    have hcount := ih hrest hrun
    have hsent := (readSliceEntries_ok hrun).2
    have hsub : (remaining - take).toNat = remaining.toNat - take.toNat :=
      UInt64.toNat_sub_of_le _ _ (UInt64.le_iff_toNat_le.mpr (by omega))
    have hadd : (take + sent').toNat = take.toNat + sent'.toNat := by
      rw [UInt64.toNat_add]
      have := remaining.toNat_lt
      omega
    change rest.length + 1 ≤ (take + sent').toNat
    rw [hadd]
    omega

private theorem showArtifact_chunks {ns name version : Bytes} {info : ArtifactInfo} {s s' : Store}
    (h : (showArtifact ns name version).run s = (.ok info, s')) :
    ∀ entry ∈ info.chunks, ∃ row ∈ s.db.artifactChunk, row.entry = entry := by
  cases hfound : s.db.artifact? ns name version with
  | none =>
    rw [showArtifact, run_bind, run_select, hfound] at h
    cases h
  | some a =>
    rw [showArtifact_run hfound] at h
    cases h
    intro entry hentry
    obtain ⟨row, hmem, -, hrow⟩ := Db.mem_manifest.mp hentry
    exact ⟨row, hmem, hrow⟩

theorem readArtifactSlice_count {ns name version : Bytes} {offset maxLen sent : UInt64}
    {pieces : List Bytes} {s s' : Store} (hs : NoEmptyChunks s)
    (h : (readArtifactSlice ns name version offset maxLen).run s = (.ok (pieces, sent), s')) :
    pieces.length ≤ sent.toNat := by
  obtain ⟨info, s₁, hinfo, h₁⟩ := run_bind_ok h
  split at h₁
  · cases h₁
  refine readSliceEntries_count (fun entry hentry => ?_) h₁
  obtain ⟨row, hrow, rfl⟩ := showArtifact_chunks hinfo entry hentry
  exact hs.manifests row hrow

end ForgeRelay
