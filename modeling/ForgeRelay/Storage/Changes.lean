import ForgeRelay.Storage.Invariant

/-!
# What the statements do to the invariant

One lemma for each kind of change that storage makes to the tables and files.
-/

namespace ForgeRelay

variable {sha : Sha256} {contents leaked : Set Bytes} {s : Store}

theorem StoreInv.weaken {leaked' : Set Bytes} (h : StoreInv sha contents leaked s)
    (hsub : leaked ⊆ leaked') : StoreInv sha contents leaked' s :=
  ⟨h.rows, h.files, h.held, h.depicted, fun c hc hactive hnot =>
    h.accounted c hc hactive fun hmem => hnot (hsub hmem)⟩

theorem StoreInv.settle {digest : Bytes} (h : StoreInv sha contents (leaked ∪ {digest}) s)
    (href : s.db.Referenced digest) : StoreInv sha contents leaked s :=
  ⟨h.rows, h.files, h.held, h.depicted, fun c hc hactive hnot => by
    by_cases hdigest : c.digest = digest
    · exact .inl (hdigest ▸ href)
    · exact h.accounted c hc hactive (by simp [hnot, hdigest])⟩

theorem StoreInv.addFile (h : StoreInv sha contents leaked s) {data : Bytes}
    (hdata : data ∈ contents) {tmp : List (Bytes × Bytes)} :
    StoreInv sha contents leaked { s with
      files := Function.update s.files (relPath (sha.hex data)) (some (chunkFile data))
      tmp := tmp } := by
  refine ⟨h.rows, fun path content hfile => ?_, fun digest href => ?_, h.depicted, h.accounted⟩
  · dsimp only at hfile
    by_cases hpath : path = relPath (sha.hex data)
    · rw [hpath, Function.update_self] at hfile
      exact ⟨data, hdata, hpath, (Option.some.inj hfile).symm⟩
    · rw [Function.update_of_ne hpath] at hfile
      exact h.files path content hfile
  · refine ⟨(h.held digest href).row, ?_⟩
    by_cases hpath : relPath digest = relPath (sha.hex data)
    · simp [hpath]
    · simpa [Function.update_of_ne hpath] using (h.held digest href).file

theorem StoreInv.removeFile (h : StoreInv sha contents leaked s) {data : Bytes}
    (hfree : ¬ s.db.Referenced (sha.hex data)) :
    StoreInv sha contents leaked
      { s with files := Function.update s.files (relPath (sha.hex data)) none } := by
  refine ⟨h.rows, fun path content hfile => ?_, fun other href => ?_, h.depicted, h.accounted⟩
  · dsimp only at hfile
    by_cases hpath : path = relPath (sha.hex data)
    · rw [hpath, Function.update_self] at hfile
      cases hfile
    · rw [Function.update_of_ne hpath] at hfile
      exact h.files path content hfile
  · refine ⟨(h.held other href).row, ?_⟩
    have hne : relPath other ≠ relPath (sha.hex data) := by
      intro heq
      obtain ⟨data', -, rfl⟩ := h.rows.referenced_known href
      rw [relPath_injective (sha.hex_length _) (sha.hex_length _) heq] at href
      exact hfree href
    simpa [Function.update_of_ne hne] using (h.held other href).file

theorem StoreInv.insertSession (h : StoreInv sha contents leaked s) {row : SessionInfo} {db : Db}
    (hinsert : s.db.insertSession row = .ok db) :
    StoreInv sha contents leaked { s with db := db } := by
  unfold Db.insertSession at hinsert
  split at hinsert
  · cases hinsert
  rename_i hnew
  cases hinsert
  have hfresh : ∀ r ∈ s.db.uploadSession, r.id ≠ row.id := by simpa using hnew
  have hlive (digest : Bytes) : s.db.inLivePart digest = true ↔
      Db.inLivePart { s.db with uploadSession := s.db.uploadSession ++ [row] } digest = true := by
    simp only [Db.inLivePart_iff, List.mem_append, List.mem_singleton]
    constructor
    · rintro ⟨p, hp, hdigest, r, hr, hid, hstate⟩
      exact ⟨p, hp, hdigest, r, .inl hr, hid, hstate⟩
    · rintro ⟨p, hp, hdigest, r, hr, hid, hstate⟩
      obtain ⟨r₀, hr₀, hid₀⟩ := h.rows.partSession p hp
      rcases hr with hr | rfl
      · exact ⟨p, hp, hdigest, r, hr, hid, hstate⟩
      · exact absurd (hid₀.trans hid.symm) (hfresh r₀ hr₀)
  refine ⟨{ h.rows with
      sessionKeys := Table.nodup_append h.rows.sessionKeys (by simpa using hfresh)
      partSession := fun p hp => ?_ }, h.files, fun digest href => ?_, h.depicted,
    fun c hc hactive hnot => ?_⟩
  · obtain ⟨r, hr, hid⟩ := h.rows.partSession p hp
    exact ⟨r, List.mem_append_left _ hr, hid⟩
  · exact ⟨(h.held digest (href.imp_right (hlive digest).mpr)).row,
      (h.held digest (href.imp_right (hlive digest).mpr)).file⟩
  · refine (h.accounted c hc hactive hnot).imp (Or.imp_right (hlive _).mp) ?_
    rintro ⟨p, hp, hdigest, r, hr, hid, hstate⟩
    exact ⟨p, hp, hdigest, r, List.mem_append_left _ hr, hid, hstate⟩

theorem StoreInv.setSessionState (h : StoreInv sha contents leaked s) {cond : SessionInfo → Bool}
    {state : SessionState} (hcond : ∀ r ∈ s.db.uploadSession, cond r = true → r.state.live = true)
    (hstate : state ≠ .completed) :
    StoreInv sha contents leaked { s with db := s.db.setSessionState cond state } := by
  have hlive {digest : Bytes} (hnew : (s.db.setSessionState cond state).inLivePart digest = true) :
      s.db.inLivePart digest = true := by
    obtain ⟨p, hp, hdigest, r, hr, hid, hstate⟩ := Db.inLivePart_iff.mp hnew
    obtain ⟨r₀, hr₀, rfl⟩ := Table.mem_update.mp hr
    refine Db.inLivePart_iff.mpr ⟨p, hp, hdigest, r₀, hr₀, ?_⟩
    by_cases hc : cond r₀ = true
    · exact ⟨by simpa [hc] using hid, hcond r₀ hr₀ hc⟩
    · simpa [hc] using And.intro hid hstate
  refine ⟨{ h.rows with
      sessionKeys := ?_
      partSession := fun p hp => ?_ }, h.files, fun digest href => ?_, h.depicted,
    fun c hc hactive hnot => ?_⟩
  · have hkeys := Table.map_update (p := cond) (f := fun r => { r with state := state })
      SessionInfo.id (fun _ => rfl) s.db.uploadSession
    exact hkeys ▸ h.rows.sessionKeys
  · obtain ⟨r, hr, hid⟩ := h.rows.partSession p hp
    exact ⟨_, Table.mem_update.mpr ⟨r, hr, rfl⟩, by split <;> exact hid⟩
  · exact ⟨(h.held digest (href.imp_right hlive)).row,
      (h.held digest (href.imp_right hlive)).file⟩
  · rcases h.accounted c hc hactive hnot with (hmanifest | hpart) | hcleanup
    · exact .inl (.inl hmanifest)
    · -- the live session of the part stays live or becomes one that awaits the cleanup
      obtain ⟨p, hp, hdigest, r, hr, hid, hrlive⟩ := Db.inLivePart_iff.mp hpart
      have hr' := Table.mem_update (p := cond) (f := fun r => { r with state := state }).mpr
        ⟨r, hr, rfl⟩
      by_cases hc : cond r = true
      · simp only [hc, if_true] at hr'
        cases state with
        | completed => exact absurd rfl hstate
        | «open» => exact .inl (.inr (Db.inLivePart_iff.mpr ⟨p, hp, hdigest, _, hr', hid, rfl⟩))
        | committing =>
          exact .inl (.inr (Db.inLivePart_iff.mpr ⟨p, hp, hdigest, _, hr', hid, rfl⟩))
        | aborted => exact .inr ⟨p, hp, hdigest, _, hr', hid, .inr rfl⟩
        | expired => exact .inr ⟨p, hp, hdigest, _, hr', hid, .inl rfl⟩
      · simp only [hc] at hr'
        exact .inl (.inr (Db.inLivePart_iff.mpr ⟨p, hp, hdigest, r, hr', hid, hrlive⟩))
    · obtain ⟨p, hp, hdigest, r, hr, hid, hrstate⟩ := hcleanup
      have hc : cond r = false := by
        rw [← Bool.not_eq_true]
        intro hc
        have hrlive := hcond r hr hc
        rcases hrstate with hs | hs <;> simp [hs, SessionState.live] at hrlive
      exact .inr ⟨p, hp, hdigest, r, Table.mem_update_of_not hr hc, hid, hrstate⟩

theorem StoreInv.deleteParts (h : StoreInv sha contents leaked s) (sessionId : Bytes) :
    StoreInv sha contents (leaked ∪ {d | d ∈ s.db.partDigests sessionId})
      { s with db := s.db.deleteParts sessionId } := by
  have hlive {digest : Bytes} (hnew : (s.db.deleteParts sessionId).inLivePart digest = true) :
      s.db.inLivePart digest = true := by
    obtain ⟨p, hp, hdigest, hsession⟩ := Db.inLivePart_iff.mp hnew
    exact Db.inLivePart_iff.mpr ⟨p, (Table.mem_delete.mp hp).1, hdigest, hsession⟩
  -- a part that is not deleted still holds on to its chunk
  have hkeep {p : PartRow} (hp : p ∈ s.db.uploadPart)
      (hnot : p.digest ∉ s.db.partDigests sessionId) :
      p ∈ (s.db.deleteParts sessionId).uploadPart := by
    refine Table.mem_delete.mpr ⟨hp, ?_⟩
    rw [beq_eq_false_iff_ne]
    exact fun hid => hnot (Db.mem_partDigests.mpr ⟨p, hp, hid, rfl⟩)
  refine ⟨{ h.rows with
      partKeys := Table.nodup_delete h.rows.partKeys
      partSession := fun p hp => h.rows.partSession p (Table.mem_delete.mp hp).1
      partData := fun p hp => h.rows.partData p (Table.mem_delete.mp hp).1 }, h.files,
    fun digest href => ?_, h.depicted, fun c hc hactive hnot => ?_⟩
  · exact ⟨(h.held digest (href.imp_right hlive)).row,
      (h.held digest (href.imp_right hlive)).file⟩
  · simp only [Set.mem_union, Set.mem_ofPred_eq, not_or] at hnot
    rcases h.accounted c hc hactive hnot.1 with (hmanifest | hpart) | hcleanup
    · exact .inl (.inl hmanifest)
    · obtain ⟨p, hp, hdigest, hsession⟩ := Db.inLivePart_iff.mp hpart
      exact .inl (.inr (Db.inLivePart_iff.mpr
        ⟨p, hkeep hp (hdigest ▸ hnot.2), hdigest, hsession⟩))
    · obtain ⟨p, hp, hdigest, hsession⟩ := hcleanup
      exact .inr ⟨p, hkeep hp (hdigest ▸ hnot.2), hdigest, hsession⟩

theorem StoreInv.insertPart (h : StoreInv sha contents leaked s) {row : PartRow} {db : Db}
    {data : Bytes} (hdata : data ∈ contents) (hdigest : row.digest = sha.hex data)
    (hlength : row.length.toNat = data.length) (hheld : Held s row.digest)
    (hinsert : s.db.insertPart row = .ok db) :
    StoreInv sha contents leaked { s with db := db } := by
  unfold Db.insertPart at hinsert
  split at hinsert
  · cases hinsert
  rename_i hnew
  split at hinsert
  swap
  · cases hinsert
  rename_i hsession
  cases hinsert
  obtain ⟨session, hmem_session, hid⟩ : ∃ r ∈ s.db.uploadSession, r.id = row.sessionId := by
    simpa using hsession
  have hmem {p : PartRow} : p ∈ s.db.uploadPart ++ [row] ↔ p ∈ s.db.uploadPart ∨ p = row := by
    rw [List.mem_append, List.mem_singleton]
  have hfresh : (row.sessionId, row.ordinal) ∉
      s.db.uploadPart.map fun p => (p.sessionId, p.ordinal) := by
    simpa using hnew
  refine ⟨{ h.rows with
      partKeys := Table.nodup_append h.rows.partKeys hfresh
      partSession := fun p hp => ?_
      partData := fun p hp => ?_ }, h.files, fun digest href => ?_, h.depicted,
    fun c hc hactive hnot => ?_⟩
  · rcases hmem.mp hp with hp | rfl
    · exact h.rows.partSession p hp
    · exact ⟨session, hmem_session, hid⟩
  · rcases hmem.mp hp with hp | rfl
    · exact h.rows.partData p hp
    · exact ⟨data, hdata, hdigest, hlength⟩
  · rcases href with hmanifest | hpart
    · exact ⟨(h.held digest (.inl hmanifest)).row, (h.held digest (.inl hmanifest)).file⟩
    · obtain ⟨p, hp, rfl, hlive⟩ := Db.inLivePart_iff.mp hpart
      rcases hmem.mp hp with hp | rfl
      · have hheld' := h.held p.digest (.inr (Db.inLivePart_iff.mpr ⟨p, hp, rfl, hlive⟩))
        exact ⟨hheld'.row, hheld'.file⟩
      · exact ⟨hheld.row, hheld.file⟩
  · refine (h.accounted c hc hactive hnot).imp (Or.imp_right fun hpart => ?_) ?_
    · obtain ⟨p, hp, hrest⟩ := Db.inLivePart_iff.mp hpart
      exact Db.inLivePart_iff.mpr ⟨p, hmem.mpr (.inl hp), hrest⟩
    · rintro ⟨p, hp, hrest⟩
      exact ⟨p, hmem.mpr (.inl hp), hrest⟩

theorem StoreInv.insertChunk (h : StoreInv sha contents leaked s) {row : ChunkRow}
    {data : Bytes} (hdata : data ∈ contents) (hdigest : row.digest = sha.hex data)
    (hstate : row.state = .active) :
    StoreInv sha contents (leaked ∪ {row.digest})
      { s with db := s.db.insertChunkOrIgnore row } := by
  unfold Db.insertChunkOrIgnore
  split
  · exact h.weaken Set.subset_union_left
  rename_i hnew
  have hfresh : row.digest ∉ s.db.chunk.map (·.digest) := by simpa using hnew
  have hmem {c : ChunkRow} : c ∈ s.db.chunk ++ [row] ↔ c ∈ s.db.chunk ∨ c = row := by
    rw [List.mem_append, List.mem_singleton]
  refine ⟨{ h.rows with
      chunkKeys := Table.nodup_append h.rows.chunkKeys hfresh
      chunkData := fun c hc => ?_
      pendingAt := fun c hc hpending => ?_ }, h.files, fun digest href => ?_, h.depicted,
    fun c hc hactive hnot => ?_⟩
  · rcases hmem.mp hc with hc | rfl
    · exact h.rows.chunkData c hc
    · exact ⟨data, hdata, hdigest⟩
  · rcases hmem.mp hc with hc | rfl
    · exact h.rows.pendingAt c hc hpending
    · rw [hstate] at hpending
      cases hpending
  · obtain ⟨c, hc, hrow⟩ := (h.held digest href).row
    exact ⟨⟨c, hmem.mpr (.inl hc), hrow⟩, (h.held digest href).file⟩
  · simp only [Set.mem_union, Set.mem_singleton_iff, not_or] at hnot
    rcases hmem.mp hc with hc | rfl
    · exact h.accounted c hc hactive hnot.1
    · exact absurd rfl hnot.2

theorem StoreInv.reactivate (h : StoreInv sha contents leaked s) (cond : ChunkRow → Bool)
    {digest : Bytes} (hcond : ∀ c, cond c = true → c.digest = digest) :
    StoreInv sha contents (leaked ∪ {digest}) { s with db := s.db.reactivate cond } := by
  refine ⟨{ h.rows with
      chunkKeys := ?_
      chunkData := fun c hc => ?_
      pendingAt := fun c hc hpending => ?_ }, h.files, fun other href => ?_, h.depicted,
    fun c hc hactive hnot => ?_⟩
  · have hkeys := Table.map_update (p := cond)
      (f := fun c => { c with state := .active, pendingAt := none })
      ChunkRow.digest (fun _ => rfl) s.db.chunk
    exact hkeys ▸ h.rows.chunkKeys
  · obtain ⟨c₀, hc₀, rfl⟩ := Table.mem_update.mp hc
    split <;> exact h.rows.chunkData c₀ hc₀
  · obtain ⟨c₀, hc₀, rfl⟩ := Table.mem_update.mp hc
    by_cases hc' : cond c₀ = true
    · simp [hc'] at hpending
    · simp only [hc'] at hpending ⊢
      exact h.rows.pendingAt c₀ hc₀ hpending
  · obtain ⟨c, hc, hdigest, hactive⟩ := (h.held other href).row
    refine ⟨⟨_, Table.mem_update.mpr ⟨c, hc, rfl⟩, ?_⟩, (h.held other href).file⟩
    by_cases hc' : cond c = true <;> simp [hc', hdigest, hactive]
  · simp only [Set.mem_union, Set.mem_singleton_iff, not_or] at hnot
    obtain ⟨c₀, hc₀, rfl⟩ := Table.mem_update.mp hc
    by_cases hc' : cond c₀ = true
    · simp only [hc', if_true] at hnot
      exact absurd (hcond c₀ hc') hnot.2
    · simp only [hc'] at hactive hnot ⊢
      exact h.accounted c₀ hc₀ hactive hnot.1

theorem StoreInv.markPending {digest : Bytes}
    (h : StoreInv sha contents (leaked ∪ {digest}) s) (now : Int64)
    (hfree : ¬ s.db.Referenced digest) :
    StoreInv sha contents leaked { s with db := s.db.markPending now digest } := by
  have hactive_iff (c : ChunkRow) :
      ChunkRow.isActive digest c = true ↔ c.digest = digest ∧ c.state = .active := by
    simp [ChunkRow.isActive]
  refine ⟨{ h.rows with
      chunkKeys := ?_
      chunkData := fun c hc => ?_
      pendingAt := fun c hc hpending => ?_ }, h.files, fun other href => ?_, h.depicted,
    fun c hc hactive hnot => ?_⟩
  · have hkeys := Table.map_update (p := ChunkRow.isActive digest)
      (f := fun c => { c with state := .pendingDelete, pendingAt := some now })
      ChunkRow.digest (fun _ => rfl) s.db.chunk
    exact hkeys ▸ h.rows.chunkKeys
  · obtain ⟨c₀, hc₀, rfl⟩ := Table.mem_update.mp hc
    split <;> exact h.rows.chunkData c₀ hc₀
  · obtain ⟨c₀, hc₀, rfl⟩ := Table.mem_update.mp hc
    by_cases hc' : ChunkRow.isActive digest c₀ = true
    · simp [hc']
    · simp only [hc'] at hpending ⊢
      exact h.rows.pendingAt c₀ hc₀ hpending
  · obtain ⟨c, hc, hdigest, hactive⟩ := (h.held other href).row
    have hc' : ChunkRow.isActive digest c = false := by
      rw [← Bool.not_eq_true, hactive_iff, hdigest]
      rintro ⟨rfl, -⟩
      exact hfree href
    exact ⟨⟨c, Table.mem_update_of_not hc hc', hdigest, hactive⟩, (h.held other href).file⟩
  · obtain ⟨c₀, hc₀, rfl⟩ := Table.mem_update.mp hc
    by_cases hc' : ChunkRow.isActive digest c₀ = true
    · simp [hc'] at hactive
    · simp only [hc'] at hactive hnot ⊢
      refine h.accounted c₀ hc₀ hactive ?_
      simp only [Set.mem_union, Set.mem_singleton_iff, not_or]
      exact ⟨hnot, fun hdigest => hc' ((hactive_iff c₀).mpr ⟨hdigest, hactive⟩)⟩

theorem StoreInv.deleteChunk (h : StoreInv sha contents leaked s) {digest : Bytes}
    (hfree : ¬ s.db.Referenced digest) :
    StoreInv sha contents leaked { s with db := s.db.deleteChunk digest } := by
  refine ⟨{ h.rows with
      chunkKeys := Table.nodup_delete h.rows.chunkKeys
      chunkData := fun c hc => h.rows.chunkData c (Table.mem_delete.mp hc).1
      pendingAt := fun c hc => h.rows.pendingAt c (Table.mem_delete.mp hc).1 }, h.files,
    fun other href => ?_, h.depicted,
    fun c hc => h.accounted c (Table.mem_delete.mp hc).1⟩
  obtain ⟨c, hc, hdigest, hactive⟩ := (h.held other href).row
  refine ⟨⟨c, Table.mem_delete.mpr ⟨hc, ?_⟩, hdigest, hactive⟩, (h.held other href).file⟩
  rw [beq_eq_false_iff_ne, hdigest]
  rintro rfl
  exact hfree href

theorem StoreInv.active_of_held (h : StoreInv sha contents leaked s) {digest : Bytes}
    (hheld : Held s digest) : ∀ c ∈ s.db.chunk, c.digest = digest → c.state = .active := by
  intro c hc hdigest
  obtain ⟨c', hc', hdigest', hactive⟩ := hheld.row
  rwa [Table.eq_of_key h.rows.chunkKeys hc hc' (hdigest.trans hdigest'.symm)]

theorem Db.reactivate_of_active {db : Db} {digest : Bytes}
    (hactive : ∀ c ∈ db.chunk, c.digest = digest → c.state = .active) :
    db.reactivate (ChunkRow.isPending digest) = db := by
  have hsame : Table.update (ChunkRow.isPending digest)
      (fun c => { c with state := .active, pendingAt := none }) db.chunk = db.chunk := by
    refine Table.update_of_none fun c hc => ?_
    rw [← Bool.not_eq_true]
    intro hpending
    simp only [ChunkRow.isPending, Bool.and_eq_true, beq_iff_eq] at hpending
    rw [hactive c hc hpending.1] at hpending
    cases hpending.2
  rw [Db.reactivate, hsame]

theorem Db.insertChunk_reactivate_row (db : Db) (row : ChunkRow) :
    ∃ c ∈ ((db.insertChunkOrIgnore row).reactivate (ChunkRow.isPending row.digest)).chunk,
      c.digest = row.digest ∧ c.state = .active := by
  obtain ⟨c, hc, hdigest⟩ : ∃ c ∈ (db.insertChunkOrIgnore row).chunk, c.digest = row.digest := by
    unfold Db.insertChunkOrIgnore
    split
    · rename_i hold
      simpa using hold
    · exact ⟨row, by simp, rfl⟩
  refine ⟨_, Table.mem_update.mpr ⟨c, hc, rfl⟩, ?_⟩
  cases hc' : c.state <;> simp [ChunkRow.isPending, hdigest, hc']

theorem Db.manifest_deleteArtifact_of_ne {db : Db} {id other : Nat} (hne : other ≠ id) :
    (db.deleteArtifact id).manifest other = db.manifest other := by
  unfold Db.manifest Db.deleteArtifact Table.delete
  rw [List.filter_filter]
  congr 2
  refine List.filter_congr fun r _ => ?_
  by_cases hr : r.artifactId = other
  · simp [hr, hne]
  · simp [hr]

theorem StoreInv.deleteArtifact (h : StoreInv sha contents leaked s) (id : Nat) :
    StoreInv sha contents (leaked ∪ {d | d ∈ (s.db.manifest id).map (·.digest)})
      { s with db := s.db.deleteArtifact id } := by
  have hmanifest {digest : Bytes} (hnew : (s.db.deleteArtifact id).inManifest digest = true) :
      s.db.inManifest digest = true := by
    obtain ⟨r, hr, hdigest⟩ := Db.inManifest_iff.mp hnew
    exact Db.inManifest_iff.mpr ⟨r, (Table.mem_delete.mp hr).1, hdigest⟩
  refine ⟨{ h.rows with
      artifactKeys := Table.nodup_delete h.rows.artifactKeys
      artifactRefs := Table.nodup_delete h.rows.artifactRefs
      artifactIds := fun a ha => h.rows.artifactIds a (Table.mem_delete.mp ha).1
      manifestIds := fun r hr => h.rows.manifestIds r (Table.mem_delete.mp hr).1
      manifestData := fun r hr => h.rows.manifestData r (Table.mem_delete.mp hr).1 }, h.files,
    fun digest href => ?_, fun hsha a ha => ?_, fun c hc hactive hnot => ?_⟩
  · exact ⟨(h.held digest (href.imp_left hmanifest)).row,
      (h.held digest (href.imp_left hmanifest)).file⟩
  · obtain ⟨ha, hid⟩ := Table.mem_delete.mp ha
    rw [Db.manifest_deleteArtifact_of_ne (by simpa using hid)]
    exact h.depicted hsha a ha
  · simp only [Set.mem_union, Set.mem_ofPred_eq, not_or] at hnot
    rcases h.accounted c hc hactive hnot.1 with (hold | hpart) | hcleanup
    · obtain ⟨r, hr, hdigest⟩ := Db.inManifest_iff.mp hold
      refine .inl (.inl (Db.inManifest_iff.mpr ⟨r, Table.mem_delete.mpr ⟨hr, ?_⟩, hdigest⟩))
      rw [beq_eq_false_iff_ne]
      intro hid
      exact hnot.2 (List.mem_map.mpr ⟨r.entry, Db.mem_manifest.mpr ⟨r, hr, hid, rfl⟩, hdigest⟩)
    · exact .inl (.inr hpart)
    · exact .inr hcleanup

end ForgeRelay
