import ForgeRelay.Storage.Meddling

/-!
# The calls with the mutex, among the threads without it

Each call keeps the published artifacts intact, whatever the other threads do between its
statements, whichever of its steps fail and wherever the process stops.
-/

namespace ForgeRelay

open Program Prog

variable {sha : Sha256} {contents : Set Bytes} {gone : ArtifactRow → Prop} {s₀ s s' : Store}
  {α : Type}

/-- A step that fails may leave anything in the temporary files. -/
def Torn (s s' : Store) : Prop := ∃ tmp, s' = { s with tmp := tmp }

/-- The artifacts stay intact among the other threads, and what `p` returns meets `R`. -/
abbrev KeepsIntact (sha : Sha256) (contents : Set Bytes) (gone : ArtifactRow → Prop) (s₀ : Store)
    (p : StorageM α) (R : α → Store → Prop) (s : Store) : Prop :=
  wpAmong Meddles (fun _ => Torn) (IntactSince sha contents gone s₀) p
    (Outcome (IntactSince sha contents gone s₀) R) s

theorem IntactSince.torn (h : IntactSince sha contents gone s₀ s) (htorn : Torn s s') :
    IntactSince sha contents gone s₀ s' := by
  obtain ⟨tmp, rfl⟩ := htorn
  exact ⟨{ h.intact with }, h.evolves⟩

private theorem keeps_meddling {V : α → Prop} {p : StorageM α} (hp : Within meddling V p)
    (hs : IntactSince sha contents gone s₀ s) :
    KeepsIntact sha contents gone s₀ p
      (fun a s' => IntactSince sha contents gone s₀ s' ∧ V a) s :=
  wpAmong_within hp (fun _ => trivial) (fun _ _ => trivial) (fun _ _ h hstep => h.meddle hstep.1)
    (fun _ _ => IntactSince.meddle) (fun _ _ _ => IntactSince.torn) (fun _ => id) hs

theorem keeps_quietly {p : StorageM α} (hp : Stays meddling p)
    (hs : IntactSince sha contents gone s₀ s) :
    KeepsIntact sha contents gone s₀ p (fun _ => IntactSince sha contents gone s₀) s := by
  apply wpAmong_mono (keeps_meddling hp hs)
  intro r s' hr
  cases r with
  | ok a => exact hr.1
  | error e => exact hr

theorem keeps_step {P : Store → Prop} {R : α → Store → Prop} {label : Label}
    {act : Store → Except Error α × Store} (hintact : ∀ s, P s → IntactSince sha contents gone s₀ s)
    (hkept : ∀ s s', P s → Meddles s s' → P s') (hs : P s)
    (hact : ∀ s, P s → Outcome (IntactSince sha contents gone s₀) R (act s).1 (act s).2) :
    KeepsIntact sha contents gone s₀ (lift label act) R s :=
  wpAmong_lift hkept hs hintact (fun _ _ _ h htorn => (hintact _ h).torn htorn) hact

theorem keeps_select {P : Store → Prop} {R : α → Store → Prop} {f : Db → α}
    (hintact : ∀ s, P s → IntactSince sha contents gone s₀ s)
    (hkept : ∀ s s', P s → Meddles s s' → P s') (hs : P s) (hR : ∀ s, P s → R (f s.db) s) :
    KeepsIntact sha contents gone s₀ (select f) R s :=
  keeps_step hintact hkept hs hR

theorem keeps_tx {P : Store → Prop} {R : α → Store → Prop} {body : StorageM α}
    (hintact : ∀ s, P s → IntactSince sha contents gone s₀ s)
    (hkept : ∀ s s', P s → Meddles s s' → P s') (hs : P s)
    (hbody : ∀ s a s', P s → body.run s = (.ok a, s') → R a s') :
    KeepsIntact sha contents gone s₀ (tx body) R s :=
  wpAmong_transaction hkept hs hintact (fun _ _ h htorn => (hintact _ h).torn htorn) hintact hbody

private theorem keeps_chunkReferenced (digest : Bytes) (hs : IntactSince sha contents gone s₀ s) :
    KeepsIntact sha contents gone s₀ (chunkReferenced digest)
      (fun b s' => IntactSince sha contents gone s₀ s' ∧
        (b = false → s'.db.inManifest digest = false)) s := by
  apply wpAmong_seq
  · exact keeps_select (R := fun b s' => IntactSince sha contents gone s₀ s' ∧
      s'.db.inManifest digest = b) (fun _ => id) (fun _ _ => IntactSince.meddle) hs
      fun s hs => ⟨hs, rfl⟩
  · rintro b s' ⟨hs', hmanifest⟩
    cases b with
    | true => exact ⟨hs', fun h => by cases h⟩
    | false =>
      apply keeps_select (P := fun s' => IntactSince sha contents gone s₀ s' ∧
        s'.db.inManifest digest = false) (fun _ h => h.1)
      · intro s₁ s₂ h hmeddles
        refine ⟨h.1.meddle hmeddles, ?_⟩
        rw [Db.inManifest, hmeddles.same.artifactChunk]
        exact h.2
      · exact ⟨hs', hmanifest⟩
      · exact fun s₁ h => ⟨h.1, fun _ => h.2⟩

theorem ArtifactsInv.removeFile {data : Bytes} (h : ArtifactsInv sha contents s)
    (hfree : s.db.inManifest (sha.hex data) = false) :
    ArtifactsInv sha contents
      { s with files := Function.update s.files (relPath (sha.hex data)) none } := by
  refine { h with files := ?_, present := ?_ }
  · intro path content hfile
    dsimp only at hfile
    by_cases hpath : path = relPath (sha.hex data)
    · rw [hpath, Function.update_self] at hfile
      cases hfile
    · rw [Function.update_of_ne hpath] at hfile
      exact h.files path content hfile
  · intro r hr
    have hne : relPath r.entry.digest ≠ relPath (sha.hex data) := by
      intro heq
      obtain ⟨data', -, hdigest⟩ := h.manifestData r hr
      rw [hdigest] at heq
      have hhex := relPath_injective (sha.hex_length _) (sha.hex_length _) heq
      have hused := Db.inManifest_iff.mpr ⟨r, hr, hdigest.trans hhex⟩
      rw [hfree] at hused
      cases hused
    dsimp only
    rw [Function.update_of_ne hne]
    exact h.present r hr

private theorem keeps_chunkStoreRemove {data : Bytes} (hs : IntactSince sha contents gone s₀ s)
    (hfree : s.db.inManifest (sha.hex data) = false) :
    KeepsIntact sha contents gone s₀ (chunkStoreRemove (sha.hex data))
      (fun _ => IntactSince sha contents gone s₀) s := by
  rw [chunkStoreRemove, chunkPath_hex, bind_pure_left, fileStep]
  apply keeps_step (P := fun s' => IntactSince sha contents gone s₀ s' ∧
    s'.db.inManifest (sha.hex data) = false) (fun _ h => h.1)
  · intro s₁ s₂ h hmeddles
    refine ⟨h.1.meddle hmeddles, ?_⟩
    rw [Db.inManifest, hmeddles.same.artifactChunk]
    exact h.2
  · exact ⟨hs, hfree⟩
  · exact fun s₁ h => ⟨h.1.intact.removeFile h.2, h.1.evolves⟩

private theorem keeps_collectCandidate (cfg : StorageConfig) (env : CallEnv) (dryRun : Bool)
    {data : Bytes}
    (rawSize pendingAt : Int64) (report : GcReport) (hs : IntactSince sha contents gone s₀ s) :
    KeepsIntact sha contents gone s₀
      (collectCandidate cfg env dryRun (sha.hex data, rawSize, pendingAt) report)
      (fun _ => IntactSince sha contents gone s₀) s := by
  unfold collectCandidate
  dsimp only
  split
  · exact hs
  apply wpAmong_seq (keeps_chunkReferenced _ hs)
  rintro b s₁ ⟨hs₁, hfree⟩
  cases b with
  | true =>
    apply wpAmong_seq (keeps_quietly (meddling_reactivate _) hs₁)
    exact fun _ _ h => h
  | false =>
    simp only [Bool.false_eq_true, if_false]
    split
    · exact hs₁
    · apply wpAmong_seq (keeps_chunkStoreRemove hs₁ (hfree rfl))
      intro _ s₂ hs₂
      apply wpAmong_seq (keeps_quietly (meddling_exec (meddling_deleteChunk _)) hs₂)
      exact fun _ _ h => h

theorem ArtifactsInv.pendingChunks (h : ArtifactsInv sha contents s) :
    ∀ c ∈ s.db.pendingChunks, ∃ data ∈ contents, c.1 = sha.hex data := by
  intro c hc
  obtain ⟨row, hrow, hcond⟩ := List.mem_filterMap.mp hc
  split at hcond
  · obtain ⟨pendingAt, -, rfl⟩ := Option.map_eq_some_iff.mp hcond
    exact h.chunkData row hrow
  · cases hcond

theorem keeps_collectGarbage (cfg : StorageConfig) (env : CallEnv) (dryRun : Bool)
    (hs : IntactSince sha contents gone s₀ s) :
    KeepsIntact sha contents gone s₀ (collectGarbage cfg env dryRun)
      (fun _ => IntactSince sha contents gone s₀) s := by
  apply wpAmong_seq
  · exact keeps_select (R := fun candidates s' => IntactSince sha contents gone s₀ s' ∧
      ∀ c ∈ candidates, ∃ data ∈ contents, c.1 = sha.hex data) (fun _ => id)
      (fun _ _ => IntactSince.meddle) hs fun s hs => ⟨hs, hs.intact.pendingChunks⟩
  rintro candidates s₁ ⟨hs₁, hknown⟩
  generalize (⟨Int64.ofNat candidates.length, 0, 0⟩ : GcReport) = report
  induction candidates generalizing report s₁ with
  | nil => exact hs₁
  | cons candidate rest ih =>
    obtain ⟨⟨data, -, hdigest⟩, hrest⟩ := List.forall_mem_cons.mp hknown
    obtain ⟨digest, rawSize, pendingAt⟩ := candidate
    dsimp only at hdigest
    rw [hdigest]
    apply wpAmong_seq (keeps_collectCandidate cfg env dryRun rawSize pendingAt report hs₁)
    exact fun report s₂ hs₂ => ih s₂ hs₂ hrest report

theorem ArtifactsInv.deleteArtifact (h : ArtifactsInv sha contents s) (id : Nat) :
    ArtifactsInv sha contents { s with db := s.db.deleteArtifact id } where
  artifactKeys := Table.nodup_delete h.artifactKeys
  artifactRefs := Table.nodup_delete h.artifactRefs
  artifactIds a ha := h.artifactIds a (Table.mem_delete.mp ha).1
  manifestIds r hr := h.manifestIds r (Table.mem_delete.mp hr).1
  manifestData r hr := h.manifestData r (Table.mem_delete.mp hr).1
  partData := h.partData
  chunkData := h.chunkData
  files := h.files
  present r hr := h.present r (Table.mem_delete.mp hr).1
  depicted hsha a ha := by
    obtain ⟨ha, hid⟩ := Table.mem_delete.mp ha
    dsimp only
    rw [Db.manifest_deleteArtifact_of_ne (beq_eq_false_iff_ne.mp hid)]
    exact h.depicted hsha a ha

theorem IntactSince.deleteArtifact (h : IntactSince sha contents gone s₀ s) {row : ArtifactRow}
    (hrow : row ∈ s.db.artifact) (hgone : gone row) :
    IntactSince sha contents gone s₀ { s with db := s.db.deleteArtifact row.id } where
  intact := h.intact.deleteArtifact row.id
  evolves := by
    refine h.evolves.trans ⟨le_refl _, fun a ha hnot => ?_, fun a ha _ => ?_⟩
    · refine Table.mem_delete.mpr ⟨ha, beq_eq_false_iff_ne.mpr fun hid => hnot ?_⟩
      rw [Table.eq_of_key h.intact.artifactKeys ha hrow hid]
      exact hgone
    · obtain ⟨ha, hid⟩ := Table.mem_delete.mp ha
      exact ⟨ha, Db.manifest_deleteArtifact_of_ne (beq_eq_false_iff_ne.mp hid)⟩

private theorem meddling_markAllDeleted (now : Int64) (digests : List Bytes) :
    Stays meddling (markAllDeleted now digests) := by
  induction digests with
  | nil => exact .pure trivial
  | cons digest rest ih =>
    apply Within.seq (.seq (within_chunkReferenced digest) fun _ => ?_)
    · exact fun _ => .seq ih fun _ => .pure trivial
    · apply Within.ite
      · exact fun _ => .pure trivial
      · intro _
        apply within_stmt
        · intro s _ db _ hstep
          cases hstep
          exact ⟨⟨meddling_markPending now digest s, trivial⟩, trivial⟩
        · exact fun _ => trivial

theorem keeps_deleteArtifact (env : CallEnv) (ns name version : Bytes)
    (hgone : ∀ a : ArtifactRow, a.ref = (ns, name, version) → gone a)
    (hs : IntactSince sha contents gone s₀ s) :
    KeepsIntact sha contents gone s₀ (deleteArtifact env ns name version)
      (fun _ => IntactSince sha contents gone s₀) s := by
  apply keeps_tx (fun _ => id) (fun _ _ => IntactSince.meddle) hs
  intro s₁ count s₂ hs₁ hrun
  simp only [run_bind, run_select] at hrun
  cases hfound : s₁.db.artifact? ns name version with
  | none =>
    rw [hfound] at hrun
    cases hrun
  | some row =>
    obtain ⟨hrow, href⟩ := Db.artifact?_some hfound
    simp only [hfound, run_bind, run_select, run_exec] at hrun
    have hmarked := meddling_markAllDeleted env.now ((s₁.db.manifest row.id).map (·.digest))
    have hmeddles := (hmarked.run (s := { s₁ with db := s₁.db.deleteArtifact row.id }) trivial).1.1
    split at hrun
    · rename_i hmark
      cases hrun
      rw [hmark] at hmeddles
      exact (hs₁.deleteArtifact hrow (hgone row href)).meddle hmeddles
    · cases hrun

end ForgeRelay
