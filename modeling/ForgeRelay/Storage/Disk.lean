import ForgeRelay.Lib.Ghost
import ForgeRelay.Storage.PutStages

/-!
# What a put takes to the disk

The data of a file are on the disk when the file has been synced behind its last write. `put_chunk`
syncs its temporary file before it renames it, so that a chunk file is never torn; the directory
of the new entry it does not sync.
-/

namespace ForgeRelay

open Program Prog

/-- The files whose data are on the disk: temporary ones that are, and chunk files that are not. -/
structure Medium where
  synced : Bytes → Bool
  torn : Bytes → Bool

/-- The file operations that matter to it. `fr_dir_sync` is not among them: storage does not call
it. -/
inductive FileOp
  /-- A temporary file is created or written. -/
  | write (name : Bytes)
  | fsync (name : Bytes)
  | rename (name target : Bytes)
  | other

/-- What a successful operation means for the data on the disk. -/
def FileOp.mark : FileOp → Medium → Medium
  | write name, m => { m with synced := Function.update m.synced name false }
  | fsync name, m => { m with synced := Function.update m.synced name true }
  | rename name target, m => { m with torn := Function.update m.torn target (!m.synced name) }
  | other, m => m

/-- A program whose operations do not matter to it. -/
def unnamed {α : Type} (p : StorageM α) : Prog Store FileOp Error α := p.tag .other

namespace PutCall

variable (c : PutCall)

/-- `write_chunk_file` with its operations named, up to the creation of the fan-out directory. -/
def fillFileOps : Prog Store FileOp Error Unit := do
  (tmpFileWrite c.name (storeHeader c.data.length (frCrc32 c.data))).tag (.write c.name)
  (if c.data.length ≠ 0 then (tmpFileWrite c.name c.data).tag (.write c.name) else Pure.pure ())
  silentStep.tag (.fsync c.name)
  unnamed silentStep -- close
  unnamed silentStep -- create the fan-out directory

def renameFileOps : Prog Store FileOp Error Unit :=
  tryCatchThe Error ((tmpFileRename c.name c.target).tag (.rename c.name c.target)) fun e =>
    unnamed (c.giveUp e)

def storeFileOps : Prog Store FileOp Error Unit := do
  (tmpFileCreate c.name).tag (.write c.name)
  tryCatchThe Error c.fillFileOps fun e => unnamed do
    attempt (tmpFileUnlink c.name)
    MonadExcept.throw e
  if ← unnamed (fileExists c.target) then unnamed (attempt (tmpFileUnlink c.name))
  else c.renameFileOps

def chunkStorePutOps : Prog Store FileOp Error Unit := do
  if ← unnamed (fileExists c.target) then Pure.pure () else c.storeFileOps

/-- `put_chunk` with its file operations named. -/
def programOps : Prog Store FileOp Error ChunkAccept := do
  unnamed c.check
  c.chunkStorePutOps
  unnamed c.register

private theorem storeFileOps_tag : c.storeFileOps.tag () = c.storeFile.tag () := by
  simp only [storeFileOps, fillFileOps, renameFileOps, unnamed, storeFile, fillFile, tmpFileFill,
    placeFile, renameFile, tag_bind, tag_tryCatch, tag_tag, tag_throw, tag_pure, tag_ite]

theorem programOps_tag : c.programOps.tag () = c.program.tag () := by
  rw [program_eq, chunkStorePut_eq]
  simp only [programOps, chunkStorePutOps, unnamed, tag_bind, tag_tag, tag_pure, tag_ite,
    storeFileOps_tag]

section

variable {c} {s : Store} {m : Medium} {crash : Store × Medium → Prop}

/-- Only temporary files have been written. -/
def TmpWritten (s : Store) (m : Medium) (t : Store × Medium) : Prop :=
  TmpOnly s t.1 ∧ t.2.torn = m.torn

private theorem tmpFileWrite_marked {content data : Bytes} {s₁ : Store} {m₁ : Medium}
    (hcrash : ∀ t, TmpWritten s m t → crash t) (htmp : HasTmp s c.name content s₁)
    (htorn : m₁.torn = m.torn) :
    wp (fun _ _ => True) crash
      (((tmpFileWrite c.name data).tag (.write c.name)).recorded FileOp.mark)
      (Outcome (TmpWritten s m) fun _ t => HasTmp s c.name (content ++ data) t.1 ∧
        t.2.torn = m.torn) (s₁, m₁) :=
  wp_marked (tmpFileWrite_wp (fun _ hs' => hcrash _ ⟨hs', htorn⟩) htmp)
    (fun _ _ h => ⟨h, htorn⟩) fun _ h => ⟨h, htorn⟩

private theorem fillFileOps_wp {s₁ : Store} {m₁ : Medium} (hcrash : ∀ t, TmpWritten s m t → crash t)
    (htmp : HasTmp s c.name [] s₁) (htorn : m₁.torn = m.torn) :
    wp (fun _ _ => True) crash (c.fillFileOps.recorded FileOp.mark)
      (Outcome (TmpWritten s m) fun _ t => HasTmp s c.name (chunkFile c.data) t.1 ∧
        t.2.torn = m.torn ∧ t.2.synced c.name = true) (s₁, m₁) := by
  simp only [fillFileOps, recorded_bind]
  refine wp_seq (tmpFileWrite_marked hcrash htmp htorn) ?_
  rintro - ⟨s₂, m₂⟩ ⟨h₂, htorn₂⟩
  rw [List.nil_append] at h₂
  refine wp_seq (R := fun _ t => HasTmp s c.name (chunkFile c.data) t.1 ∧ t.2.torn = m.torn) ?_ ?_
  · by_cases hdata : c.data.length ≠ 0
    · rw [if_pos hdata]
      exact tmpFileWrite_marked hcrash h₂ htorn₂
    · rw [if_neg hdata]
      have hnil : c.data = [] := List.length_eq_zero_iff.mp (not_not.mp hdata)
      refine ⟨?_, htorn₂⟩
      rw [chunkFile, hnil, List.append_nil, ← hnil]
      exact h₂
  rintro - ⟨s₃, m₃⟩ ⟨h₃, htorn₃⟩
  refine wp_seq (R := fun _ t => HasTmp s c.name (chunkFile c.data) t.1 ∧ t.2.torn = m.torn ∧
    t.2.synced c.name = true) ?_ ?_
  · exact wp_marked (silentStep_wp (fun s' hs' => hcrash _ ⟨hs', htorn₃⟩) h₃.1 h₃)
      (fun _ _ h => ⟨h, htorn₃, Function.update_self _ _ _⟩) fun _ h => ⟨h, htorn₃⟩
  have hother : ∀ t : Store × Medium, HasTmp s c.name (chunkFile c.data) t.1 ∧
      t.2.torn = m.torn ∧ t.2.synced c.name = true →
      wp (fun _ _ => True) crash ((unnamed silentStep).recorded FileOp.mark)
        (Outcome (TmpWritten s m) fun _ t => HasTmp s c.name (chunkFile c.data) t.1 ∧
          t.2.torn = m.torn ∧ t.2.synced c.name = true) t := by
    rintro ⟨s', m'⟩ ⟨h, htorn', hsynced⟩
    exact wp_marked (silentStep_wp (fun s' hs' => hcrash _ ⟨hs', htorn'⟩) h.1 h)
      (fun _ _ h => ⟨h, htorn', hsynced⟩) fun _ h => ⟨h, htorn'⟩
  exact fun _ t ht => wp_seq (hother t ht) fun _ t ht => hother t ht

theorem storeFileOps_wp (hcrash : ∀ t, TmpWritten s m t → crash t)
    (hnew : ¬ (s.files c.target).isSome) :
    wp (fun _ _ => True) crash (c.storeFileOps.recorded FileOp.mark)
      (Outcome crash fun _ t => ∃ tmp, t.1 = { s with
          files := Function.update s.files c.target (some (chunkFile c.data))
          tmp := tmp } ∧ t.2.torn = Function.update m.torn c.target false) (s, m) := by
  have hself : TmpOnly s s := ⟨rfl, rfl, rfl⟩
  have hunlink : ∀ (s' : Store) (m' : Medium), TmpOnly s s' → m'.torn = m.torn →
      wp (fun _ _ => True) (fun s => crash (s, m')) (attempt (tmpFileUnlink c.name))
        (Outcome (fun s => crash (s, m')) fun _ => TmpOnly s) s' := fun s' m' hs' htorn =>
    wp_attempt (tmpFileUnlink_wp (fun s' hs' => hcrash _ ⟨hs', htorn⟩) hs')
  have hexists : ∀ (s' : Store) (m' : Medium), TmpOnly s s' → m'.torn = m.torn →
      wp (fun _ _ => True) (fun s => crash (s, m')) (fileExists c.target)
        (Outcome (fun s => crash (s, m')) fun b s'' => s'' = s' ∧ b = false) s' :=
    fun s' m' hs' htorn => wp_fileStep (hcrash _ ⟨hs', htorn⟩) ⟨rfl, by
      rw [hs'.files]
      exact Bool.eq_false_of_not_eq_true hnew⟩
  simp only [storeFileOps, recorded_bind, recorded_tryCatch, recorded_ite]
  refine wp_seq (R := fun _ t => HasTmp s c.name [] t.1 ∧ t.2.torn = m.torn) ?_ ?_
  · have hcreate : wp (fun _ _ => True) (fun s => crash (s, m)) (tmpFileCreate c.name)
        (Outcome (TmpOnly s) fun _ => HasTmp s c.name []) s := by
      rw [tmpFileCreate, fileStep, wp_lift]
      refine ⟨fun _ => ⟨hcrash _ ⟨hself, rfl⟩, fun _ => hself⟩, ?_⟩
      split
      · exact hself
      · exact ⟨⟨rfl, rfl, rfl⟩, s.tmp, rfl⟩
    exact wp_marked hcreate (fun _ _ h => ⟨h, rfl⟩) fun s' hs' => hcrash _ ⟨hs', rfl⟩
  rintro - ⟨s₁, m₁⟩ ⟨h₁, htorn₁⟩
  refine wp_seq (wp_catch (fillFileOps_wp hcrash h₁ htorn₁) ?_) ?_
  · rintro e ⟨s', m'⟩ ⟨hs', htorn⟩
    exact wp_unmarked (fun _ => rfl) (wp_seq (hunlink s' m' hs' htorn) fun _ s'' hs'' =>
      hcrash _ ⟨hs'', htorn⟩)
  rintro - ⟨s₂, m₂⟩ ⟨h₂, htorn₂, hsynced⟩
  refine wp_seq (R := fun b t => t = (s₂, m₂) ∧ b = false) ?_ ?_
  · exact wp_unmarked (fun _ => rfl) (wp_imp (hexists s₂ m₂ h₂.1 htorn₂) fun b s' hs' =>
      ⟨by rw [hs'.1], hs'.2⟩)
  rintro b t ⟨rfl, rfl⟩
  rw [if_neg Bool.false_ne_true, renameFileOps, recorded_tryCatch]
  have hrename : wp (fun _ _ => True) (fun s => crash (s, m₂)) (tmpFileRename c.name c.target)
      (Outcome (TmpOnly s) fun _ s' => ∃ tmp, s' = { s with
        files := Function.update s.files c.target (some (chunkFile c.data)), tmp := tmp }) s₂ :=
    tmpFileRename_wp (fun _ hs' => hcrash _ ⟨hs', htorn₂⟩) h₂ fun tmp => ⟨tmp, rfl⟩
  have hgiveUp : ∀ s', TmpOnly s s' → TmpWritten s m (s', m₂) := fun _ hs' => ⟨hs', htorn₂⟩
  refine wp_catch (wp_marked hrename ?_ hgiveUp) ?_
  · rintro - s' ⟨tmp, rfl⟩
    refine ⟨tmp, rfl, ?_⟩
    rw [FileOp.mark, hsynced, htorn₂]
    rfl
  · rintro e ⟨s', m'⟩ ⟨hs', htorn⟩
    refine wp_unmarked (fun _ => rfl) (wp_seq (hunlink s' m' hs' htorn) fun _ s₃ h₃ =>
      wp_seq (hexists s₃ m' h₃ htorn) ?_)
    rintro b s₄ ⟨rfl, rfl⟩
    exact hcrash _ ⟨h₃, htorn⟩

end

end PutCall

end ForgeRelay
