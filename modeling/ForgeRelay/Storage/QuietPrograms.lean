import ForgeRelay.Storage.SessionSteps

/-!
# Programs that leave sessions alone

Reading, writing chunk files, registering a part, marking and collecting chunks, deleting an
artifact: each keeps the sessions as they are and adds no artifact, whatever else is going on.
-/

namespace ForgeRelay

open Program Prog

/-- `J` asks for the invariant everywhere, and for no more where nothing is being committed. -/
structure Undemanding (I : Store → Prop) (J : Label → Store → Prop) : Prop where
  start : ∀ {l s}, l.relies = false → I s → J l s
  inv : ∀ {l s}, J l s → I s
  keep : ∀ {s s'}, Quiet s s' → I s → I s'

/-- All steps are quiet. -/
abbrev Peaceful {α : Type} (I : Store → Prop) (J : Label → Store → Prop) (p : StorageM α) : Prop :=
  Steady I J (fun _ => Quiet) p

variable {I : Store → Prop} {J : Label → Store → Prop} {α : Type}

/-- One label for all steps asks for the invariant only. -/
theorem Undemanding.at (h : Undemanding I J) {l : Label} (hl : l.relies = false) :
    Undemanding I fun _ => J l :=
  ⟨fun _ hI => h.start hl hI, h.inv, h.keep⟩

theorem peaceful_lift (h : Undemanding I J) {act : Store → Except Error α × Store}
    (hact : ∀ s, Quiet s (act s).2) : Peaceful I J (.lift .plain act) :=
  Steady.lift (fun _ hI => h.start rfl hI) fun s hJ => ⟨hact s, h.keep (hact s) (h.inv hJ)⟩

private theorem peaceful_labelled (h : Undemanding I J) {l : Label} {p : StorageM α}
    (hl : l.relies = false) (hp : ∀ {J : Label → Store → Prop}, Undemanding I J → Peaceful I J p) :
    Peaceful I J (p.labelled l) :=
  Steady.labelled (hp (h.at hl))

theorem peaceful_tx (h : Undemanding I J) {p : StorageM α}
    (hp : ∀ {J : Label → Store → Prop}, Undemanding I J → Peaceful I J p) : Peaceful I J (tx p) :=
  Steady.transaction (hp (h.at rfl)) (fun _ hI => h.start rfl hI) (fun _ => h.inv) Quiet.refl
    fun _ _ _ => Quiet.trans

private theorem peaceful_ite {c : Prop} [Decidable c] {p q : StorageM α} (hp : Peaceful I J p)
    (hq : Peaceful I J q) : Peaceful I J (if c then p else q) := by
  split
  · exact hp
  · exact hq

theorem peaceful_dbChanges (h : Undemanding I J) {l : Label} (hl : l.relies = false) (rows : Nat) :
    Peaceful I J (dbChanges l rows) :=
  Steady.tryCatch (Steady.lift (fun _ hI => h.start hl hI) fun s hJ => ⟨Quiet.refl s, h.inv hJ⟩)
    fun _ => Steady.pure _

private theorem peaceful_stmt (h : Undemanding I J) {f : Db → Except Error (α × Db)}
    (hf : ∀ db a db', f db = .ok (a, db') →
      db'.uploadSession = db.uploadSession ∧ ∀ r ∈ db'.artifact, r ∈ db.artifact) :
    Peaceful I J (stmt f) := by
  refine peaceful_lift h fun s => ?_
  cases hstep : f s.db with
  | error e => exact Quiet.refl s
  | ok r =>
    obtain ⟨hsession, hartifact⟩ := hf _ _ _ hstep
    exact ⟨hsession, hartifact⟩

theorem peaceful_select (h : Undemanding I J) (f : Db → α) : Peaceful I J (select f) :=
  peaceful_stmt h fun db a db' hstep => by
    cases hstep
    exact ⟨rfl, fun _ => id⟩

theorem peaceful_exec (h : Undemanding I J) {f : Db → Db}
    (hf : ∀ db, (f db).uploadSession = db.uploadSession ∧ (f db).artifact = db.artifact) :
    Peaceful I J (exec f) :=
  peaceful_stmt h fun db a db' hstep => by
    cases hstep
    exact ⟨(hf db).1, fun r hr => (hf db).2 ▸ hr⟩

theorem peaceful_insert (h : Undemanding I J) {f : Db → Except Error Db}
    (hf : ∀ db db', f db = .ok db' →
      db'.uploadSession = db.uploadSession ∧ db'.artifact = db.artifact) :
    Peaceful I J (stmt fun db => (f db).map ((), ·)) := by
  refine peaceful_stmt h fun db a db' hstep => ?_
  cases hrun : f db with
  | error e => simp [hrun, Except.map] at hstep
  | ok db'' =>
    simp only [hrun, Except.map, Except.ok.injEq, Prod.mk.injEq, true_and] at hstep
    obtain ⟨hsession, hartifact⟩ := hf _ _ hrun
    exact hstep ▸ ⟨hsession, fun r hr => hartifact ▸ hr⟩

theorem peaceful_query (h : Undemanding I J) (f : Db → Except Error α) :
    Peaceful I J (stmt fun db => (f db).map (·, db)) := by
  refine peaceful_stmt h fun db a db' hstep => ?_
  cases hrun : f db with
  | error e => simp [hrun, Except.map] at hstep
  | ok b =>
    simp only [hrun, Except.map, Except.ok.injEq, Prod.mk.injEq] at hstep
    exact hstep.2 ▸ ⟨rfl, fun _ => id⟩

theorem peaceful_loadSession (h : Undemanding I J) (sessionId : Bytes) :
    Peaceful I J (loadSession sessionId) := by
  refine Steady.bind (peaceful_select h _) fun found => ?_
  cases found with
  | none => exact Steady.throw _
  | some session => exact Steady.pure _

private theorem peaceful_file (h : Undemanding I J) {act : Store → Except Error α × Store}
    (hact : ∀ s, (act s).2.db = s.db) : Peaceful I J (fileStep act) :=
  peaceful_lift h fun s => ⟨by rw [hact], fun a ha => hact s ▸ ha⟩

private theorem peaceful_attempt {p : StorageM Unit} (hp : Peaceful I J p) :
    Peaceful I J (attempt p) :=
  Steady.tryCatch hp fun _ => Steady.pure ()

private theorem peaceful_chunkPath (digestHex : Bytes) : Peaceful I J (chunkPath digestHex) := by
  unfold chunkPath
  split
  · exact Steady.pure _
  · exact Steady.throw _

private theorem peaceful_tmpFileUnlink (h : Undemanding I J) (name : Bytes) :
    Peaceful I J (tmpFileUnlink name) :=
  peaceful_file h fun _ => rfl

private theorem peaceful_tmpFileFill (h : Undemanding I J) (name data : Bytes) :
    Peaceful I J (tmpFileFill name data) := by
  have hsilent : Peaceful I J silentStep := peaceful_file h fun _ => rfl
  have hwrite : ∀ data, Peaceful I J (tmpFileWrite name data) :=
    fun _ => peaceful_file h fun _ => rfl
  exact Steady.bind (hwrite _) fun _ => Steady.bind (peaceful_ite (hwrite _) (Steady.pure _))
    fun _ => Steady.bind hsilent fun _ => Steady.bind hsilent fun _ => hsilent

private theorem peaceful_tmpFileRename (h : Undemanding I J) (name target : Bytes) :
    Peaceful I J (tmpFileRename name target) := by
  refine peaceful_file h fun s => ?_
  split <;> rfl

private theorem peaceful_writeChunkFile (h : Undemanding I J) (tag target data : Bytes) :
    Peaceful I J (writeChunkFile tag target data) := by
  have hunlink := peaceful_attempt (peaceful_tmpFileUnlink h (tmpFileName tag))
  have hexists : Peaceful I J (fileExists target) := peaceful_file h fun _ => rfl
  refine Steady.bind (peaceful_file h fun s => ?_) fun _ => ?_
  · split <;> rfl
  refine Steady.bind (Steady.tryCatch (peaceful_tmpFileFill h _ data) fun e =>
    Steady.bind hunlink fun _ => Steady.throw e) fun _ => ?_
  refine Steady.bind hexists fun _ => peaceful_ite hunlink ?_
  refine Steady.tryCatch (peaceful_tmpFileRename h _ _) fun e => ?_
  exact Steady.bind hunlink fun _ => Steady.bind hexists fun _ =>
    peaceful_ite (Steady.pure ()) (Steady.throw e)

theorem peaceful_chunkStorePut (h : Undemanding I J) (sha : Sha256) (tag data digestHex : Bytes) :
    Peaceful I J (chunkStorePut sha tag data digestHex) :=
  peaceful_ite (Steady.throw _) <| peaceful_ite (Steady.throw _) <|
    Steady.bind (peaceful_chunkPath _) fun target =>
      Steady.bind (peaceful_file h fun _ => rfl) fun _ =>
        peaceful_ite (Steady.pure ()) (peaceful_writeChunkFile h tag target data)

private theorem peaceful_chunkStoreGet (h : Undemanding I J) (digestHex : Bytes) :
    Peaceful I J (chunkStoreGet digestHex) := by
  refine peaceful_ite (Steady.throw _) (Steady.bind (peaceful_chunkPath _) fun path => ?_)
  refine peaceful_file h fun s => ?_
  split <;> rfl

private theorem peaceful_chunkStoreRemove (h : Undemanding I J) (digestHex : Bytes) :
    Peaceful I J (chunkStoreRemove digestHex) :=
  Steady.bind (peaceful_chunkPath _) fun _ => peaceful_file h fun _ => rfl

private theorem peaceful_unlinkTempFiles (h : Undemanding I J) (names : List Bytes) :
    Peaceful I J (unlinkTempFiles names) := by
  induction names with
  | nil => exact Steady.pure _
  | cons name rest ih =>
    refine Steady.bind (peaceful_ite (Steady.tryCatch ?_ fun _ => Steady.pure _) (Steady.pure _))
      fun _ => Steady.bind ih fun _ => Steady.pure _
    exact Steady.bind (peaceful_tmpFileUnlink h name) fun _ => Steady.pure _

theorem peaceful_cleanupTempFiles (h : Undemanding I J) : Peaceful I J cleanupTempFiles :=
  Steady.bind (peaceful_file h fun _ => rfl) fun names => peaceful_unlinkTempFiles h names

theorem peaceful_readChunks (h : Undemanding I J) (manifest : List ManifestEntry) :
    Peaceful I J (readChunks manifest) := by
  induction manifest with
  | nil => exact Steady.pure _
  | cons entry entries ih =>
    exact Steady.bind (peaceful_chunkStoreGet h _) fun _ => Steady.bind ih fun _ => Steady.pure _

private theorem peaceful_chunkReferenced (h : Undemanding I J) (digest : Bytes) :
    Peaceful I J (chunkReferenced digest) :=
  Steady.bind (peaceful_select h _) fun _ =>
    peaceful_ite (Steady.pure _) (peaceful_select h _)

private theorem peaceful_markIfUnreferenced (h : Undemanding I J) (now : Int64) (digest : Bytes) :
    Peaceful I J (markIfUnreferenced now digest) :=
  Steady.bind (peaceful_chunkReferenced h _) fun _ =>
    peaceful_ite (Steady.pure _) (peaceful_exec h fun _ => ⟨rfl, rfl⟩)

private theorem peaceful_markAllUnreferenced (h : Undemanding I J) (now : Int64)
    (digests : List Bytes) :
    Peaceful I J (markAllUnreferenced now digests) := by
  induction digests with
  | nil => exact Steady.pure _
  | cons digest rest ih =>
    exact Steady.bind (peaceful_labelled h rfl fun h => peaceful_markIfUnreferenced h now digest)
      fun _ => ih

theorem peaceful_markUnreferencedParts (h : Undemanding I J) (sessionId : Bytes) (now : Int64) :
    Peaceful I J (markUnreferencedParts sessionId now) :=
  Steady.bind (peaceful_select h _) fun digests =>
    Steady.bind (peaceful_exec h fun _ => ⟨rfl, rfl⟩) fun _ =>
      peaceful_markAllUnreferenced h now digests

private theorem peaceful_markAllDeleted (h : Undemanding I J) (now : Int64) (digests : List Bytes) :
    Peaceful I J (markAllDeleted now digests) := by
  induction digests with
  | nil => exact Steady.pure _
  | cons digest rest ih =>
    refine Steady.bind (Steady.bind (peaceful_chunkReferenced h _) fun _ => peaceful_ite
      (Steady.pure _) (peaceful_stmt h fun db a db' hstep => ?_))
      fun _ => Steady.bind ih fun _ => Steady.pure _
    cases hstep
    exact ⟨rfl, fun _ => id⟩

theorem peaceful_deleteArtifact (h : Undemanding I J) (env : CallEnv) (ns name version : Bytes) :
    Peaceful I J (deleteArtifact env ns name version) := by
  refine peaceful_tx h fun h => Steady.bind (peaceful_select h _) fun found => ?_
  cases found with
  | none => exact Steady.throw _
  | some row =>
    refine Steady.bind (peaceful_select h _) fun manifest => ?_
    have hdelete : Peaceful I _ (exec (·.deleteArtifact row.id)) :=
      peaceful_stmt h fun db a db' hstep => by
        cases hstep
        exact ⟨rfl, fun r hr => (Table.mem_delete.mp hr).1⟩
    exact Steady.bind hdelete fun _ => Steady.bind (peaceful_markAllDeleted h _ _) fun _ =>
      Steady.pure _

private theorem peaceful_collectCandidate (h : Undemanding I J) (cfg : StorageConfig)
    (env : CallEnv) (dryRun : Bool) (candidate : Bytes × Int64 × Int64) (report : GcReport) :
    Peaceful I J (collectCandidate cfg env dryRun candidate report) := by
  refine peaceful_ite (Steady.pure _) (Steady.bind (peaceful_chunkReferenced h _) fun _ => ?_)
  refine peaceful_ite (Steady.bind (peaceful_exec h fun _ => ⟨rfl, rfl⟩) fun _ => Steady.pure _) ?_
  refine peaceful_ite (Steady.pure _) (Steady.bind (peaceful_chunkStoreRemove h _) fun _ => ?_)
  exact Steady.bind (peaceful_exec h fun _ => ⟨rfl, rfl⟩) fun _ => Steady.pure _

theorem peaceful_collectGarbage (h : Undemanding I J) (cfg : StorageConfig) (env : CallEnv)
    (dryRun : Bool) : Peaceful I J (collectGarbage cfg env dryRun) := by
  refine Steady.bind (peaceful_select h _) fun candidates => ?_
  generalize (⟨Int64.ofNat candidates.length, 0, 0⟩ : GcReport) = report
  induction candidates generalizing report with
  | nil => exact Steady.pure _
  | cons candidate rest ih =>
    exact Steady.bind (peaceful_collectCandidate h cfg env dryRun candidate report) fun report =>
      ih report

theorem peaceful_registerPart (h : Undemanding I J) (now : Int64) (sessionId : Bytes)
    (ordinal : UInt64) (data digestHex : Bytes) :
    Peaceful I J (registerPart now sessionId ordinal data digestHex) := by
  refine Steady.bind (peaceful_select h _) fun found => ?_
  cases found with
  | some existing => exact peaceful_ite (Steady.pure _) (Steady.throw _)
  | none =>
    refine Steady.bind (peaceful_exec h fun db => ?_) fun _ =>
      Steady.bind (peaceful_exec h fun _ => ⟨rfl, rfl⟩) fun _ =>
        Steady.bind (peaceful_insert h fun db db' hinsert => ?_) fun _ => Steady.pure _
    · obtain ⟨hsame, huploads⟩ := insertChunkOrIgnore_same db
        ⟨digestHex, (UInt64.ofNat data.length).toInt64, (UInt64.ofNat data.length).toInt64, .active,
          none, now⟩
      exact ⟨huploads.uploadSession, hsame.artifact⟩
    · obtain rfl := Db.insertPart_ok hinsert
      exact ⟨rfl, rfl⟩

end ForgeRelay
