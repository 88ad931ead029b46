import ForgeRelay.Storage.Disk
import ForgeRelay.Storage.Steps

/-!
# Power losses

A power loss takes every process and whatever is not on the disk. A committed transaction is, and
so are the data of a chunk file; a directory entry is only if its directory has been synced, which
storage does not do, or if it has been read back behind an earlier power loss.
-/

namespace ForgeRelay

open Program Prog

variable {sha : Sha256} {s s' : Store}

/-- Every chunk in the manifest of a published artifact has its file, and the file is whole. -/
def ChunksWhole (sha : Sha256) (s : Store) : Prop :=
  ∀ a ∈ s.db.artifact, ∀ e ∈ s.db.manifest a.id, ∃ data, e.digest = sha.hex data ∧
    s.files (relPath e.digest) = some (chunkFile data)

/-- Storage, the data of its files that are on the disk, and the directory entries of chunk files
that are, with what they lead to. -/
structure Disk where
  sys : System
  medium : Medium
  entries : Bytes → Option Bytes

/-- Nothing is waiting to be written. -/
def Medium.clean : Medium := ⟨fun _ => false, fun _ => false⟩

/-- A fresh root. -/
def Disk.initial : Disk := ⟨.initial, .clean, fun _ => none⟩

/-- What a power loss may leave at a path: what the entry on the disk leads to, or the file of the
entry that is not there yet, with any content if it is torn. -/
def Disk.Leaves (d : Disk) (path : Bytes) (content : Option Bytes) : Prop :=
  content = d.entries path ∨ content.isSome = (d.sys.store.files path).isSome ∧
    (d.medium.torn path = false → content = d.sys.store.files path)

/-- Uploads: the root is opened, its recovery included, sessions are created, chunks are put, and
sessions are committed. -/
def Event.uploads (e : Event) : Bool :=
  match e.action with
  | .open _ | .close | .call (.createSession ..) | .call (.putChunk ..)
  | .call (.commitSession _) => true
  | _ => false

/-- What happens to a disk. -/
inductive DiskEvent
  | action (e : Event)
  | powerLoss

/-- The call of `put_chunk` with its file operations named. -/
def PutCall.callOps (c : PutCall) : Prog Store FileOp Error Unit := do
  let _ ← c.programOps

/-- One action, which may stop in the middle, or a power loss. Only `put_chunk` writes files. -/
inductive Disk.Step (sha : Sha256) : Disk → DiskEvent → Disk → Prop
  | action {sys sys' : System} {m : Medium} {entries : Bytes → Option Bytes} {e : Event}
      (hstep : System.Step sha anywhere sys e sys') (huploads : e.uploads = true)
      (hput : e.chunk? = none) : Step sha ⟨sys, m, entries⟩ (.action e) ⟨sys', m, entries⟩
  | put {s s' : Store} {m m' : Medium} {entries : Bytes → Option Bytes} {cfg : StorageConfig}
      {env : CallEnv} {sessionId data : Bytes} {ordinal : UInt64}
      {r : Option (Except Error Unit)} (hexec : Exec (fun _ _ => True)
        ((PutCall.mk sha env sessionId ordinal data).callOps.recorded FileOp.mark)
        (s, m) r (s', m')) :
      Step sha ⟨⟨s, some cfg⟩, m, entries⟩
        (.action ⟨.call (.putChunk sessionId ordinal data), env, returnedOk r⟩)
        ⟨⟨s', r.map fun _ => cfg⟩, m', entries⟩
  | powerLoss {d : Disk} {files : Bytes → Option Bytes} {tmp : List (Bytes × Bytes)}
      (hfiles : ∀ path, d.Leaves path (files path)) :
      Step sha d .powerLoss ⟨⟨⟨d.sys.store.db, files, tmp, 0⟩, none⟩, .clean, files⟩

private theorem PutCall.callOps_tag (c : PutCall) (cfg : StorageConfig) : c.callOps.tag () =
    ((Call.putChunk c.sessionId c.ordinal c.data).program c.sha cfg c.env).tag () := by
  rw [callOps, tag_bind, c.programOps_tag]
  exact (tag_bind c.program fun _ => Pure.pure ()).symm

/-- Whatever is recorded about the disk, the actions are those of the machine. -/
theorem Disk.Step.machine {d d' : Disk} {e : Event} (h : Disk.Step sha d (.action e) d') :
    System.Step sha anywhere d.sys e d'.sys := by
  cases h with
  | action hstep => exact hstep
  | @put s s' m m' entries cfg env sessionId data ordinal r hexec =>
    refine .call (Exec.of_tag () ?_)
    have htag := (PutCall.mk sha env sessionId ordinal data).callOps_tag cfg
    exact htag ▸ hexec.of_recorded.tag ()

private theorem Disk.exists_step {sys sys' : System} {e : Event}
    (h : System.Step sha anywhere sys e sys')
    (huploads : e.uploads = true) (m : Medium) (entries : Bytes → Option Bytes) :
    ∃ m', Disk.Step sha ⟨sys, m, entries⟩ (.action e) ⟨sys', m', entries⟩ := by
  by_cases hput : e.chunk? = none
  · exact ⟨m, .action h huploads hput⟩
  cases h with
  | «open» => exact absurd rfl hput
  | close => exact absurd rfl hput
  | @call s s' cfg call env r hexec =>
    cases call with
    | putChunk sessionId ordinal data =>
      have htag := (PutCall.mk sha env sessionId ordinal data).callOps_tag cfg
      obtain ⟨m', hrecord⟩ :=
        (Exec.of_tag () (htag ▸ Exec.tag hexec ())).exists_record FileOp.mark m
      exact ⟨m', .put hrecord⟩
    | _ => exact absurd rfl hput

/-- Chunk files are whole and have the name of their content; a chunk that a part or a manifest
refers to is one of some content, and in a manifest it has its file. A manifest has its artifact. -/
structure Sound (sha : Sha256) (s : Store) : Prop where
  files : ∀ path content, s.files path = some content →
    ∃ data, path = relPath (sha.hex data) ∧ content = chunkFile data
  parts : ∀ p ∈ s.db.uploadPart, ∃ data, p.digest = sha.hex data
  owned : ∀ r ∈ s.db.artifactChunk, ∃ a ∈ s.db.artifact, a.id = r.artifactId
  chunks : ∀ r ∈ s.db.artifactChunk, (∃ data, r.entry.digest = sha.hex data) ∧
    (s.files (relPath r.entry.digest)).isSome

theorem Sound.file (h : Sound sha s) {digest : Bytes} (hdigest : ∃ data, digest = sha.hex data)
    (hfile : (s.files (relPath digest)).isSome) :
    ∃ data, digest = sha.hex data ∧ s.files (relPath digest) = some (chunkFile data) := by
  obtain ⟨data, rfl⟩ := hdigest
  obtain ⟨content, hcontent⟩ := Option.isSome_iff_exists.mp hfile
  obtain ⟨data', hpath, rfl⟩ := h.files _ _ hcontent
  have hhex : sha.hex data = sha.hex data' :=
    relPath_injective (sha.hex_length _) (sha.hex_length _) hpath
  exact ⟨data', hhex, hcontent⟩

private theorem Sound.chunksWhole (h : Sound sha s) : ChunksWhole sha s := by
  intro a _ e he
  obtain ⟨r, hr, -, rfl⟩ := Db.mem_manifest.mp he
  obtain ⟨hdigest, hfile⟩ := h.chunks r hr
  exact h.file hdigest hfile

/-- No file and no artifact is touched, and the parts that come are those of contents. -/
structure BringsParts (sha : Sha256) (s s' : Store) : Prop where
  files : s'.files = s.files
  artifacts : SameArtifacts s.db s'.db
  parts : ∀ p ∈ s'.db.uploadPart, p ∈ s.db.uploadPart ∨ ∃ data, p.digest = sha.hex data

namespace BringsParts

theorem of_same (hfiles : s'.files = s.files) (hartifact : s'.db.artifact = s.db.artifact)
    (hseq : s'.db.artifactSeq = s.db.artifactSeq)
    (hmanifest : s'.db.artifactChunk = s.db.artifactChunk)
    (hparts : s'.db.uploadPart ⊆ s.db.uploadPart) : BringsParts sha s s' :=
  ⟨hfiles, ⟨hartifact, hseq, hmanifest⟩, fun _ hp => .inl (hparts hp)⟩

theorem trans {s'' : Store} (h : BringsParts sha s s') (h' : BringsParts sha s' s'') :
    BringsParts sha s s'' := by
  refine ⟨h'.files.trans h.files, ⟨h'.artifacts.artifact.trans h.artifacts.artifact,
    h'.artifacts.artifactSeq.trans h.artifacts.artifactSeq,
    h'.artifacts.artifactChunk.trans h.artifacts.artifactChunk⟩, fun p hp => ?_⟩
  rcases h'.parts p hp with hp | hp
  · exact h.parts p hp
  · exact .inr hp

private theorem sound (h : BringsParts sha s s') (hs : Sound sha s) : Sound sha s' where
  files path content hfile := hs.files path content (h.files ▸ hfile)
  parts p hp := (h.parts p hp).elim (hs.parts p) id
  owned r hr := by
    rw [h.artifacts.artifactChunk] at hr
    rw [h.artifacts.artifact]
    exact hs.owned r hr
  chunks r hr := by
    rw [h.artifacts.artifactChunk] at hr
    rw [h.files]
    exact hs.chunks r hr

end BringsParts

def bringsParts (sha : Sha256) : Bound Store Error where
  inv _ := True
  rel := BringsParts sha
  err _ := True
  refl _ := .of_same rfl rfl rfl rfl (List.Subset.refl _)
  trans := .trans

private theorem bringsParts_spares (sha : Sha256) (now : Int64) :
    SparesParts now (bringsParts sha) (fun _ => True) fun _ => True where
  fr _ _ _ := trivial
  reserve := trivial
  scratch _ hdb hfiles :=
    ⟨.of_same hfiles (by rw [hdb]) (by rw [hdb]) (by rw [hdb]) (by rw [hdb]; exact fun _ => id),
      trivial⟩
  insertChunk {s row} _ _ _ := by
    obtain ⟨hsame, hdb⟩ := insertChunkOrIgnore_same s.db row
    exact ⟨⟨rfl, hsame, fun p hp => .inl (hdb.uploadPart ▸ hp)⟩, trivial⟩
  reactivate _ := ⟨.of_same rfl rfl rfl rfl fun _ => id, trivial⟩
  markPending _ := ⟨.of_same rfl rfl rfl rfl fun _ => id, trivial⟩
  setSessionState _ _ := ⟨.of_same rfl rfl rfl rfl fun _ => id, trivial⟩
  insertSession _ _ hdb := by
    rw [Db.insertSession_ok hdb]
    exact ⟨.of_same rfl rfl rfl rfl fun _ => id, trivial⟩
  deleteParts _ := ⟨.of_same rfl rfl rfl rfl fun _ hp => (Table.mem_delete.mp hp).1, trivial⟩
  sessions _ _ _ := trivial
  parts _ _ _ := trivial
  dataLength _ _ _ := trivial

private theorem stays_registerPart {now : Int64} {sessionId data : Bytes} {ordinal : UInt64} :
    Stays (bringsParts sha) (registerPart now sessionId ordinal data (sha.hex data)) := by
  refine .seq (within_select _) fun found => ?_
  cases found with
  | some existing => exact .ite (fun _ => .pure trivial) fun _ => .throw trivial
  | none =>
    have hspares := bringsParts_spares sha now
    refine .seq (within_exec fun hs => hspares.insertChunk hs rfl trivial) fun _ =>
      .seq (within_exec hspares.reactivate) fun _ =>
        .seq (within_insert (fun {s db} _ hdb => ⟨⟨?_, ?_, fun p hp => ?_⟩, trivial⟩)
          fun _ => trivial) fun _ => .pure trivial
    · rfl
    · rw [Db.insertPart_ok hdb]
      exact ⟨rfl, rfl, rfl⟩
    · rw [Db.insertPart_ok hdb] at hp
      rcases List.mem_append.mp hp with hp | hp
      · exact .inl hp
      · rw [List.mem_singleton] at hp
        exact .inr ⟨data, by rw [hp]⟩

/-- Chunk files are as before, and the store is sound. -/
def Unfiled (sha : Sha256) (s s' : Store) : Prop := Sound sha s' ∧ s'.files = s.files

private theorem unfiled_of_stays {α : Type} {p : StorageM α} (hp : Stays (bringsParts sha) p)
    {s₀ : Store} (hs : Unfiled sha s₀ s) :
    wp anywhere (Unfiled sha s₀) p (Outcome (Unfiled sha s₀) fun _ => Unfiled sha s₀) s := by
  refine wp_of_exec fun r s' hexec => ?_
  have hbrings : BringsParts sha s s' := (hp.exec hexec (fun _ => trivial) trivial).1
  have hs' : Unfiled sha s₀ s' := ⟨hbrings.sound hs.1, hbrings.files.trans hs.2⟩
  rcases r with _ | _ | _ <;> exact hs'

/-- Every chunk of the manifest is that of a content and has its file. -/
def Filed (sha : Sha256) (s : Store) (manifest : List ManifestEntry) : Prop :=
  ∀ e ∈ manifest, (∃ data, e.digest = sha.hex data) ∧ (s.files (relPath e.digest)).isSome

private theorem chunkStoreGet_filed {data : Bytes} {crash : Store → Prop} (hcrash : crash s) :
    wp anywhere crash (chunkStoreGet (sha.hex data)) (Outcome (· = s) fun _ s' =>
      s' = s ∧ (s.files (relPath (sha.hex data))).isSome) s := by
  rw [chunkStoreGet, chunkStoreGetRange_hex, fileStep, wp_lift]
  refine ⟨fun _ => ⟨hcrash, fun _ => rfl⟩, ?_⟩
  cases hfile : s.files (relPath (sha.hex data)) with
  | none => exact rfl
  | some content =>
    dsimp only
    cases chunkFileRange content 0 (UInt64.ofNat (2^64 - 1)) with
    | error e => exact rfl
    | ok bytes => exact ⟨rfl, rfl⟩

private theorem readChunks_filed {manifest : List ManifestEntry} {crash : Store → Prop}
    (hcrash : crash s) (hmanifest : ∀ e ∈ manifest, ∃ data, e.digest = sha.hex data) :
    wp anywhere crash (readChunks manifest) (Outcome (· = s) fun _ s' =>
      s' = s ∧ Filed sha s manifest) s := by
  induction manifest with
  | nil => exact ⟨rfl, fun _ h => by cases h⟩
  | cons entry entries ih =>
    obtain ⟨⟨data, hdigest⟩, hrest⟩ := List.forall_mem_cons.mp hmanifest
    rw [readChunks, hdigest]
    refine wp_seq (chunkStoreGet_filed hcrash) ?_
    rintro bytes s' ⟨rfl, hfile⟩
    refine wp_seq (ih hrest) ?_
    rintro others s'' ⟨rfl, hfiled⟩
    refine ⟨rfl, List.forall_mem_cons.mpr ⟨⟨⟨data, hdigest⟩, ?_⟩, hfiled⟩⟩
    rw [hdigest]
    exact hfile

private theorem scanParts_digests {chunkSize total total' : UInt64} {ordinal : Int64}
    {acc manifest : List ManifestEntry} {parts : List PartRow}
    (hparts : ∀ p ∈ parts, ∃ data, p.digest = sha.hex data)
    (hacc : ∀ e ∈ acc, ∃ data, e.digest = sha.hex data)
    (hscan : scanParts chunkSize ordinal total acc parts = .ok (manifest, total')) :
    ∀ e ∈ manifest, ∃ data, e.digest = sha.hex data := by
  induction parts generalizing ordinal total acc with
  | nil =>
    cases hscan
    exact fun e he => hacc e (List.mem_reverse.mp he)
  | cons part parts ih =>
    obtain ⟨hpart, hparts⟩ := List.forall_mem_cons.mp hparts
    rw [scanParts] at hscan
    split at hscan
    · cases hscan
    split at hscan
    · cases hscan
    exact ih hparts (List.forall_mem_cons.mpr ⟨hpart, hacc⟩) hscan

/-- Chunk files are as before, the store is sound, and there is an artifact of this id. -/
def PublishedAs (sha : Sha256) (s : Store) (id : Nat) (s' : Store) : Prop :=
  Unfiled sha s s' ∧ ∃ a ∈ s'.db.artifact, a.id = id

private theorem insertEntry_published {s₀ : Store} {id : Nat} {e : ManifestEntry}
    (hs : PublishedAs sha s₀ id s)
    (he : (∃ data, e.digest = sha.hex data) ∧ (s₀.files (relPath e.digest)).isSome) :
    wp (fun _ _ => False) (fun _ => True) (do
      exec (·.reactivate (ChunkRow.isPending e.digest))
      stmt fun db => (db.insertArtifactChunk ⟨id, e⟩).map ((), ·))
      (Outcome (fun _ => True) fun _ => PublishedAs sha s₀ id) s := by
  refine wp_seq (wp_exec' (f := (·.reactivate (ChunkRow.isPending e.digest)))
    (R := fun _ => PublishedAs sha s₀ id) trivial
    ⟨⟨⟨hs.1.1.files, hs.1.1.parts, hs.1.1.owned, hs.1.1.chunks⟩, hs.1.2⟩, hs.2⟩) ?_
  rintro - s₃ ⟨⟨hs₃, hfiles⟩, hartifact⟩
  refine wp_stmt trivial fun _ db hdb => ?_
  cases hinsert : s₃.db.insertArtifactChunk ⟨id, e⟩ with
  | error err =>
    rw [hinsert] at hdb
    cases hdb
  | ok db' =>
    rw [hinsert] at hdb
    cases hdb
    rw [Db.insertArtifactChunk_ok hinsert]
    refine ⟨⟨⟨hs₃.files, hs₃.parts, fun r hr => ?_, fun r hr => ?_⟩, hfiles⟩, hartifact⟩
    · rcases List.mem_append.mp hr with hr | hr
      · exact hs₃.owned r hr
      · rw [List.mem_singleton] at hr
        rw [hr]
        exact hartifact
    · rcases List.mem_append.mp hr with hr | hr
      · exact hs₃.chunks r hr
      · rw [List.mem_singleton] at hr
        rw [hr, hfiles]
        exact he

private theorem publish_unfiled {now : Int64} {session : SessionInfo}
    {manifest : List ManifestEntry} (hs : Sound sha s) (hmanifest : Filed sha s manifest) :
    wp (fun _ _ => False) (fun _ => True) (publish now session manifest)
      (Outcome (fun _ => True) fun _ => Unfiled sha s) s := by
  unfold publish
  refine wp_seq (wp_select' (R := fun _ s' => s' = s) trivial rfl) ?_
  rintro found s' rfl
  split
  · exact ⟨hs, rfl⟩
  refine wp_seq (R := fun id => PublishedAs sha s' id) (wp_stmt trivial fun id db hdb => ?_) ?_
  · obtain ⟨rfl, rfl⟩ := Db.insertArtifact_ok hdb
    refine ⟨⟨⟨hs.files, hs.parts, fun r hr => ?_, hs.chunks⟩, rfl⟩, _,
      List.mem_append_right _ (List.mem_singleton_self _), rfl⟩
    obtain ⟨a, ha, hid⟩ := hs.owned r hr
    exact ⟨a, List.mem_append_left _ ha, hid⟩
  rintro id s₁ ⟨hs₁, hartifact⟩
  have hset : ∀ s₂, Unfiled sha s' s₂ → wp (fun _ _ => False) (fun _ => True)
      (do exec (·.setSessionState (·.id == session.id) .completed); Pure.pure (some id) :
        StorageM _)
      (Outcome (fun _ => True) fun _ => Unfiled sha s') s₂ := fun s₂ hs₂ =>
    wp_seq (wp_exec' (R := fun _ => Unfiled sha s') trivial
      ⟨⟨hs₂.1.files, hs₂.1.parts, hs₂.1.owned, hs₂.1.chunks⟩, hs₂.2⟩) fun _ _ h => h
  refine wp_seq (R := fun _ => Unfiled sha s') ?_ fun _ => hset
  refine wp_forM (fun _ => PublishedAs sha s' id) (fun e rest s₂ hsuffix hs₂ => ?_)
    (fun _ h => h.1) ⟨hs₁, hartifact⟩
  refine wp_mono (insertEntry_published hs₂ (hmanifest e (hsuffix.subset List.mem_cons_self)))
    fun r s₃ hr => ?_
  cases r with
  | error err => trivial
  | ok u => exact hr

private theorem rollbackAndThrow_unfiled {α : Type} {R : α → Store → Prop} {s₀ : Store}
    {sessionId : Bytes} {e : Error} (hs : Unfiled sha s₀ s) :
    wp anywhere (Unfiled sha s₀) (rollbackAndThrow sessionId e) (Outcome (Unfiled sha s₀) R) s := by
  have hstays : Stays (bringsParts sha) (rollbackToOpen sessionId) :=
    .seq ((bringsParts_spares sha 0).transition _ fun _ => rfl) fun _ => .pure trivial
  exact wp_seq (unfiled_of_stays hstays hs) fun _ _ h => h

private theorem commitBody_unfiled (now : Int64) (session : SessionInfo) (hs : Sound sha s) :
    wp anywhere (Unfiled sha s) (commitBody sha now session)
      (Outcome (Unfiled sha s) fun _ => Unfiled sha s) s := by
  have hself : Unfiled sha s s := ⟨hs, rfl⟩
  refine wp_seq (wp_labelled.mpr (reserveManifest_wp hself)) ?_
  rintro - s' ⟨rfl, -⟩
  refine wp_seq (wp_labelled.mpr (wp_select' (R := fun parts s₁ => s₁ = s' ∧
    parts = s'.db.partsByOrdinal session.id) hself ⟨rfl, rfl⟩)) ?_
  rintro parts s₁ ⟨rfl, rfl⟩
  cases hscan : scanParts session.chunkSize 0 0 [] (s₁.db.partsByOrdinal session.id) with
  | error e => exact rollbackAndThrow_unfiled hself
  | ok scanned =>
    obtain ⟨manifest, total⟩ := scanned
    have hdigests : ∀ e ∈ manifest, ∃ data, e.digest = sha.hex data :=
      scanParts_digests (fun p hp => hs.parts p (Db.mem_partsByOrdinal.mp hp).1) (by simp) hscan
    dsimp only
    split
    · exact rollbackAndThrow_unfiled hself
    split
    · exact rollbackAndThrow_unfiled hself
    refine wp_seq (wp_catch (wp_labelled.mpr (readChunks_filed hself hdigests)) ?_) ?_
    · rintro e s' rfl
      exact rollbackAndThrow_unfiled hself
    rintro content s' ⟨rfl, hfiled⟩
    split
    · exact rollbackAndThrow_unfiled hself
    refine wp_seq (wp_labelled.mpr (wp_atomic hself hself (publish_unfiled hs hfiled))) ?_
    rintro (_ | id) s₂ hs₂
    · exact rollbackAndThrow_unfiled hs₂
    · exact hs₂

private theorem commitSession_unfiled {env : CallEnv} {sessionId : Bytes} (hs : Sound sha s) :
    wp anywhere (Unfiled sha s) (commitSession sha env sessionId)
      (Outcome (Unfiled sha s) fun _ => Unfiled sha s) s := by
  have hspares := bringsParts_spares sha env.now
  refine wp_seq (unfiled_of_stays (hspares.loadSession sessionId).stays ⟨hs, rfl⟩)
    fun session s₁ hs₁ => ?_
  refine wp_seq (unfiled_of_stays (hspares.expireSessionIfDue session) hs₁) fun _ s₂ hs₂ => ?_
  refine wp_seq (unfiled_of_stays (hspares.transition _ fun _ => rfl) hs₂) fun changed s₃ hs₃ => ?_
  split
  · have hbody := commitBody_unfiled env.now session hs₃.1
    refine wp_of_exec fun r s' hexec => ?_
    have hs' : Unfiled sha s₃ s' := wp_everywhere hbody hexec
    have hs'' : Unfiled sha s s' := ⟨hs'.1, hs'.2.trans hs₃.2⟩
    rcases r with _ | _ | _ <;> exact hs''
  · refine wp_seq (unfiled_of_stays (hspares.loadSession sessionId).stays hs₃)
      fun session' s₄ hs₄ => ?_
    split <;> exact hs₄

/-- The store is sound, chunk files have stayed, and none of them is torn. -/
structure Grown (sha : Sha256) (s : Store) (t : Store × Medium) : Prop where
  sound : Sound sha t.1
  stays : ∀ path content, s.files path = some content → t.1.files path = some content
  whole : ∀ path, (t.1.files path).isSome → t.2.torn path = false

private theorem Grown.of_files {s₀ : Store} {m m' : Medium} (h : Grown sha s₀ (s, m))
    (hs : Sound sha s')
    (hfiles : s'.files = s.files) (htorn : m'.torn = m.torn) : Grown sha s₀ (s', m') where
  sound := hs
  stays path content hfile := by
    rw [hfiles]
    exact h.stays path content hfile
  whole path hfile := by
    rw [htorn]
    exact h.whole path (by rw [← hfiles]; exact hfile)

private theorem grown_of_stays {α : Type} {p : StorageM α} (hp : Stays (bringsParts sha) p)
    {s₀ : Store} {m : Medium} (h : Grown sha s₀ (s, m)) :
    wp (fun _ _ => True) (Grown sha s₀) ((unnamed p).recorded FileOp.mark)
      (Outcome (Grown sha s₀) fun _ => Grown sha s₀) (s, m) := by
  refine wp_unmarked (fun _ => rfl) (wp_of_exec fun r s' hexec => ?_)
  have hbrings : BringsParts sha s s' := (hp.exec hexec (fun _ => trivial) trivial).1
  have hs' : Grown sha s₀ (s', m) := h.of_files (hbrings.sound h.sound) hbrings.files rfl
  rcases r with _ | _ | _ <;> exact hs'

theorem Sound.congr (h : Sound sha s) (hdb : s'.db = s.db) (hfiles : s'.files = s.files) :
    Sound sha s' :=
  ⟨fun path content => hfiles ▸ h.files path content, hdb ▸ h.parts, hdb ▸ h.owned, fun r hr => by
    rw [hfiles]
    exact h.chunks r (hdb ▸ hr)⟩

theorem Sound.addFile (h : Sound sha s) (data : Bytes) (tmp : List (Bytes × Bytes)) :
    Sound sha { s with
      files := Function.update s.files (relPath (sha.hex data)) (some (chunkFile data))
      tmp := tmp } where
  files path content hfile := by
    dsimp only at hfile
    by_cases hpath : path = relPath (sha.hex data)
    · subst hpath
      rw [Function.update_self] at hfile
      exact ⟨data, rfl, (Option.some.inj hfile).symm⟩
    · rw [Function.update_of_ne hpath] at hfile
      exact h.files path content hfile
  parts := h.parts
  owned := h.owned
  chunks r hr := by
    obtain ⟨hdigest, hfile⟩ := h.chunks r hr
    refine ⟨hdigest, ?_⟩
    dsimp only
    by_cases hpath : relPath r.entry.digest = relPath (sha.hex data)
    · rw [hpath, Function.update_self]
      rfl
    · rw [Function.update_of_ne hpath]
      exact hfile

namespace PutCall

variable (c : PutCall)

private theorem stays_check : Stays (bringsParts c.sha) c.check := by
  have hspares := bringsParts_spares c.sha c.env.now
  refine .seq (hspares.loadSession _).stays fun session =>
    .seq (hspares.expireSessionIfDue session) fun _ => .seq (hspares.loadSession _).stays
      fun session => ?_
  repeat' refine .ite (fun _ => .throw trivial) fun _ => ?_
  exact .pure trivial

private theorem chunkStorePutOps_grown {s₀ : Store} {m : Medium} (h : Grown c.sha s₀ (s, m)) :
    wp (fun _ _ => True) (Grown c.sha s₀) (c.chunkStorePutOps.recorded FileOp.mark)
      (Outcome (Grown c.sha s₀) fun _ => Grown c.sha s₀) (s, m) := by
  have htmp : ∀ t, TmpWritten s m t → Grown c.sha s₀ t := fun t ht =>
    h.of_files (h.sound.congr ht.1.db ht.1.files) ht.1.files ht.2
  simp only [chunkStorePutOps, recorded_bind, recorded_ite, recorded_pure]
  refine wp_seq (R := fun there t => t = (s, m) ∧ there = (s.files c.target).isSome) ?_ ?_
  · exact wp_unmarked (fun _ => rfl) (wp_fileStep h ⟨rfl, rfl⟩)
  rintro there t ⟨rfl, rfl⟩
  split
  · exact h
  rename_i hnew
  refine wp_imp (storeFileOps_wp htmp hnew) ?_
  rintro - ⟨s', m'⟩ ⟨tmp, hs', htorn⟩
  obtain rfl : s' = _ := hs'
  refine ⟨h.sound.addFile c.data tmp, fun path content hfile => ?_, fun path hfile => ?_⟩
  · have hfile' := h.stays path content hfile
    have hpath : path ≠ c.target := by
      rintro rfl
      rw [hfile'] at hnew
      exact hnew rfl
    exact (Function.update_of_ne hpath _ _).trans hfile'
  · rw [htorn]
    by_cases hpath : path = c.target
    · rw [hpath, Function.update_self]
    · rw [Function.update_of_ne hpath]
      refine h.whole path ?_
      rw [← hfile]
      exact congrArg Option.isSome (Function.update_of_ne hpath _ _).symm

/-- A put leaves whole chunk files behind, wherever it stops. -/
private theorem callOps_grown {s₀ : Store} {m : Medium} (h : Grown c.sha s₀ (s, m)) :
    wp (fun _ _ => True) (Grown c.sha s₀) (c.callOps.recorded FileOp.mark)
      (Outcome (Grown c.sha s₀) fun _ => Grown c.sha s₀) (s, m) := by
  simp only [callOps, programOps, recorded_bind]
  refine wp_seq (wp_seq (grown_of_stays c.stays_check h) fun _ t ht => ?_) fun _ _ h => h
  refine wp_seq (c.chunkStorePutOps_grown ht) fun _ t ht => ?_
  exact grown_of_stays (.transaction stays_registerPart) ht

end PutCall

/-- The store is sound, no chunk file is torn, and what is on the disk is there. -/
structure Disk.Inv (sha : Sha256) (d : Disk) : Prop where
  sound : Sound sha d.sys.store
  stays : ∀ path content, d.entries path = some content → d.sys.store.files path = some content
  whole : ∀ path, (d.sys.store.files path).isSome → d.medium.torn path = false

private theorem Disk.initial_inv : Disk.initial.Inv sha where
  sound := by constructor <;> simp [initial, System.initial, Store.empty, Db.empty]
  stays _ _ h := by cases h
  whole _ h := by cases h

/-- The directory entry of every chunk file of a published artifact is on the disk. -/
def Disk.Settled (d : Disk) : Prop :=
  ∀ a ∈ d.sys.store.db.artifact, ∀ e ∈ d.sys.store.db.manifest a.id,
    (d.entries (relPath e.digest)).isSome

private theorem System.Step.unfiled {sys sys' : System} {e : Event}
    (h : System.Step sha anywhere sys e sys') (huploads : e.uploads = true)
    (hput : e.chunk? = none) (hs : Sound sha sys.store) : Unfiled sha sys.store sys'.store := by
  have hspares := bringsParts_spares sha e.env.now
  have hself : Unfiled sha sys.store sys.store := ⟨hs, rfl⟩
  cases h with
  | «open» hexec => exact wp_everywhere (unfiled_of_stays (hspares.openStorage _ _ rfl) hself) hexec
  | close => exact hself
  | @call s s' cfg call env r hexec =>
    cases call with
    | createSession ns name version size digest owner =>
      have hstays := (hspares.createSession cfg env ns name version size digest owner
        fun _ _ _ => trivial).stays
      exact wp_everywhere (unfiled_of_stays (.seq hstays fun _ => .pure trivial) hself) hexec
    | putChunk => cases hput
    | commitSession =>
      exact wp_everywhere (wp_seq (commitSession_unfiled hs) fun _ _ h => (wp_pure ()).mpr h) hexec
    | _ => cases huploads

private theorem Disk.Step.inv_action {d d' : Disk} {e : Event} (h : Disk.Step sha d (.action e) d')
    (hd : d.Inv sha) : d'.Inv sha := by
  cases h with
  | action hstep huploads hput =>
    obtain ⟨hsound, hfiles⟩ := hstep.unfiled huploads hput hd.sound
    exact ⟨hsound, fun path content h => by rw [hfiles]; exact hd.stays path content h,
      fun path h => hd.whole path (by rw [← hfiles]; exact h)⟩
  | put hexec =>
    have hgrown : Grown sha _ (_, _) := ⟨hd.sound, fun _ _ h => h, hd.whole⟩
    have hgrown' := wp_everywhere (PutCall.callOps_grown _ hgrown) hexec
    exact ⟨hgrown'.sound, fun path content h =>
      hgrown'.stays path content (hd.stays path content h), hgrown'.whole⟩

private theorem Disk.Inv.leaves {d : Disk} (hd : d.Inv sha) {path content : Bytes}
    (h : d.Leaves path (some content)) : d.sys.store.files path = some content := by
  rcases h with hentry | ⟨hthere, hwhole⟩
  · exact hd.stays path content hentry.symm
  · exact (hwhole (hd.whole path hthere.symm)).symm

private theorem Disk.Step.inv_powerLoss {d d' : Disk} (h : Disk.Step sha d .powerLoss d')
    (hd : d.Inv sha) (hsettled : d.Settled) : d'.Inv sha := by
  cases h with
  | @powerLoss _ files tmp hfiles =>
    refine ⟨⟨fun path content hfile =>
        hd.sound.files path content (hd.leaves (hfile ▸ hfiles path)),
      hd.sound.parts, hd.sound.owned, fun r hr => ⟨(hd.sound.chunks r hr).1, ?_⟩⟩, fun _ _ h => h,
      fun _ _ => rfl⟩
    obtain ⟨a, ha, hid⟩ := hd.sound.owned r hr
    have hentry := hsettled a ha r.entry (Db.mem_manifest.mpr ⟨r, hr, hid.symm, rfl⟩)
    rcases hfiles (relPath r.entry.digest) with hsame | ⟨hthere, -⟩
    · rw [← hsame] at hentry
      exact hentry
    · rw [hthere]
      exact (hd.sound.chunks r hr).2

/-- A step; a power loss comes when everything published is on the disk. -/
def Disk.SettledStep (sha : Sha256) (d : Disk) (e : DiskEvent) (d' : Disk) : Prop :=
  Disk.Step sha d e d' ∧ (e = .powerLoss → d.Settled)

theorem Disk.SettledStep.inv {d d' : Disk} {e : DiskEvent} (h : Disk.SettledStep sha d e d')
    (hd : d.Inv sha) : d'.Inv sha := by
  cases e with
  | action e => exact h.1.inv_action hd
  | powerLoss => exact h.1.inv_powerLoss hd (h.2 rfl)

theorem Disk.run_inv {d d' : Disk} {events : List DiskEvent}
    (hrun : Trace.Run (Disk.SettledStep sha) d events d') (hd : d.Inv sha) : d'.Inv sha :=
  hrun.invariant (fun _ _ _ _ hd hstep => hstep.inv hd) hd

/-- In a run in which the directory entries of all chunk files of published artifacts are on the
disk whenever the power goes, published artifacts have their files, whole, in every state that is
reached; and whether they have them behind the next power loss, whatever it leaves, depends on
whether those entries are on the disk by then. -/
theorem artifacts_survive_iff {events : List DiskEvent} {d : Disk}
    (hrun : Trace.Run (Disk.SettledStep sha) .initial events d) :
    ChunksWhole sha d.sys.store ∧
      ((∀ d', Disk.Step sha d .powerLoss d' → ChunksWhole sha d'.sys.store) ↔ d.Settled) := by
  have hd : d.Inv sha := Disk.run_inv hrun Disk.initial_inv
  refine ⟨hd.sound.chunksWhole, fun hsurvive a ha e he => ?_, fun hsettled d' hstep =>
    (hstep.inv_powerLoss hd hsettled).sound.chunksWhole⟩
  have hlost : Disk.Step sha d .powerLoss
      ⟨⟨⟨d.sys.store.db, d.entries, [], 0⟩, none⟩, .clean, d.entries⟩ :=
    .powerLoss fun _ => .inl rfl
  obtain ⟨data, -, hfile⟩ := hsurvive _ hlost a ha e he
  exact Option.isSome_iff_exists.mpr ⟨_, hfile⟩

/-- The chunk `a` is uploaded and the session is committed. -/
def sampleCommitted : List Move :=
  sampleUpload ++ [(Action.call (.commitSession (ascii "s1"))).at (sampleEnv 2)]

theorem Disk.exists_run {sys sys' : System} {events : List Event}
    (hrun : Trace.Run (System.Step sha anywhere) sys events sys')
    (huploads : ∀ e ∈ events, e.uploads = true) (m : Medium) (entries : Bytes → Option Bytes) :
    ∃ m', Trace.Run (Disk.SettledStep sha) ⟨sys, m, entries⟩ (events.map .action)
      ⟨sys', m', entries⟩ := by
  induction hrun generalizing m with
  | nil s => exact ⟨m, .nil _⟩
  | cons head tail ih =>
    obtain ⟨hhead, htail⟩ := List.forall_mem_cons.mp huploads
    obtain ⟨m₁, hstep⟩ := Disk.exists_step head hhead m entries
    obtain ⟨m₂, hrest⟩ := ih htail m₁
    exact ⟨m₂, .cons ⟨hstep, fun h => by cases h⟩ hrest⟩

/-- The sample behind a power loss that takes the chunk file. -/
def sampleLost : System :=
  ⟨⟨(played sampleSha sampleCommitted).2.store.db, fun _ => none, [], 0⟩, none⟩

/-- The root is opened again. -/
def sampleReopened : Option (Event × System) :=
  sampleLost.move sampleSha ((Action.open sampleConfig).at (sampleEnv 3))

private theorem sampleCommitted_run : ∃ m, Trace.Run (Disk.SettledStep sampleSha) .initial
    ((played sampleSha sampleCommitted).1.map .action)
    ⟨(played sampleSha sampleCommitted).2, m, fun _ => none⟩ := by
  have hrun : Trace.Run (System.Step sampleSha anywhere) .initial
      (played sampleSha sampleCommitted).1 (played sampleSha sampleCommitted).2 :=
    played_run (fun m hm => .inr fun _ _ => trivial) (by decide +kernel)
  have huploads : ∀ e ∈ (played sampleSha sampleCommitted).1, e.uploads = true := by decide +kernel
  exact Disk.exists_run hrun huploads .clean fun _ => none

theorem artifacts_survive_sample : ∃ d : Disk, d.sys.store.db.artifact.length = 1 ∧
    ChunksWhole sampleSha d.sys.store ∧
    ((∀ d', Disk.Step sampleSha d .powerLoss d' → ChunksWhole sampleSha d'.sys.store) ↔
      d.Settled) := by
  obtain ⟨m, hrun⟩ := sampleCommitted_run
  have hartifact : (played sampleSha sampleCommitted).2.store.db.artifact.length = 1 := by
    decide +kernel
  exact ⟨_, hartifact, artifacts_survive_iff hrun⟩

/-- All calls of the sample return, the power goes, and the root is opened again: the artifact is
there, its chunk file is not. -/
theorem artifact_lost_by_powerLoss : ∃ events d, Trace.Run (Disk.Step sampleSha) .initial events d ∧
    (∀ e, .action e ∈ events → e.returned = true) ∧ d.sys.config = some sampleConfig ∧
    ¬ ChunksWhole sampleSha d.sys.store := by
  obtain ⟨m, hrun⟩ := sampleCommitted_run
  have hlost : Disk.Step sampleSha ⟨(played sampleSha sampleCommitted).2, m, fun _ => none⟩
    .powerLoss ⟨sampleLost, .clean, fun _ => none⟩ := .powerLoss fun _ => .inl rfl
  have hreopened : (sampleReopened.any fun r => r.1.returned && r.1.uploads && r.1.chunk?.isNone &&
      r.2.config == some sampleConfig && r.2.store.db.artifact.any fun a =>
        (r.2.store.db.manifest a.id).any fun e => (r.2.store.files (relPath e.digest)).isNone) =
      true := by decide +kernel
  cases hmove : sampleReopened with
  | none =>
    rw [hmove] at hreopened
    cases hreopened
  | some r =>
    obtain ⟨e, sys⟩ := r
    rw [hmove] at hreopened
    simp only [Option.any_some, Bool.and_eq_true, beq_iff_eq, List.any_eq_true,
      Option.isNone_iff_eq_none] at hreopened
    obtain ⟨⟨⟨⟨hreturned, huploads⟩, hput⟩, hconfig⟩, a, ha, entry, hentry, hfile⟩ := hreopened
    have hopen : Disk.Step sampleSha ⟨sampleLost, .clean, fun _ => none⟩ (.action e)
        ⟨sys, .clean, fun _ => none⟩ :=
      .action (System.move_step (.inl rfl) hmove) huploads hput
    refine ⟨_, _, (hrun.mono fun _ _ _ h => h.1).append (.cons hlost (.single hopen)), ?_, hconfig,
      fun hwhole => ?_⟩
    · have hall : ∀ e ∈ (played sampleSha sampleCommitted).1, e.returned = true := by decide +kernel
      intro e' he'
      rcases List.mem_append.mp he' with he' | he'
      · obtain ⟨e'', he'', heq⟩ := List.mem_map.mp he'
        cases heq
        exact hall _ he''
      · simp only [List.mem_cons, reduceCtorEq, DiskEvent.action.injEq, List.not_mem_nil, or_false,
          false_or] at he'
        rw [he']
        exact hreturned
    · obtain ⟨data, -, hthere⟩ := hwhole a ha entry hentry
      rw [hfile] at hthere
      cases hthere

end ForgeRelay
