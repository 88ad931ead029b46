import ForgeRelay.Lib.Unaware
import ForgeRelay.Lib.Within
import ForgeRelay.Storage.Idempotence

/-!
# The stages of a put

What `put_chunk` does one step after the other, and what it makes of it when files in `tmp/` are
removed by somebody else: only its own temporary file matters, between its creation and its rename.
-/

namespace ForgeRelay

open Program Prog

variable {α : Type} {E : Set Error} {s : Store}

/-- Temporary files are removed, and nothing else. -/
def Store.dropTmp (gone : Bytes → Bool) (s : Store) : Store :=
  { s with tmp := Table.delete (fun f => gone f.1) s.tmp }

/-- There is a temporary file of this name. -/
def Store.hasTmp (s : Store) (name : Bytes) : Bool := s.tmp.any (·.1 == name)

/-- Every change of the temporary files. -/
def tmpChanges : Set (Store → Store) := {f | ∃ tmp, f = fun s => { s with tmp := tmp }}

/-- The removals of temporary files. -/
def tmpDrops : Set (Store → Store) := {f | ∃ gone, f = Store.dropTmp gone}

/-- The removals of temporary files other than this. -/
def dropsBut (name : Bytes) : Set (Store → Store) :=
  {f | ∃ gone, gone name = false ∧ f = Store.dropTmp gone}

theorem Store.dropTmp_dropTmp (gone gone' : Bytes → Bool) (s : Store) :
    (s.dropTmp gone).dropTmp gone' = s.dropTmp fun n => gone n || gone' n := by
  refine congrArg (fun tmp => { s with tmp := tmp }) ?_
  rw [dropTmp, Table.delete, Table.delete, Table.delete, List.filter_filter]
  exact List.filter_congr fun f _ => by rw [Bool.not_or, Bool.and_comm]

private theorem Store.dropTmp_comm (gone gone' : Bytes → Bool) (s : Store) :
    (s.dropTmp gone).dropTmp gone' = (s.dropTmp gone').dropTmp gone :=
  congrArg (fun tmp => { s with tmp := tmp }) (Table.delete_comm _ _ s.tmp)

private theorem Store.hasTmp_dropTmp (gone : Bytes → Bool) (s : Store) (name : Bytes) :
    (s.dropTmp gone).hasTmp name = (s.hasTmp name && !gone name) := by
  rw [Bool.eq_iff_iff]
  simp only [hasTmp, dropTmp, Table.delete, List.any_filter, List.any_eq_true, Bool.and_eq_true,
    Bool.not_eq_true', beq_iff_eq]
  constructor
  · rintro ⟨f, hf, hgone, rfl⟩
    exact ⟨⟨f, hf, rfl⟩, hgone⟩
  · rintro ⟨⟨f, hf, rfl⟩, hgone⟩
    exact ⟨f, hf, hgone, rfl⟩

theorem unaware_drops {p : StorageM α} (hp : Unaware tmpChanges E p) : Unaware tmpDrops E p := by
  induction p with
  | pure a => trivial
  | throw e => exact hp
  | step label act next ih =>
    refine fun s => ⟨?_, ih _ (hp s).2⟩
    rintro f ⟨gone, rfl⟩
    have hsame := (hp s).1 _ ⟨s.tmp, rfl⟩
    have hdrop := (hp s).1 _ ⟨Table.delete (fun f => gone f.1) s.tmp, rfl⟩
    have htmp : (act s).2.tmp = s.tmp := congrArg (fun r => r.2.tmp) hsame
    refine hdrop.trans (Prod.ext rfl ?_)
    rw [Store.dropTmp, htmp]

theorem dropsBut_subset (name : Bytes) : dropsBut name ⊆ tmpDrops :=
  fun _ ⟨gone, _, hf⟩ => ⟨gone, hf⟩

private theorem unaware_tmp {p : StorageM α} (hp : Unaware tmpChanges E p) (s : Store) :
    (p.advance s).2.tmp = s.tmp :=
  congrArg (fun r => r.2.tmp) (hp.advance_comm ⟨s.tmp, rfl⟩ s)

private theorem unaware_stmt {f : Db → Except Error (α × Db)}
    (herr : ∀ db e, f db = .error e → e ∈ E) :
    Unaware tmpChanges E (stmt f) := by
  refine .lift (fun s g hg => ?_) fun s e he => ?_
  · obtain ⟨tmp, rfl⟩ := hg
    dsimp only
    cases f s.db <;> rfl
  · cases hrun : f s.db with
    | ok result =>
      rw [hrun] at he
      cases he
    | error e' =>
      rw [hrun] at he
      cases he
      exact herr _ _ hrun

private theorem unaware_select (f : Db → α) : Unaware tmpChanges E (select f) :=
  unaware_stmt fun _ _ h => by cases h

private theorem unaware_exec (f : Db → Db) : Unaware tmpChanges E (exec f) :=
  unaware_stmt fun _ _ h => by cases h

private theorem unaware_fileExists (path : Bytes) : Unaware tmpChanges E (fileExists path) := by
  refine .lift (fun s f hf => ?_) fun s e he => by cases he
  obtain ⟨tmp, rfl⟩ := hf
  rfl

private theorem unaware_loadSession {sessionId : Bytes}
    (hE : Error.of .eNotfound "session not found" ∈ E) :
    Unaware tmpChanges E (loadSession sessionId) := by
  refine .bind (unaware_select _) fun found => ?_
  cases found with
  | none => exact .throw hE
  | some session => exact .pure _

private theorem unaware_markAllUnreferenced (now : Int64) (digests : List Bytes) :
    Unaware tmpChanges E (markAllUnreferenced now digests) := by
  induction digests with
  | nil => exact .pure ()
  | cons digest rest ih =>
    refine .bind (.labelled (.bind (.bind (unaware_select _) fun referenced => ?_)
      fun referenced => ?_)) fun _ => ih
    · split
      · exact .pure _
      · exact unaware_select _
    · split
      · exact .pure _
      · exact unaware_exec _

private theorem unaware_expireSessionIfDue (session : SessionInfo) (now : Int64) :
    Unaware tmpChanges E (expireSessionIfDue session now) := by
  unfold expireSessionIfDue
  split
  · exact .bind (unaware_exec _) fun _ => .bind (unaware_select _) fun _ =>
      .bind (unaware_exec _) fun _ => unaware_markAllUnreferenced now _
  · exact .pure _

private theorem unaware_fileStep {name : Bytes} {act : Store → Except Error α × Store}
    (hact : ∀ gone s, gone name = false →
      act (Store.dropTmp gone s) = ((act s).1, (act s).2.dropTmp gone))
    (herr : ∀ s e, (act s).1 = .error e → e ∈ E) : Unaware (dropsBut name) E (fileStep act) := by
  refine .lift (fun s f hf => ?_) herr
  obtain ⟨gone, hgone, rfl⟩ := hf
  exact hact gone s hgone

private theorem unaware_tmpFileUnlink (name : Bytes) : Unaware tmpDrops E (tmpFileUnlink name) := by
  refine .lift (fun s f hf => ?_) fun s e h => by cases h
  obtain ⟨gone, rfl⟩ := hf
  exact Prod.ext rfl (s.dropTmp_comm gone (· == name))

private theorem unaware_attempt {F : Set (Store → Store)} {p : StorageM Unit}
    (hp : Unaware F Set.univ p) :
    Unaware F E (attempt p) :=
  .tryCatch hp fun _ _ => .pure ()

private theorem unaware_tmpFileWrite (name data : Bytes) :
    Unaware (dropsBut name) E (tmpFileWrite name data) := by
  refine unaware_fileStep (fun gone s _ => Prod.ext rfl ?_) fun s e h => by cases h
  exact congrArg (fun tmp => { s with tmp := tmp })
    (Table.update_delete (q := fun f : Bytes × Bytes => gone f.1)
      (f := fun f : Bytes × Bytes => (f.1, f.2 ++ data)) (fun _ => rfl) s.tmp)

private theorem unaware_tmpFileCreate (name : Bytes) :
    Unaware (dropsBut name) Set.univ (tmpFileCreate name) := by
  refine unaware_fileStep (fun gone s hgone => ?_) fun s e _ => trivial
  have hsame := s.hasTmp_dropTmp gone name
  rw [hgone, Bool.not_false, Bool.and_true] at hsame
  rw [show (s.dropTmp gone).tmp.any (·.1 == name) = s.tmp.any (·.1 == name) from hsame]
  split
  · rfl
  · refine Prod.ext rfl (congrArg (fun tmp => { s with tmp := tmp }) ?_)
    simp [Store.dropTmp, Table.delete, hgone]

private theorem unaware_tmpFileRename (name target : Bytes) :
    Unaware (dropsBut name) Set.univ (tmpFileRename name target) := by
  refine unaware_fileStep (fun gone s hgone => ?_) fun s e _ => trivial
  have hfind : (s.dropTmp gone).tmp.find? (·.1 == name) = s.tmp.find? (·.1 == name) :=
    Table.find?_delete (fun f hf => by rw [beq_iff_eq.mp hf, hgone]) s.tmp
  rw [hfind]
  cases s.tmp.find? (·.1 == name) with
  | none => rfl
  | some f =>
    refine Prod.ext rfl ?_
    exact congrArg (fun tmp => { s with
      files := Function.update s.files target (some f.2), tmp := tmp })
      (Table.delete_comm _ _ s.tmp)

private theorem unaware_registerPart {now : Int64} {sessionId data digestHex : Bytes}
    {ordinal : UInt64} :
    Unaware tmpChanges {renameLost}ᶜ (registerPart now sessionId ordinal data digestHex) := by
  refine .bind (unaware_select _) fun found => ?_
  cases found with
  | some existing =>
    dsimp only
    split
    · exact .pure _
    · exact .throw (show _ ≠ renameLost by decide)
  | none =>
    refine .bind (unaware_exec _) fun _ => .bind (unaware_exec _) fun _ =>
      .bind (unaware_stmt fun db e he => ?_) fun _ => .pure _
    unfold Db.insertPart at he
    split at he
    · cases he
      exact (show _ ≠ renameLost by decide)
    split at he
    · cases he
    · cases he
      exact (show _ ≠ renameLost by decide)

/-- A call of `put_chunk`. -/
structure PutCall where
  sha : Sha256
  env : CallEnv
  sessionId : Bytes
  ordinal : UInt64
  data : Bytes

namespace PutCall

variable (c : PutCall)

def program : StorageM ChunkAccept := putChunk c.sha c.env c.sessionId c.ordinal c.data

/-- The name of its temporary file. -/
def name : Bytes := tmpFileName c.env.tmpTag

/-- The path of its chunk file. -/
def target : Bytes := relPath (c.sha.hex c.data)

/-- What comes before `ChunkStore::put`. -/
def check : StorageM Unit := do
  let session ← loadSession c.sessionId
  expireSessionIfDue session c.env.now
  let session ← loadSession c.sessionId
  if session.state = .expired then MonadExcept.throw (.of .eExpired "upload session expired")
  else if session.state ≠ .open then MonadExcept.throw (.of .eState "session is not OPEN")
  else if chunkCount session ≤ c.ordinal then
    MonadExcept.throw (.of .eRange "chunk ordinal beyond expectation")
  else if c.data.length = 0 ∨ session.chunkSize.toNat < c.data.length then
    MonadExcept.throw (.of .eRange "chunk length must be within (0, chunk_size]")
  else Pure.pure ()

/-- What comes behind it. -/
def register : StorageM ChunkAccept :=
  tx (registerPart c.env.now c.sessionId c.ordinal c.data (c.sha.hex c.data))

/-- The put behind a rename that has failed. -/
def giveUp (e : Error) : StorageM Unit := do
  attempt (tmpFileUnlink c.name)
  if ← fileExists c.target then Pure.pure () else MonadExcept.throw e

def renameFile : StorageM Unit := tryCatchThe Error (tmpFileRename c.name c.target) c.giveUp

/-- The put behind the filling of its temporary file. -/
def placeFile : StorageM Unit := do
  if ← fileExists c.target then attempt (tmpFileUnlink c.name) else c.renameFile

def fillFile : StorageM Unit :=
  tryCatchThe Error (tmpFileFill c.name c.data) fun e => do
    attempt (tmpFileUnlink c.name)
    MonadExcept.throw e

/-- The put behind its look at the chunk file. -/
def storeFile : StorageM Unit := do
  tmpFileCreate c.name
  c.fillFile
  c.placeFile

theorem chunkStorePut_eq : chunkStorePut c.sha c.env.tmpTag c.data (c.sha.hex c.data) =
    fileExists c.target >>= fun there => if there then Pure.pure () else c.storeFile := by
  rw [chunkStorePut, if_neg (by simp [c.sha.hex_valid]), if_neg (by simp), chunkPath_hex]
  rfl

theorem program_eq : c.program = c.check >>= fun _ =>
    chunkStorePut c.sha c.env.tmpTag c.data (c.sha.hex c.data) >>= fun _ => c.register := by
  unfold program putChunk check
  dsimp only
  simp only [bind_bind]
  refine congrArg _ (funext fun _ => congrArg _ (funext fun _ => congrArg _
    (funext fun session => ?_)))
  repeat' split
  all_goals rfl

theorem unaware_check : Unaware tmpChanges {renameLost}ᶜ c.check := by
  have hload : Unaware tmpChanges {renameLost}ᶜ (loadSession c.sessionId) :=
    unaware_loadSession (show _ ≠ renameLost by decide)
  refine .bind hload fun session => .bind (unaware_expireSessionIfDue session _) fun _ =>
    .bind hload fun session => ?_
  split
  · exact .throw (show _ ≠ renameLost by decide)
  split
  · exact .throw (show _ ≠ renameLost by decide)
  split
  · exact .throw (show _ ≠ renameLost by decide)
  split
  · exact .throw (show _ ≠ renameLost by decide)
  · exact .pure _

private theorem unaware_register : Unaware tmpChanges {renameLost}ᶜ c.register :=
  .transaction unaware_registerPart

/-- With the chunk's file missing, what becomes of the put is decided by the name of its temporary
file: if that is free the file is written. -/
private theorem chunkStorePut_not_lost (s : Store) :
    ((chunkStorePut c.sha c.env.tmpTag c.data (c.sha.hex c.data)).run s).1 ≠ .error renameLost := by
  by_cases hfresh : ∀ f ∈ s.tmp, f.1 ≠ tmpFileName c.env.tmpTag
  · rw [chunkStorePut_run hfresh]
    exact fun h => by cases h
  · have htaken : s.tmp.any (·.1 == c.name) = true := by
      push Not at hfresh
      obtain ⟨f, hf, hname⟩ := hfresh
      exact List.any_eq_true.mpr ⟨f, hf, beq_iff_eq.mpr hname⟩
    rw [chunkStorePut_eq, run_bind, fileExists, run_fileStep]
    dsimp only
    split
    · exact fun h => by cases h
    · rw [storeFile, run_bind, tmpFileCreate, run_fileStep, if_pos htaken]
      exact show Except.error _ ≠ Except.error renameLost by decide

theorem program_not_lost (s : Store) : (c.program.run s).1 ≠ .error renameLost := by
  intro h
  rw [program_eq, run_bind] at h
  rcases hcheck : c.check.run s with ⟨e | u, s₁⟩
  · rw [hcheck] at h
    exact c.unaware_check.run_error (congrArg Prod.fst hcheck) (Except.error.inj h)
  rw [hcheck] at h
  dsimp only at h
  rw [run_bind] at h
  rcases hput : (chunkStorePut c.sha c.env.tmpTag c.data (c.sha.hex c.data)).run s₁ with ⟨e | u, s₂⟩
  · rw [hput] at h
    obtain rfl := Except.error.inj h
    exact c.chunkStorePut_not_lost s₁ (congrArg Prod.fst hput)
  · rw [hput] at h
    exact c.unaware_register.run_error h rfl

/-- What the put does behind the filling of its temporary file. -/
def placeAndRegister : StorageM ChunkAccept := c.placeFile >>= fun _ => c.register

/-- The chunk files, and whether there is a temporary file of this name, are as before. -/
def fillBound (name : Bytes) : Bound Store Error where
  inv _ := True
  rel s s' := s'.files = s.files ∧ s'.hasTmp name = s.hasTmp name
  err _ := False
  refl _ := ⟨rfl, rfl⟩
  trans h h' := ⟨h'.1.trans h.1, h'.2.trans h.2⟩

private theorem unaware_fillFile : Unaware (dropsBut c.name) ∅ c.fillFile := by
  have hsilent : Unaware (dropsBut c.name) ∅ silentStep :=
    unaware_fileStep (fun _ _ _ => rfl) fun s e h => by cases h
  refine .tryCatch (E := ∅) (.bind (unaware_tmpFileWrite _ _) fun _ => .bind ?_ fun _ =>
    .bind hsilent fun _ => .bind hsilent fun _ => hsilent) fun e he => he.elim
  split
  · exact unaware_tmpFileWrite _ _
  · exact .pure _

private theorem stays_fillFile : Stays (fillBound c.name) c.fillFile := by
  have hwrite : ∀ data, Stays (fillBound c.name) (tmpFileWrite c.name data) := by
    refine fun data => .lift fun s _ => ⟨⟨⟨rfl, ?_⟩, trivial⟩, trivial⟩
    simp only [Store.hasTmp, Table.update, List.any_map]
    refine congrArg (s.tmp.any ·) (funext fun f => ?_)
    dsimp only [Function.comp_apply]
    split <;> rfl
  have hsilent : Stays (fillBound c.name) silentStep :=
    .lift fun s _ => ⟨⟨⟨rfl, rfl⟩, trivial⟩, trivial⟩
  exact .tryCatch (.seq (hwrite _) fun _ => .seq (.ite (fun _ => hwrite _) fun _ => .pure trivial)
    fun _ => .seq hsilent fun _ => .seq hsilent fun _ => hsilent) fun e he => he.elim

variable {c}

private theorem renameFile_lost (htarget : s.files c.target = none)
    (hgone : s.hasTmp c.name = false) : (c.renameFile.run s).1 = .error renameLost := by
  have hfind : s.tmp.find? (·.1 == c.name) = none :=
    List.find?_eq_none.mpr (List.any_eq_false.mp hgone)
  rw [renameFile, run_tryCatch, tmpFileRename, run_fileStep, hfind]
  dsimp only
  rw [giveUp, run_bind]
  have hunlink : (attempt (tmpFileUnlink c.name)).run s = (.ok (), s.dropTmp (· == c.name)) := rfl
  rw [hunlink]
  dsimp only
  rw [run_bind, fileExists, run_fileStep]
  dsimp only
  rw [show (s.dropTmp (· == c.name)).files c.target = none from htarget]
  rfl

theorem renameFile_register_lost (htarget : s.files c.target = none)
    (hgone : s.hasTmp c.name = false) :
    ((c.renameFile >>= fun _ => c.register).run s).1 = .error renameLost := by
  rw [run_bind]
  have hrename := renameFile_lost htarget hgone
  rcases hrun : c.renameFile.run s with ⟨e | u, s'⟩ <;> rw [hrun] at hrename <;> cases hrename
  rfl

private theorem placeAndRegister_lost (htarget : s.files c.target = none)
    (hgone : s.hasTmp c.name = false) :
    (c.placeAndRegister.run s).1 = .error renameLost := by
  have hrename := renameFile_lost htarget hgone
  have hplace : (c.placeFile.run s).1 = .error renameLost := by
    rw [placeFile, run_bind, fileExists, run_fileStep, htarget]
    exact hrename
  rw [placeAndRegister, run_bind]
  rcases hrun : c.placeFile.run s with ⟨e | u, s'⟩
  · rw [hrun] at hplace
    cases hplace
    rfl
  · rw [hrun] at hplace
    cases hplace

theorem filling_lost {p : StorageM Unit} (hp : Unaware (dropsBut c.name) ∅ p)
    (hfill : Stays (fillBound c.name) p) (htarget : s.files c.target = none)
    (hgone : s.hasTmp c.name = false) :
    ((p >>= fun _ => c.placeAndRegister).run s).1 = .error renameLost := by
  obtain ⟨⟨⟨hfiles, htmp⟩, -⟩, -⟩ := hfill.run (s := s) trivial
  rw [run_bind]
  rcases hrun : p.run s with ⟨e | u, s'⟩
  · exact (hp.run_error (congrArg Prod.fst hrun)).elim
  · rw [hrun] at hfiles htmp
    exact placeAndRegister_lost (by rw [hfiles, htarget]) (by rw [htmp, hgone])

variable (c)

/-- What the put does behind its checks. -/
def storeAndRegister : StorageM ChunkAccept :=
  chunkStorePut c.sha c.env.tmpTag c.data (c.sha.hex c.data) >>= fun _ => c.register

private theorem unaware_giveUp (e : Error) : Unaware tmpDrops Set.univ (c.giveUp e) := by
  refine .bind (unaware_attempt (unaware_tmpFileUnlink _)) fun _ =>
    .bind (unaware_drops (unaware_fileExists _)) fun there => ?_
  split
  · exact .pure _
  · exact .throw trivial

private theorem unaware_renameFile : Unaware (dropsBut c.name) Set.univ c.renameFile :=
  .tryCatch (unaware_tmpFileRename _ _) fun e _ => (c.unaware_giveUp e).anti (dropsBut_subset _)

private theorem unaware_registering : Unaware (dropsBut c.name) Set.univ c.register :=
  ((unaware_drops c.unaware_register).anti (dropsBut_subset _)).mono (Set.subset_univ _)

private theorem unaware_placeAndRegister :
    Unaware (dropsBut c.name) Set.univ c.placeAndRegister := by
  refine .bind (.bind ((unaware_drops (unaware_fileExists _)).anti (dropsBut_subset _))
    fun there => ?_) fun _ => c.unaware_registering
  split
  · exact (unaware_attempt (unaware_tmpFileUnlink _)).anti (dropsBut_subset _)
  · exact c.unaware_renameFile

private theorem storeFile_register : (c.storeFile >>= fun _ => c.register) =
    tmpFileCreate c.name >>= fun _ => c.fillFile >>= fun _ => c.placeAndRegister := by
  simp only [storeFile, placeAndRegister, bind_bind]

private theorem unaware_storeFile :
    Unaware (dropsBut c.name) Set.univ (c.storeFile >>= fun _ => c.register) := by
  rw [storeFile_register]
  exact .bind (unaware_tmpFileCreate _) fun _ =>
    .bind (c.unaware_fillFile.mono (Set.empty_subset _)) fun _ => c.unaware_placeAndRegister

private theorem storeAndRegister_eq : c.storeAndRegister = fileExists c.target >>= fun there =>
    if there then c.register else c.storeFile >>= fun _ => c.register := by
  rw [storeAndRegister, chunkStorePut_eq, bind_bind]
  refine congrArg _ (funext fun there => ?_)
  cases there <;> rfl

theorem unaware_storeAndRegister : Unaware (dropsBut c.name) Set.univ c.storeAndRegister := by
  rw [storeAndRegister_eq]
  refine .bind ((unaware_drops (unaware_fileExists _)).anti (dropsBut_subset _)) fun there => ?_
  split
  · exact c.unaware_registering
  · exact c.unaware_storeFile

/-- Where a put stands beside a cleanup: whether it has created its temporary file, and whether that
has been removed before it is renamed. Until then it comes to one of the results in `R`. -/
inductive Stage (R : Set (Except Error ChunkAccept)) : Bool → Bool → StorageM ChunkAccept →
    Store → Prop
  | checking {p : StorageM Unit} {s : Store} (hp : Unaware tmpChanges {renameLost}ᶜ p)
      (hresult : ((p >>= fun _ => c.storeAndRegister).run s).1 ∈ R)
      (hdrop : ((p >>= fun _ => c.storeAndRegister).run (s.dropTmp (· == c.name))).1 ∈ R) :
      Stage R false false (p >>= fun _ => c.storeAndRegister) s
  | creating {s : Store} (htarget : s.files c.target = none)
      (hresult : ((c.storeFile >>= fun _ => c.register).run s).1 ∈ R)
      (hdrop : ((c.storeFile >>= fun _ => c.register).run (s.dropTmp (· == c.name))).1 ∈ R) :
      Stage R false false (c.storeFile >>= fun _ => c.register) s
  | filling {p : StorageM Unit} {s : Store} {removed : Bool} (hp : Unaware (dropsBut c.name) ∅ p)
      (hfill : Stays (fillBound c.name) p) (htarget : s.files c.target = none)
      (htmp : s.hasTmp c.name = !removed)
      (hresult : removed = false → ((p >>= fun _ => c.placeAndRegister).run s).1 ∈ R) :
      Stage R true removed (p >>= fun _ => c.placeAndRegister) s
  | placing {s : Store} {removed : Bool} (htarget : s.files c.target = none)
      (htmp : s.hasTmp c.name = !removed)
      (hresult : removed = false → ((c.renameFile >>= fun _ => c.register).run s).1 ∈ R) :
      Stage R true removed (c.renameFile >>= fun _ => c.register) s
  | givingUp {p : StorageM ChunkAccept} {s : Store} (hp : Unaware tmpDrops Set.univ p)
      (hresult : (p.run s).1 = .error renameLost) : Stage R true true p s
  | registering {created : Bool} {p : StorageM ChunkAccept} {s : Store}
      (hp : Unaware tmpChanges Set.univ p) (hresult : (p.run s).1 ∈ R)
      (htmp : created = true → s.hasTmp c.name = false) : Stage R created false p s

namespace Stage

variable {c} {R : Set (Except Error ChunkAccept)} {created removed : Bool}
  {p : StorageM ChunkAccept}

private theorem run_dropTmp_mem (hp : Unaware (dropsBut c.name) E p) (n : Bytes)
    (hresult : (p.run s).1 ∈ R) (hdrop : (p.run (s.dropTmp (· == c.name))).1 ∈ R) :
    (p.run (s.dropTmp (· == n))).1 ∈ R := by
  by_cases hn : n = c.name
  · rw [hn]
    exact hdrop
  · have hother : (c.name == n) = false := beq_eq_false_iff_ne.mpr fun h => hn h.symm
    rw [hp.run ⟨_, hother, rfl⟩]
    exact hresult

private theorem dropTmp_twice (name : Bytes) :
    (s.dropTmp (· == name)).dropTmp (· == name) = s.dropTmp (· == name) := by
  rw [Store.dropTmp_dropTmp]
  exact congrArg s.dropTmp (funext fun _ => Bool.or_self _)

private theorem run_dropTmp_mem' (hp : Unaware (dropsBut c.name) E p) (n : Bytes)
    (hdrop : (p.run (s.dropTmp (· == c.name))).1 ∈ R) :
    (p.run ((s.dropTmp (· == n)).dropTmp (· == c.name))).1 ∈ R := by
  rw [s.dropTmp_comm]
  exact run_dropTmp_mem hp n hdrop (by rwa [dropTmp_twice])

private theorem hasTmp_drop (htmp : s.hasTmp c.name = !removed) (n : Bytes) :
    (s.dropTmp (· == n)).hasTmp c.name = !(removed ||
      (s.hasTmp c.name && !(s.dropTmp (· == n)).hasTmp c.name)) := by
  rw [Store.hasTmp_dropTmp, htmp]
  cases removed <;> cases (c.name == n) <;> rfl

private theorem run_drop_mem (hp : Unaware (dropsBut c.name) E p) (n : Bytes)
    (htmp : s.hasTmp c.name = !removed) (hresult : removed = false → (p.run s).1 ∈ R)
    (hremoved : (removed || (s.hasTmp c.name && !(s.dropTmp (· == n)).hasTmp c.name)) = false) :
    (p.run (s.dropTmp (· == n))).1 ∈ R := by
  obtain ⟨rfl, hstays⟩ := Bool.or_eq_false_iff.mp hremoved
  rw [Store.hasTmp_dropTmp, htmp, Bool.not_false, Bool.true_and, Bool.true_and,
    Bool.not_not] at hstays
  rw [hp.run ⟨_, hstays, rfl⟩]
  exact hresult rfl

theorem drop (h : Stage c R created removed p s) (n : Bytes) :
    Stage c R created (removed ||
      (created && (s.hasTmp c.name && !(s.dropTmp (· == n)).hasTmp c.name))) p
      (s.dropTmp (· == n)) := by
  cases h with
  | checking hp hresult hdrop =>
    have haware := ((unaware_drops hp).anti (dropsBut_subset c.name)).mono
      (Set.subset_univ _) |>.bind fun _ => c.unaware_storeAndRegister
    exact .checking hp (run_dropTmp_mem haware n hresult hdrop) (run_dropTmp_mem' haware n hdrop)
  | creating htarget hresult hdrop =>
    exact .creating htarget (run_dropTmp_mem c.unaware_storeFile n hresult hdrop)
      (run_dropTmp_mem' c.unaware_storeFile n hdrop)
  | filling hp hfill htarget htmp hresult =>
    have haware := (hp.mono (Set.empty_subset _)).bind fun _ => c.unaware_placeAndRegister
    exact .filling hp hfill htarget (hasTmp_drop htmp n) (run_drop_mem haware n htmp hresult)
  | placing htarget htmp hresult =>
    have haware := c.unaware_renameFile.bind fun _ => c.unaware_registering
    exact .placing htarget (hasTmp_drop htmp n) (run_drop_mem haware n htmp hresult)
  | givingUp hp hresult =>
    refine .givingUp hp ?_
    rw [hp.run ⟨_, rfl⟩]
    exact hresult
  | registering hp hresult htmp =>
    have hnone : (created && (s.hasTmp c.name && !(s.dropTmp (· == n)).hasTmp c.name)) = false := by
      cases created with
      | false => rfl
      | true => rw [htmp rfl, Bool.true_and, Bool.false_and]
    rw [hnone]
    refine .registering hp ?_ fun hcreated => ?_
    · rw [(unaware_drops hp).run ⟨_, rfl⟩]
      exact hresult
    · rw [Store.hasTmp_dropTmp, htmp hcreated, Bool.false_and]

private theorem no_creation {s' : Store} (hsame : s'.hasTmp c.name = s.hasTmp c.name) :
    (created || (!s.hasTmp c.name && s'.hasTmp c.name)) = created := by
  rw [hsame, Bool.not_and_self, Bool.or_false]

private theorem hasTmp_congr {s' : Store} (h : s'.tmp = s.tmp) (name : Bytes) :
    s'.hasTmp name = s.hasTmp name := by
  rw [Store.hasTmp, h, Store.hasTmp]

private theorem put_look (hresult : (c.storeAndRegister.run s).1 ∈ R)
    (hdrop : (c.storeAndRegister.run (s.dropTmp (· == c.name))).1 ∈ R) :
    Stage c R false false (c.storeAndRegister.advance s).1 (c.storeAndRegister.advance s).2 := by
  rw [← run_advance] at hresult hdrop
  rw [storeAndRegister_eq] at hresult hdrop ⊢
  change ((if (s.files c.target).isSome then c.register else
    c.storeFile >>= fun _ => c.register).run s).1 ∈ R at hresult
  change ((if (s.files c.target).isSome then c.register else
    c.storeFile >>= fun _ => c.register).run (s.dropTmp (· == c.name))).1 ∈ R at hdrop
  change Stage c R false false (if (s.files c.target).isSome then c.register else
    c.storeFile >>= fun _ => c.register) s
  cases hfile : s.files c.target with
  | none =>
    rw [hfile] at hresult hdrop
    exact .creating hfile hresult hdrop
  | some content =>
    rw [hfile] at hresult
    exact .registering (c.unaware_register.mono (Set.subset_univ _)) hresult fun h => by cases h

private theorem put_checking {q : StorageM Unit} (hp : Unaware tmpChanges {renameLost}ᶜ q)
    (hresult : ((q >>= fun _ => c.storeAndRegister).run s).1 ∈ R)
    (hdrop : ((q >>= fun _ => c.storeAndRegister).run (s.dropTmp (· == c.name))).1 ∈ R) :
    Stage c R false false ((q >>= fun _ => c.storeAndRegister).advance s).1
      ((q >>= fun _ => c.storeAndRegister).advance s).2 := by
  cases q with
  | pure a => exact put_look hresult hdrop
  | throw e => exact .checking hp hresult hdrop
  | step label act next =>
    have hact := (unaware_drops hp s).1 _ ⟨(· == c.name), rfl⟩
    change ((next (act _).1 >>= fun _ => c.storeAndRegister).run (act _).2).1 ∈ R at hdrop
    rw [hact] at hdrop
    exact .checking (hp s).2 hresult hdrop

private theorem advance_tmpFileCreate (name : Bytes) (k : Unit → StorageM ChunkAccept) (s : Store) :
    (tmpFileCreate name >>= k).advance s = if s.hasTmp name = true then
      (.throw (.of .eIo "create temp chunk: tmpfile: retries exhausted"), s)
    else (k (), { s with tmp := (name, []) :: s.tmp }) := by
  change (Prog.ofExcept (if s.hasTmp name = true then _ else _ : Except Error Unit × Store).1 >>= k,
    (if s.hasTmp name = true then _ else _ : Except Error Unit × Store).2) = _
  split <;> rfl

private theorem put_creating (htarget : s.files c.target = none)
    (hresult : ((c.storeFile >>= fun _ => c.register).run s).1 ∈ R) :
    Stage c R (!s.hasTmp c.name &&
        ((c.storeFile >>= fun _ => c.register).advance s).2.hasTmp c.name) false
      ((c.storeFile >>= fun _ => c.register).advance s).1
      ((c.storeFile >>= fun _ => c.register).advance s).2 := by
  rw [← run_advance] at hresult
  rw [storeFile_register] at hresult ⊢
  rw [advance_tmpFileCreate] at hresult ⊢
  by_cases htaken : s.hasTmp c.name = true
  · rw [if_pos htaken] at hresult ⊢
    rw [htaken]
    exact .registering trivial hresult fun h => by cases h
  · have hthere : ({ s with tmp := (c.name, []) :: s.tmp } : Store).hasTmp c.name = true := by
      simp [Store.hasTmp]
    rw [if_neg htaken] at hresult ⊢
    rw [hthere, Bool.eq_false_of_not_eq_true htaken]
    exact .filling c.unaware_fillFile c.stays_fillFile htarget hthere fun _ => hresult

private theorem put_lookAgain (htarget : s.files c.target = none)
    (htmp : s.hasTmp c.name = !removed)
    (hresult : removed = false → (c.placeAndRegister.run s).1 ∈ R) :
    Stage c R true removed (c.placeAndRegister.advance s).1 (c.placeAndRegister.advance s).2 := by
  have hadvance : c.placeAndRegister.advance s = (c.renameFile >>= fun _ => c.register, s) := by
    change ((if (s.files c.target).isSome then attempt (tmpFileUnlink c.name) else c.renameFile) >>=
      fun _ => c.register, s) = _
    rw [htarget]
    rfl
  rw [← run_advance, hadvance] at hresult
  rw [hadvance]
  exact .placing htarget htmp hresult

private theorem put_placing (htarget : s.files c.target = none)
    (htmp : s.hasTmp c.name = !removed)
    (hresult : removed = false → ((c.renameFile >>= fun _ => c.register).run s).1 ∈ R) :
    Stage c R true removed ((c.renameFile >>= fun _ => c.register).advance s).1
      ((c.renameFile >>= fun _ => c.register).advance s).2 := by
  have hadvance : (c.renameFile >>= fun _ => c.register).advance s =
      (tryCatchThe Error (Prog.ofExcept ((tmpFileRename c.name c.target).run s).1) c.giveUp >>=
        fun _ => c.register, ((tmpFileRename c.name c.target).run s).2) := by
    rw [tmpFileRename, run_fileStep]
    rfl
  rw [← run_advance, hadvance, tmpFileRename, run_fileStep] at hresult
  rw [hadvance, tmpFileRename, run_fileStep]
  cases hfind : s.tmp.find? (·.1 == c.name) with
  | none =>
    have hgone : s.hasTmp c.name = false := List.any_eq_false.mpr (List.find?_eq_none.mp hfind)
    obtain rfl : removed = true := by
      rw [hgone] at htmp
      simpa using htmp.symm
    refine .givingUp ((c.unaware_giveUp _).bind fun _ =>
      (unaware_drops c.unaware_register).mono (Set.subset_univ _)) ?_
    have hlost := renameFile_register_lost htarget hgone
    rw [← run_advance, hadvance, tmpFileRename, run_fileStep, hfind] at hlost
    exact hlost
  | some f =>
    have hthere : s.hasTmp c.name = true := by
      have hname := List.find?_some hfind
      exact List.any_eq_true.mpr ⟨f, List.mem_of_find?_eq_some hfind, hname⟩
    obtain rfl : removed = false := by
      rw [hthere] at htmp
      simpa using htmp.symm
    rw [hfind] at hresult
    refine .registering (c.unaware_register.mono (Set.subset_univ _)) (hresult rfl) fun _ => ?_
    have hgone := s.hasTmp_dropTmp (· == c.name) c.name
    rw [beq_self_eq_true, Bool.not_true, Bool.and_false] at hgone
    exact hgone

theorem put (h : Stage c R created removed p s) :
    Stage c R (created || (!s.hasTmp c.name && (p.advance s).2.hasTmp c.name)) removed
      (p.advance s).1 (p.advance s).2 := by
  cases h with
  | @checking q _ hp hresult hdrop =>
    have hsame : ((q >>= fun _ => c.storeAndRegister).advance s).2.hasTmp c.name =
        s.hasTmp c.name := by
      cases q with
      | pure a =>
        change (c.storeAndRegister.advance s).2.hasTmp c.name = _
        rw [storeAndRegister_eq]
        rfl
      | throw e => rfl
      | step label act next => exact hasTmp_congr (unaware_tmp hp s) c.name
    rw [no_creation hsame]
    exact put_checking hp hresult hdrop
  | creating htarget hresult hdrop => exact put_creating htarget hresult
  | @filling q _ _ hp hfill htarget htmp hresult =>
    rw [Bool.true_or]
    cases q with
    | pure a => exact put_lookAgain htarget htmp hresult
    | throw e => exact hp.elim
    | step label act next =>
      obtain ⟨⟨⟨hfiles, hsame⟩, -⟩, hrest⟩ := hfill.1 s trivial
      exact .filling (hp s).2 hrest ((congrFun hfiles _).trans htarget) (hsame.trans htmp) hresult
  | placing htarget htmp hresult =>
    rw [Bool.true_or]
    exact put_placing htarget htmp hresult
  | givingUp hp hresult =>
    exact .givingUp (hp.advance s) (by rw [run_advance, hresult])
  | registering hp hresult htmp =>
    have hsame := hasTmp_congr (unaware_tmp hp s) c.name
    rw [no_creation hsame]
    exact .registering (hp.advance s) (by rw [run_advance]; exact hresult) fun h => by
      rw [hsame, htmp h]

end Stage

end PutCall

end ForgeRelay
