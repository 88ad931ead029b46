import ForgeRelay.Lib.Slices
import ForgeRelay.Storage.CommitSpecs

/-!
# Uploads that succeed

What the steps of an upload do when nothing fails: each slice that is put becomes a part of its
session, once, and the other tables are as before.
-/

namespace ForgeRelay

open Program Prog Slices

variable {sha : Sha256} {contents leaked : Set Bytes} {s s₀ : Store}

@[simp] theorem run_fileStep {α : Type} (act : Store → Except Error α × Store) :
    (fileStep act).run s = act s := run_lift _ _ _

theorem loadSession_run {sessionId : Bytes} {session : SessionInfo}
    (hsession : s.db.session? sessionId = some session) :
    (loadSession sessionId).run s = (.ok session, s) := by
  rw [loadSession, run_bind, run_select, hsession]
  rfl

theorem expireSessionIfDue_run {session : SessionInfo} {now : Int64}
    (hdue : now < session.expiresAt) :
    (expireSessionIfDue session now).run s = (.ok (), s) := by
  rw [expireSessionIfDue, if_neg (fun h => Int64.not_le.mpr hdue h.2)]
  rfl

/-- The store with the file of this chunk. -/
def Store.withFile (sha : Sha256) (s : Store) (data : Bytes) : Store :=
  if (s.files (relPath (sha.hex data))).isSome then s
  else { s with files := Function.update s.files (relPath (sha.hex data)) (some (chunkFile data)) }

@[simp] theorem Store.withFile_db (data : Bytes) : (s.withFile sha data).db = s.db := by
  unfold Store.withFile
  split <;> rfl

@[simp] theorem Store.withFile_tmp (data : Bytes) : (s.withFile sha data).tmp = s.tmp := by
  unfold Store.withFile
  split <;> rfl

private theorem others_false {name : Bytes} {others : List (Bytes × Bytes)}
    (hfresh : ∀ f ∈ others, f.1 ≠ name) : ∀ f ∈ others, (f.1 == name) = false :=
  fun f hf => beq_eq_false_iff_ne.mpr (hfresh f hf)

private theorem tmpFileWrite_run {name content data : Bytes} {others : List (Bytes × Bytes)}
    (htmp : s.tmp = (name, content) :: others) (hfresh : ∀ f ∈ others, f.1 ≠ name) :
    (tmpFileWrite name data).run s =
      (.ok (), { s with tmp := (name, content ++ data) :: others }) := by
  have hself : ((name, content).1 == name) = true := beq_self_eq_true name
  rw [tmpFileWrite, run_fileStep, htmp, Table.update_cons, if_pos hself,
    Table.update_of_none (others_false hfresh)]

private theorem tmpFileFill_run {name : Bytes} (data : Bytes) {others : List (Bytes × Bytes)}
    (htmp : s.tmp = (name, []) :: others) (hfresh : ∀ f ∈ others, f.1 ≠ name) :
    (tmpFileFill name data).run s =
      (.ok (), { s with tmp := (name, chunkFile data) :: others }) := by
  have hsilent (s : Store) : silentStep.run s = (.ok (), s) := by simp [silentStep]
  unfold tmpFileFill
  rw [run_bind, tmpFileWrite_run htmp hfresh, List.nil_append]
  dsimp only
  by_cases hdata : data.length ≠ 0
  · rw [if_pos hdata, run_bind, tmpFileWrite_run rfl hfresh]
    simp only [run_bind, hsilent, chunkFile]
  · have hnil : data = [] := List.length_eq_zero_iff.mp (not_not.mp hdata)
    rw [if_neg hdata, run_bind, run_pure]
    simp only [run_bind, hsilent, chunkFile, hnil, List.append_nil]

private theorem tmpFileRename_run {name content target : Bytes} {others : List (Bytes × Bytes)}
    (htmp : s.tmp = (name, content) :: others) (hfresh : ∀ f ∈ others, f.1 ≠ name) :
    (tmpFileRename name target).run s =
      (.ok (), { s with
        files := Function.update s.files target (some content), tmp := others }) := by
  have hself : ((name, content).1 == name) = true := beq_self_eq_true name
  have hfind : ((name, content) :: others).find? (·.1 == name) = some (name, content) :=
    List.find?_cons_of_pos hself
  have hdelete : Table.delete (fun f => f.1 == name) ((name, content) :: others) = others :=
    (Table.delete_cons_of_pos (p := fun f => f.1 == name) others hself).trans
      (Table.delete_of_none (others_false hfresh))
  rw [tmpFileRename, run_fileStep, htmp, hfind]
  dsimp only
  rw [hdelete]

/-- A chunk file is written, unless it is there. -/
theorem chunkStorePut_run {tag data : Bytes} (hfresh : ∀ f ∈ s.tmp, f.1 ≠ tmpFileName tag) :
    (chunkStorePut sha tag data (sha.hex data)).run s = (.ok (), s.withFile sha data) := by
  have hnone : s.tmp.any (·.1 == tmpFileName tag) = false := by
    simpa using hfresh
  unfold chunkStorePut Store.withFile
  rw [if_neg (by simp [sha.hex_valid]), if_neg (by simp), chunkPath_hex, bind_pure_left, run_bind,
    fileExists, run_fileStep]
  dsimp only
  by_cases hthere : (s.files (relPath (sha.hex data))).isSome = true
  · rw [if_pos hthere, if_pos hthere]
    rfl
  rw [if_neg hthere, if_neg hthere]
  have hcreate : (tmpFileCreate (tmpFileName tag)).run s =
      (.ok (), { s with tmp := (tmpFileName tag, []) :: s.tmp }) := by
    simp [tmpFileCreate, hnone]
  have hfill := tmpFileFill_run data
    (s := { s with tmp := (tmpFileName tag, []) :: s.tmp }) rfl hfresh
  unfold writeChunkFile
  rw [run_bind, hcreate]
  dsimp only
  rw [run_bind, run_tryCatch, hfill]
  dsimp only
  rw [run_bind, fileExists, run_fileStep]
  dsimp only
  rw [if_neg hthere, run_tryCatch, tmpFileRename_run rfl hfresh]

/-- The session is open for this content. -/
structure Announces (sha : Sha256) (session : SessionInfo) (c : Bytes) : Prop where
  state : session.state = .open
  size : session.expectedSize = UInt64.ofNat c.length
  digest : session.expectedDigest = sha.hex c
  chunk : 0 < session.chunkSize.toNat
  fits : c.length + session.chunkSize.toNat < 2^63

/-- The slice of the content with this number. -/
def SessionInfo.slice (session : SessionInfo) (c : Bytes) (i : Nat) : Bytes :=
  Slices.slice c session.chunkSize.toNat i

/-- The number of slices. -/
def SessionInfo.slices (session : SessionInfo) (c : Bytes) : Nat :=
  Slices.count c.length session.chunkSize.toNat

/-- The part that registers a slice. -/
def slicePart (sha : Sha256) (session : SessionInfo) (c : Bytes) (i : Nat) : PartRow :=
  ⟨session.id, Int64.ofNat i, sha.hex (session.slice c i), UInt64.ofNat (session.slice c i).length⟩

variable {session : SessionInfo} {c : Bytes}

theorem Announces.slices_lt (h : Announces sha session c) {i : Nat} (hi : i < session.slices c) :
    i < 2^63 := by
  have hlt := Slices.lt_of_lt_count hi
  have hle := Nat.le_mul_of_pos_right i h.chunk
  have hfits := h.fits
  omega

theorem Announces.chunkCount_eq (h : Announces sha session c) :
    (chunkCount session).toNat = session.slices c := by
  have hfits := h.fits
  have hchunk := h.chunk
  have hlen : (UInt64.ofNat c.length).toNat = c.length := uint64_toNat_ofNat (by omega)
  have hone : (1 : UInt64).toNat = 1 := rfl
  unfold chunkCount SessionInfo.slices Slices.count
  rw [h.size]
  split
  · rename_i hzero
    rw [← UInt64.toNat_inj, hlen] at hzero
    rw [hzero, UInt64.toNat_zero, Nat.zero_add, Nat.div_eq_of_lt (by omega)]
  · rw [UInt64.toNat_div, UInt64.toNat_sub_of_le, UInt64.toNat_add, hlen, hone,
      Nat.mod_eq_of_lt (by omega)]
    rw [UInt64.le_iff_toNat_le, UInt64.toNat_add, hlen, hone]
    omega

/-- An upload in progress: the slices that are `done` are the parts of the session. -/
structure Uploading (sha : Sha256) (contents : Set Bytes) (session : SessionInfo) (c : Bytes)
    (s₀ : Store) (done : List Nat) (s : Store) : Prop where
  good : Good sha contents s₀ Set.univ s
  tmp : s.tmp = s₀.tmp
  row : s.db.session? session.id = some session
  parts : ∀ p ∈ s.db.uploadPart, p.sessionId = session.id →
    ∃ i ∈ done, i < session.slices c ∧ p = slicePart sha session c i
  present : ∀ i ∈ done, slicePart sha session c i ∈ s.db.uploadPart

private theorem int64_ofNat_inj {i j : Nat} (hi : i < 2^63) (hj : j < 2^63)
    (h : Int64.ofNat i = Int64.ofNat j) : i = j := by
  have hint := congrArg Int64.toInt h
  rw [Int64.toInt_ofNat_of_lt hi, Int64.toInt_ofNat_of_lt hj] at hint
  exact Int.ofNat.inj hint

theorem Uploading.partDigest? {done : List Nat} (h : Uploading sha contents session c s₀ done s)
    (hann : Announces sha session c) {i : Nat} (hi : i < session.slices c) :
    s.db.partDigest? session.id (Int64.ofNat i) =
      if i ∈ done then some (sha.hex (session.slice c i)) else none := by
  have hkey {p : PartRow} (hp : p ∈ s.db.uploadPart)
      (hfound : (p.sessionId == session.id && p.ordinal == Int64.ofNat i) = true) :
      i ∈ done ∧ p = slicePart sha session c i := by
    simp only [Bool.and_eq_true, beq_iff_eq] at hfound
    obtain ⟨j, hj, hjlt, rfl⟩ := h.parts p hp hfound.1
    obtain rfl := int64_ofNat_inj (hann.slices_lt hjlt) (hann.slices_lt hi) hfound.2
    exact ⟨hj, rfl⟩
  unfold Db.partDigest?
  cases hfind : s.db.uploadPart.find? fun p => p.sessionId == session.id &&
      p.ordinal == Int64.ofNat i with
  | none =>
    have hnot : i ∉ done := fun hdone =>
      List.find?_eq_none.mp hfind _ (h.present i hdone) (by simp [slicePart])
    rw [if_neg hnot]
    rfl
  | some p =>
    have hfound := List.find?_some hfind
    obtain ⟨hdone, rfl⟩ := hkey (List.mem_of_find?_eq_some hfind) hfound
    rw [if_pos hdone]
    rfl

theorem Uploading.withFile {done : List Nat} (h : Uploading sha contents session c s₀ done s)
    {data : Bytes} (hdata : data ∈ contents) :
    Uploading sha contents session c s₀ done (s.withFile sha data) := by
  refine ⟨?_, ?_, ?_, ?_, ?_⟩
  · unfold Store.withFile
    split
    · exact h.good
    · exact ⟨h.good.inv.addFile hdata, h.good.same⟩
  · rw [Store.withFile_tmp, h.tmp]
  · rw [Store.withFile_db, h.row]
  · rw [Store.withFile_db]
    exact h.parts
  · rw [Store.withFile_db]
    exact h.present

private theorem Uploading.registerPart_run {done : List Nat}
    (h : Uploading sha contents session c s₀ done s) (hann : Announces sha session c) {i : Nat}
    (hi : i < session.slices c) (now : Int64) :
    ∃ db, (registerPart now session.id (UInt64.ofNat i) (session.slice c i)
        (sha.hex (session.slice c i))).run s =
        (.ok ⟨sha.hex (session.slice c i), decide (i ∈ done)⟩, { s with db := db }) ∧
      db.uploadSession = s.db.uploadSession ∧
      ∀ p, p ∈ db.uploadPart ↔ p ∈ s.db.uploadPart ∨ p = slicePart sha session c i := by
  have hordinal : (UInt64.ofNat i).toInt64 = Int64.ofNat i := rfl
  unfold registerPart
  rw [hordinal, run_bind, run_select, h.partDigest? hann hi]
  by_cases hdone : i ∈ done
  · refine ⟨s.db, ?_, rfl, fun p => ?_⟩
    · simp only [if_pos hdone, if_true, run_pure, decide_eq_true hdone]
    · exact ⟨.inl, fun hp => hp.elim id fun hp => hp ▸ h.present i hdone⟩
  · simp only [if_neg hdone, decide_eq_false hdone]
    obtain ⟨len, hlen⟩ : ∃ len, len = UInt64.ofNat (session.slice c i).length := ⟨_, rfl⟩
    obtain ⟨row, hrow⟩ : ∃ row : ChunkRow,
      row = ⟨sha.hex (session.slice c i), len.toInt64, len.toInt64, .active, none, now⟩ := ⟨_, rfl⟩
    have hsame := (insertChunkOrIgnore_same s.db row).2
    have hnew : ((s.db.withChunk row).uploadPart.any fun p =>
        p.sessionId == session.id && p.ordinal == Int64.ofNat i) = false := by
      have hnone := h.partDigest? hann hi
      rw [if_neg hdone, Db.partDigest?, Option.map_eq_none_iff, List.find?_eq_none] at hnone
      rw [Bool.eq_false_iff, ne_eq, List.any_eq_true]
      rintro ⟨p, hp, hkey⟩
      exact hnone p (hsame.uploadPart ▸ hp) hkey
    have hsession : ((s.db.withChunk row).uploadSession.any (·.id == session.id)) = true := by
      obtain ⟨hmem, hid⟩ := Db.session?_some h.row
      exact List.any_eq_true.mpr ⟨session, hsame.uploadSession ▸ hmem, beq_self_eq_true _⟩
    have hinsert : (s.db.withChunk row).insertPart (slicePart sha session c i) = .ok
        { s.db.withChunk row with
          uploadPart := (s.db.withChunk row).uploadPart ++ [slicePart sha session c i] } :=
      (if_neg (by rw [slicePart, hnew]; simp)).trans (if_pos hsession)
    refine ⟨{ s.db.withChunk row with
        uploadPart := (s.db.withChunk row).uploadPart ++ [slicePart sha session c i] },
      ?_, hsame.uploadSession, fun p => ?_⟩
    · simp only [← hlen]
      rw [run_bind, run_exec]
      dsimp only
      rw [run_bind, run_exec, ← hrow]
      dsimp only
      have hdb : (s.db.insertChunkOrIgnore row).reactivate
          (ChunkRow.isPending (sha.hex (session.slice c i))) = s.db.withChunk row := by
        rw [Db.withChunk, hrow]
      rw [hdb, run_bind, run_stmt (by rw [slicePart, ← hlen] at hinsert; rw [hinsert]; rfl)]
      rw [slicePart, ← hlen]
      rfl
    · rw [List.mem_append, List.mem_singleton]
      exact or_congr_left (by rw [← hsame.uploadPart]; rfl)

private theorem Uploading.putChunk_run {done : List Nat}
    (h : Uploading sha contents session c s₀ done s)
    (hann : Announces sha session c) {i : Nat} (hi : i < session.slices c)
    (hdata : session.slice c i ∈ contents) {env : CallEnv} (hdue : env.now < session.expiresAt)
    (htag : ∀ f ∈ s₀.tmp, f.1 ≠ tmpFileName env.tmpTag) :
    ∃ s', (putChunk sha env session.id (UInt64.ofNat i) (session.slice c i)).run s =
        (.ok ⟨sha.hex (session.slice c i), decide (i ∈ done)⟩, s') ∧
      Uploading sha contents session c s₀ (i :: done) s' := by
  have hordinal : ¬ chunkCount session ≤ UInt64.ofNat i := by
    have hlt := hann.slices_lt hi
    rw [UInt64.le_iff_toNat_le, hann.chunkCount_eq, uint64_toNat_ofNat (by omega)]
    omega
  have hlength : ¬ ((session.slice c i).length = 0 ∨
      session.chunkSize.toNat < (session.slice c i).length) := by
    have hpos := Slices.slice_length_pos hi
    have hle := Slices.slice_length_le c session.chunkSize.toNat i
    unfold SessionInfo.slice
    omega
  have hfile := h.withFile hdata
  obtain ⟨db, hrun, hsessions, hparts⟩ := hfile.registerPart_run hann hi env.now
  have hput : (putChunk sha env session.id (UInt64.ofNat i) (session.slice c i)).run s =
      (.ok ⟨sha.hex (session.slice c i), decide (i ∈ done)⟩,
        { s.withFile sha (session.slice c i) with db := db }) := by
    unfold putChunk
    rw [run_bind, loadSession_run h.row]
    dsimp only
    rw [run_bind, expireSessionIfDue_run hdue]
    dsimp only
    rw [run_bind, loadSession_run h.row]
    dsimp only
    rw [if_neg (by rw [hann.state]; decide), if_neg (by rw [hann.state]; decide), if_neg hordinal,
      if_neg hlength, run_bind, chunkStorePut_run (h.tmp ▸ htag)]
    dsimp only
    rw [tx, transaction, run_lift, hrun]
  have hwp : wp (fun _ _ => False) (fun _ => True)
      (putChunk sha env session.id (UInt64.ofNat i) (session.slice c i))
      (Outcome (fun _ => True) fun _ s' => Good sha contents s₀ Set.univ s') s :=
    putChunk_wp hdata .inside h.good
  have hgood := wp_run.mp hwp
  rw [hput] at hgood
  refine ⟨_, hput, hgood, hfile.tmp, ?_, fun p hp hid => ?_, fun j hj => ?_⟩
  · have hrow := hfile.row
    rw [Db.session?] at hrow ⊢
    rw [← hrow]
    exact congrArg _ hsessions
  · rcases (hparts p).mp hp with hp | rfl
    · obtain ⟨j, hj, hjlt, rfl⟩ := hfile.parts p hp hid
      exact ⟨j, List.mem_cons_of_mem _ hj, hjlt, rfl⟩
    · exact ⟨i, List.mem_cons_self, hi, rfl⟩
  · rcases List.mem_cons.mp hj with rfl | hj
    · exact (hparts _).mpr (.inr rfl)
    · exact (hparts _).mpr (.inl (hfile.present j hj))

/-- The calls of `put_chunk` for these slices, one after the other. -/
def putSlices (sha : Sha256) (session : SessionInfo) (c : Bytes) :
    List (CallEnv × Nat) → StorageM (List ChunkAccept)
  | [] => Pure.pure []
  | (env, i) :: rest => do
    let accept ← putChunk sha env session.id (UInt64.ofNat i) (session.slice c i)
    let accepts ← putSlices sha session c rest
    return accept :: accepts

/-- Their answers: reused are those that repeat one of the `done`. -/
def sliceAccepts (sha : Sha256) (session : SessionInfo) (c : Bytes) :
    List Nat → List Nat → List ChunkAccept
  | _, [] => []
  | done, i :: rest =>
    ⟨sha.hex (session.slice c i), decide (i ∈ done)⟩ :: sliceAccepts sha session c (i :: done) rest

theorem Uploading.putSlices_run {done : List Nat} (h : Uploading sha contents session c s₀ done s)
    (hann : Announces sha session c) {puts : List (CallEnv × Nat)}
    (hputs : ∀ p ∈ puts, p.2 < session.slices c ∧ p.1.now < session.expiresAt ∧
      ∀ f ∈ s₀.tmp, f.1 ≠ tmpFileName p.1.tmpTag)
    (hdata : ∀ i < session.slices c, session.slice c i ∈ contents) :
    ∃ s' done', (putSlices sha session c puts).run s =
        (.ok (sliceAccepts sha session c done (puts.map (·.2))), s') ∧
      Uploading sha contents session c s₀ done' s' ∧
      ∀ i, i ∈ done' ↔ i ∈ done ∨ i ∈ puts.map (·.2) := by
  induction puts generalizing s done with
  | nil => exact ⟨s, done, rfl, h, by simp⟩
  | cons p rest ih =>
    obtain ⟨env, i⟩ := p
    obtain ⟨⟨hi, hdue, htag⟩, hrest⟩ := List.forall_mem_cons.mp hputs
    obtain ⟨s₁, hput, h₁⟩ := h.putChunk_run hann hi (hdata i hi) hdue htag
    obtain ⟨s₂, done', hrun, h₂, hdone⟩ := ih h₁ hrest
    refine ⟨s₂, done', ?_, h₂, fun j => ?_⟩
    · rw [putSlices, run_bind, hput]
      dsimp only
      rw [run_bind, hrun]
      rfl
    · rw [hdone, List.map_cons, List.mem_cons, List.mem_cons]
      tauto

end ForgeRelay
