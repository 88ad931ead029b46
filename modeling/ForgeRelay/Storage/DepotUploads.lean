import ForgeRelay.Storage.Idempotence
import ForgeRelay.Storage.Stores

/-!
# Uploads as a depot sees them

Creating a session, putting a chunk and aborting do to a store what they do to the depot it stands
for.
-/

namespace ForgeRelay

open Program Prog

variable {sha : Sha256} {contents : Set Bytes} {d : Depot} {db db' : Db} {s s' : Store}

/-- A run does to the store what is done to the depot, and they answer alike. -/
structure Matches {α : Type} (sha : Sha256) (contents : Set Bytes) (r : Except Error α × Store)
    (r' : Reply α × Depot) : Prop where
  reply : r.1.mapError Error.status? = r'.1
  stores : Stores sha contents r'.2 r.2

theorem Stores.refuse {α : Type} (h : Stores sha contents d s) (e : Error) {code : FrStatus}
    (he : e.status? = some code) :
    Matches sha contents ((.error e : Except Error α), s) (ForgeRelay.refuse code, d) :=
  ⟨congrArg Except.error he, h⟩

/-- A program that keeps the invariant wherever it ends. -/
def KeepsInv (sha : Sha256) (contents : Set Bytes) {α : Type} (p : StorageM α) (s : Store) : Prop :=
  StoreInv sha contents ∅ (p.run s).2

theorem KeepsInv.of_wp {α : Type} {p : StorageM α} {R : α → Store → Prop}
    (hp : wp (fun _ _ => False) (StoreInv sha contents ∅) p
      (Outcome (StoreInv sha contents ∅) R) s)
    (hR : ∀ a s', R a s' → StoreInv sha contents ∅ s') : KeepsInv sha contents p s := by
  have hend := wp_run.mp hp
  unfold KeepsInv
  cases hresult : (p.run s).1 with
  | error e =>
    rw [hresult] at hend
    exact hend
  | ok a =>
    rw [hresult] at hend
    exact hR _ _ hend

/-- Nothing interrupts an undisturbed run. -/
theorem Tolerant.undisturbed (s₀ : Store) :
    Tolerant sha contents s₀ ∅ (fun _ _ => False) (StoreInv sha contents ∅) :=
  ⟨fun _ h => h.inv, fun _ _ h => h.elim⟩

theorem Stores.good (h : Stores sha contents d s) : Good sha contents s ∅ s := ⟨h.inv, .refl _⟩

theorem Marks.tended {now : Int64} {rows rows' : List ChunkRow} (h : Marks now rows rows') :
    Tended sha contents now rows rows' := by
  obtain ⟨p, hp, rfl⟩ := h
  apply Tended.update
  intro c hc
  exact ⟨rfl, rfl, .inr ⟨rfl, .inr ⟨hp c hc, rfl⟩⟩⟩

theorem Holds.modify (h : Holds sha contents d db) {id : Bytes} {f : Upload → Upload}
    {g : SessionInfo → SessionInfo} (hsame : SameArtifacts db db')
    (hsessions : db'.uploadSession = Table.update (·.id == id) g db.uploadSession)
    (hg : ∀ r, (g r).id = r.id ∧ (g r).chunkSize = r.chunkSize)
    (hf : ∀ u ∈ d.uploads, u.session.id = id → (f u).session = g u.session)
    (hparts : ∀ u ∈ d.uploads, db'.uploadPart.filter (·.sessionId == u.session.id) =
      (if u.session.id = id then f u else u).parts.map (Part.row sha u.session.id))
    (hknown : ∀ u ∈ d.uploads, u.session.id = id → ∀ p ∈ (f u).parts,
      p.data ∈ contents ∧ p.data.length ≤ maxChunk)
    (hclosed : ∀ u ∈ d.uploads, u.session.id = id →
      (f u).session.state = .expired ∨ (f u).session.state = .aborted → (f u).parts = []) :
    Holds sha contents (d.modify id f) db' := by
  have hmem {u' : Upload} (hu' : u' ∈ (d.modify id f).uploads) :
      ∃ u ∈ d.uploads, (if u.session.id = id then f u else u) = u' := by
    obtain ⟨u, hu, rfl⟩ := Table.mem_update.mp hu'
    refine ⟨u, hu, ?_⟩
    by_cases hid : u.session.id = id <;> simp [hid]
  have hid {u : Upload} (hu : u ∈ d.uploads) :
      (if u.session.id = id then f u else u).session.id = u.session.id := by
    split
    · rename_i hid
      rw [hf u hu hid, (hg _).1]
    · rfl
  refine ⟨?_, ?_, ?_, ?_, ?_, ?_, ?_, ?_, ?_⟩
  · rw [hsessions, h.sessions, Depot.modify, Table.update, Table.update, List.map_map, List.map_map]
    apply List.map_congr_left
    intro u hu
    by_cases hid : u.session.id = id
    · simp [hid, hf u hu hid]
    · simp [hid]
  · intro u' hu'
    obtain ⟨u, hu, rfl⟩ := hmem hu'
    rw [hid hu]
    exact hparts u hu
  · intro u' hu'
    obtain ⟨u, hu, rfl⟩ := hmem hu'
    split
    · rename_i hid
      exact hknown u hu hid
    · exact h.known u hu
  · intro u' hu'
    obtain ⟨u, hu, rfl⟩ := hmem hu'
    split
    · rename_i hid
      rw [hf u hu hid, (hg _).2]
      exact h.chunkSizes u hu
    · exact h.chunkSizes u hu
  · intro u' hu'
    obtain ⟨u, hu, rfl⟩ := hmem hu'
    split
    · rename_i hid
      exact hclosed u hu hid
    · exact h.closed u hu
  · rw [hsame.artifact]
    exact h.artifacts
  · intro r hr
    rw [Db.manifest, hsame.artifactChunk]
    exact h.manifests r hr
  · intro e he
    rw [hsame.artifactChunk] at he
    rw [hsame.artifact]
    exact h.owned e he
  · rw [hsame.artifactSeq]
    exact h.issued

theorem Holds.setSessionState_eq (h : Holds sha contents d db) (hrows : RowsInv sha contents db)
    {id : Bytes} {u : Upload} (hu : d.upload? id = some u) (state : SessionState) :
    db.setSessionState (fun r => r.id == id && r.state == u.session.state) state =
      db.setSessionState (·.id == id) state := by
  obtain ⟨hmem, rfl⟩ := Depot.upload?_some hu
  have hsession : u.session ∈ db.uploadSession := h.sessions ▸ List.mem_map_of_mem hmem
  rw [Db.setSessionState, Db.setSessionState]
  congr 1
  apply Table.update_congr
  intro r hr
  by_cases hid : r.id = u.session.id
  · rw [Table.eq_of_key hrows.sessionKeys hr hsession hid]
    simp
  · simp [hid]

theorem Holds.to (h : Holds sha contents d db) (id : Bytes) {state : SessionState}
    (hstate : ¬(state = .expired ∨ state = .aborted)) :
    Holds sha contents (d.modify id (Upload.to state)) (db.setSessionState (·.id == id) state) := by
  refine h.modify (g := fun r => { r with state := state }) ⟨rfl, rfl, rfl⟩ rfl
    (fun r => ⟨rfl, rfl⟩) (fun u _ _ => rfl) ?_ ?_ ?_
  · intro u hu
    split <;> exact h.parts u hu
  · intro u hu _
    exact h.known u hu
  · intro u hu _ hclosed
    exact absurd hclosed hstate

private theorem Db.deleteParts_filter (db : Db) (id other : Bytes) :
    (db.deleteParts id).uploadPart.filter (·.sessionId == other) =
      if other = id then [] else db.uploadPart.filter (·.sessionId == other) := by
  rw [Db.deleteParts, Table.delete, List.filter_filter]
  by_cases hother : other = id
  · subst hother
    simp
  · rw [if_neg hother]
    apply List.filter_congr
    intro p _
    by_cases hp : p.sessionId = other
    · simp [hp, hother]
    · simp [hp]

theorem Holds.close (h : Holds sha contents d db) (id : Bytes) (state : SessionState)
    (chunk : List ChunkRow) :
    Holds sha contents (d.modify id (Upload.close state))
      { (db.setSessionState (·.id == id) state).deleteParts id with chunk := chunk } := by
  refine h.modify (g := fun r => { r with state := state }) ⟨rfl, rfl, rfl⟩ rfl
    (fun r => ⟨rfl, rfl⟩) (fun u _ _ => rfl) ?_ ?_ (fun _ _ _ _ => rfl)
  · intro u hu
    have hfilter := db.deleteParts_filter id u.session.id
    split
    · rename_i hid
      rw [if_pos hid] at hfilter
      exact hfilter
    · rename_i hid
      rw [if_neg hid] at hfilter
      exact hfilter.trans (h.parts u hu)
  · intro u _ _ p hp
    cases hp

theorem Holds.add (h : Holds sha contents d db) {id : Bytes} {p : Part}
    (hopen : ∀ u ∈ d.uploads, u.session.id = id → u.session.state = .open)
    (hknown : p.data ∈ contents ∧ p.data.length ≤ maxChunk) (chunk : List ChunkRow) :
    Holds sha contents (d.modify id (Upload.add p))
      { db with uploadPart := db.uploadPart ++ [p.row sha id], chunk := chunk } := by
  refine h.modify (g := fun r => r) ⟨rfl, rfl, rfl⟩ ?_ (fun r => ⟨rfl, rfl⟩) (fun u _ _ => rfl)
    ?_ ?_ ?_
  · rw [Table.update]
    simp
  · intro u hu
    rw [List.filter_append, h.parts u hu]
    by_cases hid : u.session.id = id
    · simp [Upload.add, Part.row, hid]
    · simp [Part.row, hid, Ne.symm hid]
  · intro u hu _ q hq
    rcases List.mem_append.mp hq with hq | hq
    · exact h.known u hu q hq
    · rw [List.mem_singleton.mp hq]
      exact hknown
  · intro u hu hid hclosed
    have hstate : u.session.state = .expired ∨ u.session.state = .aborted := hclosed
    rw [hopen u hu hid] at hstate
    simp at hstate

private theorem Holds.upload?_of_mem (h : Holds sha contents d db) (hrows : RowsInv sha contents db)
    {u u' : Upload} (hu : d.upload? u'.session.id = some u) (hu' : u' ∈ d.uploads) : u' = u := by
  have hkeys : (d.uploads.map fun u => u.session.id).Nodup := by
    have := hrows.sessionKeys
    rwa [h.sessions, List.map_map] at this
  obtain ⟨hmem, hid⟩ := Depot.upload?_some hu
  exact Table.eq_of_key hkeys hu' hmem hid.symm

private theorem Depot.upload?_modify {id : Bytes} {u : Upload} (hu : d.upload? id = some u)
    {f : Upload → Upload} (hf : ∀ u, (f u).session.id = u.session.id) :
    (d.modify id f).upload? id = some (f u) := by
  have hid := (Depot.upload?_some hu).2
  rw [Depot.upload?, Depot.modify, Table.find?_update fun u => by rw [hf]]
  rw [Depot.upload?] at hu
  rw [hu]
  simp [hid]

theorem Stores.expireIfDue (h : Stores sha contents d s) (hsha : sha.NoCollision contents)
    (now : Int64) {id : Bytes} {u : Upload} (hu : d.upload? id = some u) :
    ∃ s', (expireSessionIfDue u.session now).run s = (.ok (), s') ∧
      Stores sha contents (d.expireIfDue now id) s' ∧ s'.files = s.files := by
  have hid := (Depot.upload?_some hu).2
  have hsession : u.session ∈ s.db.uploadSession :=
    h.holds.sessions ▸ List.mem_map_of_mem (Depot.upload?_some hu).1
  have hinv : KeepsInv sha contents (expireSessionIfDue u.session now) s :=
    .of_wp (expireSessionIfDue_wp (.undisturbed s) h.good hsession) fun _ _ hgood => hgood.1.inv
  unfold KeepsInv at hinv
  unfold Depot.expireIfDue
  rw [hu]
  dsimp only
  unfold expireSessionIfDue at hinv ⊢
  by_cases hdue : u.session.state = .open ∧ u.session.expiresAt ≤ now
  · rw [if_pos hdue] at hinv ⊢
    rw [if_pos hdue]
    have hset := h.holds.setSessionState_eq h.inv.rows hu .expired
    rw [hdue.1] at hset
    obtain ⟨chunk, hrelease, hmarks⟩ := markUnreferencedParts_marks id now
      { s with db := s.db.setSessionState (·.id == id) .expired }
    have hrun : (exec (·.setSessionState (fun r => r.id == u.session.id && r.state == .open)
        .expired) >>= fun _ => markUnreferencedParts u.session.id now).run s =
        (.ok (), { s with db := { (s.db.setSessionState (·.id == id) .expired).deleteParts id with
          chunk := chunk } }) := by
      rw [run_bind, run_exec, hid]
      dsimp only
      rw [hset]
      exact hrelease
    rw [hrun] at hinv ⊢
    exact ⟨_, rfl, h.settle hsha (h.holds.close id .expired chunk) hinv h.tmp hmarks.tended, rfl⟩
  · rw [if_neg hdue, if_neg hdue]
    exact ⟨s, rfl, h, rfl⟩

theorem Depot.expireIfDue_upload? (now : Int64) {id : Bytes} {u : Upload}
    (hu : d.upload? id = some u) : ∃ u', (d.expireIfDue now id).upload? id = some u' ∧
      (u' = u ∨ u'.session.state = .expired) := by
  unfold Depot.expireIfDue
  rw [hu]
  dsimp only
  split
  · exact ⟨u.close .expired, Depot.upload?_modify hu fun _ => rfl, .inr rfl⟩
  · exact ⟨u, hu, .inl rfl⟩

theorem Depot.expireIfDue_none (now : Int64) {id : Bytes} (hu : d.upload? id = none) :
    d.expireIfDue now id = d := by
  rw [Depot.expireIfDue, hu]

theorem Stores.loadSession_none (h : Stores sha contents d s) {id : Bytes}
    (hu : d.upload? id = none) :
    (loadSession id).run s = (.error (.of .eNotfound "session not found"), s) := by
  have hnone := h.holds.session? id
  rw [hu] at hnone
  rw [loadSession, run_bind, run_select, hnone]
  rfl

theorem Stores.loadSession_some (h : Stores sha contents d s) {id : Bytes} {u : Upload}
    (hu : d.upload? id = some u) : (loadSession id).run s = (.ok u.session, s) := by
  apply loadSession_run
  rw [h.holds.session?, hu]
  rfl

theorem Holds.partDigest? (h : Holds sha contents d db) {id : Bytes} {u : Upload}
    (hu : d.upload? id = some u) (ordinal : Int64) :
    db.partDigest? id ordinal = (u.part? ordinal).map fun p => sha.hex p.data := by
  obtain ⟨hmem, rfl⟩ := Depot.upload?_some hu
  have hfind : db.uploadPart.find? (fun p => p.sessionId == u.session.id && p.ordinal == ordinal) =
      (db.uploadPart.filter (·.sessionId == u.session.id)).find? (·.ordinal == ordinal) := by
    rw [List.find?_filter]
    congr 1
    funext p
    simp [Bool.beq_eq_decide_eq]
  rw [Db.partDigest?, hfind, h.parts u hmem, List.find?_map, Option.map_map, Upload.part?]
  rfl

private theorem Upload.part?_some {u : Upload} {ordinal : Int64} {p : Part}
    (h : u.part? ordinal = some p) : p ∈ u.parts ∧ p.ordinal = ordinal :=
  ⟨List.mem_of_find?_eq_some h, by simpa using List.find?_some h⟩

theorem Tended.withChunk {now : Int64} {row : ChunkRow} (hactive : row.state = .active)
    (hmeasures : row.Measures sha contents) :
    Tended sha contents now db.chunk (db.withChunk row).chunk := by
  have hbecomes : ∀ c : ChunkRow, c.Becomes now
      (if ChunkRow.isPending row.digest c then { c with state := .active, pendingAt := none }
        else c) := by
    intro c
    split
    · exact ⟨rfl, rfl, .inl rfl⟩
    · exact .refl now c
  have hnew : ChunkRow.isPending row.digest row = false := by
    simp [ChunkRow.isPending, hactive]
  unfold Db.withChunk Db.insertChunkOrIgnore Db.reactivate
  dsimp only
  split
  · constructor
    · intro c' hc'
      obtain ⟨c, hc, rfl⟩ := Table.mem_update.mp hc'
      exact .inl ⟨c, hc, hbecomes c⟩
    · intro c hc
      exact ⟨_, Table.mem_update.mpr ⟨c, hc, rfl⟩, hbecomes c⟩
  · constructor
    · intro c' hc'
      obtain ⟨c, hc, rfl⟩ := Table.mem_update.mp hc'
      rcases List.mem_append.mp hc with hc | hc
      · exact .inl ⟨c, hc, hbecomes c⟩
      · rw [List.mem_singleton.mp hc, hnew]
        exact .inr ⟨hactive, hmeasures⟩
    · intro c hc
      exact ⟨_, Table.mem_update.mpr ⟨c, List.mem_append_left _ hc, rfl⟩, hbecomes c⟩

private theorem Holds.addPart (h : Holds sha contents d db) {id : Bytes} {p : Part}
    (hopen : ∀ u ∈ d.uploads, u.session.id = id → u.session.state = .open)
    (hknown : p.data ∈ contents ∧ p.data.length ≤ maxChunk) (row : ChunkRow) :
    Holds sha contents (d.modify id (Upload.add p))
      { db.withChunk row with uploadPart := db.uploadPart ++ [p.row sha id] } := by
  have hdb : ({ db.withChunk row with uploadPart := db.uploadPart ++ [p.row sha id] } : Db) =
      { db with
        uploadPart := db.uploadPart ++ [p.row sha id], chunk := (db.withChunk row).chunk } := by
    unfold Db.withChunk Db.insertChunkOrIgnore
    split <;> rfl
  rw [hdb]
  exact h.add hopen hknown _

private theorem registerPart_new {id : Bytes} {ordinal : UInt64} (data digest : Bytes) (now : Int64)
    (hnew : s.db.partDigest? id ordinal.toInt64 = none)
    (hsession : ∃ r ∈ s.db.uploadSession, r.id = id) :
    (registerPart now id ordinal data digest).run s =
      (.ok { digest := digest, reused := false }, { s with db :=
        { s.db.withChunk ⟨digest, (UInt64.ofNat data.length).toInt64,
            (UInt64.ofNat data.length).toInt64, .active, none, now⟩ with
          uploadPart := s.db.uploadPart ++
            [⟨id, ordinal.toInt64, digest, UInt64.ofNat data.length⟩] } }) := by
  obtain ⟨len, hlen⟩ : ∃ len, len = UInt64.ofNat data.length := ⟨_, rfl⟩
  obtain ⟨row, hrow⟩ : ∃ row : ChunkRow,
    row = ⟨digest, len.toInt64, len.toInt64, .active, none, now⟩ := ⟨_, rfl⟩
  have hsame := (insertChunkOrIgnore_same s.db row).2
  have hunused : ((s.db.withChunk row).uploadPart.any fun p =>
      p.sessionId == id && p.ordinal == ordinal.toInt64) = false := by
    rw [Db.partDigest?, Option.map_eq_none_iff, List.find?_eq_none] at hnew
    apply Bool.eq_false_iff.mpr
    intro hany
    obtain ⟨p, hp, hkey⟩ := List.any_eq_true.mp hany
    exact hnew p (hsame.uploadPart ▸ hp) hkey
  have hany : ((s.db.withChunk row).uploadSession.any (·.id == id)) = true := by
    obtain ⟨r, hr, hid⟩ := hsession
    exact List.any_eq_true.mpr ⟨r, hsame.uploadSession ▸ hr, beq_iff_eq.mpr hid⟩
  have hinsert : (s.db.withChunk row).insertPart ⟨id, ordinal.toInt64, digest, len⟩ = .ok
      { s.db.withChunk row with
        uploadPart := s.db.uploadPart ++ [⟨id, ordinal.toInt64, digest, len⟩] } := by
    rw [← hsame.uploadPart]
    exact (if_neg (by rw [hunused]; simp)).trans (if_pos hany)
  have hdb : (s.db.insertChunkOrIgnore row).reactivate (ChunkRow.isPending digest) =
      s.db.withChunk row := by rw [Db.withChunk, hrow]
  unfold registerPart
  rw [run_bind, run_select, hnew]
  simp only [← hlen]
  rw [run_bind, run_exec]
  dsimp only
  rw [run_bind, run_exec, ← hrow]
  dsimp only
  rw [hdb, run_bind, run_stmt (by rw [hinsert]; rfl)]
  rfl

theorem Stores.withFile (h : Stores sha contents d s) {data : Bytes} (hdata : data ∈ contents) :
    Stores sha contents d (s.withFile sha data) := by
  have hinv : StoreInv sha contents ∅ (s.withFile sha data) := by
    unfold Store.withFile
    split
    · exact h.inv
    · exact h.inv.addFile hdata
  refine ⟨?_, hinv, ?_, ?_, ?_, h.garbageKeys⟩
  · rw [Store.withFile_db]
    exact h.holds
  · rw [Store.withFile_tmp]
    exact h.tmp
  · rw [Store.withFile_db]
    exact h.sizes
  · rw [Store.withFile_db]
    exact h.garbage

private theorem Store.withFile_isSome (sha : Sha256) (s : Store) (data : Bytes) :
    ((s.withFile sha data).files (relPath (sha.hex data))).isSome = true := by
  unfold Store.withFile
  split
  · assumption
  · simp

private theorem registerPart_matches (h : Stores sha contents d s) (hsha : sha.NoCollision contents)
    {now : Int64} {id data : Bytes} {ordinal : UInt64} {u : Upload} (hu : d.upload? id = some u)
    (hopen : u.session.state = .open) (hdata : data ∈ contents) (hlength : data.length ≤ maxChunk)
    (hfile : (s.files (relPath (sha.hex data))).isSome) :
    Matches sha contents ((tx (registerPart now id ordinal data (sha.hex data))).run s)
      (d.accept sha now id ordinal data u) := by
  unfold Depot.accept
  obtain ⟨hmem, hid⟩ := Depot.upload?_some hu
  have hpart := h.holds.partDigest? hu ordinal.toInt64
  rw [tx, transaction, run_lift]
  cases hp : u.part? ordinal.toInt64 with
  | some p =>
    rw [hp, Option.map_some] at hpart
    have hrun : (registerPart now id ordinal data (sha.hex data)).run s =
        (if p.data = data then .ok { digest := sha.hex data, reused := true }
          else .error (.of .eConflict "chunk ordinal already used with different content"), s) := by
      unfold registerPart
      rw [run_bind, run_select, hpart]
      dsimp only
      by_cases hsame : p.data = data
      · rw [if_pos hsame, if_pos (congrArg sha.hex hsame)]
        rfl
      · have hhex : sha.hex p.data ≠ sha.hex data := by
          intro hhex
          have hknown := (h.holds.known u hmem p (Upload.part?_some hp).1).1
          exact hsame (hsha.eq_of_hex hknown hdata hhex)
        rw [if_neg hsame, if_neg hhex]
        rfl
    rw [hrun]
    dsimp only
    by_cases hsame : p.data = data
    · rw [if_pos hsame, if_pos hsame]
      exact ⟨rfl, h⟩
    · rw [if_neg hsame, if_neg hsame]
      exact h.refuse _ rfl
  | none =>
    rw [hp, Option.map_none] at hpart
    have hsession : u.session ∈ s.db.uploadSession := h.holds.sessions ▸ List.mem_map_of_mem hmem
    have hsize : data.length < 2^64 := lt_of_le_of_lt hlength (by decide)
    have hwp : wp (fun _ _ => False) (fun _ => True)
        (registerPart now id ordinal data (sha.hex data)) _ s :=
      registerPart_wp hdata hsize h.good ⟨u.session, hsession, hid, by rw [hopen]; rfl⟩ hfile
    have hrun := registerPart_new data (sha.hex data) now hpart ⟨u.session, hsession, hid⟩
    replace hwp := wp_run.mp hwp
    rw [hrun] at hwp ⊢
    refine ⟨rfl, h.settle hsha ?_ hwp.inv h.tmp ?_⟩
    · apply h.holds.addPart (p := ⟨ordinal.toInt64, data⟩) ?_ ⟨hdata, hlength⟩
      intro u' hu' hid'
      rw [← hid'] at hu
      rw [h.holds.upload?_of_mem h.inv.rows hu hu', hopen]
    · apply Tended.withChunk rfl
      refine ⟨data, hdata, rfl, ?_, hlength⟩
      rfl

theorem putChunk_matches (h : Stores sha contents d s) (hsha : sha.NoCollision contents)
    {env : CallEnv} {id data : Bytes} {ordinal : UInt64} (hdata : data ∈ contents) :
    Matches sha contents ((putChunk sha env id ordinal data).run s)
      (d.put sha env id ordinal data) := by
  unfold putChunk Depot.put
  dsimp only
  cases hu : d.upload? id with
  | none =>
    rw [d.expireIfDue_none env.now hu, hu, run_bind, h.loadSession_none hu]
    exact h.refuse _ rfl
  | some u =>
    obtain ⟨s₁, hexpire, h₁, -⟩ := h.expireIfDue hsha env.now hu
    obtain ⟨u₁, hu₁, -⟩ := Depot.expireIfDue_upload? env.now hu
    generalize d.expireIfDue env.now id = d₁ at h₁ hu₁ ⊢
    rw [run_bind, h.loadSession_some hu]
    dsimp only
    rw [run_bind, hexpire]
    dsimp only
    rw [run_bind, h₁.loadSession_some hu₁, hu₁]
    dsimp only
    by_cases hexpired : u₁.session.state = .expired
    · rw [if_pos hexpired, if_pos hexpired]
      exact h₁.refuse _ rfl
    rw [if_neg hexpired, if_neg hexpired]
    by_cases hopen : u₁.session.state ≠ .open
    · rw [if_pos hopen, if_pos hopen]
      exact h₁.refuse _ rfl
    rw [if_neg hopen, if_neg hopen]
    by_cases hordinal : chunkCount u₁.session ≤ ordinal
    · rw [if_pos hordinal, if_pos (.inl hordinal)]
      exact h₁.refuse _ rfl
    rw [if_neg hordinal]
    by_cases hlength : data.length = 0 ∨ u₁.session.chunkSize.toNat < data.length
    · rw [if_pos hlength, if_pos (.inr hlength)]
      exact h₁.refuse _ rfl
    rw [if_neg hlength, if_neg (not_or.mpr ⟨hordinal, hlength⟩)]
    have hput : (chunkStorePut sha env.tmpTag data (sha.hex data)).run s₁ =
        (.ok (), s₁.withFile sha data) := by
      apply chunkStorePut_run
      rw [h₁.tmp]
      intro f hf
      cases hf
    rw [run_bind, hput]
    have hsmall := h₁.holds.chunkSizes u₁ (Depot.upload?_some hu₁).1
    have hfits : data.length ≤ maxChunk := by
      have := not_lt.mp (not_or.mp hlength).2
      omega
    exact registerPart_matches (h₁.withFile hdata) hsha hu₁ (not_not.mp hopen) hdata hfits
      (s₁.withFile_isSome sha data)

theorem Holds.countOpenSessions (h : Holds sha contents d db) (owner : Bytes) :
    db.countOpenSessions owner =
      d.uploads.countP fun u => u.session.owner == owner && u.session.state == .open := by
  rw [Db.countOpenSessions, h.sessions, List.countP_map]
  rfl

theorem Holds.insert (h : Holds sha contents d db) (hrows : RowsInv sha contents db)
    {session : SessionInfo} (hnew : d.upload? session.id = none)
    (hchunk : session.chunkSize.toNat ≤ maxChunk) :
    Holds sha contents { d with uploads := d.uploads ++ [⟨session, []⟩] }
      { db with uploadSession := db.uploadSession ++ [session] } := by
  have hnone : db.uploadPart.filter (·.sessionId == session.id) = [] := by
    apply List.filter_eq_nil_iff.mpr
    intro p hp hid
    obtain ⟨u, hu, huid, -⟩ := h.upload_of_part hrows hp
    have hfound := List.find?_eq_none.mp hnew u hu
    rw [huid] at hfound
    exact hfound hid
  have hsplit {P : Upload → Prop} (hold : ∀ u ∈ d.uploads, P u) (hlast : P ⟨session, []⟩) :
      ∀ u ∈ d.uploads ++ [⟨session, []⟩], P u := by
    intro u hu
    rcases List.mem_append.mp hu with hu | hu
    · exact hold u hu
    · rwa [List.mem_singleton.mp hu]
  refine ⟨?_, hsplit h.parts hnone, hsplit h.known ?_, hsplit h.chunkSizes hchunk,
    hsplit h.closed fun _ => rfl, h.artifacts, h.manifests, h.owned, h.issued⟩
  · rw [h.sessions, List.map_append, List.map_singleton]
  · intro p hp
    cases hp

theorem createSession_matches (h : Stores sha contents d s) (hsha : sha.NoCollision contents)
    {cfg : StorageConfig} (hcfg : checkConfig cfg = .ok ()) {env : CallEnv}
    (ns name version : Bytes) (size : UInt64) (digest owner : Bytes) :
    Matches sha contents ((createSession cfg env ns name version size digest owner).run s)
      (d.create cfg env ns name version size digest owner) := by
  unfold createSession Depot.create
  by_cases hident : ¬(frIdentValidComponent ns ∧ frIdentValidComponent name ∧
      frIdentValidVersion version)
  · rw [if_pos hident, if_pos (.inl hident)]
    exact h.refuse _ rfl
  rw [if_neg hident]
  by_cases howner : owner = []
  · rw [if_pos howner, if_pos (.inr (.inl howner))]
    exact h.refuse _ rfl
  rw [if_neg howner]
  by_cases hdigest : frDigestHexValid digest = false
  · rw [if_pos hdigest, if_pos (.inr (.inr hdigest))]
    exact h.refuse _ rfl
  rw [if_neg hdigest, if_neg (not_or.mpr ⟨hident, not_or.mpr ⟨howner, hdigest⟩⟩), tx, transaction,
    run_lift, run_bind, run_select, h.holds.countOpenSessions]
  dsimp only
  by_cases hlimit : cfg.maxSessionsPerOwner.toInt ≤
      (d.uploads.countP fun u => u.session.owner == owner && u.session.state == .open : Nat)
  · rw [if_pos hlimit, if_pos hlimit]
    exact h.refuse _ rfl
  rw [if_neg hlimit, if_neg hlimit, run_bind]
  have hsum := h.sumActive hsha
  by_cases hused : d.used < 2^63
  case neg =>
    rw [if_neg hused] at hsum
    rw [if_pos (not_lt.mp hused), stmt, run_lift, hsum]
    exact h.refuse _ rfl
  rw [if_pos hused] at hsum
  rw [if_neg (not_le.mpr hused), run_stmt (by rw [hsum]; rfl)]
  dsimp only
  rw [show (Int64.ofNat d.used).toUInt64 = UInt64.ofNat d.used from rfl]
  by_cases hwatermark : cfg.capacityBytes * cfg.highWatermarkPercent.toInt64.toUInt64 / 100 ≤
      UInt64.ofNat d.used
  · rw [if_pos hwatermark, if_pos hwatermark]
    exact h.refuse _ rfl
  rw [if_neg hwatermark, if_neg hwatermark, run_bind]
  have hany : s.db.uploadSession.any (·.id == env.newSessionId) =
      (d.upload? env.newSessionId).isSome := by
    rw [h.holds.sessions, List.any_map, Depot.upload?, List.isSome_find?]
    rfl
  cases hu : d.upload? env.newSessionId with
  | some u =>
    rw [hu, Option.isSome_some] at hany
    rw [stmt, run_lift, Db.insertSession, newSession, if_pos hany,
      if_pos (Option.isSome_some : (some u).isSome = true)]
    exact h.refuse _ rfl
  | none =>
    rw [hu, Option.isSome_none] at hany
    have hinsert : s.db.insertSession (newSession cfg env ns name version size digest owner) =
        .ok { s.db with uploadSession := s.db.uploadSession ++
          [newSession cfg env ns name version size digest owner] } :=
      if_neg (by rw [newSession, hany]; exact Bool.false_ne_true)
    rw [run_stmt (by rw [hinsert]; rfl), if_neg (by simp)]
    refine ⟨rfl, h.unsettled ?_ (h.inv.insertSession hinsert) h.tmp rfl rfl⟩
    exact h.holds.insert h.inv.rows hu (checkConfig_ok hcfg).1.2

theorem abortSession_matches (h : Stores sha contents d s) (hsha : sha.NoCollision contents)
    (env : CallEnv) (id : Bytes) :
    Matches sha contents ((abortSession env id).run s) (d.abort env id) := by
  have hinv : KeepsInv sha contents (abortSession env id) s :=
    .of_wp (abortSession_wp (.undisturbed s) h.good) fun _ _ hgood => hgood.inv
  unfold KeepsInv at hinv
  unfold abortSession at hinv ⊢
  unfold Depot.abort
  cases hu : d.upload? id with
  | none =>
    rw [run_bind, h.loadSession_none hu]
    exact h.refuse _ rfl
  | some u =>
    rw [run_bind, h.loadSession_some hu] at hinv ⊢
    dsimp only at hinv ⊢
    by_cases hterminal : u.session.state = .aborted ∨ u.session.state = .expired ∨
        u.session.state = .completed
    · have hlive : u.session.state.live = false := by
        rcases hterminal with hstate | hstate | hstate <;> rw [hstate] <;> rfl
      rw [if_pos hterminal, if_neg (by rw [hlive]; exact Bool.false_ne_true)]
      exact ⟨rfl, h⟩
    · have hlive : u.session.state.live = true := by
        cases hstate : u.session.state <;> simp [hstate, SessionState.live] at hterminal ⊢
      obtain ⟨s₁, hs₁⟩ : ∃ s₁ : Store, s₁ = s.updateSessions
        (fun r => r.id == id && r.state == u.session.state) .aborted := ⟨_, rfl⟩
      have hdb : s₁.db = s.db.setSessionState (·.id == id) .aborted :=
        hs₁ ▸ h.holds.setSessionState_eq h.inv.rows hu .aborted
      have htmp : s₁.tmp = [] := hs₁ ▸ h.tmp
      have hchunk : s₁.db.chunk = s.db.chunk := hs₁ ▸ rfl
      obtain ⟨chunk, hrelease, hmarks⟩ := markUnreferencedParts_marks id env.now s₁
      have hrun : (transition id u.session.state .aborted >>= fun _ =>
          markUnreferencedParts id env.now).run s =
          (.ok (), { s₁ with
            db := { (s.db.setSessionState (·.id == id) .aborted).deleteParts id with
              chunk := chunk } }) := by
        rw [run_bind, run_transition, ← hs₁, ← hdb]
        exact hrelease
      rw [if_neg hterminal, run_labelled, tx, transaction, run_lift, hrun] at hinv ⊢
      rw [if_pos hlive]
      exact ⟨rfl, h.settle hsha (h.holds.close id .aborted chunk) hinv htmp
        (hchunk ▸ hmarks.tended)⟩

end ForgeRelay
