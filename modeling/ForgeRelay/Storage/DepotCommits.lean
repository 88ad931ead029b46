import ForgeRelay.Storage.DepotUploads
import ForgeRelay.Storage.UploadRoundTrip

/-!
# Commits as a depot sees them

The scan over the parts, the digest over the chunk files and the publishing transaction come to
this: an upload whose parts are all there becomes an artifact.
-/

namespace ForgeRelay

open Program Prog

variable {sha : Sha256} {contents : Set Bytes} {d : Depot} {db db' : Db} {s s' : Store}
  {id : Bytes} {u : Upload}

theorem Holds.partsByOrdinal (h : Holds sha contents d db) (hu : d.upload? id = some u) :
    db.partsByOrdinal id = u.sorted.map (Part.row sha id) := by
  obtain ⟨hmem, rfl⟩ := Depot.upload?_some hu
  rw [Db.partsByOrdinal, h.parts u hmem, Upload.sorted]
  symm
  apply List.map_insertionSort
  intro a _ b _
  exact Iff.rfl

private theorem Upload.mem_sorted {p : Part} :
    p ∈ u.sorted ↔ p ∈ u.parts := List.mem_insertionSort _

private theorem Holds.chunks_known (h : Holds sha contents d db) (hu : d.upload? id = some u) :
    ∀ data ∈ u.chunks, data ∈ contents ∧ data.length ≤ maxChunk := by
  intro data hdata
  obtain ⟨p, hp, rfl⟩ := List.mem_map.mp hdata
  exact h.known u (Depot.upload?_some hu).1 p (Upload.mem_sorted.mp hp)

private theorem Holds.registers (h : Holds sha contents d db) (hu : d.upload? id = some u) :
    List.Forall₂ (Registers sha) (u.sorted.map (Part.row sha id)) u.chunks := by
  apply List.forall₂_map_left_iff.mpr
  apply List.forall₂_map_right_iff.mpr
  apply List.forall₂_same.mpr
  intro p hp
  refine ⟨rfl, ?_⟩
  have hlength := (h.known u (Depot.upload?_some hu).1 p (Upload.mem_sorted.mp hp)).2
  exact uint64_toNat_ofNat (lt_of_le_of_lt hlength (by decide))

private theorem scanParts_status {chunkSize total : UInt64} {ordinal : Int64}
    {acc : List ManifestEntry} {parts : List PartRow} {e : Error}
    (h : scanParts chunkSize ordinal total acc parts = .error e) :
    e.status? = some .eState := by
  induction parts generalizing ordinal total acc with
  | nil => cases h
  | cons part parts ih =>
    rw [scanParts] at h
    split at h
    · cases h
      rfl
    · split at h
      · cases h
        rfl
      · exact ih h

private theorem scanParts_inOrder {chunkSize off total : UInt64} {i : Nat}
    {acc : List ManifestEntry} {parts : List PartRow} {manifest : List ManifestEntry}
    (h : scanParts chunkSize (Int64.ofNat i) off acc parts = .ok (manifest, total)) :
    parts.map (·.ordinal) = (List.range' i parts.length).map Int64.ofNat ∧
      ∀ p ∈ parts, p.length ≤ chunkSize := by
  induction parts generalizing i off acc with
  | nil => exact ⟨rfl, by simp⟩
  | cons part parts ih =>
    rw [scanParts] at h
    split at h
    · cases h
    · rename_i hordinal
      split at h
      · cases h
      · rename_i hlength
        rw [show Int64.ofNat i + 1 = Int64.ofNat (i + 1) from (Int64.ofNat_add i 1).symm] at h
        obtain ⟨hordinals, hlengths⟩ := ih h
        constructor
        · rw [List.map_cons, hordinals, not_not.mp hordinal, List.length_cons, List.range'_succ,
            List.map_cons]
        · exact List.forall_mem_cons.mpr ⟨UInt64.not_lt.mp hlength, hlengths⟩

private theorem Holds.scan (h : Holds sha contents d db) (hu : d.upload? id = some u)
    (hordinals : u.sorted.map (·.ordinal) = (List.range u.sorted.length).map Int64.ofNat)
    (hlengths : ∀ data ∈ u.chunks, data.length ≤ u.session.chunkSize.toNat) :
    scanParts u.session.chunkSize 0 0 [] (u.sorted.map (Part.row sha id)) =
      .ok (manifestOf sha 0 0 u.chunks, UInt64.ofNat u.chunks.flatten.length) := by
  have hinOrder : (u.sorted.map (Part.row sha id)).map (·.ordinal) =
      (List.range' 0 (u.sorted.map (Part.row sha id)).length).map Int64.ofNat := by
    rw [List.map_map, List.length_map, ← List.range_eq_range', ← hordinals]
    rfl
  have hscan : scanParts _ (Int64.ofNat 0) (UInt64.ofNat 0) [] _ = _ :=
    scanParts_of_registers (h.registers hu) hinOrder hlengths
  rw [List.reverse_nil, List.nil_append, Nat.zero_add] at hscan
  exact hscan

private theorem Upload.Complete.length_sorted (hcomplete : u.Complete) :
    u.sorted.length = (chunkCount u.session).toNat := by
  have hcount := congrArg List.length hcomplete.1
  rwa [List.length_map, List.length_map, List.length_range] at hcount

private theorem Upload.Complete.scan (hcomplete : u.Complete) (h : Holds sha contents d db)
    (hu : d.upload? id = some u) :
    scanParts u.session.chunkSize 0 0 [] (u.sorted.map (Part.row sha id)) =
      .ok (manifestOf sha 0 0 u.chunks, UInt64.ofNat u.chunks.flatten.length) :=
  h.scan hu (hcomplete.length_sorted ▸ hcomplete.1) hcomplete.2.1

private theorem Holds.scan_ok (h : Holds sha contents d db) (hu : d.upload? id = some u)
    {manifest : List ManifestEntry} {total : UInt64}
    (hscan : scanParts u.session.chunkSize 0 0 [] (u.sorted.map (Part.row sha id)) =
      .ok (manifest, total)) :
    u.sorted.map (·.ordinal) = (List.range u.sorted.length).map Int64.ofNat ∧
      (∀ data ∈ u.chunks, data.length ≤ u.session.chunkSize.toNat) ∧
      manifest = manifestOf sha 0 0 u.chunks ∧
      total = UInt64.ofNat u.chunks.flatten.length := by
  obtain ⟨hordinals, hlengths⟩ := scanParts_inOrder (i := 0) hscan
  have hordered : u.sorted.map (·.ordinal) = (List.range u.sorted.length).map Int64.ofNat := by
    rw [List.map_map, List.length_map, ← List.range_eq_range'] at hordinals
    exact hordinals
  have hfits : ∀ data ∈ u.chunks, data.length ≤ u.session.chunkSize.toNat := by
    intro data hdata
    obtain ⟨p, hp, hregisters⟩ := Table.exists_of_mem_right (h.registers hu) hdata
    rw [← hregisters.length]
    exact UInt64.le_iff_toNat_le.mp (hlengths p hp)
  have hresult := h.scan hu hordered hfits
  rw [hscan] at hresult
  cases hresult
  exact ⟨hordered, hfits, rfl, rfl⟩

theorem Holds.complete (h : Holds sha contents d db) (hu : d.upload? id = some u)
    {manifest : List ManifestEntry} {total : UInt64}
    (hscan : scanParts u.session.chunkSize 0 0 [] (u.sorted.map (Part.row sha id)) =
      .ok (manifest, total))
    (hcount : manifest.length = (chunkCount u.session).toNat)
    (htotal : total = u.session.expectedSize) : u.Complete := by
  obtain ⟨hordinals, hfits, rfl, rfl⟩ := h.scan_ok hu hscan
  rw [manifestOf_length] at hcount
  have hlength : u.sorted.length = u.chunks.length := (List.length_map _).symm
  refine ⟨?_, hfits, ?_⟩
  · rw [← hcount, ← hlength]
    exact hordinals
  · rw [← htotal, uint64_toNat_ofNat]
    apply (flatten_length_le hfits).trans_lt
    rw [hcount]
    exact chunkCount_mul_lt u.session

/-- The store while the commit runs. -/
def Store.claimed (s : Store) (id : Bytes) : Store :=
  { s with
    db := s.db.setSessionState (·.id == id) .committing
    changes := s.db.countSessions fun r => r.id == id && r.state == .open }

theorem Stores.claim (h : Stores sha contents d s) (hu : d.upload? id = some u)
    (hopen : u.session.state = .open) :
    Stores sha contents (d.modify id (Upload.to .committing)) (s.claimed id) := by
  have hset := h.holds.setSessionState_eq h.inv.rows hu .committing
  rw [hopen] at hset
  refine h.unsettled (h.holds.to id (by simp)) ?_ h.tmp rfl rfl
  refine StoreInv.congr (s := { s with db := s.db.setSessionState (·.id == id) .committing })
    ?_ rfl rfl
  rw [← hset]
  apply h.inv.setSessionState
  · intro r _ hr
    rw [Bool.and_eq_true, beq_iff_eq, beq_iff_eq] at hr
    rw [hr.2]
    rfl
  · simp

theorem Holds.reopen (h : Holds sha contents d db) (hrows : RowsInv sha contents db)
    (hu : d.upload? id = some u) (hopen : u.session.state = .open) :
    (db.setSessionState (·.id == id) .committing).setSessionState
      (fun r => r.id == id && r.state == .committing) .open = db := by
  obtain ⟨hmem, rfl⟩ := Depot.upload?_some hu
  have hsession : u.session ∈ db.uploadSession := h.sessions ▸ List.mem_map_of_mem hmem
  have hrow : ∀ r ∈ db.uploadSession, r.id = u.session.id → { r with state := .open } = r := by
    intro r hr hid
    rw [Table.eq_of_key hrows.sessionKeys hr hsession hid, ← hopen]
  rw [Db.setSessionState, Db.setSessionState]
  dsimp only
  rw [Table.update, Table.update, List.map_map]
  have hmap : db.uploadSession.map ((fun r : SessionInfo =>
      if r.id == u.session.id && r.state == .committing then { r with state := .open } else r) ∘
      fun r => if r.id == u.session.id then { r with state := .committing } else r) =
      db.uploadSession := by
    refine (List.map_congr_left fun r hr => ?_).trans (List.map_id _)
    by_cases hid : r.id = u.session.id
    · have hreopened := hrow r hr hid
      simp only [Function.comp_apply, hid, beq_self_eq_true, Bool.and_self, if_true]
      rwa [hid] at hreopened
    · simp [hid]
  rw [hmap]

theorem Stores.rollback {α : Type} (h : Stores sha contents d s) (hu : d.upload? id = some u)
    (hopen : u.session.state = .open) (e : Error) :
    ∃ changes, (rollbackAndThrow id e : StorageM α).run (s.claimed id) =
      (.error e, { s with changes := changes }) := by
  have hback := h.holds.reopen h.inv.rows hu hopen
  unfold rollbackAndThrow rollbackToOpen
  rw [run_bind, run_bind, run_transition, Store.updateSessions, Store.claimed]
  dsimp only
  rw [hback]
  exact ⟨_, rfl⟩

theorem Holds.publish (h : Holds sha contents d db) (hrows : RowsInv sha contents db)
    (hu : d.upload? id = some u) (hcomplete : u.Complete)
    (hreserve : (chunkCount u.session).toNat ≤ maxManifestEntries)
    (hdigest : sha.hex u.chunks.flatten = u.session.expectedDigest) (now : Int64) :
    Holds sha contents
      { d.modify id (Upload.to .completed) with
        releases := d.releases ++ [u.release now (d.issued + 1)], issued := d.issued + 1 }
      (db.published (u.session.artifactRow now) (manifestOf sha 0 0 u.chunks) id) := by
  have hto : Holds sha contents _ (db.setSessionState (·.id == id) .completed) :=
    h.to id (by simp)
  have hcount : u.chunks.length < 2^63 := by
    have hlength : u.chunks.length = u.sorted.length := List.length_map _
    rw [hlength, hcomplete.length_sorted]
    exact hreserve.trans_lt (by decide)
  refine ⟨hto.sessions, hto.parts, hto.known, hto.chunkSizes, hto.closed, ?_, ?_, ?_, ?_⟩
  · rw [List.map_append, List.map_singleton, Upload.release, ← h.issued, ← h.artifacts]
    rfl
  · intro r hr
    rcases List.mem_append.mp hr with hr | hr
    · have hid : r.row.id ≤ db.artifactSeq := by
        apply hrows.artifactIds
        rw [h.artifacts]
        exact List.mem_map_of_mem hr
      rw [Db.manifest_published_of_le hid]
      exact h.manifests r hr
    · rw [List.mem_singleton.mp hr, Upload.release, ← h.issued]
      refine ⟨fun data hdata => (h.chunks_known hu data hdata).1, hcount, ?_, ?_, hdigest.symm⟩
      · exact hrows.manifest_published hcount
      · exact hcomplete.2.2.symm
  · intro e he
    have hnew : ∀ r ∈ manifestOf sha 0 0 u.chunks, ∃ a ∈ (db.published (u.session.artifactRow now)
        (manifestOf sha 0 0 u.chunks) id).artifact, a.id = db.artifactSeq + 1 :=
      fun _ _ => ⟨_, List.mem_append_right _ (List.mem_singleton_self _), rfl⟩
    rcases List.mem_append.mp he with he | he
    · obtain ⟨a, ha, hid⟩ := h.owned e he
      exact ⟨a, List.mem_append_left _ ha, hid⟩
    · obtain ⟨entry, hentry, rfl⟩ := List.mem_map.mp he
      exact hnew entry hentry
  · rw [← h.issued]
    rfl

private theorem Db.setSessionState_twice (db : Db) (id : Bytes) (state state' : SessionState) :
    (db.setSessionState (·.id == id) state).setSessionState (·.id == id) state' =
      db.setSessionState (·.id == id) state' := by
  rw [Db.setSessionState, Db.setSessionState, Db.setSessionState]
  congr 1
  rw [Table.update, Table.update, Table.update, List.map_map]
  apply List.map_congr_left
  intro r _
  by_cases hid : r.id = id <;> simp [hid]

private theorem Stores.chunks_held (h : Stores sha contents d s) (hsha : sha.NoCollision contents)
    (hu : d.upload? id = some u) (hopen : u.session.state = .open) :
    ∀ data ∈ u.chunks, Held s (sha.hex data) := by
  obtain ⟨hmem, -⟩ := Depot.upload?_some hu
  intro data hdata
  obtain ⟨p, hp, rfl⟩ := List.mem_map.mp hdata
  have hpart := Upload.mem_sorted.mp hp
  apply h.inv.held
  apply (h.holds.referenced h.inv.rows hsha (h.holds.known u hmem p hpart).1).mpr
  apply List.mem_append_right
  apply List.mem_flatMap.mpr
  refine ⟨u, hmem, ?_⟩
  rw [Upload.held, hopen]
  exact List.mem_map_of_mem hpart

private theorem publish_matches (h : Stores sha contents d s) (hsha : sha.NoCollision contents)
    (hu : d.upload? id = some u) (hopen : u.session.state = .open) (now : Int64)
    (hcomplete : u.Complete) (hreserve : (chunkCount u.session).toNat ≤ maxManifestEntries)
    (hdigest : sha.hex u.chunks.flatten = u.session.expectedDigest)
    (hfree : d.release? u.session.ns u.session.name u.session.version = none)
    (hissued : d.issued < maxRowid) :
    (tx (publish now u.session (manifestOf sha 0 0 u.chunks))).run (s.claimed id) =
        (.ok (some (d.issued + 1)), { s.claimed id with
          db := s.db.published (u.session.artifactRow now) (manifestOf sha 0 0 u.chunks) id }) ∧
      Stores sha contents
        { d.modify id (Upload.to .completed) with
          releases := d.releases ++ [u.release now (d.issued + 1)], issued := d.issued + 1 }
        { s.claimed id with
          db := s.db.published (u.session.artifactRow now) (manifestOf sha 0 0 u.chunks) id } := by
  have hclaim := h.claim hu hopen
  obtain ⟨hmem, hid⟩ := Depot.upload?_some hu
  have hholds := h.holds.publish h.inv.rows hu hcomplete hreserve hdigest now
  have hheld := h.chunks_held hsha hu hopen
  have hnone : (s.claimed id).db.artifact? u.session.ns u.session.name u.session.version = none :=
    h.holds.artifact?_none hfree
  have hsmall : 0 + u.chunks.length < 2^63 := by
    have hlength : u.chunks.length = u.sorted.length := List.length_map _
    rw [Nat.zero_add, hlength, hcomplete.length_sorted]
    exact hreserve.trans_lt (by decide)
  have hdb : (s.claimed id).db.published (u.session.artifactRow now) (manifestOf sha 0 0 u.chunks)
      id = s.db.published (u.session.artifactRow now) (manifestOf sha 0 0 u.chunks) id := by
    have htwice := congrArg Db.uploadSession
      (s.db.setSessionState_twice id .committing .completed)
    unfold Db.setSessionState at htwice
    unfold Db.published Store.claimed Db.setSessionState
    dsimp only at htwice ⊢
    rw [htwice]
  have hactive : ∀ e ∈ manifestOf sha 0 0 u.chunks, ∀ c ∈ (s.claimed id).db.chunk,
      c.digest = e.digest → c.state = .active := by
    intro e he
    obtain ⟨data, hdata, hdata'⟩ := mem_manifestOf_digest.mp ⟨e, he, rfl⟩
    exact h.inv.active_of_held (hdata' ▸ hheld data hdata)
  have hrun : (publish now u.session _).run _ = _ :=
    publish_run hclaim.inv (manifestOf_sorted hsmall) hactive hnone (h.holds.issued ▸ hissued)
  have hseq : (s.claimed id).db.artifactSeq + 1 = d.issued + 1 :=
    congrArg (· + 1) h.holds.issued
  rw [hid, hdb, hseq] at hrun
  constructor
  · rw [tx, transaction, run_lift, hrun]
  · refine h.unsettled hholds ?_ h.tmp rfl rfl
    have hsession : { u.session with state := .committing } ∈ (s.claimed id).db.uploadSession := by
      apply Table.mem_update.mpr
      exact ⟨u.session, h.holds.sessions ▸ List.mem_map_of_mem hmem, by simp [hid]⟩
    have hpublish := hclaim.inv.publish (u.session.artifactRow now) hsession rfl
      (Db.artifact?_none hnone) (fun data hdata => (h.holds.chunks_known hu data hdata).1)
      (Nat.zero_add u.chunks.length ▸ hsmall) hcomplete.2.2.symm (fun _ => hdigest.symm)
      (fun data hdata => ⟨(hheld data hdata).row, (hheld data hdata).file⟩) ?_
    · dsimp only at hpublish
      rw [hid, hdb] at hpublish
      exact hpublish
    · intro p hp hpid
      have hrow : p ∈ s.db.uploadPart.filter (·.sessionId == u.session.id) :=
        List.mem_filter.mpr ⟨hp, beq_iff_eq.mpr hpid⟩
      rw [h.holds.parts u hmem] at hrow
      obtain ⟨part, hpart, rfl⟩ := List.mem_map.mp hrow
      exact ⟨part.data, List.mem_map_of_mem (Upload.mem_sorted.mpr hpart), rfl⟩

private theorem commitBody_matches (h : Stores sha contents d s) (hsha : sha.NoCollision contents)
    (hu : d.upload? id = some u) (hopen : u.session.state = .open) (now : Int64) :
    Matches sha contents ((commitBody sha now u.session).run (s.claimed id))
      (d.publish sha now id u) := by
  have hid := (Depot.upload?_some hu).2
  have hclaim := h.claim hu hopen
  have hback : ∀ {e : Error} {code : FrStatus}, e.status? = some code →
      Matches sha contents ((rollbackAndThrow u.session.id e : StorageM ArtifactInfo).run
        (s.claimed id)) (ForgeRelay.refuse code, d) := by
    intro e code he
    obtain ⟨changes, hrun⟩ : ∃ changes, (rollbackAndThrow id e : StorageM ArtifactInfo).run
        (s.claimed id) = (.error e, { s with changes := changes }) := h.rollback hu hopen e
    rw [hid, hrun]
    exact (h.recount changes).refuse e he
  have hparts : (s.claimed id).db.partsByOrdinal u.session.id =
      u.sorted.map (Part.row sha id) := by
    rw [hid]
    exact h.holds.partsByOrdinal hu
  unfold commitBody Depot.publish
  dsimp only
  rw [run_bind, run_labelled, reserveManifest, run_lift]
  by_cases hreserve : maxManifestEntries < (chunkCount u.session).toNat
  · rw [if_pos hreserve, if_pos hreserve]
    exact ⟨rfl, hclaim⟩
  rw [if_neg hreserve, if_neg hreserve]
  dsimp only
  rw [run_bind, run_labelled, run_select, hparts]
  dsimp only
  cases hscan : scanParts u.session.chunkSize 0 0 [] (u.sorted.map (Part.row sha id)) with
  | error e =>
    have hincomplete : ¬u.Complete := by
      intro hcomplete
      rw [hcomplete.scan h.holds hu] at hscan
      cases hscan
    rw [if_pos hincomplete]
    exact hback (scanParts_status hscan)
  | ok scanned =>
    obtain ⟨manifest, total⟩ := scanned
    obtain ⟨-, hfits, rfl, rfl⟩ := h.holds.scan_ok hu hscan
    dsimp only
    by_cases hcount : (manifestOf sha 0 0 u.chunks).length ≠ (chunkCount u.session).toNat
    · have hincomplete : ¬u.Complete := by
        intro hcomplete
        apply hcount
        rw [manifestOf_length, ← hcomplete.length_sorted]
        exact List.length_map _
      rw [if_pos hcount, if_pos hincomplete]
      exact hback rfl
    rw [if_neg hcount]
    by_cases htotal : UInt64.ofNat u.chunks.flatten.length ≠ u.session.expectedSize
    · have hincomplete : ¬u.Complete := by
        intro hcomplete
        apply htotal
        rw [hcomplete.2.2, UInt64.ofNat_toNat]
      rw [if_pos htotal, if_pos hincomplete]
      exact hback rfl
    have hcomplete : u.Complete := h.holds.complete hu hscan (not_not.mp hcount) (not_not.mp htotal)
    rw [if_neg htotal, if_neg (not_not.mpr hcomplete)]
    have hfiles : FilesOf sha u.chunks (s.claimed id) := by
      intro data hdata
      exact h.inv.file_eq hsha (h.holds.chunks_known hu data hdata).1
        (h.chunks_held hsha hu hopen data hdata).file
    have hread : (readChunks (manifestOf sha 0 0 u.chunks)).run (s.claimed id) =
        (.ok u.chunks.flatten, s.claimed id) := by
      apply readChunks_run _ hfiles
      intro data hdata
      exact lt_of_le_of_lt (h.holds.chunks_known hu data hdata).2 (by decide)
    rw [run_bind, run_tryCatch, run_labelled, hread]
    dsimp only
    by_cases hdigest : sha.hex u.chunks.flatten ≠ u.session.expectedDigest
    · rw [if_pos hdigest, if_pos hdigest]
      exact hback rfl
    rw [if_neg hdigest, if_neg hdigest, run_bind, run_labelled]
    cases hr : d.release? u.session.ns u.session.name u.session.version with
    | some r =>
      have htaken : (s.claimed id).db.artifact? u.session.ns u.session.name u.session.version ≠
          none := by
        rw [show (s.claimed id).db.artifact? u.session.ns u.session.name u.session.version =
          some r.row from h.holds.artifact?_some hr]
        simp
      rw [tx, transaction, run_lift, publish_run_of_taken htaken,
        if_pos (Option.isSome_some : (some r).isSome = true)]
      exact hback rfl
    | none =>
      rw [if_neg (by simp : ¬(none : Option Release).isSome = true)]
      by_cases hissued : maxRowid ≤ d.issued
      · have hfull : ¬(s.claimed id).db.artifactSeq < maxRowid := by
          rw [show (s.claimed id).db.artifactSeq = d.issued from h.holds.issued]
          omega
        have hnone : (s.claimed id).db.artifact? u.session.ns u.session.name u.session.version =
            none := h.holds.artifact?_none hr
        have hfails : ((ForgeRelay.publish now u.session (manifestOf sha 0 0 u.chunks)).run
          (s.claimed id)).1 = _ := publish_run_of_full hnone hfull
        rw [tx, transaction, run_lift, if_pos hissued]
        rcases hrun : (ForgeRelay.publish now u.session (manifestOf sha 0 0 u.chunks)).run
          (s.claimed id) with ⟨r, s'⟩
        rw [hrun] at hfails
        dsimp only at hfails
        rw [hfails]
        exact ⟨rfl, hclaim⟩
      · obtain ⟨hrun, hstores⟩ := publish_matches h hsha hu hopen now hcomplete
          (not_lt.mp hreserve) (not_not.mp hdigest) hr (not_le.mp hissued)
        rw [hrun, if_neg hissued]
        exact ⟨rfl, hstores⟩

theorem Stores.transition_run (h : Stores sha contents d s) (hu : d.upload? id = some u) :
    (transition id .open .committing).run s =
      if u.session.state = .open then (.ok true, s.claimed id)
      else (.ok false, { s with changes := 0 }) := by
  obtain ⟨hmem, hid⟩ := Depot.upload?_some hu
  have hsession : u.session ∈ s.db.uploadSession := h.holds.sessions ▸ List.mem_map_of_mem hmem
  rw [run_transition, Store.updateSessions]
  by_cases hopen : u.session.state = .open
  · have hset := h.holds.setSessionState_eq h.inv.rows hu .committing
    rw [hopen] at hset
    have hpos : 0 < s.db.countSessions fun r => r.id == id && r.state == .open :=
      List.countP_pos_iff.mpr ⟨u.session, hsession, by simp [hid, hopen]⟩
    rw [if_pos hopen, decide_eq_true hpos, hset]
    rfl
  · have hnone : ∀ r ∈ s.db.uploadSession, (r.id == id && r.state == .open) = false := by
      intro r hr
      by_cases hrid : r.id = id
      · rw [Table.eq_of_key h.inv.rows.sessionKeys hr hsession (hrid.trans hid.symm)]
        simp [hopen]
      · simp [hrid]
    rw [if_neg hopen, Db.setSessionState_of_none hnone, Db.countSessions_eq_zero.mpr hnone]
    rfl

theorem commitSession_matches (h : Stores sha contents d s) (hsha : sha.NoCollision contents)
    (env : CallEnv) (id : Bytes) :
    Matches sha contents ((commitSession sha env id).run s) (d.commit sha env id) := by
  unfold commitSession Depot.commit
  dsimp only
  cases hu : d.upload? id with
  | none =>
    rw [d.expireIfDue_none env.now hu, hu, run_bind, h.loadSession_none hu]
    exact h.refuse _ rfl
  | some u =>
    obtain ⟨s₁, hexpire, h₁, -⟩ := h.expireIfDue hsha env.now hu
    obtain ⟨u₁, hu₁, hcase⟩ := Depot.expireIfDue_upload? env.now hu
    generalize d.expireIfDue env.now id = d₁ at h₁ hu₁ ⊢
    rw [run_bind, h.loadSession_some hu]
    dsimp only
    rw [run_bind, hexpire]
    dsimp only
    rw [run_bind, h₁.transition_run hu₁, hu₁]
    dsimp only
    by_cases hopen : u₁.session.state = .open
    · have hsame : u₁ = u := by
        rcases hcase with hsame | hexpired
        · exact hsame
        · rw [hopen] at hexpired
          cases hexpired
      subst hsame
      rw [if_pos hopen, if_neg (by rw [hopen]; decide), if_neg (not_not.mpr hopen)]
      exact commitBody_matches h₁ hsha hu₁ hopen env.now
    · rw [if_neg hopen]
      dsimp only
      rw [if_neg Bool.false_ne_true, run_bind, (h₁.recount 0).loadSession_some hu₁]
      dsimp only
      by_cases hexpired : u₁.session.state = .expired
      · rw [if_pos hexpired, if_pos hexpired]
        exact (h₁.recount 0).refuse _ rfl
      · rw [if_neg hexpired, if_neg hexpired, if_pos hopen]
        exact (h₁.recount 0).refuse _ rfl

end ForgeRelay
