import ForgeRelay.Storage.Durability
import ForgeRelay.Storage.Steps

/-!
# What a session announces

The row of a session keeps everything but its state, whatever is done to storage. A commit that
succeeds publishes what the row announces.
-/

namespace ForgeRelay

open Program Prog

/-- The session but for its state. -/
def SessionInfo.terms (session : SessionInfo) : SessionInfo := { session with state := .open }

/-- There is such a session, and it has these terms. -/
structure KeepsTerms (session : SessionInfo) (s : Store) : Prop where
  present : ∃ row ∈ s.db.uploadSession, row.id = session.id
  terms : ∀ row ∈ s.db.uploadSession, row.id = session.id → row.terms = session.terms

/-- The bound that keeps it so. -/
def keepsTerms (session : SessionInfo) : Bound Store Error where
  inv := KeepsTerms session
  rel _ _ := True
  err _ := True
  refl _ := trivial
  trans _ _ := trivial

section

variable {session : SessionInfo} {s s' : Store}

private theorem keepsTerms_step (hs : KeepsTerms session s)
    (hsessions : s'.db.uploadSession = s.db.uploadSession) : (keepsTerms session).Step s s' :=
  ⟨trivial, hsessions ▸ hs.present, hsessions ▸ hs.terms⟩

theorem KeepsTerms.setSessionState (hs : KeepsTerms session s) (cond : SessionInfo → Bool)
    (state : SessionState) :
    KeepsTerms session { s with db := s.db.setSessionState cond state } := by
  have hterms (row : SessionInfo) :
      (if cond row then { row with state := state } else row).id = row.id ∧
        (if cond row then { row with state := state } else row).terms = row.terms := by
    split <;> exact ⟨rfl, rfl⟩
  constructor
  · obtain ⟨row, hrow, hid⟩ := hs.present
    exact ⟨_, Table.mem_update.mpr ⟨row, hrow, rfl⟩, (hterms row).1.trans hid⟩
  · intro row' hrow' hid
    obtain ⟨row, hrow, rfl⟩ := Table.mem_update.mp hrow'
    rw [(hterms row).2]
    exact hs.terms row hrow ((hterms row).1.symm.trans hid)

theorem KeepsTerms.insertSession (hs : KeepsTerms session s) {row : SessionInfo} {db : Db}
    (hinsert : s.db.insertSession row = .ok db) : KeepsTerms session { s with db := db } := by
  unfold Db.insertSession at hinsert
  split at hinsert
  · cases hinsert
  rename_i hnew
  cases hinsert
  have hfresh : ∀ r ∈ s.db.uploadSession, r.id ≠ row.id := by simpa using hnew
  obtain ⟨old, hold, hid⟩ := hs.present
  constructor
  · exact ⟨old, List.mem_append_left _ hold, hid⟩
  · intro r hr hrid
    rcases List.mem_append.mp hr with hr | hr
    · exact hs.terms r hr hrid
    · rw [List.mem_singleton] at hr
      rw [hr] at hrid
      exact absurd (hid.trans hrid.symm) (hfresh old hold)

theorem keepsTerms_allows (session : SessionInfo) (now : Int64) :
    Allows now (keepsTerms session) (fun _ => True) (fun _ => True) where
  fr _ _ _ := trivial
  reserve := trivial
  files hs hdb := keepsTerms_step hs (by rw [hdb])
  insertChunk {s row} hs _ _ := by
    apply keepsTerms_step hs
    unfold Db.insertChunkOrIgnore
    split <;> rfl
  reactivate hs := keepsTerms_step hs rfl
  markPending hs := keepsTerms_step hs rfl
  deleteChunk hs := keepsTerms_step hs rfl
  setSessionState hs _ := ⟨trivial, KeepsTerms.setSessionState hs _ _⟩
  insertSession hs _ hdb := ⟨trivial, KeepsTerms.insertSession hs hdb⟩
  deleteParts hs := keepsTerms_step hs rfl
  insertPart hs _ _ hdb := by
    rw [Db.insertPart_ok hdb]
    exact keepsTerms_step hs rfl
  insertArtifact _ _ _ _ hs hdb := by
    rw [(Db.insertArtifact_ok hdb).2]
    exact keepsTerms_step hs rfl
  insertArtifactChunk hs _ hdb := by
    rw [Db.insertArtifactChunk_ok hdb]
    exact keepsTerms_step hs rfl
  removeArtifact hs := keepsTerms_step hs rfl
  sessions _ _ _ := trivial
  parts _ _ _ := trivial
  dataLength _ _ _ := trivial

theorem createSession_keepsTerms {sha : Sha256} {contents leaked : Set Bytes} {cfg : StorageConfig}
    {env : CallEnv} {ns name version owner : Bytes} {expectedSize : UInt64} {expectedDigest : Bytes}
    (hinv : StoreInv sha contents leaked s)
    (hcreate : (createSession cfg env ns name version expectedSize expectedDigest owner).run s =
      (.ok session, s')) :
    session = newSession cfg env ns name version expectedSize expectedDigest owner ∧
      KeepsTerms session s' := by
  have hwp : wp (fun _ _ => False) (fun _ => True)
      (createSession cfg env ns name version expectedSize expectedDigest owner)
      (Outcome (fun _ => True) _) s :=
    createSession_wp .inside ⟨hinv.weaken (Set.subset_univ _), .refl _⟩
  have hpost := wp_run.mp hwp
  rw [hcreate] at hpost
  obtain ⟨-, hsession, hinsert, -⟩ := hpost
  refine ⟨hsession, ?_⟩
  unfold Db.insertSession at hinsert
  split at hinsert
  · cases hinsert
  rename_i hnew
  have hfresh : ∀ r ∈ s.db.uploadSession, r.id ≠ session.id := by simpa using hnew
  have hrows : s'.db.uploadSession = s.db.uploadSession ++ [session] := by
    rw [← Except.ok.inj hinsert]
  constructor
  · exact ⟨session, hrows ▸ List.mem_append_right _ (List.mem_singleton_self _), rfl⟩
  · intro row hrow hid
    rw [hrows] at hrow
    rcases List.mem_append.mp hrow with hrow | hrow
    · exact absurd hid (hfresh row hrow)
    · rw [List.mem_singleton.mp hrow]

private theorem insertEntries_artifact {id : Nat} {manifest : List ManifestEntry} {s s' : Store}
    (h : (manifest.forM fun entry => do
      exec (·.reactivate (ChunkRow.isPending entry.digest))
      stmt fun db => (db.insertArtifactChunk ⟨id, entry⟩).map ((), ·)).run s = (.ok (), s')) :
    s'.db.artifact = s.db.artifact := by
  induction manifest generalizing s with
  | nil =>
    cases h
    rfl
  | cons entry manifest ih =>
    obtain ⟨_, s₁, hfirst, hrest⟩ := run_bind_ok (k := fun _ => manifest.forM _) h
    obtain ⟨_, s₂, hexec, hinsert⟩ := run_bind_ok hfirst
    rw [run_exec] at hexec
    cases hexec
    rw [stmt, run_lift] at hinsert
    rw [ih hrest]
    generalize hdb : s.db.reactivate (ChunkRow.isPending entry.digest) = db at hinsert
    have hsame : db.artifact = s.db.artifact := by
      rw [← hdb]
      rfl
    cases hrow : db.insertArtifactChunk ⟨id, entry⟩ with
    | error e =>
      simp only [hrow] at hinsert
      cases hinsert
    | ok db' =>
      simp only [hrow] at hinsert
      cases hinsert
      rw [Db.insertArtifactChunk_ok hrow]
      exact hsame

private theorem publish_ok {now : Int64} {manifest : List ManifestEntry} {id : Nat} {s s' : Store}
    (h : (publish now session manifest).run s = (.ok (some id), s')) :
    { session.artifactRow now with id := id } ∈ s'.db.artifact := by
  unfold publish at h
  rw [run_bind, run_select] at h
  dsimp only at h
  split at h
  · cases h
  obtain ⟨number, s₁, hinsert, h₁⟩ := run_bind_ok h
  obtain ⟨_, s₂, hentries, h₂⟩ := run_bind_ok h₁
  obtain ⟨_, s₃, hstate, h₃⟩ := run_bind_ok h₂
  rw [run_exec] at hstate
  cases hstate
  cases h₃
  change _ ∈ s₂.db.artifact
  rw [insertEntries_artifact hentries]
  rw [stmt, run_lift] at hinsert
  cases hrow : s.db.insertArtifact (session.artifactRow now) with
  | error e =>
    rw [hrow] at hinsert
    cases hinsert
  | ok r =>
    rw [hrow] at hinsert
    cases hinsert
    obtain ⟨-, hdb⟩ := Db.insertArtifact_ok hrow
    dsimp only
    rw [hdb]
    exact List.mem_append_right _ (List.mem_singleton_self _)

private theorem rollbackAndThrow_not_ok {α : Type} {id : Bytes} {e : Error} {a : α} {s s' : Store} :
    (rollbackAndThrow id e).run s ≠ (.ok a, s') := by
  intro h
  obtain ⟨_, s₁, -, hthrow⟩ := run_bind_ok h
  cases hthrow

private theorem commitBody_ok {sha : Sha256} {now : Int64} {info : ArtifactInfo} {s s' : Store}
    (h : (commitBody sha now session).run s = (.ok info, s')) :
    ∃ id, { session.artifactRow now with id := id } ∈ s'.db.artifact := by
  unfold commitBody at h
  obtain ⟨_, s₁, -, h₁⟩ := run_bind_ok h
  obtain ⟨parts, s₂, -, h₂⟩ := run_bind_ok h₁
  split at h₂
  · exact absurd h₂ rollbackAndThrow_not_ok
  split at h₂
  · exact absurd h₂ rollbackAndThrow_not_ok
  split at h₂
  · exact absurd h₂ rollbackAndThrow_not_ok
  obtain ⟨content, s₃, -, h₃⟩ := run_bind_ok h₂
  split at h₃
  · exact absurd h₃ rollbackAndThrow_not_ok
  obtain ⟨published, s₄, hpublish, h₄⟩ := run_bind_ok h₃
  rw [run_labelled, tx, transaction, run_lift] at hpublish
  cases published with
  | none => exact absurd h₄ rollbackAndThrow_not_ok
  | some id =>
    cases h₄
    rcases hrun : (publish now session _).run s₃ with ⟨e | r, s₅⟩
    · rw [hrun] at hpublish
      cases hpublish
    · rw [hrun] at hpublish
      cases hpublish
      exact ⟨id, publish_ok hrun⟩

theorem commitSession_ok {sha : Sha256} {env : CallEnv} {info : ArtifactInfo} {s s' : Store}
    (hs : KeepsTerms session s)
    (h : (commitSession sha env session.id).run s = (.ok info, s')) :
    ∃ id, { session.artifactRow env.now with id := id } ∈ s'.db.artifact := by
  rw [commitSession_eq] at h
  obtain ⟨loaded, s₁, hload, h₁⟩ := run_bind_ok h
  obtain ⟨found, s₂, hselect, hfound⟩ := run_bind_ok hload
  rw [run_select] at hselect
  cases hselect
  unfold commitLoaded at h₁
  obtain ⟨_, s₃, -, h₂⟩ := run_bind_ok h₁
  obtain ⟨changed, s₄, -, h₃⟩ := run_bind_ok h₂
  cases hrow : s.db.session? session.id with
  | none =>
    rw [hrow] at hfound
    cases hfound
  | some row =>
    rw [hrow] at hfound
    cases hfound
    obtain ⟨hmem, hid⟩ := Db.session?_some hrow
    have hterms := hs.terms loaded hmem hid
    cases changed with
    | true =>
      obtain ⟨id, hpublished⟩ := commitBody_ok h₃
      refine ⟨id, ?_⟩
      -- the row of the artifact does not read the state
      change { loaded.terms.artifactRow env.now with id := id } ∈ _ at hpublished
      rw [hterms] at hpublished
      exact hpublished
    | false =>
      obtain ⟨again, s₅, -, h₄⟩ := run_bind_ok h₃
      split at h₄ <;> cases h₄

end

end ForgeRelay
