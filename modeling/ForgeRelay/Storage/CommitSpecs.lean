import ForgeRelay.Storage.Manifest

/-!
# Committing

What the publishing transaction does when nothing interrupts it, and what `commit_session` keeps
wherever it is interrupted.
-/

namespace ForgeRelay

open Program Prog

variable {sha : Sha256} {contents leaked : Set Bytes} {s₀ s : Store}
  {interrupts : Label → Store → Prop} {crash : Store → Prop} {α : Type}

theorem run_stmt {f : Db → Except Error (α × Db)} {a : α} {db : Db} (hf : f s.db = .ok (a, db)) :
    (stmt f).run s = (.ok a, { s with db := db }) := by
  rw [stmt, run_lift, hf]

@[simp] theorem run_select (f : Db → α) : (select f).run s = (.ok (f s.db), s) := run_stmt rfl

@[simp] theorem run_exec (f : Db → Db) : (exec f).run s = (.ok (), { s with db := f s.db }) :=
  run_stmt rfl

@[simp] theorem run_updateSessions (cond : SessionInfo → Bool) (state : SessionState) :
    (updateSessions cond state).run s =
      (.ok (s.db.countSessions cond), s.updateSessions cond state) := rfl

@[simp] theorem run_dbChanges (label : Label) (rows : Nat) :
    (dbChanges label rows).run s = (.ok s.changes, s) := rfl

theorem run_transition (sessionId : Bytes) (source target : SessionState) :
    (transition sessionId source target).run s =
      (.ok (decide (0 < s.db.countSessions fun r => r.id == sessionId && r.state == source)),
        s.updateSessions (fun r => r.id == sessionId && r.state == source) target) := rfl

/-- The loop that writes the manifest of a new artifact. -/
private theorem insertEntries_run {id : Nat} {entries : List ManifestEntry}
    (hsorted : entries.Pairwise fun a b => a.ordinal.toInt < b.ordinal.toInt)
    (hfresh : ∀ r ∈ s.db.artifactChunk, r.artifactId = id →
      ∀ e ∈ entries, r.entry.ordinal ≠ e.ordinal)
    (hactive : ∀ e ∈ entries, ∀ c ∈ s.db.chunk, c.digest = e.digest → c.state = .active) :
    (entries.forM fun entry => do
      exec (·.reactivate (ChunkRow.isPending entry.digest))
      stmt fun db => (db.insertArtifactChunk ⟨id, entry⟩).map ((), ·)).run s =
      (.ok (), { s with db := { s.db with
        artifactChunk := s.db.artifactChunk ++ entries.map (⟨id, ·⟩) } }) := by
  induction entries generalizing s with
  | nil => simp [List.forM_nil]
  | cons e rest ih =>
    obtain ⟨hfirst, hsorted⟩ := List.pairwise_cons.mp hsorted
    have hinsert : s.db.insertArtifactChunk ⟨id, e⟩ =
        .ok { s.db with artifactChunk := s.db.artifactChunk ++ [⟨id, e⟩] } := by
      rw [Db.insertArtifactChunk, if_neg]
      simp only [List.any_eq_true, Bool.and_eq_true, beq_iff_eq, not_exists, not_and]
      exact fun r hr hid => hfresh r hr hid e List.mem_cons_self
    have hsame := Db.reactivate_of_active (hactive e List.mem_cons_self)
    rw [run_forM_cons, run_bind, run_exec]
    simp only [hsame]
    rw [run_stmt (by rw [hinsert]; rfl)]
    dsimp only
    rw [ih hsorted]
    · simp
    · intro r hr hid e' he'
      rcases List.mem_append.mp hr with hr | hr
      · exact hfresh r hr hid e' (List.mem_cons_of_mem _ he')
      · rw [List.mem_singleton] at hr
        rw [hr]
        have hlt := hfirst e' he'
        rintro heq
        simp only at heq
        rw [heq] at hlt
        exact lt_irrefl _ hlt
    · exact fun e' he' => hactive e' (List.mem_cons_of_mem _ he')

theorem publish_run {now : Int64} {session : SessionInfo} {manifest : List ManifestEntry}
    (hinv : StoreInv sha contents leaked s)
    (hsorted : manifest.Pairwise fun a b => a.ordinal.toInt < b.ordinal.toInt)
    (hactive : ∀ e ∈ manifest, ∀ c ∈ s.db.chunk, c.digest = e.digest → c.state = .active)
    (hfree : s.db.artifact? session.ns session.name session.version = none)
    (hseq : s.db.artifactSeq < maxRowid) :
    (publish now session manifest).run s =
      (.ok (some (s.db.artifactSeq + 1)),
        { s with db := s.db.published (session.artifactRow now) manifest session.id }) := by
  have hinsert : s.db.insertArtifact (session.artifactRow now) = .ok (s.db.artifactSeq + 1,
      { s.db with
        artifact := s.db.artifact ++ [{ session.artifactRow now with id := s.db.artifactSeq + 1 }]
        artifactSeq := s.db.artifactSeq + 1 }) := by
    have hnone : ¬ s.db.artifact.any
        (·.hasRef session.ns session.name session.version) = true := by
      simpa using List.find?_eq_none.mp hfree
    exact (if_neg hnone).trans (if_pos hseq)
  have hnew : ∀ r ∈ s.db.artifactChunk, r.artifactId ≠ s.db.artifactSeq + 1 := by
    intro r hr
    have hid := hinv.rows.manifestIds r hr
    omega
  unfold publish
  rw [run_bind, run_select, hfree]
  simp only [Option.isSome_none, Bool.false_eq_true, if_false]
  rw [run_bind, run_stmt hinsert]
  dsimp only
  rw [run_bind, insertEntries_run hsorted]
  · dsimp only
    rw [run_bind, run_exec]
    rfl
  · exact fun r hr hid => absurd hid (hnew r hr)
  · exact hactive

theorem publish_run_of_taken {now : Int64} {session : SessionInfo} {manifest : List ManifestEntry}
    (htaken : s.db.artifact? session.ns session.name session.version ≠ none) :
    (publish now session manifest).run s = (.ok none, s) := by
  unfold publish
  rw [run_bind, run_select]
  simp only [Option.isSome_iff_ne_none.mpr htaken, if_true]
  rfl

theorem publish_run_of_full {now : Int64} {session : SessionInfo} {manifest : List ManifestEntry}
    (hfree : s.db.artifact? session.ns session.name session.version = none)
    (hseq : ¬ s.db.artifactSeq < maxRowid) :
    ((publish now session manifest).run s).1 =
      .error (stepError "database or disk is full") := by
  have hnone : ¬ s.db.artifact.any
      (·.hasRef session.ns session.name session.version) = true := by
    simpa using List.find?_eq_none.mp hfree
  have hinsert : s.db.insertArtifact (session.artifactRow now) =
      .error (stepError "database or disk is full") :=
    (if_neg hnone).trans (if_neg hseq)
  unfold publish
  rw [run_bind, run_select, hfree]
  simp only [Option.isSome_none, Bool.false_eq_true, if_false]
  rw [run_bind, stmt, run_lift, hinsert]

theorem Db.published_evolves {gone : ArtifactRow → Prop} {db : Db} {row : ArtifactRow}
    {manifest : List ManifestEntry} {sessionId : Bytes} :
    Evolves gone db (db.published row manifest sessionId) where
  artifactSeq := Nat.le_succ _
  keeps a ha _ := List.mem_append_left _ ha
  old a ha hid := by
    refine ⟨?_, Db.manifest_published_of_le hid⟩
    rcases List.mem_append.mp ha with ha | ha
    · exact ha
    · rw [List.mem_singleton] at ha
      rw [ha] at hid
      exact absurd hid (Nat.not_succ_le_self _)

/-- These chunks are what a live session has uploaded, and as long as it has announced. -/
structure Publishable (sha : Sha256) (contents : Set Bytes) (session : SessionInfo)
    (chunks : List Bytes) (s : Store) : Prop where
  live : ∃ r ∈ s.db.uploadSession, r.id = session.id ∧ r.state.live = true
  known : ∀ data ∈ chunks, data ∈ contents
  small : chunks.length < 2^63
  size : session.expectedSize.toNat = chunks.flatten.length
  parts : ∀ p ∈ s.db.uploadPart, p.sessionId = session.id → ∃ data ∈ chunks, sha.hex data = p.digest
  held : ∀ data ∈ chunks, Held s (sha.hex data)

private theorem publish_wp {now : Int64} {session : SessionInfo} {chunks : List Bytes}
    (hinv : StoreInv sha contents leaked s) (hpub : Publishable sha contents session chunks s)
    (hdigest : sha.NoCollision contents → session.expectedDigest = sha.hex chunks.flatten) :
    wp (fun _ _ => False) (fun _ => True) (publish now session (manifestOf sha 0 0 chunks))
      (Outcome (fun _ => True) fun r s' => match r with
        | none => s' = s
        | some _ => StoreInv sha contents leaked s' ∧
          Evolves (fun _ => False) s.db s'.db) s := by
  rw [wp_run]
  by_cases hfree : s.db.artifact? session.ns session.name session.version = none
  swap
  · rw [publish_run_of_taken hfree]
    rfl
  by_cases hseq : s.db.artifactSeq < maxRowid
  swap
  · rw [publish_run_of_full hfree hseq]
    trivial
  have hactive : ∀ e ∈ manifestOf sha 0 0 chunks, ∀ c ∈ s.db.chunk, c.digest = e.digest →
      c.state = .active := by
    intro e he
    obtain ⟨data, hdata, hdigest⟩ := mem_manifestOf_digest.mp ⟨e, he, rfl⟩
    exact hinv.active_of_held (hdigest ▸ hpub.held data hdata)
  rw [publish_run hinv (manifestOf_sorted (by simpa using hpub.small)) hactive hfree hseq]
  obtain ⟨r, hr, hid, hlive⟩ := hpub.live
  refine ⟨?_, Db.published_evolves⟩
  rw [← hid]
  exact hinv.publish _ hr hlive (Db.artifact?_none hfree) hpub.known hpub.small hpub.size
    hdigest hpub.held (hid ▸ hpub.parts)

private theorem rollbackAndThrow_wp {sessionId : Bytes} {e : Error} {R : α → Store → Prop}
    (htol : Tolerant sha contents s₀ leaked interrupts crash)
    (hgood : Good sha contents s₀ leaked s) :
    wp interrupts crash (rollbackAndThrow sessionId e) (Outcome crash R) s := by
  refine wp_seq (R := fun _ s' => Good sha contents s₀ leaked s') ?_
    fun _ s' hgood' => htol.good s' hgood'
  exact wp_seq (transition_wp htol hgood rfl (by simp)) fun _ _ h => h.1

theorem reserveManifest_wp {count : UInt64} (hcrash : crash s) :
    wp interrupts crash (reserveManifest count)
      (Outcome crash fun _ s' => s' = s ∧ count.toNat ≤ maxManifestEntries) s := by
  rw [reserveManifest, wp_lift]
  refine ⟨fun _ => ⟨hcrash, fun _ => hcrash⟩, ?_⟩
  by_cases hbig : maxManifestEntries < count.toNat
  · rw [if_pos hbig]
    exact hcrash
  · rw [if_neg hbig]
    exact ⟨rfl, Nat.not_lt.mp hbig⟩

private theorem scanParts_publishable {session : SessionInfo} {manifest : List ManifestEntry}
    {total : UInt64} (hinv : StoreInv sha contents leaked s)
    (hlive : ∃ r ∈ s.db.uploadSession, r.id = session.id ∧ r.state.live = true)
    (hreserve : (chunkCount session).toNat ≤ maxManifestEntries)
    (hscan : scanParts session.chunkSize 0 0 [] (s.db.partsByOrdinal session.id) =
      .ok (manifest, total))
    (hcount : manifest.length = (chunkCount session).toNat)
    (htotal : total = session.expectedSize) :
    ∃ chunks, manifest = manifestOf sha 0 0 chunks ∧
      (∀ data ∈ chunks, data.length < 2^64) ∧ Publishable sha contents session chunks s := by
  have hparts : ∀ p ∈ s.db.partsByOrdinal session.id, ∃ data ∈ contents, Registers sha p data := by
    intro p hp
    obtain ⟨data, hdata, hdigest, hlength⟩ := hinv.rows.partData p (Db.mem_partsByOrdinal.mp hp).1
    exact ⟨data, hdata, hdigest, hlength⟩
  obtain ⟨chunks, hforall, hknown, hsize, rfl, rfl⟩ := scanParts_ok hparts hscan
  rw [manifestOf_length] at hcount
  have hflat : chunks.flatten.length < 2^64 := by
    refine (flatten_length_le hsize).trans_lt ?_
    rw [hcount]
    exact chunkCount_mul_lt session
  refine ⟨chunks, rfl, fun data hdata => ?_, ?_⟩
  · exact (hsize data hdata).trans_lt (UInt64.toNat_lt _)
  -- every chunk comes from a part of the live session, which holds on to it
  have hpart : ∀ data ∈ chunks, ∃ p ∈ s.db.uploadPart, p.sessionId = session.id ∧
      p.digest = sha.hex data := by
    intro data hdata
    obtain ⟨p, hp, hreg⟩ := Table.exists_of_mem_right hforall hdata
    exact ⟨p, (Db.mem_partsByOrdinal.mp hp).1, (Db.mem_partsByOrdinal.mp hp).2, hreg.digest⟩
  refine ⟨hlive, hknown, ?_, ?_, fun p hp hid => ?_, fun data hdata => ?_⟩
  · rw [hcount]
    exact hreserve.trans_lt (by decide)
  · rw [← htotal, UInt64.toNat_ofNat_of_lt' hflat]
  · obtain ⟨data, hdata, hreg⟩ :=
      Table.exists_of_mem_left hforall (Db.mem_partsByOrdinal.mpr ⟨hp, hid⟩)
    exact ⟨data, hdata, hreg.digest.symm⟩
  · obtain ⟨p, hp, hid, hdigest⟩ := hpart data hdata
    obtain ⟨r, hr, hrid, hrlive⟩ := hlive
    exact hinv.held _ (.inr (Db.inLivePart_iff.mpr ⟨p, hp, hdigest, r, hr, hrid.trans hid.symm,
      hrlive⟩))

private theorem commitBody_wp {now : Int64} {session : SessionInfo}
    (htol : Tolerant sha contents s₀ leaked interrupts crash)
    (hgood : Good sha contents s₀ leaked s)
    (hlive : ∃ r ∈ s.db.uploadSession, r.id = session.id ∧ r.state.live = true) :
    wp interrupts crash (commitBody sha now session)
      (Outcome crash fun _ s' => StoreInv sha contents leaked s' ∧
        Evolves (fun _ => False) s₀.db s'.db) s := by
  have hcrash := htol.good s hgood
  have hback {e : Error} : wp interrupts crash
      (rollbackAndThrow session.id e : StorageM ArtifactInfo)
      (Outcome crash fun _ s' => StoreInv sha contents leaked s' ∧
        Evolves (fun _ => False) s₀.db s'.db) s := rollbackAndThrow_wp htol hgood
  refine wp_seq (wp_labelled.mpr (reserveManifest_wp hcrash)) ?_
  rintro - s' ⟨rfl, hreserve⟩
  refine wp_seq (wp_labelled.mpr (wp_select' (R := fun parts s₁ => s₁ = s' ∧
    parts = s'.db.partsByOrdinal session.id) hcrash ⟨rfl, rfl⟩)) ?_
  rintro parts s₁ ⟨rfl, rfl⟩
  cases hscan : scanParts session.chunkSize 0 0 [] (s₁.db.partsByOrdinal session.id) with
  | error e => exact hback
  | ok result =>
    obtain ⟨manifest, total⟩ := result
    dsimp only
    by_cases hcount : manifest.length ≠ (chunkCount session).toNat
    · rw [if_pos hcount]
      exact hback
    rw [if_neg hcount]
    by_cases htotal : total ≠ session.expectedSize
    · rw [if_pos htotal]
      exact hback
    rw [if_neg htotal]
    obtain ⟨chunks, rfl, hsize, hpub⟩ := scanParts_publishable hgood.inv hlive hreserve
      hscan (not_not.mp hcount) (not_not.mp htotal)
    refine wp_seq (wp_catch (wp_labelled.mpr (readChunks_wp hcrash hsize))
      fun e s' hs' => by rw [hs']; exact rollbackAndThrow_wp htol hgood) ?_
    rintro content s₂ ⟨rfl, hcontent⟩
    by_cases hdigest : sha.hex content ≠ session.expectedDigest
    · rw [if_pos hdigest]
      exact hback
    rw [if_neg hdigest]
    have hfiles (hsha : sha.NoCollision contents) : FilesOf sha chunks s₂ := fun data hdata =>
      hgood.inv.file_eq hsha (hpub.known data hdata) (hpub.held data hdata).file
    refine wp_seq (wp_labelled.mpr (wp_atomic hcrash hcrash (publish_wp hgood.inv hpub
      fun hsha => hcontent (hfiles hsha) ▸ (not_not.mp hdigest).symm))) ?_
    rintro (_ | id) s₃ hs₃
    · exact hs₃ ▸ hback
    · exact ⟨hs₃.1, hgood.same.evolves.trans hs₃.2⟩

/-- `commit_session` keeps the invariant and publishes at most a new artifact. -/
theorem commitSession_wp {env : CallEnv} {sessionId : Bytes}
    (htol : Tolerant sha contents s₀ leaked interrupts crash)
    (hgood : Good sha contents s₀ leaked s) :
    wp interrupts crash (commitSession sha env sessionId)
      (Outcome crash fun _ s' => StoreInv sha contents leaked s' ∧
        Evolves (fun _ => False) s₀.db s'.db) s := by
  refine wp_seq (loadSession_wp (R := fun session s' => s' = s ∧ session ∈ s.db.uploadSession ∧
    session.id = sessionId) (htol.good s hgood) fun session hsession hid => ⟨rfl, hsession, hid⟩) ?_
  rintro session s' ⟨rfl, hsession, hid⟩
  refine wp_seq (wp_imp (expireSessionIfDue_wp htol hgood hsession) fun _ _ h => h.1) ?_
  intro _ s₁ hgood₁
  refine wp_seq (transition_wp htol hgood₁ rfl (by simp)) ?_
  rintro b s₂ ⟨hgood₂, hs₂, hfound⟩
  cases b with
  | false =>
    refine wp_seq (loadSession_wp (R := fun _ s' => s' = s₂) (htol.good s₂ hgood₂)
      fun _ _ _ => rfl) ?_
    rintro session' s₃ rfl
    split <;> exact htol.good s₃ hgood₂
  | true =>
    refine commitBody_wp htol hgood₂ ?_
    obtain ⟨r, hr, hrid, hstate⟩ := hfound rfl
    refine ⟨{ r with state := .committing }, ?_, hrid.trans hid.symm, rfl⟩
    rw [hs₂]
    exact Table.mem_update.mpr ⟨r, hr, by simp [hrid, hstate]⟩

end ForgeRelay
