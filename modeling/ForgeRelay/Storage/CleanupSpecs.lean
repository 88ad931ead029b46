import ForgeRelay.Storage.CommitSpecs

/-!
# Deleting, collecting and maintaining

These operations keep the invariant wherever they are interrupted; a maintenance that completes
leaves no part of an expired or aborted session behind.
-/

namespace ForgeRelay

open Program Prog

variable {sha : Sha256} {contents leaked : Set Bytes} {s₀ s : Store}
  {interrupts : Label → Store → Prop} {crash : Store → Prop}

private theorem markDeleted_wp {now : Int64} {digest : Bytes}
    (hgood : Good sha contents s₀ (leaked ∪ {digest}) s) (hcalm : Calm interrupts crash s) :
    wp interrupts crash (markDeleted now digest)
      (Outcome crash fun _ s' => Good sha contents s₀ leaked s') s := by
  refine wp_seq (R := fun b s' => s' = s ∧ (b = true ↔ s.db.Referenced digest))
    (chunkReferenced_wp hcalm fun b hb => ⟨rfl, hb⟩) ?_
  rintro b s' ⟨rfl, hb⟩
  cases b with
  | true => exact ⟨hgood.inv.settle (hb.mp rfl), hgood.same⟩
  | false =>
    rw [if_neg Bool.false_ne_true]
    refine wp_stmt_ok (Q := Outcome crash fun _ s' => Good sha contents s₀ leaked s') rfl hcalm
      (fun l hl _ => hcalm l hl) ⟨hgood.inv.markPending now ?_, ?_⟩
    · exact fun href => Bool.noConfusion (hb.mpr href)
    · exact ⟨hgood.same.artifact, hgood.same.artifactSeq, hgood.same.artifactChunk⟩

private theorem markAllDeleted_wp {now : Int64} {digests : List Bytes}
    (hgood : Good sha contents s₀ (leaked ∪ {d | d ∈ digests}) s) :
    wp (fun _ _ => False) (fun _ => True) (markAllDeleted now digests)
      (Outcome (fun _ => True) fun _ s' => Good sha contents s₀ leaked s') s := by
  induction digests generalizing s with
  | nil =>
    have hnil : leaked ∪ {d | d ∈ ([] : List Bytes)} = leaked := by simp
    exact hnil ▸ hgood
  | cons digest rest ih =>
    rw [union_mem_cons] at hgood
    refine wp_seq (markDeleted_wp hgood (.of_crash trivial)) fun _ s' hgood' => ?_
    exact wp_seq (ih hgood') fun _ _ h => h

private theorem Db.deleteArtifact_evolves {db : Db} (hrows : RowsInv sha contents db)
    {row : ArtifactRow} (hrow : row ∈ db.artifact) :
    Evolves (fun a => a.ref = row.ref) db (db.deleteArtifact row.id) where
  artifactSeq := le_refl _
  keeps a ha hnot := by
    refine Table.mem_delete.mpr ⟨ha, beq_eq_false_iff_ne.mpr fun hid => hnot ?_⟩
    rw [Table.eq_of_key hrows.artifactKeys ha hrow hid]
  old a ha _ := by
    obtain ⟨ha, hid⟩ := Table.mem_delete.mp ha
    exact ⟨ha, Db.manifest_deleteArtifact_of_ne (beq_eq_false_iff_ne.mp hid)⟩

theorem deleteArtifact_wp {env : CallEnv} {ns name version : Bytes} (hcrash : crash s)
    (hinv : StoreInv sha contents leaked s) :
    wp interrupts crash (deleteArtifact env ns name version)
      (Outcome crash fun _ s' => StoreInv sha contents leaked s' ∧
        Evolves (fun a => a.ref = (ns, name, version)) s.db s'.db) s := by
  refine wp_atomic hcrash hcrash ?_
  refine wp_seq (wp_select' (R := fun found s' => s' = s ∧
    found = s.db.artifact? ns name version) trivial ⟨rfl, rfl⟩) ?_
  rintro found s' ⟨rfl, rfl⟩
  cases hfound : s'.db.artifact? ns name version with
  | none => trivial
  | some row =>
    obtain ⟨hrow, href⟩ := Db.artifact?_some hfound
    refine wp_seq (wp_select' (R := fun manifest s₁ => s₁ = s' ∧
      manifest = s'.db.manifest row.id) trivial ⟨rfl, rfl⟩) ?_
    rintro manifest s₁ ⟨rfl, rfl⟩
    refine wp_seq (wp_exec' (R := fun _ s₂ => s₂ = { s₁ with db := (s₁.db.deleteArtifact row.id) })
      trivial rfl) ?_
    rintro - s₂ rfl
    refine wp_seq (markAllDeleted_wp ⟨hinv.deleteArtifact row.id, .refl _⟩) fun _ s₃ h₃ => ?_
    refine ⟨h₃.inv, ?_⟩
    rw [← href]
    exact (Db.deleteArtifact_evolves hinv.rows hrow).trans h₃.same.evolves

private theorem collectCandidate_wp {cfg : StorageConfig} {env : CallEnv} {dryRun : Bool}
    {data : Bytes} {rawSize pendingAt : Int64} {report : GcReport}
    (htol : Tolerant sha contents s₀ leaked interrupts crash)
    (hgood : Good sha contents s₀ leaked s) :
    wp interrupts crash
      (collectCandidate cfg env dryRun (sha.hex data, rawSize, pendingAt) report)
      (Outcome crash fun _ s' => Good sha contents s₀ leaked s') s := by
  have hcrash := htol.good s hgood
  unfold collectCandidate
  dsimp only
  split
  · exact hgood
  refine wp_seq (R := fun b s' => s' = s ∧ (b = true ↔ s.db.Referenced (sha.hex data)))
    (chunkReferenced_wp (.of_crash hcrash) fun b hb => ⟨rfl, hb⟩) ?_
  rintro b s' ⟨rfl, hb⟩
  cases b with
  | true =>
    refine wp_seq (wp_exec' hcrash ?_) fun _ _ h => h
    have hinv := hgood.inv.reactivate (·.digest == sha.hex data) fun c hc => by
      simpa using hc
    exact ⟨hinv.settle (hb.mp rfl), hgood.same.artifact, hgood.same.artifactSeq,
      hgood.same.artifactChunk⟩
  | false =>
    have hfree : ¬ s'.db.Referenced (sha.hex data) := fun href => Bool.noConfusion (hb.mpr href)
    rw [if_neg Bool.false_ne_true]
    split
    · exact hgood
    have hremoved : Good sha contents s₀ leaked
        { s' with files := Function.update s'.files (relPath (sha.hex data)) none } :=
      ⟨hgood.inv.removeFile hfree, hgood.same⟩
    refine wp_seq (R := fun _ s₁ => s₁ =
      { s' with files := Function.update s'.files (relPath (sha.hex data)) none }) ?_ ?_
    · unfold chunkStoreRemove
      rw [chunkPath_hex, bind_pure_left]
      exact wp_fileStep hcrash rfl
    rintro - s₁ rfl
    refine wp_seq (wp_exec' (htol.good _ hremoved) ?_) fun _ _ h => h
    exact ⟨hremoved.inv.deleteChunk hfree, hgood.same.artifact, hgood.same.artifactSeq,
      hgood.same.artifactChunk⟩

private theorem collectCandidates_wp {cfg : StorageConfig} {env : CallEnv} {dryRun : Bool}
    {candidates : List (Bytes × Int64 × Int64)} {report : GcReport}
    (htol : Tolerant sha contents s₀ leaked interrupts crash)
    (hknown : ∀ candidate ∈ candidates, ∃ data, candidate.1 = sha.hex data)
    (hgood : Good sha contents s₀ leaked s) :
    wp interrupts crash (collectCandidates cfg env dryRun candidates report)
      (Outcome crash fun _ s' => Good sha contents s₀ leaked s') s := by
  induction candidates generalizing s report with
  | nil => exact hgood
  | cons candidate rest ih =>
    obtain ⟨hcandidate, hrest⟩ := List.forall_mem_cons.mp hknown
    obtain ⟨digest, rawSize, pendingAt⟩ := candidate
    obtain ⟨data, rfl⟩ := hcandidate
    exact wp_seq (collectCandidate_wp htol hgood) fun report' s' hgood' => ih hrest hgood'

theorem collectGarbage_wp {cfg : StorageConfig} {env : CallEnv} {dryRun : Bool}
    (htol : Tolerant sha contents s₀ leaked interrupts crash)
    (hgood : Good sha contents s₀ leaked s) :
    wp interrupts crash (collectGarbage cfg env dryRun)
      (Outcome crash fun _ s' => Good sha contents s₀ leaked s') s := by
  refine wp_seq (wp_select' (R := fun candidates s' => s' = s ∧
    candidates = s.db.pendingChunks) (htol.good s hgood) ⟨rfl, rfl⟩) ?_
  rintro candidates s' ⟨rfl, rfl⟩
  refine collectCandidates_wp htol (fun candidate hcandidate => ?_) hgood
  obtain ⟨c, hc, hcandidate⟩ := List.mem_filterMap.mp hcandidate
  obtain ⟨data, -, hdigest⟩ := hgood.inv.rows.chunkData c hc
  refine ⟨data, ?_⟩
  split at hcandidate
  · obtain ⟨pendingAt, -, rfl⟩ := Option.map_eq_some_iff.mp hcandidate
    exact hdigest
  · cases hcandidate

private theorem unlinkTempFiles_wp {names : List Bytes} {s' : Store}
    (hcrash : ∀ s', TmpOnly s s' → crash s') (htmp : TmpOnly s s') :
    wp interrupts crash (unlinkTempFiles names) (Outcome crash fun _ => TmpOnly s) s' := by
  induction names generalizing s' with
  | nil => exact htmp
  | cons name rest ih =>
    refine wp_seq (R := fun _ => TmpOnly s) ?_ fun _ s₁ h₁ => wp_seq (ih h₁) fun _ _ h => h
    split
    · exact wp_catch (wp_seq (tmpFileUnlink_wp hcrash htmp) fun _ _ h => h) fun _ _ h => h
    · exact htmp

private theorem cleanupTempFiles_wp (hcrash : ∀ s', TmpOnly s s' → crash s') :
    wp interrupts crash cleanupTempFiles (Outcome crash fun _ => TmpOnly s) s := by
  have hself : TmpOnly s s := ⟨rfl, rfl, rfl⟩
  refine wp_seq (wp_fileStep (R := fun _ s' => s' = s) (hcrash s hself) rfl) ?_
  rintro names s' rfl
  exact unlinkTempFiles_wp hcrash hself

/-- Every part that awaits the cleanup belongs to one of these sessions. -/
def OnlyAwaiting (ids : List Bytes) (db : Db) : Prop :=
  ∀ p ∈ db.uploadPart, ∀ r ∈ db.uploadSession, r.id = p.sessionId →
    r.state = .expired ∨ r.state = .aborted → r.id ∈ ids

theorem OnlyAwaiting.nil {db : Db} (h : OnlyAwaiting [] db) (digest : Bytes) :
    ¬ db.AwaitsCleanup digest := by
  rintro ⟨p, hp, -, r, hr, hid, hstate⟩
  exact List.not_mem_nil (h p hp r hr hid hstate)

private theorem updateSessions_good {cond : SessionInfo → Bool} {state : SessionState}
    (hcrash : crash s) (hgood : Good sha contents s₀ leaked s)
    (hcond : ∀ r, cond r = true → r.state.live = true) (hstate : state ≠ .completed) :
    wp interrupts crash (updateSessions cond state)
      (Outcome crash fun _ s' => Good sha contents s₀ leaked s') s :=
  updateSessions_wp (.of_crash hcrash) (fun _ _ _ => hcrash)
    (hgood.updateSessions (fun r _ => hcond r) hstate)

private theorem dbChanges_good {label : Label} {rows : Nat} (hcrash : crash s)
    (hgood : Good sha contents s₀ leaked s) :
    wp interrupts crash (dbChanges label rows)
      (Outcome crash fun _ s' => Good sha contents s₀ leaked s') s :=
  dbChanges_wp (.of_crash hcrash) hgood hgood

/-- The loop over the terminal sessions. -/
private theorem markTerminal_wp {now : Int64} {ids : List Bytes}
    (htol : Tolerant sha contents s₀ leaked interrupts crash)
    (hgood : Good sha contents s₀ leaked s) (honly : OnlyAwaiting ids s.db) :
    wp interrupts crash (ids.forM fun id => markUnreferencedParts id now)
      (Outcome crash fun _ s' => Good sha contents s₀ leaked s' ∧ OnlyAwaiting [] s'.db) s := by
  refine wp_forM (fun rest s' => Good sha contents s₀ leaked s' ∧ OnlyAwaiting rest s'.db) ?_
    (fun _ h => h) ⟨hgood, honly⟩
  rintro id rest s' - ⟨hgood, honly⟩
  refine wp_mono (markUnreferencedParts_wp htol hgood) fun r s'' hr => ?_
  cases r with
  | error e => exact hr
  | ok u =>
    obtain ⟨hgood', hsame⟩ := hr
    refine ⟨hgood', fun p hp r hr hid hstate => ?_⟩
    rw [hsame.uploadPart] at hp
    rw [hsame.uploadSession] at hr
    obtain ⟨hp, hne⟩ := Table.mem_delete.mp hp
    rcases List.mem_cons.mp (honly p hp r hr hid hstate) with heq | hrest
    · exact absurd (hid.symm.trans heq) (beq_eq_false_iff_ne.mp hne)
    · exact hrest

theorem runMaintenance_wp {env : CallEnv}
    (htol : Tolerant sha contents s₀ leaked interrupts crash)
    (hgood : Good sha contents s₀ leaked s) :
    wp interrupts crash (runMaintenance env)
      (Outcome crash fun _ s' => Good sha contents s₀ leaked s' ∧ OnlyAwaiting [] s'.db) s := by
  refine wp_seq (cleanupTempFiles_wp fun s' hs' => htol.good s' (hgood.congr hs'.db hs'.files)) ?_
  intro _ s₁ h₁
  have hgood₁ := hgood.congr h₁.db h₁.files
  refine wp_seq (wp_labelled.mpr (updateSessions_good (htol.good s₁ hgood₁) hgood₁
    (fun r hr => ?_) (by simp))) fun expired s₂ hgood₂ => ?_
  · simp only [isOverdue, Bool.and_eq_true, beq_iff_eq] at hr
    rw [hr.1]
    rfl
  refine wp_seq (dbChanges_good (htol.good s₂ hgood₂) hgood₂) fun _ s₂ hgood₂ => ?_
  refine wp_seq (updateSessions_good (htol.good s₂ hgood₂) hgood₂ (fun r hr => ?_) (by simp))
    fun rolledBack s₃ hgood₃ => ?_
  · simp only [isCommitting, beq_iff_eq] at hr
    rw [hr]
    rfl
  refine wp_seq (dbChanges_good (htol.good s₃ hgood₃) hgood₃) fun _ s₃ hgood₃ => ?_
  refine wp_seq (wp_select' (R := fun terminal s' => s' = s₃ ∧ terminal = s₃.db.terminalSessions)
    (htol.good s₃ hgood₃) ⟨rfl, rfl⟩) ?_
  rintro terminal s₄ ⟨rfl, rfl⟩
  refine wp_seq (markTerminal_wp htol hgood₃ fun p _ r hr _ hstate => ?_) fun _ _ h => h
  exact List.mem_map.mpr ⟨r, List.mem_filter.mpr ⟨hr, by simpa using hstate⟩, rfl⟩

theorem openStorage_wp {cfg : StorageConfig} {env : CallEnv}
    (htol : Tolerant sha contents s₀ leaked interrupts crash)
    (hgood : Good sha contents s₀ leaked s) :
    wp interrupts crash (openStorage cfg env)
      (Outcome crash fun _ s' => Good sha contents s₀ leaked s' ∧ OnlyAwaiting [] s'.db) s := by
  refine wp_seq (R := fun _ s' => s' = s) ?_ fun _ s' hs' =>
    wp_seq (hs' ▸ runMaintenance_wp htol hgood) fun _ _ h => h
  rw [wp_ofExcept]
  cases checkConfig cfg with
  | ok _ => exact rfl
  | error e => exact htol.good s hgood

end ForgeRelay
