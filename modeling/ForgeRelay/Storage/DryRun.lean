import ForgeRelay.Storage.Idempotence

/-!
# The dry run of a garbage collection

A chunk that is marked is referred to by nobody, in every state that storage reaches. So nothing is
reactivated, no deletion changes what is decided later, and the dry run counts what the collection
removes.
-/

namespace ForgeRelay

open Program Prog

/-- The protection period of the candidate is over. -/
def isOver (cfg : StorageConfig) (now : Int64) (candidate : Bytes × Int64 × Int64) : Bool :=
  !decide (now - cfg.gcGraceSeconds.toInt64 < candidate.2.2)

/-- The chunk is marked, and its protection period is over. -/
def ChunkRow.isDue (cfg : StorageConfig) (now : Int64) (c : ChunkRow) : Bool :=
  c.state == .pendingDelete &&
    c.pendingAt.any fun marked => isOver cfg now (c.digest, c.rawSize, marked)

/-- The report with one more candidate. -/
def GcReport.count (report : GcReport) (candidate : Bytes × Int64 × Int64) : GcReport :=
  { report with
    deletedCount := report.deletedCount + 1
    deletedBytes := report.deletedBytes + candidate.2.1 }

/-- The store without the file and the row of a chunk. -/
def Store.removeChunk (s : Store) (digest : Bytes) : Store :=
  { s with
    files := Function.update s.files (relPath digest) none
    db := s.db.deleteChunk digest }

private theorem Store.removeChunk_files (s : Store) (digest path : Bytes) :
    (s.removeChunk digest).files path = if path = relPath digest then none else s.files path := by
  rw [removeChunk]
  exact Function.update_apply _ _ _ _

/-- The candidates that are counted, in their order. -/
def Db.dueChunks (db : Db) (cfg : StorageConfig) (now : Int64) : List (Bytes × Int64 × Int64) :=
  db.pendingChunks.filter (isOver cfg now)

private theorem Db.dueChunks_eq (db : Db) (cfg : StorageConfig) (now : Int64) :
    db.dueChunks cfg now = (db.chunk.filter (ChunkRow.isDue cfg now)).map
      fun c => (c.digest, c.rawSize, c.pendingAt.getD 0) := by
  rw [dueChunks, pendingChunks]
  induction db.chunk with
  | nil => rfl
  | cons c rest ih =>
    by_cases hstate : c.state = .pendingDelete
    · cases hmarked : c.pendingAt with
      | none =>
        have hnot : c.isDue cfg now = false := by simp [ChunkRow.isDue, hmarked]
        rw [List.filterMap_cons_none (by simp [hstate, hmarked]), ih,
          List.filter_cons_of_neg (by simp [hnot])]
      | some marked =>
        have hsame : c.isDue cfg now = isOver cfg now (c.digest, c.rawSize, marked) := by
          simp [ChunkRow.isDue, hstate, hmarked]
        rw [List.filterMap_cons_some (b := (c.digest, c.rawSize, marked))
          (by simp [hstate, hmarked])]
        by_cases hover : isOver cfg now (c.digest, c.rawSize, marked) = true
        · rw [List.filter_cons_of_pos hover, ih, List.filter_cons_of_pos (hsame.trans hover),
            List.map_cons, hmarked]
          rfl
        · rw [List.filter_cons_of_neg hover, ih, List.filter_cons_of_neg (by rwa [hsame])]
    · have hnot : c.isDue cfg now = false := by simp [ChunkRow.isDue, hstate]
      rw [List.filterMap_cons_none (by simp [hstate]), ih,
        List.filter_cons_of_neg (by simp [hnot])]

theorem GcReport.count_all (report : GcReport) (candidates : List (Bytes × Int64 × Int64)) :
    (candidates.foldl count report).scanned = report.scanned ∧
      (candidates.foldl count report).deletedCount =
        report.deletedCount + Int64.ofNat candidates.length := by
  induction candidates generalizing report with
  | nil => exact ⟨rfl, (Int64.add_zero _).symm⟩
  | cons candidate rest ih =>
    obtain ⟨hscanned, hcount⟩ := ih (report.count candidate)
    refine ⟨hscanned, ?_⟩
    rw [List.foldl_cons, hcount, List.length_cons, Nat.add_comm, Int64.ofNat_add,
      ← Int64.add_assoc]
    rfl

variable {sha : Sha256} {cfg : StorageConfig} {env : CallEnv} {s : Store}

private theorem chunkReferenced_free {digest : Bytes} (hfree : ¬ s.db.Referenced digest) :
    (chunkReferenced digest).run s = (.ok false, s) := by
  obtain ⟨hmanifest, hlive⟩ := not_or.mp hfree
  rw [chunkReferenced, run_bind, run_select]
  dsimp only
  rw [if_neg hmanifest, run_select, Bool.eq_false_iff.mpr hlive]

private theorem collectCandidate_run (dryRun : Bool) {candidate : Bytes × Int64 × Int64}
    (report : GcReport) (hdigest : ∃ data, candidate.1 = sha.hex data)
    (hfree : ¬ s.db.Referenced candidate.1) :
    (collectCandidate cfg env dryRun candidate report).run s =
      if isOver cfg env.now candidate = true then
        (.ok (report.count candidate), if dryRun then s else s.removeChunk candidate.1)
      else (.ok report, s) := by
  obtain ⟨digest, rawSize, marked⟩ := candidate
  obtain ⟨data, hdata⟩ := hdigest
  obtain rfl : digest = sha.hex data := hdata
  unfold collectCandidate
  dsimp only
  by_cases hyoung : env.now - cfg.gcGraceSeconds.toInt64 < marked
  · have hnot : ¬ isOver cfg env.now (sha.hex data, rawSize, marked) = true := by
      simp [isOver, hyoung]
    rw [if_pos hyoung, if_neg hnot]
    rfl
  · have hover : isOver cfg env.now (sha.hex data, rawSize, marked) = true := by
      simp [isOver, hyoung]
    rw [if_neg hyoung, if_pos hover, run_bind, chunkReferenced_free hfree]
    dsimp only
    rw [if_neg Bool.false_ne_true]
    cases dryRun with
    | true => rfl
    | false =>
      rw [if_neg Bool.false_ne_true, run_bind, chunkStoreRemove, chunkPath_hex, bind_pure_left,
        run_fileStep]
      dsimp only
      rw [run_bind, run_exec]
      rfl

/-- What the loop counts, and what it removes unless it is a dry run. The removals leave the
references as they are. -/
theorem collectCandidates_run (sha : Sha256) (dryRun : Bool)
    {candidates : List (Bytes × Int64 × Int64)} (report : GcReport)
    (hdigests : ∀ candidate ∈ candidates, ∃ data, candidate.1 = sha.hex data)
    (hfree : ∀ candidate ∈ candidates, ¬ s.db.Referenced candidate.1) :
    (collectCandidates cfg env dryRun candidates report).run s =
      (.ok ((candidates.filter (isOver cfg env.now)).foldl GcReport.count report),
        if dryRun then s
        else
          ((candidates.filter (isOver cfg env.now)).map Prod.fst).foldl Store.removeChunk s) := by
  induction candidates generalizing report s with
  | nil => cases dryRun <;> rfl
  | cons candidate rest ih =>
    obtain ⟨hdigest, hdigests⟩ := List.forall_mem_cons.mp hdigests
    obtain ⟨hcandidate, hfree⟩ := List.forall_mem_cons.mp hfree
    rw [collectCandidates, run_bind, collectCandidate_run dryRun report hdigest hcandidate]
    by_cases hover : isOver cfg env.now candidate = true
    · rw [if_pos hover, List.filter_cons_of_pos hover]
      cases dryRun with
      | true => exact ih _ hdigests hfree
      | false => exact ih (s := s.removeChunk candidate.1) _ hdigests hfree
    · rw [if_neg hover, List.filter_cons_of_neg hover]
      exact ih report hdigests hfree

theorem Store.removeChunk_all (digests : List Bytes) (s : Store) :
    digests.foldl removeChunk s =
      { s with
        files := fun path => if (digests.map relPath).contains path then none else s.files path
        db := { s.db with
          chunk := Table.delete (fun c => digests.contains c.digest) s.db.chunk } } := by
  induction digests generalizing s with
  | nil =>
    have hnone : Table.delete (fun c : ChunkRow => ([] : List Bytes).contains c.digest)
        s.db.chunk = s.db.chunk := Table.delete_of_none fun c _ => rfl
    rw [hnone]
    rfl
  | cons digest rest ih =>
    rw [List.foldl_cons, ih]
    have hfiles : (fun path => if (rest.map relPath).contains path then none
        else (s.removeChunk digest).files path) =
        fun path => if ((digest :: rest).map relPath).contains path then none
          else s.files path := by
      funext path
      rw [List.map_cons, List.contains_cons]
      by_cases hpath : path = relPath digest
      · rw [beq_iff_eq.mpr hpath, Bool.true_or, if_pos rfl, removeChunk_files, if_pos hpath,
          ite_self]
      · rw [beq_eq_false_iff_ne.mpr hpath, Bool.false_or, removeChunk_files, if_neg hpath]
    have hrows : Table.delete (fun c : ChunkRow => rest.contains c.digest)
        (s.removeChunk digest).db.chunk =
        Table.delete (fun c => (digest :: rest).contains c.digest) s.db.chunk := by
      rw [removeChunk, Db.deleteChunk, Table.delete, Table.delete, Table.delete, List.filter_filter]
      refine List.filter_congr fun c _ => ?_
      rw [List.contains_cons, Bool.not_or, Bool.and_comm]
    rw [hfiles, hrows]
    rfl

/-- Whoever is marked in a store that keeps the invariant is referred to by nobody. -/
theorem StoreInv.pendingChunks_free {contents leaked : Set Bytes}
    (hinv : StoreInv sha contents leaked s) :
    ∀ candidate ∈ s.db.pendingChunks,
      (∃ data, candidate.1 = sha.hex data) ∧ ¬ s.db.Referenced candidate.1 := by
  intro candidate hcandidate
  obtain ⟨c, hc, hcandidate⟩ := List.mem_filterMap.mp hcandidate
  obtain ⟨data, -, hdigest⟩ := hinv.rows.chunkData c hc
  split at hcandidate
  · rename_i hstate
    obtain ⟨marked, -, rfl⟩ := Option.map_eq_some_iff.mp hcandidate
    refine ⟨⟨data, hdigest⟩, fun href => ?_⟩
    obtain ⟨c', hc', hsame, hactive⟩ := (hinv.held c.digest href).row
    rw [Table.eq_of_key hinv.rows.chunkKeys hc' hc hsame, hstate] at hactive
    cases hactive
  · cases hcandidate

/-- In every state that storage reaches, and at every time, a dry run changes nothing and reports
what a collection from this state reports. The chunks that the collection counts have neither a row
nor a file behind it, and nothing else has changed. -/
theorem dryRun_exact {sys : System} {events : List Event}
    (hrun : Trace.Run (System.Step sha anywhere) .initial events sys) (cfg : StorageConfig)
    (env : CallEnv) :
    ∃ report s',
      (collectGarbage cfg env true).run sys.store = (.ok report, sys.store) ∧
      (collectGarbage cfg env false).run sys.store = (.ok report, s') ∧
      report.deletedCount =
        Int64.ofNat (sys.store.db.chunk.countP (ChunkRow.isDue cfg env.now)) ∧
      (∀ c ∈ sys.store.db.chunk, c.isDue cfg env.now = true →
        (∀ c' ∈ s'.db.chunk, c'.digest ≠ c.digest) ∧ s'.files (relPath c.digest) = none) ∧
      (∀ c ∈ sys.store.db.chunk, c.isDue cfg env.now = false →
        c ∈ s'.db.chunk ∧ s'.files (relPath c.digest) = sys.store.files (relPath c.digest)) ∧
      (∀ c ∈ s'.db.chunk, c ∈ sys.store.db.chunk) ∧
      (∀ path, s'.files path ≠ sys.store.files path →
        ∃ c ∈ sys.store.db.chunk, c.isDue cfg env.now = true ∧ path = relPath c.digest) ∧
      s'.tmp = sys.store.tmp ∧ s'.db = { sys.store.db with chunk := s'.db.chunk } := by
  have hinv := (System.run_kept hrun anywhere_harmless Set.Subset.rfl (.empty _ _ _)).inv
  have hpending := hinv.pendingChunks_free
  have hcollect : ∀ dryRun, (collectGarbage cfg env dryRun).run sys.store =
      (.ok ((sys.store.db.dueChunks cfg env.now).foldl GcReport.count
          ⟨Int64.ofNat sys.store.db.pendingChunks.length, 0, 0⟩),
        if dryRun then sys.store
        else ((sys.store.db.dueChunks cfg env.now).map Prod.fst).foldl Store.removeChunk
          sys.store) := by
    intro dryRun
    rw [collectGarbage, run_bind, run_select]
    exact collectCandidates_run sha dryRun _ (fun candidate h => (hpending candidate h).1)
      fun candidate h => (hpending candidate h).2
  have hdigests : (sys.store.db.dueChunks cfg env.now).map Prod.fst =
      (sys.store.db.chunk.filter (ChunkRow.isDue cfg env.now)).map (·.digest) := by
    rw [Db.dueChunks_eq, List.map_map]
    rfl
  have hdue : ∀ c ∈ sys.store.db.chunk, c.isDue cfg env.now = true ↔
      c.digest ∈ (sys.store.db.dueChunks cfg env.now).map Prod.fst := by
    intro c hc
    rw [hdigests, List.mem_map]
    refine ⟨fun h => ⟨c, List.mem_filter.mpr ⟨hc, h⟩, rfl⟩, ?_⟩
    rintro ⟨c', hc', hsame⟩
    obtain ⟨hmem, h⟩ := List.mem_filter.mp hc'
    rwa [Table.eq_of_key hinv.rows.chunkKeys hc hmem hsame.symm]
  have hcount := (GcReport.count_all ⟨Int64.ofNat sys.store.db.pendingChunks.length, 0, 0⟩
    (sys.store.db.dueChunks cfg env.now)).2
  refine ⟨_, _, hcollect true, hcollect false, ?_, ?_⟩
  · rw [hcount, Db.dueChunks_eq, List.length_map, ← List.countP_eq_length_filter]
    exact Int64.zero_add _
  rw [if_neg Bool.false_ne_true, Store.removeChunk_all]
  refine ⟨fun c hc h => ⟨fun c' hc' heq => ?_, ?_⟩, fun c hc h => ⟨?_, ?_⟩,
    fun c hc => (Table.mem_delete.mp hc).1, fun path hpath => ?_, rfl, rfl⟩
  · have hgone := (Table.mem_delete.mp hc').2
    rw [heq, List.contains_iff_mem.mpr ((hdue c hc).mp h)] at hgone
    cases hgone
  · have hmem := List.mem_map_of_mem (f := relPath) ((hdue c hc).mp h)
    exact if_pos (List.contains_iff_mem.mpr hmem)
  · refine Table.mem_delete.mpr ⟨hc, Bool.eq_false_iff.mpr fun hmem => ?_⟩
    rw [(hdue c hc).mpr (List.contains_iff_mem.mp hmem)] at h
    cases h
  · refine if_neg fun hmem => ?_
    obtain ⟨digest, hdigest, hpath⟩ := List.mem_map.mp (List.contains_iff_mem.mp hmem)
    rw [hdigests] at hdigest
    obtain ⟨c', hc', rfl⟩ := List.mem_map.mp hdigest
    obtain ⟨hc', h'⟩ := List.mem_filter.mp hc'
    obtain ⟨data, -, hdata⟩ := hinv.rows.chunkData c hc
    obtain ⟨data', -, hdata'⟩ := hinv.rows.chunkData c' hc'
    have hsame : c'.digest = c.digest := relPath_injective (hdata' ▸ sha.hex_length data')
      (hdata ▸ sha.hex_length data) hpath
    rw [Table.eq_of_key hinv.rows.chunkKeys hc' hc hsame, h] at h'
    cases h'
  · have hmem :
        ((sys.store.db.dueChunks cfg env.now).map Prod.fst).map relPath |>.contains path := by
      by_contra hnot
      exact hpath (if_neg hnot)
    obtain ⟨digest, hdigest, rfl⟩ := List.mem_map.mp (List.contains_iff_mem.mp hmem)
    rw [hdigests] at hdigest
    obtain ⟨c, hc, rfl⟩ := List.mem_map.mp hdigest
    obtain ⟨hc, h⟩ := List.mem_filter.mp hc
    exact ⟨c, hc, h, rfl⟩

/-- The published sample is deleted. -/
def sampleGarbage : List Move :=
  samplePublish ++ [(Action.call (.deleteArtifact (ascii "team") (ascii "app") (ascii "1.0"))).at
    (sampleEnv 3)]

/-- Its chunk is counted by a dry run, and removed by the collection. -/
theorem dryRun_exact_sample :
    ∃ report s',
      (collectGarbage sampleConfig (sampleEnv 100000) true).run
          (played sampleSha sampleGarbage).2.store =
        (.ok report, (played sampleSha sampleGarbage).2.store) ∧
      (collectGarbage sampleConfig (sampleEnv 100000) false).run
          (played sampleSha sampleGarbage).2.store = (.ok report, s') ∧
      report.deletedCount = 1 := by
  obtain ⟨report, s', hdry, hwet, hcount, -⟩ := dryRun_exact
    (played_run (fun _ _ => .inr fun _ _ => trivial) (by decide +kernel) :
      Trace.Run (System.Step sampleSha anywhere) .initial (played sampleSha sampleGarbage).1
        (played sampleSha sampleGarbage).2) sampleConfig (sampleEnv 100000)
  exact ⟨report, s', hdry, hwet, hcount.trans (by decide +kernel)⟩

end ForgeRelay
