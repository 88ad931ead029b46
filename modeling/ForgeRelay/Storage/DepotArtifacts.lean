import ForgeRelay.Storage.DepotCommits
import ForgeRelay.Storage.DryRun
import Mathlib.Data.Set.List

/-!
# Artifacts and garbage as a depot sees them

Deletion, garbage collection, maintenance and the questions.
-/

namespace ForgeRelay

open Program Prog

variable {sha : Sha256} {contents : Set Bytes} {d d' : Depot} {db db' : Db} {s s' : Store}

private theorem countP_mark_twice {now : Int64} {p q : ChunkRow → Bool}
    (hq : ∀ c, q c = true → c.state = .active) (rows : List ChunkRow) :
    rows.countP (fun c => p c || q c) =
      rows.countP p + (Table.update p (ChunkRow.mark now) rows).countP q := by
  induction rows with
  | nil => rfl
  | cons c rows ih =>
    have hmarked : q (c.mark now) = false := by
      apply Bool.eq_false_iff.mpr
      intro h
      cases hq _ h
    rw [Table.update_cons, List.countP_cons, List.countP_cons, List.countP_cons, ih]
    by_cases hp : p c = true
    · simp only [hp, hmarked, Bool.true_or, if_true, Bool.false_eq_true, if_false]
      omega
    · simp only [hp, Bool.false_or, Bool.false_eq_true, if_false]
      omega

/-- The loop of `delete_artifact` counts the rows that it marks. -/
private theorem markAllDeleted_marks (now : Int64) (digests : List Bytes) (s : Store) :
    ∃ p : ChunkRow → Bool, (∀ c, p c = true → c.state = .active) ∧
      (markAllDeleted now digests).run s = (.ok (s.db.chunk.countP p), { s with db := { s.db with
        chunk := Table.update p (ChunkRow.mark now) s.db.chunk } }) := by
  induction digests generalizing s with
  | nil =>
    refine ⟨fun _ => false, ?_, ?_⟩
    · intro c h
      cases h
    · rw [Table.update_of_none fun _ _ => rfl, List.countP_false]
      rfl
  | cons digest rest ih =>
    obtain ⟨b, hb⟩ := chunkReferenced_run digest s
    rw [markAllDeleted, run_bind, markDeleted, run_bind, hb]
    cases b with
    | true =>
      obtain ⟨p, hp, hrun⟩ := ih s
      refine ⟨p, hp, ?_⟩
      dsimp only
      rw [if_pos rfl, run_pure]
      dsimp only
      rw [run_bind, hrun]
      dsimp only [run_pure]
      rw [Nat.zero_add]
    | false =>
      have hactive : ∀ c, ChunkRow.isActive digest c = true → c.state = .active := by
        intro c h
        rw [ChunkRow.isActive, Bool.and_eq_true, beq_iff_eq, beq_iff_eq] at h
        exact h.2
      obtain ⟨q, hq, hrun⟩ := ih { s with db := s.db.markPending now digest }
      refine ⟨fun c => ChunkRow.isActive digest c || q c, ?_, ?_⟩
      · intro c h
        rcases Bool.or_eq_true_iff.mp h with h | h
        · exact hactive c h
        · exact hq c h
      · dsimp only
        rw [if_neg Bool.false_ne_true, run_stmt rfl]
        dsimp only
        rw [run_bind, hrun]
        dsimp only [run_pure]
        rw [countP_mark_twice hq (p := ChunkRow.isActive digest), ← update_mark_twice hq]
        rfl

private theorem Stores.countP_marked (h : Stores sha contents d s) (hsha : sha.NoCollision contents)
    {now : Int64} {p : ChunkRow → Bool} (hp : ∀ c, p c = true → c.state = .active)
    (hholds : Holds sha contents d' s'.db) (hinv : StoreInv sha contents ∅ s')
    (hchunk : s'.db.chunk = Table.update p (ChunkRow.mark now) s.db.chunk) :
    s.db.chunk.countP p = (d.dropped d').length := by
  have hrow {c : ChunkRow} (hc : c ∈ s.db.chunk) :
      (if p c then c.mark now else c) ∈ s'.db.chunk := by
    rw [hchunk]
    exact Table.mem_update.mpr ⟨c, hc, rfl⟩
  have hperm : ((s.db.chunk.filter p).map (·.digest)).Perm ((d.dropped d').map sha.hex) := by
    apply (List.perm_ext_iff_of_nodup ?_ ?_).mpr
    · intro digest
      rw [List.mem_map, List.mem_map]
      constructor
      · rintro ⟨c, hc, rfl⟩
        obtain ⟨hc, hpc⟩ := List.mem_filter.mp hc
        obtain ⟨data, hdata, hdigest, -⟩ := h.sizes c hc
        refine ⟨data, Depot.mem_dropped.mpr ⟨?_, ?_⟩, hdigest.symm⟩
        · exact (h.holds.active_iff h.inv hsha hc hdata hdigest).mp (hp c hpc)
        · intro hlive
          have hmarked := hrow hc
          rw [if_pos hpc] at hmarked
          have hactive := (hholds.active_iff hinv hsha hmarked hdata hdigest).mpr hlive
          cases hactive
      · rintro ⟨data, hdropped, rfl⟩
        obtain ⟨hlive, hdead⟩ := Depot.mem_dropped.mp hdropped
        obtain ⟨c, hc, hdigest, hactive⟩ := h.live_row hsha hlive
        refine ⟨c, List.mem_filter.mpr ⟨hc, ?_⟩, hdigest⟩
        by_contra hpc
        have hkept := hrow hc
        rw [if_neg hpc] at hkept
        exact hdead ((hholds.active_iff hinv hsha hkept (h.holds.live_known hlive) hdigest).mp
          hactive)
    · exact h.inv.rows.chunkKeys.sublist (List.filter_sublist.map _)
    · apply ((List.nodup_dedup _).filter _).map_on
      intro a ha b hb hab
      exact hsha.eq_of_hex (h.holds.live_known (Depot.mem_dropped.mp ha).1)
        (h.holds.live_known (Depot.mem_dropped.mp hb).1) hab
  have hlength := hperm.length_eq
  rwa [List.length_map, List.length_map, ← List.countP_eq_length_filter] at hlength

theorem Holds.delete (h : Holds sha contents d db) {r : Release} (chunk : List ChunkRow) :
    Holds sha contents { d with releases := Table.delete (·.row.id == r.row.id) d.releases }
      { db.deleteArtifact r.row.id with chunk := chunk } := by
  refine ⟨h.sessions, h.parts, h.known, h.chunkSizes, h.closed, ?_, ?_, ?_, h.issued⟩
  · rw [Db.deleteArtifact, h.artifacts]
    dsimp only
    rw [Table.delete, Table.delete, List.filter_map]
    rfl
  · intro r' hr'
    obtain ⟨hr', hne⟩ := Table.mem_delete.mp hr'
    have hmanifest : ({ db.deleteArtifact r.row.id with chunk := chunk } : Db).manifest r'.row.id =
        db.manifest r'.row.id := Db.manifest_deleteArtifact_of_ne (beq_eq_false_iff_ne.mp hne)
    rw [hmanifest]
    exact h.manifests r' hr'
  · intro e he
    obtain ⟨he, hne⟩ := Table.mem_delete.mp he
    obtain ⟨a, ha, hid⟩ := h.owned e he
    exact ⟨a, Table.mem_delete.mpr ⟨ha, by rw [hid]; exact hne⟩, hid⟩

theorem deleteArtifact_matches (h : Stores sha contents d s) (hsha : sha.NoCollision contents)
    (env : CallEnv) (ns name version : Bytes) :
    Matches sha contents ((deleteArtifact env ns name version).run s)
      (d.delete env ns name version) := by
  have hinv : KeepsInv sha contents (deleteArtifact env ns name version) s :=
    .of_wp (deleteArtifact_wp h.inv h.inv) fun _ _ h => h.1
  unfold KeepsInv at hinv
  unfold deleteArtifact at hinv ⊢
  unfold Depot.delete
  rw [tx, transaction, run_lift, run_bind, run_select] at hinv ⊢
  cases hr : d.release? ns name version with
  | none =>
    rw [h.holds.artifact?_none hr]
    exact h.refuse _ rfl
  | some r =>
    rw [h.holds.artifact?_some hr] at hinv ⊢
    dsimp only at hinv ⊢
    rw [run_bind, run_select] at hinv ⊢
    dsimp only at hinv ⊢
    rw [run_bind, run_exec] at hinv ⊢
    dsimp only at hinv ⊢
    obtain ⟨p, hp, hrun⟩ := markAllDeleted_marks env.now
      ((s.db.manifest r.row.id).map (·.digest)) { s with db := s.db.deleteArtifact r.row.id }
    rw [run_bind, hrun] at hinv ⊢
    dsimp only [run_pure] at hinv ⊢
    have hholds := h.holds.delete (r := r)
      (Table.update p (ChunkRow.mark env.now) (s.db.deleteArtifact r.row.id).chunk)
    have hcount : (s.db.deleteArtifact r.row.id).chunk.countP p = _ :=
      h.countP_marked hsha hp hholds hinv rfl
    refine ⟨?_, h.settle hsha hholds hinv h.tmp ?_⟩
    · rw [hcount]
      rfl
    · exact Marks.tended ⟨p, hp, rfl⟩

/-- The candidate for this garbage. -/
def candidate (sha : Sha256) (g : Bytes × Int64) : Bytes × Int64 × Int64 :=
  (sha.hex g.1, Int64.ofNat g.1.length, g.2)

private theorem isOver_candidate (cfg : StorageConfig) (now : Int64) (g : Bytes × Int64) :
    isOver cfg now (candidate sha g) = isOld cfg now g := by
  unfold isOver isOld candidate
  rw [← decide_not]
  exact decide_eq_decide.mpr Int64.not_lt

private theorem Db.mem_pendingChunks {digest : Bytes} {size since : Int64} :
    (digest, size, since) ∈ db.pendingChunks ↔ ∃ c ∈ db.chunk, c.digest = digest ∧
      c.rawSize = size ∧ c.state = .pendingDelete ∧ c.pendingAt = some since := by
  rw [Db.pendingChunks, List.mem_filterMap]
  constructor
  · rintro ⟨c, hc, hcandidate⟩
    split at hcandidate
    · rename_i hstate
      obtain ⟨marked, hmarked, hpair⟩ := Option.map_eq_some_iff.mp hcandidate
      cases hpair
      exact ⟨c, hc, rfl, rfl, hstate, hmarked⟩
    · cases hcandidate
  · rintro ⟨c, hc, rfl, rfl, hstate, hmarked⟩
    exact ⟨c, hc, by rw [if_pos hstate, hmarked]; rfl⟩

theorem Stores.pendingChunks (h : Stores sha contents d s) (hsha : sha.NoCollision contents) :
    ∃ garbage : List (Bytes × Int64), garbage.Perm d.garbage ∧
      s.db.pendingChunks = garbage.map (candidate sha) := by
  have hrange : ∀ c ∈ s.db.pendingChunks, c ∈ Set.range
      fun g : { g : Bytes × Int64 // g.1 ∈ contents } => candidate sha g.1 := by
    rintro ⟨digest, size, since⟩ hc
    obtain ⟨row, hrow, hdigest, hsize, -⟩ := Db.mem_pendingChunks.mp hc
    obtain ⟨data, hdata, hdata', hlength, -⟩ := h.sizes row hrow
    refine ⟨⟨(data, since), hdata⟩, ?_⟩
    dsimp only [candidate]
    rw [← hdata', hdigest, ← hlength, hsize]
  have hpending : s.db.pendingChunks ∈ Set.range
      (List.map fun g : { g : Bytes × Int64 // g.1 ∈ contents } => candidate sha g.1) := by
    rw [Set.range_list_map]
    exact hrange
  obtain ⟨known, hknown⟩ := hpending
  have hgarbage : s.db.pendingChunks = (known.map Subtype.val).map (candidate sha) := by
    rw [List.map_map]
    exact hknown.symm
  refine ⟨known.map Subtype.val, (List.perm_ext_iff_of_nodup ?_ ?_).mpr ?_, hgarbage⟩
  · apply List.Nodup.of_map (candidate sha)
    rw [← hgarbage, Db.pendingChunks]
    have hkeys := List.pairwise_map.mp h.inv.rows.chunkKeys
    refine List.Pairwise.filterMap _ ?_ hkeys
    intro c c' hne b hb b' hb'
    split at hb
    · split at hb'
      · obtain ⟨t, -, rfl⟩ := Option.map_eq_some_iff.mp hb
        obtain ⟨t', -, rfl⟩ := Option.map_eq_some_iff.mp hb'
        intro hsame
        exact hne (congrArg Prod.fst hsame)
      · cases hb'
    · cases hb
  · exact List.Nodup.of_map _ h.garbageKeys
  · rintro ⟨data, since⟩
    rw [h.garbage]
    constructor
    · intro hmem
      obtain ⟨⟨g, hg⟩, -, rfl⟩ := List.mem_map.mp hmem
      refine ⟨hg, ?_⟩
      have hcandidate : candidate sha (data, since) ∈ s.db.pendingChunks := by
        rw [hgarbage]
        exact List.mem_map_of_mem hmem
      obtain ⟨c, hc, hdigest, -, hstate, hsince⟩ := Db.mem_pendingChunks.mp hcandidate
      exact ⟨c, hc, hdigest, hstate, hsince⟩
    · rintro ⟨hdata, c, hc, hdigest, hstate, hsince⟩
      have hcandidate := Db.mem_pendingChunks.mpr ⟨c, hc, rfl, rfl, hstate, hsince⟩
      rw [hgarbage] at hcandidate
      obtain ⟨g, hg, heq⟩ := List.mem_map.mp hcandidate
      obtain ⟨⟨g', hg'⟩, -, rfl⟩ := List.mem_map.mp hg
      have hsame : g'.1 = data := by
        apply hsha.eq_of_hex hg' hdata
        exact (congrArg Prod.fst heq).trans hdigest
      have hsince' : g'.2 = since := congrArg (fun x => x.2.2) heq
      rwa [← hsame, ← hsince']

private theorem GcReport.count_bytes (sha : Sha256) (report : GcReport)
    (garbage : List (Bytes × Int64)) :
    ((garbage.map (candidate sha)).foldl count report).deletedBytes =
      report.deletedBytes + Int64.ofNat (garbage.map (·.1.length)).sum := by
  induction garbage generalizing report with
  | nil => exact (Int64.add_zero _).symm
  | cons g rest ih =>
    rw [List.map_cons, List.foldl_cons, ih, List.map_cons, List.sum_cons, Int64.ofNat_add,
      ← Int64.add_assoc]
    rfl

private theorem Stores.remove (h : Stores sha contents d s) (hsha : sha.NoCollision contents)
    {p : Bytes × Int64 → Bool} {digests : List Bytes}
    (hdigests : ∀ digest, digest ∈ digests ↔ ∃ g ∈ d.garbage, p g = true ∧ sha.hex g.1 = digest)
    (hinv : StoreInv sha contents ∅ s') (htmp : s'.tmp = s.tmp)
    (hdb : s'.db = { s.db with
      chunk := Table.delete (fun c => digests.contains c.digest) s.db.chunk }) :
    Stores sha contents { d with garbage := d.garbage.filter fun g => !p g } s' := by
  have hholds : Holds sha contents { d with garbage := d.garbage.filter fun g => !p g } s'.db := by
    rw [hdb]
    exact ⟨h.holds.sessions, h.holds.parts, h.holds.known, h.holds.chunkSizes, h.holds.closed,
      h.holds.artifacts, h.holds.manifests, h.holds.owned, h.holds.issued⟩
  have hchunk {c : ChunkRow} : c ∈ s'.db.chunk ↔ c ∈ s.db.chunk ∧ c.digest ∉ digests := by
    rw [hdb, Table.mem_delete, List.contains_eq_mem, decide_eq_false_iff_not]
  refine ⟨hholds, hinv, htmp.trans h.tmp, ?_, ?_, ?_⟩
  · intro c hc
    exact h.sizes c (hchunk.mp hc).1
  · intro data since
    rw [List.mem_filter, h.garbage, Bool.not_eq_true']
    constructor
    · rintro ⟨⟨hdata, c, hc, hdigest, hstate, hsince⟩, hkept⟩
      refine ⟨hdata, c, hchunk.mpr ⟨hc, ?_⟩, hdigest, hstate, hsince⟩
      intro hmem
      obtain ⟨g, hg, hpg, hhex⟩ := (hdigests _).mp hmem
      have hgdata := ((h.garbage g.1 g.2).mp hg).1
      have hsame := hsha.eq_of_hex hgdata hdata (hhex.trans hdigest)
      have hgarbage := (h.garbage data since).mpr ⟨hdata, c, hc, hdigest, hstate, hsince⟩
      rw [Table.eq_of_key h.garbageKeys hg hgarbage hsame, hkept] at hpg
      cases hpg
    · rintro ⟨hdata, c, hc, hdigest, hstate, hsince⟩
      obtain ⟨hc, hnot⟩ := hchunk.mp hc
      have hgarbage := (h.garbage data since).mpr ⟨hdata, c, hc, hdigest, hstate, hsince⟩
      refine ⟨⟨hdata, c, hc, hdigest, hstate, hsince⟩, ?_⟩
      apply Bool.eq_false_iff.mpr
      intro hpg
      exact hnot ((hdigests _).mpr ⟨_, hgarbage, hpg, hdigest.symm⟩)
  · exact h.garbageKeys.sublist (List.filter_sublist.map _)

theorem collectGarbage_matches (h : Stores sha contents d s) (hsha : sha.NoCollision contents)
    (cfg : StorageConfig) (env : CallEnv) (dryRun : Bool) :
    Matches sha contents ((collectGarbage cfg env dryRun).run s) (d.collect cfg env dryRun) := by
  have hinv : KeepsInv sha contents (collectGarbage cfg env dryRun) s :=
    .of_wp (collectGarbage_wp (.undisturbed s) h.good) fun _ _ hgood => hgood.inv
  obtain ⟨garbage, hperm, hpending⟩ := h.pendingChunks hsha
  have hfree := h.inv.pendingChunks_free
  have hfilter : (garbage.map (candidate sha)).filter (isOver cfg env.now) =
      (garbage.filter (isOld cfg env.now)).map (candidate sha) := by
    rw [List.filter_map]
    congr 1
    apply List.filter_congr
    intro g _
    exact isOver_candidate cfg env.now g
  have hrun : (collectCandidates cfg env dryRun s.db.pendingChunks _).run s = _ :=
    collectCandidates_run sha dryRun ⟨Int64.ofNat s.db.pendingChunks.length, 0, 0⟩
      (fun c hc => (hfree c hc).1) (fun c hc => (hfree c hc).2)
  unfold KeepsInv at hinv
  unfold collectGarbage at hinv ⊢
  unfold Depot.collect
  rw [run_bind, run_select] at hinv ⊢
  dsimp only at hinv ⊢
  rw [hrun, hpending, hfilter] at hinv ⊢
  obtain ⟨hscanned, hcount⟩ := GcReport.count_all
    ⟨Int64.ofNat (garbage.map (candidate sha)).length, 0, 0⟩
    ((garbage.filter (isOld cfg env.now)).map (candidate sha))
  have hbytes := GcReport.count_bytes sha
    ⟨Int64.ofNat (garbage.map (candidate sha)).length, 0, 0⟩ (garbage.filter (isOld cfg env.now))
  have hold := hperm.filter (isOld cfg env.now)
  constructor
  · have hreport : ((garbage.filter (isOld cfg env.now)).map (candidate sha)).foldl GcReport.count
        ⟨Int64.ofNat (garbage.map (candidate sha)).length, 0, 0⟩ =
        ⟨Int64.ofNat d.garbage.length, Int64.ofNat (d.garbage.filter (isOld cfg env.now)).length,
          Int64.ofNat ((d.garbage.filter (isOld cfg env.now)).map (·.1.length)).sum⟩ := by
      generalize ((garbage.filter (isOld cfg env.now)).map (candidate sha)).foldl GcReport.count
        ⟨Int64.ofNat (garbage.map (candidate sha)).length, 0, 0⟩ = report
        at hscanned hcount hbytes ⊢
      obtain ⟨scanned, deletedCount, deletedBytes⟩ := report
      dsimp only at hscanned hcount hbytes
      rw [hscanned, hcount, hbytes, List.length_map, List.length_map, hperm.length_eq,
        hold.length_eq, (hold.map fun g => g.1.length).sum_eq]
      rw [Int64.zero_add, Int64.zero_add]
    exact congrArg Except.ok hreport
  · cases dryRun with
    | true => exact h
    | false =>
      dsimp only at hinv ⊢
      rw [if_neg Bool.false_ne_true, Store.removeChunk_all] at hinv ⊢
      rw [if_neg Bool.false_ne_true]
      refine h.remove hsha ?_ hinv rfl rfl
      intro digest
      rw [List.map_map, List.mem_map]
      constructor
      · rintro ⟨g, hg, rfl⟩
        obtain ⟨hg, hpg⟩ := List.mem_filter.mp hg
        exact ⟨g, hperm.mem_iff.mp hg, hpg, rfl⟩
      · rintro ⟨g, hg, hpg, rfl⟩
        exact ⟨g, List.mem_filter.mpr ⟨hperm.mem_iff.mpr hg, hpg⟩, rfl⟩

@[simp] theorem Upload.maintain_id (now : Int64) (u : Upload) :
    (u.maintain now).session.id = u.session.id := by
  unfold Upload.maintain
  split
  · rfl
  split <;> rfl

private theorem Upload.maintain_chunkSize (now : Int64) (u : Upload) :
    (u.maintain now).session.chunkSize = u.session.chunkSize := by
  unfold Upload.maintain
  split
  · rfl
  split <;> rfl

private theorem Holds.maintained_sessions (h : Holds sha contents d db) (now : Int64) :
    (db.maintained now).uploadSession = (d.uploads.map (Upload.maintain now)).map (·.session) := by
  simp only [Db.maintained, Db.setSessionState, Table.update, h.sessions, List.map_map]
  apply List.map_congr_left
  intro u _
  simp only [Function.comp_apply, Upload.maintain]
  by_cases hdue : isOverdue now u.session = true
  · rw [if_pos hdue, if_pos hdue]
    rfl
  · rw [if_neg hdue, if_neg hdue]
    by_cases hcommit : isCommitting u.session = true
    · rw [if_pos hcommit, if_pos hcommit]
      rfl
    · rw [if_neg hcommit, if_neg hcommit]

private theorem Holds.maintain_closed (h : Holds sha contents d db) (now : Int64) {u : Upload}
    (hu : u ∈ d.uploads) (hover : (u.maintain now).session.state = .expired ∨
      (u.maintain now).session.state = .aborted) : (u.maintain now).parts = [] := by
  unfold Upload.maintain at hover ⊢
  split
  · rfl
  rename_i hdue
  rw [if_neg hdue] at hover
  split
  · rename_i hcommit
    rw [if_pos hcommit] at hover
    rcases hover with hover | hover <;> cases hover
  · rename_i hcommit
    rw [if_neg hcommit] at hover
    exact h.closed u hu hover

private theorem Upload.maintain_parts (now : Int64) (u : Upload)
    (hlive : ¬((u.maintain now).session.state = .expired ∨
      (u.maintain now).session.state = .aborted)) : (u.maintain now).parts = u.parts := by
  unfold Upload.maintain at hlive ⊢
  split
  · rename_i hdue
    rw [if_pos hdue] at hlive
    exact absurd (.inl rfl) hlive
  split <;> rfl

private theorem Holds.terminal_iff (h : Holds sha contents d db) (hrows : RowsInv sha contents db)
    (now : Int64) {u : Upload} (hu : u ∈ d.uploads) :
    u.session.id ∈ (db.maintained now).terminalSessions ↔
      (u.maintain now).session.state = .expired ∨ (u.maintain now).session.state = .aborted := by
  have hkeys : (d.uploads.map fun u => u.session.id).Nodup := by
    have hnodup := hrows.sessionKeys
    rwa [h.sessions, List.map_map] at hnodup
  simp only [Db.terminalSessions, List.mem_map, List.mem_filter, h.maintained_sessions,
    Bool.or_eq_true, beq_iff_eq]
  constructor
  · rintro ⟨_, ⟨⟨_, ⟨u', hu', rfl⟩, rfl⟩, hstate⟩, hid⟩
    rw [Upload.maintain_id] at hid
    rwa [Table.eq_of_key hkeys hu' hu hid] at hstate
  · intro hstate
    exact ⟨_, ⟨⟨_, ⟨u, hu, rfl⟩, rfl⟩, hstate⟩, u.maintain_id now⟩

theorem Holds.maintain (h : Holds sha contents d s.db) (hrows : RowsInv sha contents s.db)
    (now : Int64) (chunk : List ChunkRow) :
    Holds sha contents { d with uploads := d.uploads.map (Upload.maintain now) }
      (s.maintained now chunk).db := by
  have hmap {P : Upload → Prop} (hP : ∀ u ∈ d.uploads, P (u.maintain now)) :
      ∀ u ∈ d.uploads.map (Upload.maintain now), P u := by
    intro u' hu'
    obtain ⟨u, hu, rfl⟩ := List.mem_map.mp hu'
    exact hP u hu
  refine ⟨h.maintained_sessions now, hmap ?_, hmap ?_, hmap ?_, hmap ?_, h.artifacts,
    h.manifests, h.owned, h.issued⟩
  · intro u hu
    have hfilter : (s.maintained now chunk).db.uploadPart.filter
        (·.sessionId == u.session.id) = if u.session.id ∈ (s.db.maintained now).terminalSessions
          then [] else s.db.uploadPart.filter (·.sessionId == u.session.id) := by
      simp only [Store.maintained, Table.delete, List.filter_filter]
      split
      · rename_i hterminal
        apply List.filter_eq_nil_iff.mpr
        intro p _
        by_cases hid : p.sessionId = u.session.id <;> simp [hid, hterminal]
      · rename_i hlive
        apply List.filter_congr
        intro p _
        by_cases hid : p.sessionId = u.session.id <;> simp [hid, hlive]
    rw [Upload.maintain_id, hfilter]
    split
    · rename_i hterminal
      rw [h.maintain_closed now hu ((h.terminal_iff hrows now hu).mp hterminal)]
      rfl
    · rename_i hlive
      rw [u.maintain_parts now (mt (h.terminal_iff hrows now hu).mpr hlive)]
      exact h.parts u hu
  · intro u hu p hp
    by_cases hover : (u.maintain now).session.state = .expired ∨
        (u.maintain now).session.state = .aborted
    · rw [h.maintain_closed now hu hover] at hp
      cases hp
    · rw [u.maintain_parts now hover] at hp
      exact h.known u hu p hp
  · intro u hu
    rw [u.maintain_chunkSize]
    exact h.chunkSizes u hu
  · intro u hu
    exact h.maintain_closed now hu

private theorem Db.countSessions_committing (db : Db) (now : Int64) :
    (db.setSessionState (isOverdue now) .expired).countSessions isCommitting =
      db.countSessions isCommitting := by
  rw [Db.countSessions, Db.setSessionState, Table.update, List.countP_map, Db.countSessions]
  apply List.countP_congr
  intro r _
  by_cases hdue : isOverdue now r = true
  · have hopen : r.state = .open := by
      rw [isOverdue, Bool.and_eq_true, beq_iff_eq] at hdue
      exact hdue.1
    simp [hdue, isCommitting, hopen]
  · simp [hdue]

theorem Holds.countSessions (h : Holds sha contents d db) (cond : SessionInfo → Bool) :
    db.countSessions cond = d.uploads.countP (cond ·.session) := by
  rw [Db.countSessions, h.sessions, List.countP_map]
  rfl

theorem runMaintenance_matches (h : Stores sha contents d s) (hsha : sha.NoCollision contents)
    (env : CallEnv) : Matches sha contents ((runMaintenance env).run s) (d.maintain env) := by
  have hinv : KeepsInv sha contents (runMaintenance env) s :=
    .of_wp (runMaintenance_wp (.undisturbed s) h.good) fun _ _ hgood => hgood.1.inv
  unfold KeepsInv at hinv
  obtain ⟨chunk, hrun, hmarks⟩ := runMaintenance_marks env s
  have htmp : (s.maintained env.now chunk).tmp = [] := by
    rw [Store.maintained, h.tmp]
    rfl
  rw [hrun] at hinv ⊢
  refine ⟨?_, h.settle hsha (h.holds.maintain h.inv.rows env.now chunk) hinv htmp hmarks.tended⟩
  rw [h.tmp, Db.countSessions_committing, h.holds.countSessions, h.holds.countSessions]
  rfl

theorem openStorage_matches (h : Stores sha contents d s) (hsha : sha.NoCollision contents)
    (cfg : StorageConfig) (env : CallEnv) :
    Matches sha contents ((openStorage cfg env).run s) (d.open cfg env) := by
  unfold openStorage Depot.open
  rw [run_bind]
  cases hcfg : checkConfig cfg with
  | error e => exact ⟨rfl, h⟩
  | ok u =>
    have hmaintained := (runMaintenance_matches h hsha env).stores
    obtain ⟨chunk, hrun, -⟩ := runMaintenance_marks env s
    rw [hrun] at hmaintained
    have hend : ((do let _ ← runMaintenance env) : StorageM Unit).run s =
        (.ok (), s.maintained env.now chunk) := by
      rw [run_bind, hrun]
      rfl
    change Matches sha contents (((do let _ ← runMaintenance env) : StorageM Unit).run s) _
    rw [hend]
    exact ⟨rfl, hmaintained⟩

theorem showArtifact_matches (h : Stores sha contents d s) (ns name version : Bytes) :
    Matches sha contents ((showArtifact ns name version).run s)
      (d.show sha ns name version, d) := by
  unfold Depot.show
  cases hr : d.release? ns name version with
  | none =>
    rw [showArtifact, run_bind, run_select, h.holds.artifact?_none hr]
    exact h.refuse _ rfl
  | some r =>
    rw [showArtifact_run (h.holds.artifact?_some hr),
      (h.holds.manifests r (Depot.release?_some hr).1).manifest]
    exact ⟨rfl, h⟩

theorem readArtifact_matches (h : Stores sha contents d s) (hsha : sha.NoCollision contents)
    (ns name version : Bytes) (offset length : UInt64) :
    Matches sha contents ((readArtifact ns name version offset length).run s)
      (d.read ns name version offset length, d) := by
  unfold Depot.read
  cases hr : d.release? ns name version with
  | none =>
    rw [readArtifact, run_bind, showArtifact, run_bind, run_select, h.holds.artifact?_none hr]
    exact h.refuse _ rfl
  | some r =>
    have hfound := h.holds.artifact?_some hr
    dsimp only
    split
    · rename_i hbeyond
      rw [readArtifact, run_bind, showArtifact_run hfound]
      dsimp only
      rw [ArtifactRow.info_size, if_pos hbeyond]
      exact h.refuse _ rfl
    · rename_i hinside
      rw [(h.inv.laidOut hsha (h.holds.manifests r (Depot.release?_some hr).1)).readArtifact_run
        hfound (UInt64.not_lt.mp hinside)]
      exact ⟨rfl, h⟩

theorem readArtifactSlice_matches (h : Stores sha contents d s) (hsha : sha.NoCollision contents)
    (ns name version : Bytes) (offset maxLen : UInt64) :
    Matches sha contents
      (((readArtifactSlice ns name version offset maxLen).run s).map
        (Except.map fun (pieces, sent) => (pieces.flatten, sent.toNat)) id)
      ((d.read ns name version offset maxLen).map fun data => (data, data.length), d) := by
  unfold Depot.read
  cases hr : d.release? ns name version with
  | none =>
    rw [readArtifactSlice, run_bind, showArtifact, run_bind, run_select, h.holds.artifact?_none hr]
    exact h.refuse _ rfl
  | some r =>
    have hfound := h.holds.artifact?_some hr
    dsimp only
    split
    · rename_i hbeyond
      rw [readArtifactSlice, run_bind, showArtifact_run hfound]
      dsimp only
      rw [ArtifactRow.info_size, if_pos hbeyond]
      exact h.refuse _ rfl
    · rename_i hinside
      obtain ⟨pieces, sent, hslice, hpieces, hsent, -⟩ :=
        (h.inv.laidOut hsha
          (h.holds.manifests r (Depot.release?_some hr).1)).readArtifactSlice_run
          hfound (UInt64.not_lt.mp hinside) maxLen
      rw [hslice, ← hpieces]
      refine ⟨?_, h⟩
      dsimp only [Prod.map, Except.map, Except.mapError]
      rw [hsent]

theorem listArtifacts_matches (h : Stores sha contents d s) (ns name : Option Bytes)
    (limit offset : Int64) :
    Matches sha contents ((listArtifacts ns name limit offset).run s)
      (d.list ns name limit offset, d) := by
  unfold listArtifacts Depot.list
  split
  · exact h.refuse _ rfl
  · rw [run_bind, run_select, Db.listArtifacts, h.holds.artifacts]
    exact ⟨rfl, h⟩

theorem listSessions_matches (h : Stores sha contents d s) (state : Option SessionState) :
    Matches sha contents ((listSessions state).run s) (.ok (d.sessions state), d) := by
  rw [listSessions, run_select, Db.listSessions, h.holds.sessions]
  exact ⟨rfl, h⟩

theorem usedBytes_matches (h : Stores sha contents d s) (hsha : sha.NoCollision contents) :
    Matches sha contents (usedBytes.run s) (d.usedBytes, d) := by
  have hsum := h.sumActive hsha
  unfold Depot.usedBytes usedBytes
  rw [run_bind]
  by_cases hused : d.used < 2^63
  · rw [if_pos hused] at hsum
    rw [if_neg (not_le.mpr hused), run_stmt (by rw [hsum]; rfl)]
    exact ⟨rfl, h⟩
  · rw [if_neg hused] at hsum
    rw [if_pos (not_lt.mp hused), stmt, run_lift, hsum]
    exact h.refuse _ rfl

theorem artifactCount_matches (h : Stores sha contents d s) :
    Matches sha contents (artifactCount.run s) (.ok (Int64.ofNat d.releases.length), d) := by
  rw [artifactCount, run_select, h.holds.artifacts, List.length_map]
  exact ⟨rfl, h⟩

theorem sessionProgress_matches (h : Stores sha contents d s) (id : Bytes) :
    Matches sha contents ((sessionProgress id).run s) (d.progress id, d) := by
  unfold Depot.progress sessionProgress
  cases hu : d.upload? id with
  | none =>
    rw [run_bind, h.loadSession_none hu]
    exact h.refuse _ rfl
  | some u =>
    rw [run_bind, h.loadSession_some hu]
    dsimp only
    rw [run_bind, run_select, h.holds.partsByOrdinal hu]
    refine ⟨?_, h⟩
    dsimp only [run_pure, Except.mapError]
    rw [List.map_map]
    rfl

end ForgeRelay
