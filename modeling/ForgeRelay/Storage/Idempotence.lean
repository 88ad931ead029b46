import ForgeRelay.Storage.Recovery
import ForgeRelay.Storage.Uploading

/-!
# Running the maintenance twice

What a maintenance leaves behind is settled: there is nothing that another one at the same time
would do. The exception is a session that is rolled back to OPEN when it is due already, since the
rollback comes after the expiry.
-/

namespace ForgeRelay

open Program Prog

variable {s : Store}

/-- The name is that of a temporary file. -/
def isTempName (name : Bytes) : Bool := (ascii "frtmp-").isPrefixOf name

private theorem unlinkTempFiles_run (names : List Bytes) (s : Store) :
    (unlinkTempFiles names).run s = (.ok (names.countP isTempName),
      { s with tmp := Table.delete (fun f => decide (f.1 ∈ names) && isTempName f.1) s.tmp }) := by
  induction names generalizing s with
  | nil =>
    have hnone : Table.delete (fun f : Bytes × Bytes => decide (f.1 ∈ ([] : List Bytes)) &&
        isTempName f.1) s.tmp = s.tmp := Table.delete_of_none fun f _ => by simp
    rw [hnone]
    rfl
  | cons name rest ih =>
    rw [unlinkTempFiles, run_bind]
    by_cases htemp : isTempName name = true
    · have hprefix : (ascii "frtmp-").isPrefixOf name = true := htemp
      rw [if_pos hprefix, run_tryCatch, run_bind, tmpFileUnlink, run_fileStep]
      dsimp only [run_pure]
      rw [run_bind, ih]
      dsimp only [run_pure]
      refine Prod.ext (congrArg Except.ok ?_) (congrArg (fun tmp => { s with tmp := tmp }) ?_)
      · rw [List.countP_cons_of_pos htemp, Nat.add_comm]
      · rw [Table.delete, Table.delete, Table.delete, List.filter_filter]
        refine List.filter_congr fun f _ => ?_
        by_cases hname : f.1 = name <;> simp [hname, htemp]
    · have hprefix : ¬ (ascii "frtmp-").isPrefixOf name = true := htemp
      rw [if_neg hprefix, run_pure]
      dsimp only
      rw [run_bind, ih]
      dsimp only [run_pure]
      refine Prod.ext (congrArg Except.ok ?_) (congrArg (fun tmp => { s with tmp := tmp }) ?_)
      · rw [List.countP_cons_of_neg htemp, Nat.zero_add]
      · refine congrArg (Table.delete · s.tmp) (funext fun f => ?_)
        by_cases hname : f.1 = name <;> simp [hname, htemp]

theorem cleanupTempFiles_run (s : Store) :
    cleanupTempFiles.run s = (.ok ((s.tmp.map (·.1)).countP isTempName),
      { s with tmp := Table.delete (fun f => isTempName f.1) s.tmp }) := by
  rw [cleanupTempFiles, run_bind, run_fileStep]
  dsimp only
  rw [unlinkTempFiles_run]
  refine Prod.ext rfl (congrArg (fun tmp => { s with tmp := tmp }) ?_)
  rw [Table.delete, Table.delete]
  refine List.filter_congr fun f hf => ?_
  rw [decide_eq_true (List.mem_map_of_mem hf), Bool.true_and]

theorem chunkReferenced_run (digest : Bytes) (s : Store) :
    ∃ b, (chunkReferenced digest).run s = (.ok b, s) := by
  rw [chunkReferenced, run_bind, run_select]
  dsimp only
  split
  · exact ⟨_, rfl⟩
  · exact ⟨_, run_select _⟩

/-- Some of the active rows are marked. -/
def Marks (now : Int64) (rows rows' : List ChunkRow) : Prop :=
  ∃ p : ChunkRow → Bool, (∀ c, p c = true → c.state = .active) ∧
    rows' = Table.update p (ChunkRow.mark now) rows

theorem Marks.refl (now : Int64) (rows : List ChunkRow) : Marks now rows rows := by
  refine ⟨fun _ => false, ?_, ?_⟩
  · intro c h
    cases h
  · rw [Table.update_of_none fun _ _ => rfl]

theorem Marks.markPending (now : Int64) (digest : Bytes) (db : Db) :
    Marks now db.chunk (db.markPending now digest).chunk := by
  refine ⟨ChunkRow.isActive digest, fun c h => ?_, rfl⟩
  rw [ChunkRow.isActive, Bool.and_eq_true, beq_iff_eq, beq_iff_eq] at h
  exact h.2

theorem update_mark_twice {now : Int64} {p q : ChunkRow → Bool}
    (hq : ∀ c, q c = true → c.state = .active) (rows : List ChunkRow) :
    Table.update q (ChunkRow.mark now) (Table.update p (ChunkRow.mark now) rows) =
      Table.update (fun c => p c || q c) (ChunkRow.mark now) rows := by
  rw [Table.update, Table.update, Table.update, List.map_map]
  apply List.map_congr_left
  intro c _
  have hmarked : q (c.mark now) = false := by
    apply Bool.eq_false_iff.mpr
    intro h
    cases hq _ h
  by_cases hp : p c = true
  · simp [hp, hmarked]
  · simp [hp]

theorem Marks.trans {now : Int64} {rows rows' rows'' : List ChunkRow} (h : Marks now rows rows')
    (h' : Marks now rows' rows'') : Marks now rows rows'' := by
  obtain ⟨p, hp, rfl⟩ := h
  obtain ⟨q, hq, rfl⟩ := h'
  refine ⟨fun c => p c || q c, fun c hc => ?_, update_mark_twice hq rows⟩
  rcases Bool.or_eq_true_iff.mp hc with hc | hc
  · exact hp c hc
  · exact hq c hc

private theorem markAllUnreferenced_run_marks (now : Int64) (digests : List Bytes) (s : Store) :
    ∃ chunk, (markAllUnreferenced now digests).run s =
      (.ok (), { s with db := { s.db with chunk := chunk } }) ∧ Marks now s.db.chunk chunk := by
  induction digests generalizing s with
  | nil => exact ⟨_, rfl, .refl _ _⟩
  | cons digest rest ih =>
    obtain ⟨b, hb⟩ := chunkReferenced_run digest s
    rw [markAllUnreferenced, run_bind, run_labelled, markIfUnreferenced, run_bind, hb]
    cases b with
    | true => exact ih s
    | false =>
      dsimp only
      rw [if_neg Bool.false_ne_true, run_exec]
      obtain ⟨chunk, hrun, hmarks⟩ := ih { s with db := s.db.markPending now digest }
      exact ⟨chunk, hrun, (Marks.markPending now digest s.db).trans hmarks⟩

theorem markUnreferencedParts_marks (id : Bytes) (now : Int64) (s : Store) :
    ∃ chunk, (markUnreferencedParts id now).run s =
      (.ok (), { s with db := { s.db.deleteParts id with chunk := chunk } }) ∧
        Marks now s.db.chunk chunk := by
  rw [markUnreferencedParts, run_bind, run_select]
  dsimp only
  rw [run_bind, run_exec]
  exact markAllUnreferenced_run_marks now (s.db.partDigests id) { s with db := s.db.deleteParts id }

private theorem releaseParts_marks (ids : List Bytes) (now : Int64) (s : Store) :
    ∃ chunk, (ids.forM fun id => markUnreferencedParts id now).run s =
      (.ok (), { s with db := { s.db with
        uploadPart := Table.delete (fun p => ids.contains p.sessionId) s.db.uploadPart
        chunk := chunk } }) ∧ Marks now s.db.chunk chunk := by
  induction ids generalizing s with
  | nil =>
    have hnone : Table.delete (fun p : PartRow => ([] : List Bytes).contains p.sessionId)
        s.db.uploadPart = s.db.uploadPart := Table.delete_of_none fun p _ => by simp
    exact ⟨s.db.chunk, by rw [hnone]; rfl, .refl _ _⟩
  | cons id rest ih =>
    obtain ⟨chunk, hfirst, hmarks⟩ := markUnreferencedParts_marks id now s
    obtain ⟨chunk', hrest, hmarks'⟩ :=
      ih { s with db := { s.db.deleteParts id with chunk := chunk } }
    refine ⟨chunk', ?_, hmarks.trans hmarks'⟩
    rw [run_forM_cons, hfirst]
    dsimp only
    rw [hrest]
    refine congrArg (fun parts => (Except.ok (), { s with db := { s.db with
      uploadPart := parts, chunk := chunk' } })) ?_
    rw [Db.deleteParts, Table.delete, Table.delete, Table.delete, List.filter_filter]
    refine List.filter_congr fun p _ => ?_
    by_cases hid : p.sessionId = id <;> simp [hid]

/-- The sessions behind the expiry and the rollback. -/
def Db.maintained (db : Db) (now : Int64) : Db :=
  (db.setSessionState (isOverdue now) .expired).setSessionState isCommitting .open

/-- The store behind the maintenance, with whatever it has made of the chunks. -/
def Store.maintained (s : Store) (now : Int64) (chunk : List ChunkRow) : Store where
  files := s.files
  tmp := Table.delete (fun f => isTempName f.1) s.tmp
  db := { s.db.maintained now with
    uploadPart := Table.delete
      (fun p => (s.db.maintained now).terminalSessions.contains p.sessionId) s.db.uploadPart
    chunk := chunk }
  changes := (s.db.setSessionState (isOverdue now) .expired).countSessions isCommitting

theorem runMaintenance_marks (env : CallEnv) (s : Store) :
    ∃ chunk, (runMaintenance env).run s =
      (.ok ⟨(s.tmp.map (·.1)).countP isTempName, s.db.countSessions (isOverdue env.now),
          (s.db.setSessionState (isOverdue env.now) .expired).countSessions isCommitting⟩,
        s.maintained env.now chunk) ∧ Marks env.now s.db.chunk chunk := by
  obtain ⟨chunk, hrelease, hmarks⟩ := releaseParts_marks
    (s.db.maintained env.now).terminalSessions env.now
    { s with
      tmp := Table.delete (fun f => isTempName f.1) s.tmp
      db := s.db.maintained env.now
      changes := (s.db.setSessionState (isOverdue env.now) .expired).countSessions isCommitting }
  refine ⟨chunk, ?_, hmarks⟩
  rw [runMaintenance, run_bind, cleanupTempFiles_run]
  dsimp only
  rw [run_bind, run_labelled, run_updateSessions]
  dsimp only
  rw [run_bind, run_dbChanges]
  dsimp only
  rw [run_bind, run_updateSessions]
  dsimp only
  rw [run_bind, run_dbChanges]
  dsimp only
  rw [run_bind, run_select]
  dsimp only
  rw [run_bind]
  unfold Store.maintained Db.maintained Store.updateSessions
  unfold Db.maintained at hrelease
  rw [hrelease]
  rfl

private theorem runMaintenance_run (env : CallEnv) (s : Store) :
    ∃ chunk, (runMaintenance env).run s =
      (.ok ⟨(s.tmp.map (·.1)).countP isTempName, s.db.countSessions (isOverdue env.now),
          (s.db.setSessionState (isOverdue env.now) .expired).countSessions isCommitting⟩,
        s.maintained env.now chunk) := by
  obtain ⟨chunk, hrun, -⟩ := runMaintenance_marks env s
  exact ⟨chunk, hrun⟩

/-- There is nothing for a maintenance at this time to do. -/
structure Settled (now : Int64) (s : Store) : Prop where
  tmp : ∀ f ∈ s.tmp, isTempName f.1 = false
  notDue : ∀ r ∈ s.db.uploadSession, isOverdue now r = false
  notCommitting : ∀ r ∈ s.db.uploadSession, isCommitting r = false
  parts : ∀ p ∈ s.db.uploadPart, p.sessionId ∉ s.db.terminalSessions

theorem Db.countSessions_eq_zero {db : Db} {cond : SessionInfo → Bool} :
    db.countSessions cond = 0 ↔ ∀ r ∈ db.uploadSession, cond r = false := by
  rw [countSessions, List.countP_eq_zero]
  exact forall₂_congr fun r _ => Bool.eq_false_iff.symm

theorem Db.setSessionState_of_none {db : Db} {cond : SessionInfo → Bool} {state : SessionState}
    (h : ∀ r ∈ db.uploadSession, cond r = false) : db.setSessionState cond state = db := by
  rw [setSessionState, Table.update_of_none h]

private theorem Settled.runMaintenance_run {env : CallEnv} (h : Settled env.now s) :
    (runMaintenance env).run s = (.ok ⟨0, 0, 0⟩, { s with changes := 0 }) := by
  have hmaintained : s.db.maintained env.now = s.db := by
    rw [Db.maintained, Db.setSessionState_of_none h.notDue,
      Db.setSessionState_of_none h.notCommitting]
  have hnothing : ∀ (ids : List Bytes), (∀ p ∈ s.db.uploadPart, p.sessionId ∉ ids) →
      (ids.forM fun id => markUnreferencedParts id env.now).run { s with changes := 0 } =
        (.ok (), { s with changes := 0 }) := by
    intro ids hids
    induction ids with
    | nil => rfl
    | cons id rest ih =>
      have hnone : ∀ p ∈ s.db.uploadPart, (p.sessionId == id) = false := fun p hp =>
        beq_eq_false_iff_ne.mpr fun hid => hids p hp (hid ▸ List.mem_cons_self)
      have hdigests : s.db.partDigests id = [] := by
        rw [Db.partDigests, List.filter_eq_nil_iff.mpr fun p hp => by simp [hnone p hp],
          List.map_nil]
      have hparts : s.db.deleteParts id = s.db := by
        rw [Db.deleteParts, Table.delete_of_none hnone]
      rw [run_forM_cons, markUnreferencedParts, run_bind, run_select]
      dsimp only
      rw [run_bind, run_exec, hparts, hdigests]
      exact ih fun p hp hmem => hids p hp (List.mem_cons_of_mem _ hmem)
  have htmp : Table.delete (fun f => isTempName f.1) s.tmp = s.tmp := Table.delete_of_none h.tmp
  have hcount : (s.tmp.map (·.1)).countP isTempName = 0 := by
    rw [List.countP_eq_zero]
    intro name hname
    obtain ⟨f, hf, rfl⟩ := List.mem_map.mp hname
    rw [h.tmp f hf]
    exact Bool.false_ne_true
  rw [runMaintenance, run_bind, cleanupTempFiles_run, htmp]
  dsimp only
  rw [run_bind, run_labelled, run_updateSessions, Store.updateSessions,
    Db.countSessions_eq_zero.mpr h.notDue, Db.setSessionState_of_none h.notDue]
  dsimp only
  rw [run_bind, run_dbChanges]
  dsimp only
  rw [run_bind, run_updateSessions, Store.updateSessions]
  dsimp only
  rw [Db.countSessions_eq_zero.mpr h.notCommitting, Db.setSessionState_of_none h.notCommitting,
    run_bind, run_dbChanges]
  dsimp only
  rw [run_bind, run_select]
  dsimp only
  rw [run_bind, hnothing _ h.parts]
  exact Prod.ext (congrArg Except.ok (by rw [hcount])) rfl

/-- The session is COMMITTING, and due. -/
def isOverdueCommit (now : Int64) (r : SessionInfo) : Bool :=
  isCommitting r && decide (r.expiresAt ≤ now)

private theorem Db.mem_maintained {db : Db} {now : Int64} {r : SessionInfo} :
    r ∈ (db.maintained now).uploadSession ↔ ∃ r₀ ∈ db.uploadSession, r =
      if isOverdue now r₀ then { r₀ with state := .expired }
      else if isCommitting r₀ then { r₀ with state := .open } else r₀ := by
  simp only [maintained, setSessionState, Table.mem_update]
  constructor
  · rintro ⟨r₁, ⟨r₀, hr₀, rfl⟩, rfl⟩
    refine ⟨r₀, hr₀, ?_⟩
    by_cases hdue : isOverdue now r₀ = true
    · rw [if_pos hdue, if_pos hdue]
      rfl
    · rw [if_neg hdue, if_neg hdue]
  · rintro ⟨r₀, hr₀, rfl⟩
    refine ⟨_, ⟨r₀, hr₀, rfl⟩, ?_⟩
    by_cases hdue : isOverdue now r₀ = true
    · rw [if_pos hdue, if_pos hdue]
      rfl
    · rw [if_neg hdue, if_neg hdue]

private theorem Db.maintained_notDue {db : Db} {now : Int64}
    (h : ∀ r ∈ db.uploadSession, isOverdueCommit now r = false) :
    ∀ r ∈ (db.maintained now).uploadSession, isOverdue now r = false := by
  intro r hr
  obtain ⟨r₀, hr₀, rfl⟩ := mem_maintained.mp hr
  by_cases hdue : isOverdue now r₀ = true
  · rw [if_pos hdue]
    rfl
  rw [if_neg hdue]
  by_cases hcommit : isCommitting r₀ = true
  · rw [if_pos hcommit]
    have hlater := h r₀ hr₀
    rw [isOverdueCommit, hcommit, Bool.true_and] at hlater
    rw [isOverdue, hlater, Bool.and_false]
  · rw [if_neg hcommit]
    exact Bool.eq_false_iff.mpr hdue

private theorem Db.maintained_notCommitting {db : Db} {now : Int64} :
    ∀ r ∈ (db.maintained now).uploadSession, isCommitting r = false := by
  intro r hr
  obtain ⟨r₀, hr₀, rfl⟩ := mem_maintained.mp hr
  split
  · rfl
  split
  · rfl
  · exact Bool.eq_false_iff.mpr ‹_›

/-- A second maintenance at the same time finds nothing to do if and only if no session was
COMMITTING and due before the first. -/
theorem runMaintenance_idempotent_iff (env : CallEnv) (s : Store) :
    ∃ report₁ s₁ report₂ s₂, (runMaintenance env).run s = (.ok report₁, s₁) ∧
      (runMaintenance env).run s₁ = (.ok report₂, s₂) ∧
      (s₂.db = s₁.db ∧ s₂.tmp = s₁.tmp ∧ report₂.sessionsExpired = 0 ∧
          report₂.sessionsRolledBack = 0 ↔
        ∀ r ∈ s.db.uploadSession, r.state = .committing → env.now < r.expiresAt) := by
  obtain ⟨chunk, hfirst⟩ := runMaintenance_run env s
  obtain ⟨chunk', hsecond⟩ := runMaintenance_run env (s.maintained env.now chunk)
  refine ⟨_, _, _, _, hfirst, hsecond, fun ⟨_, _, hexpired, _⟩ r hr hstate => ?_, fun hlater => ?_⟩
  · by_contra hdue
    have hback : ({ r with state := SessionState.open } : SessionInfo) ∈
        (s.db.maintained env.now).uploadSession := by
      refine Db.mem_maintained.mpr ⟨r, hr, ?_⟩
      rw [if_neg (by simp [isOverdue, hstate]), if_pos (by simp [isCommitting, hstate])]
    have hopen := Db.countSessions_eq_zero.mp hexpired _ hback
    rw [isOverdue, decide_eq_true (Int64.not_lt.mp hdue)] at hopen
    cases hopen
  · have hsettled : Settled env.now (s.maintained env.now chunk) := by
      refine ⟨fun f hf => ?_, Db.maintained_notDue fun r hr => ?_, Db.maintained_notCommitting,
        fun p hp => ?_⟩
      · simpa using (Table.mem_delete.mp hf).2
      · rw [isOverdueCommit, Bool.and_eq_false_iff]
        by_cases hcommit : isCommitting r = true
        · have hstate : r.state = .committing := by simpa [isCommitting] using hcommit
          exact .inr (decide_eq_false (Int64.not_le.mpr (hlater r hr hstate)))
        · exact .inl (Bool.eq_false_iff.mpr hcommit)
      · have hleft : (s.db.maintained env.now).terminalSessions.contains p.sessionId = false :=
          (Table.mem_delete.mp hp).2
        rw [List.contains_eq_mem] at hleft
        exact of_decide_eq_false hleft
    have hsame := hsecond.symm.trans hsettled.runMaintenance_run
    obtain ⟨hreport, hstore⟩ := Prod.mk.inj hsame
    rw [hstore, Except.ok.inj hreport]
    exact ⟨rfl, rfl, rfl, rfl⟩

/-- The commit of the sample upload is stopped when its session is COMMITTING. -/
def sampleStranded : List Move :=
  sampleUpload ++
    [{ (Action.call (.commitSession (ascii "s1"))).at (sampleEnv 2) with stopAfter := some 2 }]

/-- When the session is due by then, it is rolled back by the first maintenance and expired by the
second. -/
theorem runMaintenance_not_idempotent :
    ¬ ∀ {sha : Sha256} {events : List Event} {sys : System} (env : CallEnv),
      Trace.Run (System.Step sha anywhere) .initial events sys →
      ∃ report₁ s₁ report₂ s₂, (runMaintenance env).run sys.store = (.ok report₁, s₁) ∧
        (runMaintenance env).run s₁ = (.ok report₂, s₂) ∧
        s₂.db = s₁.db ∧ s₂.tmp = s₁.tmp ∧ report₂.sessionsExpired = 0 ∧
          report₂.sessionsRolledBack = 0 := by
  intro hall
  have hrun : Trace.Run (System.Step sampleSha anywhere) .initial
      (played sampleSha sampleStranded).1 (played sampleSha sampleStranded).2 :=
    played_run (fun _ _ => .inr fun _ _ => trivial) (by decide +kernel)
  obtain ⟨report₁, s₁, report₂, s₂, hfirst, hsecond, -, -, hexpired, -⟩ :=
    hall (sampleEnv 86400) hrun
  have hreport : (((runMaintenance (sampleEnv 86400)).run ((runMaintenance (sampleEnv 86400)).run
      (played sampleSha sampleStranded).2.store).2).1.toOption.map (·.sessionsExpired)) =
      some 1 := by
    decide +kernel
  rw [hfirst, hsecond] at hreport
  rw [Except.toOption, Option.map_some, hexpired] at hreport
  cases hreport

end ForgeRelay
