import ForgeRelay.Lib.Faults
import ForgeRelay.Storage.Durability
import ForgeRelay.Storage.Steps

/-!
# The limit on the sessions of an owner

`create_session` compares the OPEN sessions of the owner with the limit. A COMMITTING session is
active too: it becomes OPEN again when the commit fails or when the storage is maintained.
-/

namespace ForgeRelay

open Program Prog

/-- The sessions of an owner that are OPEN or COMMITTING. -/
def Db.activeSessions (db : Db) (owner : Bytes) : Nat :=
  db.uploadSession.countP fun s => s.owner == owner && s.state.live

/-- No owner has more active sessions than allowed. -/
def KeepsLimit (cfg : StorageConfig) (s : Store) : Prop :=
  ∀ owner, s.db.activeSessions owner ≤ cfg.maxSessionsPerOwner.toNatClampNeg

private theorem Db.activeSessions_setSessionState {cond : SessionInfo → Bool} {state : SessionState}
    (hlive : NoRevival cond state) (db : Db) (owner : Bytes) :
    (db.setSessionState cond state).activeSessions owner ≤ db.activeSessions owner := by
  rw [activeSessions, setSessionState, Table.update, List.countP_map]
  refine List.countP_mono_left fun row _ hrow => ?_
  dsimp only [Function.comp_apply] at hrow
  by_cases hcond : cond row = true
  · rw [if_pos hcond, Bool.and_eq_true] at hrow
    rw [Bool.and_eq_true]
    exact ⟨hrow.1, hlive hrow.2 row hcond⟩
  · rwa [if_neg hcond] at hrow

private theorem Db.activeSessions_insertSession {db db' : Db} {row : SessionInfo}
    (h : db.insertSession row = .ok db') (owner : Bytes) :
    db'.activeSessions owner =
      db.activeSessions owner + if row.owner = owner ∧ row.state.live = true then 1 else 0 := by
  rw [insertSession_ok h, activeSessions, List.countP_append, activeSessions]
  refine congrArg (db.uploadSession.countP _ + ·) ?_
  by_cases hrow : row.owner = owner ∧ row.state.live = true
  · simp [hrow]
  · rw [if_neg hrow]
    simpa using hrow

/-- The sessions stay the same ones, and an owner gets no further active one. -/
def noneGained (owner : Bytes) (ids : List Bytes) : Bound Store Error where
  inv s := s.db.uploadSession.map (·.id) = ids
  rel s s' := s'.db.activeSessions owner ≤ s.db.activeSessions owner
  err _ := True
  refl _ := le_rfl
  trans h h' := h'.trans h

private theorem noneGained_of_sessions {owner : Bytes} {ids : List Bytes} {s s' : Store}
    (hs : (noneGained owner ids).inv s) (h : s'.db.uploadSession = s.db.uploadSession) :
    (noneGained owner ids).Step s s' := by
  refine ⟨le_of_eq ?_, ?_⟩
  · rw [Db.activeSessions, h, Db.activeSessions]
  · change s'.db.uploadSession.map (·.id) = ids
    rw [h]
    exact hs

private theorem noneGained_allows (now : Int64) (owner : Bytes) (ids : List Bytes) :
    Allows now (noneGained owner ids) (fun row => row.id ∈ ids) fun _ => True where
  fr _ _ _ := trivial
  reserve := trivial
  files hs hdb := noneGained_of_sessions hs (by rw [hdb])
  insertChunk hs _ _ := by
    refine noneGained_of_sessions hs ?_
    dsimp only
    unfold Db.insertChunkOrIgnore
    split <;> rfl
  reactivate hs := noneGained_of_sessions hs rfl
  markPending hs := noneGained_of_sessions hs rfl
  deleteChunk hs := noneGained_of_sessions hs rfl
  setSessionState {s cond state} hs hlive := by
    have hids : s.db.uploadSession.map (·.id) = ids := hs
    refine ⟨Db.activeSessions_setSessionState hlive s.db owner, ?_⟩
    exact (Table.map_update (f := fun row : SessionInfo => { row with state := state })
      (·.id) (fun _ => rfl) s.db.uploadSession).trans hids
  insertSession {s row db} hs hrow hdb := by
    exfalso
    rw [Db.insertSession, if_pos] at hdb
    · cases hdb
    · rw [← hs] at hrow
      obtain ⟨row', hmem, hid⟩ := List.mem_map.mp hrow
      exact List.any_eq_true.mpr ⟨row', hmem, beq_iff_eq.mpr hid⟩
  deleteParts hs := noneGained_of_sessions hs rfl
  insertPart hs _ _ hdb := noneGained_of_sessions hs (by rw [Db.insertPart_ok hdb])
  insertArtifact _ _ _ _ hs hdb := noneGained_of_sessions hs (by rw [(Db.insertArtifact_ok hdb).2])
  insertArtifactChunk hs _ hdb := noneGained_of_sessions hs (by rw [Db.insertArtifactChunk_ok hdb])
  removeArtifact hs := noneGained_of_sessions hs rfl
  sessions hs row hrow := hs ▸ List.mem_map_of_mem hrow
  parts _ _ _ := trivial
  dataLength _ _ _ := trivial

/-- Where a session is created for an owner below the limit by the OPEN sessions, the COMMITTING
ones do not exhaust it. -/
def CountsCommitting (cfg : StorageConfig) (s : Store) (e : Event) : Prop :=
  ∀ call owner, e.action = .call call → call.newOwner? = some owner →
    (s.db.countOpenSessions owner : Int) < cfg.maxSessionsPerOwner.toInt →
    (s.db.activeSessions owner : Int) < cfg.maxSessionsPerOwner.toInt

/-- The storage is opened with no other configuration. -/
def Event.UnderConfig (cfg : StorageConfig) (e : Event) : Prop :=
  ∀ cfg', e.action = .open cfg' → cfg' = cfg

section

variable {sha : Sha256} {interrupts : Label → Store → Prop} {cfg : StorageConfig} {env : CallEnv}
  {s s' : Store} {call : Call} {r : Option (Except Error Unit)}

private theorem activeSessions_of_others (hcall : call.newOwner? = none)
    (h : Exec interrupts (call.program sha cfg env) s r s') (owner : Bytes) :
    s'.db.activeSessions owner ≤ s.db.activeSessions owner :=
  (((noneGained_allows env.now owner _).others sha cfg env rfl hcall).exec h (fun _ => trivial)
    rfl).1

private theorem activeSessions_of_open (h : Exec interrupts (openStorage cfg env) s r s')
    (owner : Bytes) : s'.db.activeSessions owner ≤ s.db.activeSessions owner :=
  (((noneGained_allows env.now owner _).openStorage cfg env rfl).exec h (fun _ => trivial) rfl).1

/-- A call that creates a session has no effect, or the owner was below the limit by the OPEN
sessions and gets one more active one. -/
private theorem activeSessions_of_create {newOwner : Bytes} (hcall : call.newOwner? = some newOwner)
    (h : Exec interrupts (call.program sha cfg env) s r s') :
    s' = s ∨ ((s.db.countOpenSessions newOwner : Int) < cfg.maxSessionsPerOwner.toInt ∧
      ∀ owner, s'.db.activeSessions owner =
        s.db.activeSessions owner + if newOwner = owner then 1 else 0) := by
  cases call with
  | createSession ns name version size digest owner =>
    cases hcall
    let Created (s' : Store) : Prop :=
      s' = s ∨ ((s.db.countOpenSessions newOwner : Int) < cfg.maxSessionsPerOwner.toInt ∧
        ∀ owner, s'.db.activeSessions owner =
          s.db.activeSessions owner + if newOwner = owner then 1 else 0)
    refine (wp_everywhere (wp_seq (R := fun _ => Created) ?_
      fun _ _ h => (wp_pure _).mpr h) h : Created _)
    refine createSession_spec (.inl rfl) fun db hlimit hinsert => .inr ⟨hlimit, fun owner => ?_⟩
    rw [Db.activeSessions_insertSession hinsert]
    simp [newSession, SessionState.live]
  | _ => cases hcall

theorem KeepsLimit.program (hs : KeepsLimit cfg s)
    (hcond : CountsCommitting cfg s ⟨.call call, env, returnedOk r⟩)
    (h : Exec interrupts (call.program sha cfg env) s r s') : KeepsLimit cfg s' := by
  intro owner
  cases hcall : call.newOwner? with
  | none => exact (activeSessions_of_others hcall h owner).trans (hs owner)
  | some newOwner =>
    rcases activeSessions_of_create hcall h with rfl | ⟨hlimit, hactive⟩
    · exact hs owner
    have hroom := hcond call newOwner rfl hcall hlimit
    rw [hactive owner]
    split
    · subst newOwner
      rw [Int32.toNatClampNeg]
      omega
    · exact hs owner

end

section

variable {sha : Sha256} {cfg : StorageConfig} {sys sys' : System} {events : List Event}

theorem KeepsLimit.step {e : Event} (h : System.Step sha anywhere sys e sys')
    (hcond : CountsCommitting cfg sys.store e) (hcfg : ∀ cfg', sys.config = some cfg' → cfg' = cfg)
    (hs : KeepsLimit cfg sys.store) : KeepsLimit cfg sys'.store := by
  cases h with
  | «open» hexec => exact fun owner => (activeSessions_of_open hexec owner).trans (hs owner)
  | call hexec =>
    cases hcfg _ rfl
    exact hs.program hcond hexec
  | close => exact hs

theorem System.Step.config {interrupts : Label → Store → Prop} {e : Event}
    (h : Step sha interrupts sys e sys') (hopen : e.UnderConfig cfg)
    (hcfg : ∀ cfg', sys.config = some cfg' → cfg' = cfg) :
    ∀ cfg', sys'.config = some cfg' → cfg' = cfg := by
  intro cfg' hcfg'
  cases h with
  | «open» hexec =>
    dsimp only at hcfg'
    split at hcfg'
    · cases hcfg'
      exact hopen _ rfl
    · cases hcfg'
  | call hexec =>
    obtain ⟨-, -, rfl⟩ := Option.map_eq_some_iff.mp hcfg'
    exact hcfg _ rfl
  | close => cases hcfg'

/-- A run under one configuration, whichever steps fail or stop, keeps every owner within the limit
if the OPEN sessions admit a further one only where the COMMITTING ones leave room for it. -/
theorem session_limit_kept
    (hrun : Trace.Run (fun sys e sys' => System.Step sha anywhere sys e sys' ∧
      CountsCommitting cfg sys.store e) .initial events sys)
    (hopen : ∀ e ∈ events, e.UnderConfig cfg) : KeepsLimit cfg sys.store := by
  refine (hrun.invariant (I := fun sys => KeepsLimit cfg sys.store ∧
    ∀ cfg', sys.config = some cfg' → cfg' = cfg) ?_ ⟨fun owner => Nat.zero_le _, nofun⟩).1
  rintro sys e sys' he ⟨hs, hcfg⟩ ⟨hstep, hcond⟩
  exact ⟨hs.step hstep hcond hcfg, hstep.config (hopen e he) hcfg⟩

end

/-- One session an owner. -/
def limitedConfig : StorageConfig := { sampleConfig with maxSessionsPerOwner := 1 }

/-- A request for a session of Alice. -/
def aliceCreates : Call :=
  .createSession (ascii "team") (ascii "app") (ascii "1.0") 1 (sampleSha.hex (ascii "a"))
    (ascii "alice")

/-- The fresh storage behind `Storage::open`. -/
def limitedStart : Store := ((openStorage limitedConfig (sampleEnv 0)).run .empty).2

/-- The storage in which Alice has got the session `s1`. -/
def limitedStore : Store :=
  ((aliceCreates.program sampleSha limitedConfig (sampleEnv 0)).run limitedStart).2

private theorem limitedStart_step : System.Step sampleSha anywhere .initial
    ⟨.open limitedConfig, sampleEnv 0, true⟩ ⟨limitedStart, some limitedConfig⟩ := by
  have hexec := exec_run anywhere (openStorage limitedConfig (sampleEnv 0)) .empty
  have hok : returnedOk (some ((openStorage limitedConfig (sampleEnv 0)).run .empty).1) = true := by
    decide +kernel
  have hstep : System.Step sampleSha anywhere _ _ _ := .open hexec
  rw [hok] at hstep
  exact hstep

private theorem limitedStore_step :
    System.Step sampleSha anywhere ⟨limitedStart, some limitedConfig⟩
    ⟨.call aliceCreates, sampleEnv 0, true⟩ ⟨limitedStore, some limitedConfig⟩ := by
  have hexec := exec_run anywhere (aliceCreates.program sampleSha limitedConfig (sampleEnv 0))
    limitedStart
  have hok : returnedOk (some ((aliceCreates.program sampleSha limitedConfig (sampleEnv 0)).run
      limitedStart).1) = true := by decide +kernel
  have hstep : System.Step sampleSha anywhere _ ⟨.call aliceCreates, _, _⟩ _ := .call hexec
  rw [hok] at hstep
  exact hstep

/-- The first session of Alice. -/
theorem session_limit_kept_sample : KeepsLimit limitedConfig limitedStore := by
  refine session_limit_kept (.cons ⟨limitedStart_step, nofun⟩ (.single ⟨limitedStore_step, ?_⟩)) ?_
  · rintro call owner hcall howner hopen
    cases hcall
    cases howner
    decide +kernel
  · rintro e he cfg' hcfg'
    rcases List.mem_pair.mp he with rfl | rfl
    · cases hcfg'
      rfl
    · cases hcfg'

/-- The commit of `s1`, for whose manifest there is no memory. -/
def strandedCommit : List Label × Except Error Unit × Store :=
  ((Call.commitSession (ascii "s1")).program sampleSha limitedConfig (sampleEnv 1)).runFaulty
    [none, none, none, some (.std (ascii "std::bad_alloc"))] limitedStore

/-- What the world outside gives to the next request. -/
def laterEnv : CallEnv := ⟨2, ascii "s2", ascii "2"⟩

/-- The storage behind the next request. -/
def exceededStore : Store :=
  ((aliceCreates.program sampleSha limitedConfig laterEnv).run strandedCommit.2.2).2

/-- The failed commit leaves `s1` COMMITTING. It does not count any more, and Alice gets a second
session. -/
theorem stranded_commit_exceeds_limit :
    checkConfig limitedConfig = .ok () ∧
    Trace.Run (System.Step sampleSha anywhere) .initial
      [⟨.open limitedConfig, sampleEnv 0, true⟩, ⟨.call aliceCreates, sampleEnv 0, true⟩,
        ⟨.call (.commitSession (ascii "s1")), sampleEnv 1, false⟩,
        ⟨.call aliceCreates, laterEnv, true⟩] ⟨exceededStore, some limitedConfig⟩ ∧
    ¬ KeepsLimit limitedConfig exceededStore := by
  refine ⟨by decide +kernel, ?_, fun h => ?_⟩
  · have hfaulty : Exec anywhere _ _ _ _ := (faultyRun_runFaulty
      ((Call.commitSession (ascii "s1")).program sampleSha limitedConfig (sampleEnv 1))
      [none, none, none, some (.std (ascii "std::bad_alloc"))] limitedStore).exec
    have hfailed : returnedOk (some strandedCommit.2.1) = false := by decide +kernel
    have hcommit : System.Step sampleSha anywhere _
      ⟨.call (.commitSession (ascii "s1")), _, _⟩ _ := .call hfaulty
    have hexec := exec_run anywhere (aliceCreates.program sampleSha limitedConfig laterEnv)
      strandedCommit.2.2
    have hok : returnedOk (some ((aliceCreates.program sampleSha limitedConfig laterEnv).run
        strandedCommit.2.2).1) = true := by decide +kernel
    have hcreate : System.Step sampleSha anywhere _ ⟨.call aliceCreates, _, _⟩ _ := .call hexec
    rw [← strandedCommit, hfailed] at hcommit
    rw [hok] at hcreate
    exact .cons limitedStart_step (.cons limitedStore_step (.cons hcommit (.single hcreate)))
  · have halice := h (ascii "alice")
    revert halice
    decide +kernel

end ForgeRelay
