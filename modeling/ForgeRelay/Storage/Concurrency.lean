import ForgeRelay.Storage.LawfulPrograms

/-!
# Storage under the threads of the server

Requests call storage with the mutex of the dispatcher held. The handler of SESSION_ABORT and the
maintenance thread call it without the mutex, so their statements come anywhere between those of
the request that holds it.
-/

namespace ForgeRelay

open Program Prog

/-- The threads that are in a call of storage. -/
abbrev Threads := Pool Store Label Error

/-- No thread is in a call. -/
def Threads.idle (store : Store) : Threads := ⟨store, none, []⟩

/-- Whether it is called with the mutex held. -/
def Call.locks : Call → Bool
  | runMaintenance => false
  | _ => true

/-- What happens next: a call begins, or a thread that is in a call takes its next step. Behind a
step without the mutex `sqlite3_changes` may answer any number, that of the last statement. -/
inductive Turn
  /-- A handler takes the mutex and calls an operation. -/
  | request (call : Call) (env : CallEnv)
  /-- The handler of SESSION_ABORT calls `abort_session`. -/
  | sessionAbort (sessionId : Bytes) (env : CallEnv)
  /-- `maintenance_loop` calls `run_maintenance`. -/
  | maintenance (env : CallEnv)
  | holder
  | free (i : Nat) (changes : Nat)

/-- `sqlite3_changes` answers `changes`. -/
def Threads.recount (threads : Threads) (changes : Nat) : Threads :=
  { threads with state := { threads.state with changes := changes } }

/-- The threads after that; nothing changes if it is not possible. -/
def Threads.next (sha : Sha256) (cfg : StorageConfig) (threads : Threads) : Turn → Threads
  | .request call env =>
    if call.locks then threads.lock (call.program sha cfg env) else threads
  | .sessionAbort sessionId env => threads.spawn (abortSession env sessionId)
  | .maintenance env => threads.spawn (Call.runMaintenance.program sha cfg env)
  | .holder => threads.runHolder
  | .free i changes => Threads.recount (threads.runFree i) changes

/-- The session that the holder of the mutex has made COMMITTING and not yet published. -/
def Threads.commits (threads : Threads) : Option Bytes := threads.holderLabel?.bind Label.session?

/-- The session that the holder of the mutex commits if the count that it asks for is positive. -/
def Threads.claims (threads : Threads) : Option Bytes := threads.holderLabel?.bind Label.claimed?

instance : (l : Label) → DecidablePred l.ends
  | .aborting sessionId loaded => fun row =>
    inferInstanceAs (Decidable (row.id = sessionId ∧ row.state = loaded))
  | .expiring now => fun row => inferInstanceAs (Decidable (isOverdue now row = true))
  | .plain => fun _ => inferInstanceAs (Decidable False)
  | .marking _ => fun _ => inferInstanceAs (Decidable False)
  | .committing _ => fun _ => inferInstanceAs (Decidable False)
  | .counting _ _ => fun _ => inferInstanceAs (Decidable False)

/-- The step does not abort or expire the session that the holder of the mutex commits, and leaves
no positive count to a holder that asks for it while the session is neither OPEN nor COMMITTING. -/
def Threads.Undisturbed (threads : Threads) : Turn → Prop
  | .free i changes => (∀ l ∈ threads.freeLabel? i, ∀ sessionId ∈ threads.commits,
      ∀ row ∈ threads.state.db.uploadSession, row.id = sessionId → ¬ l.ends row) ∧
    ∀ sessionId ∈ threads.claims, 0 < changes → (threads.runFree i).state.db.Live sessionId
  | _ => True

instance (threads : Threads) : DecidablePred threads.Undisturbed
  | .free i changes => inferInstanceAs (Decidable ((∀ l ∈ threads.freeLabel? i,
      ∀ sessionId ∈ threads.commits, ∀ row ∈ threads.state.db.uploadSession,
        row.id = sessionId → ¬ l.ends row) ∧
      ∀ sessionId ∈ threads.claims, 0 < changes → (threads.runFree i).state.db.Live sessionId))
  | .request _ _ => inferInstanceAs (Decidable True)
  | .sessionAbort _ _ => inferInstanceAs (Decidable True)
  | .maintenance _ => inferInstanceAs (Decidable True)
  | .holder => inferInstanceAs (Decidable True)

/-- A step that leaves the commit in progress undisturbed. -/
def Threads.Step (sha : Sha256) (cfg : StorageConfig) (threads : Threads) (turn : Turn)
    (threads' : Threads) : Prop :=
  threads.Undisturbed turn ∧ threads' = threads.next sha cfg turn

/-- Every thread is safe where it stands, and the keys of sessions are unique. -/
structure Threads.Inv (threads : Threads) : Prop where
  keys : threads.state.db.SessionKeys
  safe : threads.AllSafe CommitsLive LockedStep HasKeys UnlockedStep

/-- What a step may do: a new artifact comes from the holder, whose session is live. -/
structure Threads.Change (threads : Threads) (turn : Turn) (threads' : Threads) : Prop where
  lawful : Lawful (fun _ => True) (turn = .holder ∧ ∃ sessionId, threads.commits = some sessionId ∧
    threads.state.db.Live sessionId) threads.state threads'.state

private theorem Threads.idle_inv {store : Store} (hkeys : store.db.SessionKeys) :
    (Threads.idle store).Inv := by
  refine ⟨hkeys, fun p hp => ?_, fun p hp => ?_⟩ <;> cases hp

variable {sha : Sha256} {cfg : StorageConfig} {threads threads' : Threads} {turn : Turn}

theorem Threads.Change.of_same (h : threads'.state = threads.state) :
    threads.Change turn threads' :=
  ⟨h ▸ Lawful.refl _⟩

theorem Threads.Inv.runHolder (h : threads.Inv) :
    Threads.Inv threads.runHolder ∧ threads.Change .holder threads.runHolder := by
  have hchange : threads.Change .holder threads.runHolder := by
    rcases h.safe.runHolder_state with hsame | ⟨l, hl, hJ, hG⟩
    · exact .of_same hsame
    · refine ⟨hG.mono (fun _ _ => trivial) fun hcommits => ⟨rfl, ?_⟩⟩
      obtain ⟨sessionId, hid⟩ := Option.isSome_iff_exists.mp hcommits
      exact ⟨sessionId, by rw [commits, hl, Option.bind_some, hid], hJ.live sessionId hid⟩
  have hkeys := hchange.lawful.keys h.keys
  exact ⟨⟨hkeys, h.safe.runHolder fun _ _ => hkeys⟩, hchange⟩

theorem Threads.Inv.runFree (h : threads.Inv) {i changes : Nat}
    (hundisturbed : threads.Undisturbed (.free i changes)) :
    Threads.Inv (Threads.recount (threads.runFree i) changes) ∧
      threads.Change (.free i changes) (Threads.recount (threads.runFree i) changes) := by
  have hstep : ∃ l : Label, Lawful l.ends False threads.state (threads.runFree i).state ∧
      ∀ sessionId ∈ threads.commits, ∀ row ∈ threads.state.db.uploadSession,
        row.id = sessionId → ¬ l.ends row := by
    rcases h.safe.runFree_state i with hsame | ⟨l, hl, -, hG⟩
    · exact ⟨.plain, hsame ▸ Lawful.refl _, fun _ _ _ _ _ => id⟩
    · exact ⟨l, hG, hundisturbed.1 l hl⟩
  obtain ⟨l, hlaw, hkept⟩ := hstep
  have hkeys := hlaw.keys h.keys
  refine ⟨⟨hkeys, h.safe.runFree_moved i (fun lh hlh hJ => ?_) (fun _ _ => hkeys) fun _ => id⟩,
    ⟨(hlaw.recount changes).mono (fun _ _ => trivial) False.elim⟩⟩
  refine ⟨hkeys, fun sessionId hid => ?_, fun sessionId hid hcount => ?_⟩
  · have hcommits : threads.commits = some sessionId := by
      rw [commits, hlh, Option.bind_some, hid]
    exact hlaw.live (hkept sessionId hcommits) (hJ.live sessionId hid)
  · have hclaims : threads.claims = some sessionId := by
      rw [claims, hlh, Option.bind_some, hid]
    exact hundisturbed.2 sessionId hclaims hcount

/-- One step keeps the invariant. -/
theorem Threads.Step.inv (hstep : Step sha cfg threads turn threads') (h : threads.Inv) :
    threads'.Inv ∧ threads.Change turn threads' := by
  obtain ⟨hundisturbed, rfl⟩ := hstep
  cases turn with
  | request call env =>
    rw [next]
    split
    · rename_i hlocks
      have hsafe := locked_program sha cfg env call (by rintro rfl; cases hlocks)
      have hsame : (threads.lock (call.program sha cfg env)).state = threads.state := by
        unfold Pool.lock
        split <;> rfl
      exact ⟨⟨hsame ▸ h.keys, h.safe.lock (safe_mono (hsafe _ h.keys) fun _ _ _ => trivial)⟩,
        .of_same hsame⟩
    · exact ⟨h, .of_same rfl⟩
  | sessionAbort sessionId env =>
    have hsafe := steady_abortSession hasKeys_undemanding env sessionId threads.state h.keys
    exact ⟨⟨h.keys, h.safe.spawn (safe_mono hsafe fun _ _ _ => trivial)⟩, .of_same rfl⟩
  | maintenance env =>
    have hsafe := Steady.bind (steady_runMaintenance env) (fun _ => Steady.pure ()) threads.state
      h.keys
    exact ⟨⟨h.keys, h.safe.spawn (safe_mono hsafe fun _ _ _ => trivial)⟩, .of_same rfl⟩
  | holder => exact h.runHolder
  | free i changes => exact h.runFree hundisturbed

theorem Threads.run_inv {turns : List Turn} (hrun : Trace.Run (Step sha cfg) threads turns threads')
    (h : threads.Inv) : threads'.Inv :=
  hrun.invariant (fun _ _ _ _ hinv hstep => (hstep.inv hinv).1) h

private theorem Threads.run_terminal {turns : List Turn}
    (hrun : Trace.Run (Step sha cfg) threads turns threads') (h : threads.Inv) {row : SessionInfo}
    (hrow : row ∈ threads.state.db.uploadSession) (hdead : row.state.live = false) :
    row ∈ threads'.state.db.uploadSession := by
  induction hrun with
  | nil => exact hrow
  | cons hstep _ ih =>
    obtain ⟨hinv, hchange⟩ := hstep.inv h
    exact ih hinv (hchange.lawful.terminal hrow hdead)

/-- If nothing aborts or expires the session that the holder of the mutex commits, a session that
has ended stays as it is, and whoever publishes an artifact does so for a session that has been
live at all times before. -/
theorem terminalSessions_absorbing {store : Store} (hkeys : store.db.SessionKeys)
    {earlier later : Threads} {turns turns' : List Turn}
    (hrun : Trace.Run (Threads.Step sha cfg) (.idle store) turns earlier)
    (hrun' : Trace.Run (Threads.Step sha cfg) earlier turns' later) :
    (∀ sessionId row, earlier.state.db.session? sessionId = some row → row.state.live = false →
      later.state.db.session? sessionId = some row) ∧
    ∀ turn last, Threads.Step sha cfg later turn last →
      (∃ a ∈ last.state.db.artifact, a ∉ later.state.db.artifact) →
      ∃ sessionId, turn = .holder ∧ later.commits = some sessionId ∧
        ∀ row, earlier.state.db.session? sessionId = some row → row.state.live = true := by
  have hearlier := Threads.run_inv hrun (Threads.idle_inv hkeys)
  have hlater := Threads.run_inv hrun' hearlier
  refine ⟨fun sessionId row hrow hdead => ?_, fun turn last hstep ⟨a, ha, hnew⟩ => ?_⟩
  · obtain ⟨hmem, rfl⟩ := Db.session?_some hrow
    exact Db.session?_of_mem hlater.keys (Threads.run_terminal hrun' hearlier hmem hdead)
  · obtain ⟨hturn, sessionId, hcommits, hlive⟩ :=
      ((hstep.inv hlater).2.lawful.artifact a ha).resolve_left hnew
    refine ⟨sessionId, hturn, hcommits, fun row hrow => ?_⟩
    obtain ⟨hmem, hid⟩ := Db.session?_some hrow
    by_contra hdead
    have hstays := Threads.run_terminal hrun' hearlier hmem (by simpa using hdead)
    exact hdead (CommitsLive.row_live ⟨hlater.keys, fun _ heq => Option.some.inj heq ▸ hlive,
      fun _ heq => by cases heq⟩ hstays hid)

/-- All these turns one after the other. -/
def Threads.play (sha : Sha256) (cfg : StorageConfig) (threads : Threads) (turns : List Turn) :
    Threads :=
  turns.foldl (next sha cfg) threads

/-- Every turn leaves the commit in progress undisturbed. -/
def Threads.undisturbedAlong (sha : Sha256) (cfg : StorageConfig) : Threads → List Turn → Bool
  | _, [] => true
  | threads, turn :: turns =>
    decide (threads.Undisturbed turn) && undisturbedAlong sha cfg (threads.next sha cfg turn) turns

theorem Threads.play_run {turns : List Turn}
    (h : undisturbedAlong sha cfg threads turns = true) :
    Trace.Run (Step sha cfg) threads turns (threads.play sha cfg turns) := by
  induction turns generalizing threads with
  | nil => exact .nil _
  | cons turn turns ih =>
    obtain ⟨hhead, htail⟩ := Bool.and_eq_true_iff.mp h
    exact .cons ⟨of_decide_eq_true hhead, rfl⟩ (ih htail)

/-- A request, up to the end of its call. -/
def wholeRequest (call : Call) (now : Int64) : List Turn :=
  .request call (sampleEnv now) :: List.replicate 24 .holder

/-- The chunk `a` is uploaded. -/
def sampleRequests : List Turn :=
  wholeRequest (.createSession (ascii "team") (ascii "app") (ascii "1.0") 1
    (sampleSha.hex (ascii "a")) (ascii "alice")) 0 ++
  wholeRequest (.putChunk (ascii "s1") 0 (ascii "a")) 1

private theorem Db.empty_sessionKeys : Store.empty.db.SessionKeys := List.nodup_nil

/-- The upload is aborted with the mutex held, and then without; the commit that follows fails. -/
theorem terminalSessions_absorbing_sample :
    (((Threads.idle .empty).play sampleSha sampleConfig (sampleRequests ++
      wholeRequest (.abortSession (ascii "s1")) 2)).play sampleSha sampleConfig
      (.sessionAbort (ascii "s1") (sampleEnv 3) :: .free 0 0 :: .free 0 0 ::
        wholeRequest (.commitSession (ascii "s1")) 4)).state.db.session? (ascii "s1") =
    some ⟨ascii "s1", ascii "alice", .aborted, ascii "team", ascii "app", ascii "1.0", 1,
      sampleSha.hex (ascii "a"), 4 * 1024 * 1024, 0, 24 * 3600⟩ :=
  (terminalSessions_absorbing Db.empty_sessionKeys (Threads.play_run (by decide +kernel))
    (Threads.play_run (by decide +kernel))).1 _ _ (by decide +kernel) rfl

/-- Behind the first turns the session `s1` is ABORTED and nothing is published, behind the others
it is COMPLETED and an artifact is there. -/
def PublishesAborted (turns turns' : List Turn) : Prop :=
  let earlier := (Threads.idle .empty).play sampleSha sampleConfig turns
  let later := earlier.play sampleSha sampleConfig turns'
  (earlier.state.db.session? (ascii "s1")).map (·.state) = some .aborted ∧
    earlier.state.db.artifact = [] ∧
    (later.state.db.session? (ascii "s1")).map (·.state) = some .completed ∧
    later.state.db.artifact.length = 1

instance (turns turns' : List Turn) : Decidable (PublishesAborted turns turns') :=
  inferInstanceAs (Decidable (_ ∧ _))

/-- SESSION_ABORT comes between the check of the content and the publishing transaction. -/
def sampleAbortAmid : List Turn :=
  sampleRequests ++ .request (.commitSession (ascii "s1")) (sampleEnv 2) ::
    List.replicate 6 .holder ++ [.sessionAbort (ascii "s1") (sampleEnv 3), .free 0 1, .free 0 1]

/-- Two uploads are announced, one of them empty, which is aborted. -/
def sampleEmptyAborted : List Turn :=
  wholeRequest (.createSession (ascii "team") (ascii "app") (ascii "1.0") 0
    (sampleSha.hex []) (ascii "alice")) 0 ++
  .request (.createSession (ascii "team") (ascii "lib") (ascii "1.0") 1
    (sampleSha.hex (ascii "a")) (ascii "alice")) ⟨0, ascii "s2", ascii "2"⟩ ::
    List.replicate 24 .holder ++
  wholeRequest (.abortSession (ascii "s1")) 1

/-- The aborted one is committed. The maintenance expires the other one between the UPDATE of the
transition, which finds no row, and `sqlite3_changes`. -/
def sampleCountAmid : List Turn :=
  .request (.commitSession (ascii "s1")) (sampleEnv 2) :: List.replicate 2 .holder ++
    .maintenance (sampleEnv (24 * 3600)) :: List.replicate 2 (.free 0 0) ++
    .free 0 1 :: List.replicate 24 .holder

/-- A session that has been aborted is published: because the publishing transaction does not look
at its state, and because a transition reads the count of whichever statement has come last. -/
theorem aborted_session_published :
    PublishesAborted sampleAbortAmid (List.replicate 24 .holder) ∧
      PublishesAborted sampleEmptyAborted sampleCountAmid := by
  decide +kernel

end ForgeRelay
