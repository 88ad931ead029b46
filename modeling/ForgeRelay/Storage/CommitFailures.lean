import ForgeRelay.Lib.Faults
import ForgeRelay.Storage.Durability
import ForgeRelay.Storage.ReadOnly
import ForgeRelay.Storage.Steps

/-!
# Commits that fail

`commit_session` with its steps named after what they are for, and when a failure leaves the
session as it was.
-/

namespace ForgeRelay

open Program

/-- What the steps of `commit_session` are for. -/
inductive CommitStep
  | load
  /-- The UPDATE of `expire_session_if_due`. -/
  | expire
  /-- The SELECT and the DELETE of the parts in `mark_unreferenced_parts`, and its loop. -/
  | release | mark
  /-- The UPDATE of the transition to COMMITTING. -/
  | claim
  /-- The look at `sqlite3_changes`; that it fails has no effect. -/
  | count
  | reserve | parts | read
  /-- The publishing transaction: BEGIN, its statements and COMMIT. -/
  | publish
  /-- The UPDATE of `rollback_to_open`. -/
  | rollback
  deriving DecidableEq, Repr

/-- `expire_session_if_due`. -/
def expireSteps (session : SessionInfo) (now : Int64) : Prog Store CommitStep Error Unit :=
  if session.state = .open ∧ session.expiresAt ≤ now then do
    (exec (·.setSessionState (fun s => s.id == session.id && s.state == .open)
      .expired)).tag .expire
    let digests ← (select (·.partDigests session.id)).tag .release
    (exec (·.deleteParts session.id)).tag .release
    (markAllUnreferenced now digests).tag .mark
  else pure ()

/-- `transition`, with a name for its UPDATE. -/
def transitionSteps (label : CommitStep) (sessionId : Bytes) (source target : SessionState) :
    Prog Store CommitStep Error Bool := do
  let rows ← (updateSessions (fun s => s.id == sessionId && s.state == source) target).tag label
  let changes ← (dbChanges (.counting sessionId target) rows).tag .count
  return decide (0 < changes)

/-- The way out of a failed check. -/
def rollbackSteps {α : Type} (sessionId : Bytes) (e : Error) : Prog Store CommitStep Error α := do
  let _ ← transitionSteps .rollback sessionId .committing .open
  throw e

/-- The end of `commit_session`. -/
def publishSteps (now : Int64) (session : SessionInfo) (manifest : List ManifestEntry) :
    Prog Store CommitStep Error ArtifactInfo := do
  match ← (tx (publish now session manifest)).tag .publish with
  | none =>
    rollbackSteps session.id (.of .eExists "artifact already exists and cannot be overwritten")
  | some _ => return {
      ns := session.ns, name := session.name, version := session.version,
      size := session.expectedSize, digest := session.expectedDigest,
      chunkSize := session.chunkSize, creator := session.owner, createdAt := now,
      note := [], chunks := manifest }

/-- `commit_session` from the check of the overall digest on. -/
def digestSteps (sha : Sha256) (now : Int64) (session : SessionInfo)
    (manifest : List ManifestEntry) : Prog Store CommitStep Error ArtifactInfo := do
  let content ← tryCatchThe Error ((readChunks manifest).tag .read) (rollbackSteps session.id)
  if sha.hex content ≠ session.expectedDigest then
    rollbackSteps session.id (.of .eConflict "overall digest mismatch")
  else publishSteps now session manifest

/-- `commit_session` from the loop over the parts on. -/
def scanSteps (sha : Sha256) (now : Int64) (session : SessionInfo) (parts : List PartRow) :
    Prog Store CommitStep Error ArtifactInfo :=
  match scanParts session.chunkSize 0 0 [] parts with
  | .error e => rollbackSteps session.id e
  | .ok (manifest, total) =>
    if manifest.length ≠ (chunkCount session).toNat then
      rollbackSteps session.id (.fr .eState (ascii ("chunk count mismatch: got " ++
        toString manifest.length ++ ", want " ++ toString (chunkCount session).toNat)))
    else if total ≠ session.expectedSize then
      rollbackSteps session.id (.of .eState "total chunk length mismatch")
    else digestSteps sha now session manifest

/-- `commit_session` behind the transition to COMMITTING. -/
def commitBodySteps (sha : Sha256) (now : Int64) (session : SessionInfo) :
    Prog Store CommitStep Error ArtifactInfo := do
  (reserveManifest (chunkCount session)).tag .reserve
  let parts ← (select (·.partsByOrdinal session.id)).tag .parts
  scanSteps sha now session parts

/-- `commit_session` from the transition to COMMITTING on. -/
def claimSteps (sha : Sha256) (now : Int64) (sessionId : Bytes) (session : SessionInfo) :
    Prog Store CommitStep Error ArtifactInfo := do
  if ← transitionSteps .claim sessionId .open .committing then commitBodySteps sha now session
  else do
    let session ← (loadSession sessionId).tag .load
    if session.state = .expired then throw (.of .eExpired "upload session expired")
    else throw (.of .eState "session is not OPEN")

/-- `commit_session` with its steps named. -/
def commitSteps (sha : Sha256) (env : CallEnv) (sessionId : Bytes) :
    Prog Store CommitStep Error ArtifactInfo := do
  let session ← (loadSession sessionId).tag .load
  expireSteps session env.now
  claimSteps sha env.now sessionId session

open Prog

section

variable {sha : Sha256} {now : Int64} {session : SessionInfo}

private theorem transitionSteps_tag (label : CommitStep) (sessionId : Bytes)
    (source target : SessionState) : (transitionSteps label sessionId source target).tag () =
      (transition sessionId source target).tag () := by
  simp only [transitionSteps, transition, tag_bind, tag_tag, tag_pure]

private theorem rollbackSteps_tag {α : Type} (sessionId : Bytes) (e : Error) :
    (rollbackSteps sessionId e : Prog Store CommitStep Error α).tag () =
      (rollbackAndThrow sessionId e).tag () := by
  simp only [rollbackSteps, rollbackAndThrow, rollbackToOpen, tag_bind, transitionSteps_tag,
    tag_throw, bind_bind, bind_pure_left]

theorem expireSteps_tag :
    (expireSteps session now).tag () = (expireSessionIfDue session now).tag () := by
  unfold expireSteps expireSessionIfDue markUnreferencedParts
  simp only [tag_ite, tag_bind, tag_tag, tag_pure]

private theorem commitBodySteps_tag :
    (commitBodySteps sha now session).tag () = (commitBody sha now session).tag () := by
  unfold commitBodySteps commitBody scanSteps
  simp only [tag_bind, tag_tag, tag_labelled]
  refine congrArg _ (funext fun _ => congrArg _ (funext fun parts => ?_))
  rcases scanParts session.chunkSize 0 0 [] parts with e | ⟨manifest, total⟩
  · exact rollbackSteps_tag _ _
  · simp only [digestSteps, publishSteps, tag_ite, tag_bind, tag_tryCatch, tag_tag, tag_labelled,
      rollbackSteps_tag]
    refine if_congr Iff.rfl rfl (if_congr Iff.rfl rfl ?_)
    refine congrArg _ (funext fun content => if_congr Iff.rfl rfl ?_)
    refine congrArg _ (funext fun published => ?_)
    cases published with
    | none => exact rollbackSteps_tag _ _
    | some id => rfl

private theorem commitSteps_tag (env : CallEnv) (sessionId : Bytes) :
    (commitSession sha env sessionId).tag () = (commitSteps sha env sessionId).tag () := by
  unfold commitSession commitSteps claimSteps
  simp only [tag_bind, tag_tag, tag_ite, expireSteps_tag, transitionSteps_tag, commitBodySteps_tag,
    tag_throw]

/-- Whatever fails in it, a call of `commit_session` is a run of its named steps. -/
private theorem commitSession_exec_iff {env : CallEnv} {sessionId : Bytes} {s s' : Store}
    {r : Except Error ArtifactInfo} :
    Exec anywhere (commitSession sha env sessionId) s (some r) s' ↔
      ∃ faults, FaultyRun (commitSteps sha env sessionId) s faults r s' :=
  exec_iff_faultyRun (commitSteps_tag env sessionId)

end

section

variable {ℓ α : Type} {label : ℓ} {faults : List ℓ} {s s' : Store}

private theorem faultyRun_stmt {f : Db → Except Error (α × Db)} {r : Except Error α}
    (h : FaultyRun ((stmt f).tag label) s faults r s') :
    (∃ a db, r = .ok a ∧ f s.db = .ok (a, db) ∧ s' = { s with db := db } ∧ faults = []) ∨
      ∃ e, r = .error e ∧ s' = s ∧ faults = [label] := by
  rcases h.of_tag_lift with ⟨a, rfl, hact, rfl⟩ | ⟨e, rfl, rfl, hact⟩
  · cases hf : f s.db with
    | error e =>
      rw [hf] at hact
      cases hact
    | ok result =>
      rw [hf] at hact
      cases hact
      exact .inl ⟨_, _, rfl, rfl, rfl, rfl⟩
  · refine .inr ⟨e, rfl, ?_, rfl⟩
    rcases hact with hact | rfl
    · cases hf : f s.db with
      | error e =>
        rw [hf] at hact
        cases hact
        rfl
      | ok result =>
        rw [hf] at hact
        cases hact
    · rfl

private theorem faultyRun_select {f : Db → α} {r : Except Error α}
    (h : FaultyRun ((select f).tag label) s faults r s') :
    s' = s ∧ (r = .ok (f s.db) ∧ faults = [] ∨ ∃ e, r = .error e ∧ faults = [label]) := by
  rcases faultyRun_stmt h with ⟨a, db, rfl, hf, rfl, rfl⟩ | ⟨e, rfl, rfl, rfl⟩
  · cases hf
    exact ⟨rfl, .inl ⟨rfl, rfl⟩⟩
  · exact ⟨rfl, .inr ⟨e, rfl, rfl⟩⟩

private theorem faultyRun_exec {f : Db → Db} {r : Except Error Unit}
    (h : FaultyRun ((exec f).tag label) s faults r s') :
    (r = .ok () ∧ s' = { s with db := f s.db } ∧ faults = []) ∨
      ∃ e, r = .error e ∧ s' = s ∧ faults = [label] := by
  rcases faultyRun_stmt h with ⟨a, db, rfl, hf, rfl, rfl⟩ | hfail
  · cases hf
    exact .inl ⟨rfl, rfl, rfl⟩
  · exact .inr hfail

theorem faultyRun_tx {p : StorageM α} {r : Except Error α}
    (h : FaultyRun ((tx p).tag label) s faults r s') :
    (∃ a, r = .ok a ∧ p.run s = (.ok a, s') ∧ faults = []) ∨
      ∃ e, r = .error e ∧ s' = s ∧ faults = [label] := by
  rcases h.of_tag_lift with ⟨a, rfl, hact, rfl⟩ | ⟨e, rfl, rfl, hact⟩
  · rcases hrun : p.run s with ⟨e | a', s₁⟩
    · rw [hrun] at hact
      cases hact
    · rw [hrun] at hact
      cases hact
      exact .inl ⟨_, rfl, rfl, rfl⟩
  · refine .inr ⟨e, rfl, ?_, rfl⟩
    rcases hact with hact | rfl
    · rcases hrun : p.run s with ⟨e | a', s₁⟩
      · rw [hrun] at hact
        cases hact
        rfl
      · rw [hrun] at hact
        cases hact
    · rfl

end

section

variable {α : Type} {faults : List CommitStep} {s s' : Store}

private theorem faultyRun_loadSession {sessionId : Bytes} {r : Except Error SessionInfo}
    (h : FaultyRun ((loadSession sessionId).tag .load) s faults r s') :
    s' = s ∧ (∀ step ∈ faults, step = .load) ∧
      ∀ session, r = .ok session → s.db.session? sessionId = some session ∧ faults = [] := by
  unfold loadSession at h
  rw [tag_bind] at h
  rcases h.of_bind with ⟨e, rfl, hselect⟩ | ⟨found, before, after, s₁, hselect, hrest, rfl⟩
  · obtain ⟨rfl, ⟨hok, -⟩ | ⟨e', -, rfl⟩⟩ := faultyRun_select hselect
    · cases hok
    · exact ⟨rfl, by simp, fun session hsession => by cases hsession⟩
  · obtain ⟨rfl, ⟨hok, rfl⟩ | ⟨e', herr, -⟩⟩ := faultyRun_select hselect
    · obtain rfl := Except.ok.inj hok
      cases hfound : s₁.db.session? sessionId with
      | none =>
        rw [hfound] at hrest
        cases hrest
        exact ⟨rfl, by simp, fun session hsession => by cases hsession⟩
      | some session =>
        rw [hfound] at hrest
        cases hrest
        exact ⟨rfl, by simp, fun session' hsession => ⟨congrArg _ (Except.ok.inj hsession), rfl⟩⟩
    · cases herr

/-- The tables behind `rollback_to_open`. -/
def Db.reopened (db : Db) (sessionId : Bytes) : Db :=
  db.setSessionState (fun r => r.id == sessionId && r.state == .committing) .open

private theorem faultyRun_dbChanges {label : Label} {rows : Nat} {r : Except Error Nat}
    (h : FaultyRun ((dbChanges label rows).tag .count) s faults r s') :
    s' = s ∧ (r = .ok s.changes ∨ r = .ok rows) ∧ ∀ step ∈ faults, step = .count := by
  unfold dbChanges at h
  rw [tag_tryCatch] at h
  rcases h.of_tryCatch with ⟨a, rfl, hcount⟩ | ⟨e, before, after, s₁, hcount, hrest, rfl⟩
  · rcases hcount.of_tag_lift with ⟨a', hr, hact, rfl⟩ | ⟨e, hr, -⟩
    · cases hr
      cases hact
      exact ⟨rfl, .inl rfl, by simp⟩
    · cases hr
  · rcases hcount.of_tag_lift with ⟨a', hr, -⟩ | ⟨e', -, rfl, hact⟩
    · cases hr
    cases hrest
    refine ⟨hact.elim (fun hact => ?_) id, .inr rfl, by simp⟩
    cases hact

private theorem faultyRun_transition {label : CommitStep} {sessionId : Bytes}
    {source target : SessionState} {r : Except Error Bool}
    (h : FaultyRun (transitionSteps label sessionId source target) s faults r s') :
    (r = .ok (decide (0 < s.db.countSessions fun r => r.id == sessionId && r.state == source)) ∧
        s'.db = s.db.setSessionState (fun r => r.id == sessionId && r.state == source) target ∧
        ∀ step ∈ faults, step = .count) ∨
      (∃ e, r = .error e) ∧ s' = s ∧ faults = [label] := by
  rcases h.of_bind with ⟨e, rfl, hupdate⟩ | ⟨rows, before, after, s₁, hupdate, hrest, rfl⟩
  · rcases hupdate.of_tag_lift with ⟨a, hr, -⟩ | ⟨e', -, rfl, hact⟩
    · cases hr
    · refine .inr ⟨⟨e, rfl⟩, hact.elim (fun hact => ?_) id, rfl⟩
      cases hact
  rcases hupdate.of_tag_lift with ⟨a, hr, hact, rfl⟩ | ⟨e', hr, -⟩
  case inr => cases hr
  cases hr
  cases hact
  rcases hrest.of_bind with ⟨e, rfl, hcount⟩ | ⟨changes, before, after, s₂, hcount, hpure, rfl⟩
  · obtain ⟨-, hr | hr, -⟩ := faultyRun_dbChanges hcount <;> cases hr
  cases hpure
  obtain ⟨rfl, hr, hfaults⟩ := faultyRun_dbChanges hcount
  refine .inl ⟨?_, rfl, by simpa using hfaults⟩
  rcases hr with hr | hr <;> cases hr <;> rfl

private theorem faultyRun_rollback {sessionId : Bytes} {e : Error} {r : Except Error α}
    (h : FaultyRun (rollbackSteps sessionId e) s faults r s') :
    (∀ a, r ≠ .ok a) ∧ ((s'.db = s.db.reopened sessionId ∧ ∀ step ∈ faults, step = .count) ∨
      (s' = s ∧ faults = [.rollback])) := by
  rcases h.of_bind with ⟨e', rfl, hback⟩ | ⟨b, before, after, s₁, hback, hthrow, rfl⟩
  · rcases faultyRun_transition hback with ⟨hr, -⟩ | ⟨-, hfail⟩
    · cases hr
    · exact ⟨fun a ha => (by cases ha), .inr hfail⟩
  · cases hthrow
    rcases faultyRun_transition hback with ⟨-, hdb, hfaults⟩ | ⟨⟨e', hr⟩, -⟩
    · exact ⟨fun a ha => (by cases ha), .inl ⟨hdb, by simpa using hfaults⟩⟩
    · cases hr

/-- A bound on steps that change nothing. -/
def unchanged : Bound Store Error :=
  ⟨fun _ => True, fun s s' => s' = s, fun _ => True, fun _ => rfl, fun h h' => h'.trans h⟩

private theorem readChunks_unchanged (manifest : List ManifestEntry) :
    Stays unchanged (readChunks manifest) := by
  induction manifest with
  | nil => exact .pure trivial
  | cons entry entries ih =>
    have hget : Stays unchanged (chunkStoreGet entry.digest) := by
      refine .ite (fun _ => .throw trivial) fun _ => .seq ?_ fun path => .lift fun s _ => ?_
      · unfold chunkPath
        split
        · exact .pure trivial
        · exact .throw trivial
      · split
        · exact ⟨.refl trivial, trivial⟩
        · rename_i content _
          refine ⟨.refl trivial, ?_⟩
          cases chunkFileRange content 0 (UInt64.ofNat (2^64 - 1)) <;> trivial
    exact .seq hget fun _ => .seq ih fun _ => .pure trivial

private theorem faultyRun_readChunks {manifest : List ManifestEntry} {r : Except Error Bytes}
    (h : FaultyRun ((readChunks manifest).tag label) s faults r s') :
    s' = s ∧ ∀ step ∈ faults, step = label := by
  obtain ⟨faults', hread, rfl⟩ := h.of_tag
  refine ⟨((readChunks_unchanged manifest).exec hread.exec (fun _ => trivial) trivial).1, ?_⟩
  intro step hstep
  obtain ⟨l, -, rfl⟩ := List.mem_map.mp hstep
  rfl

private theorem faultyRun_reserve {count : UInt64} {r : Except Error Unit}
    (h : FaultyRun ((reserveManifest count).tag label) s faults r s') :
    s' = s ∧ (r = .ok () ∧ faults = [] ∨ ∃ e, r = .error e ∧ faults = [label]) := by
  have hsame : ∀ {result}, (if maxManifestEntries < count.toNat then
      ((.error (.std (ascii "vector::reserve")) : Except Error Unit), s) else (.ok (), s)) =
        (result, s') → s' = s := by
    intro result hact
    split at hact <;> exact (Prod.mk.inj hact).2.symm
  rcases h.of_tag_lift with ⟨a, rfl, hact, rfl⟩ | ⟨e, rfl, rfl, hact⟩
  · exact ⟨hsame hact, .inl ⟨rfl, rfl⟩⟩
  · exact ⟨hact.elim hsame id, .inr ⟨e, rfl, rfl⟩⟩

/-- The steps of a commit behind which nothing takes the session back. -/
def CommitStep.Strands : CommitStep → Prop
  | .reserve | .parts | .publish | .rollback => True
  | _ => False

/-- What a commit that fails behind the transition has done: a step has failed behind which nothing
takes the session back, or the session is taken back. -/
def Undone (sessionId : Bytes) (s : Store) (faults : List CommitStep) (s' : Store) : Prop :=
  (s' = s ∧ ∃ step ∈ faults, step.Strands) ∨
    (s'.db = s.db.reopened sessionId ∧ ∀ step ∈ faults, step = .read ∨ step = .count)

variable {sha : Sha256} {now : Int64} {session : SessionInfo} {manifest : List ManifestEntry}
  {e : Error}

private theorem undone_rollback {sessionId : Bytes} {r : Except Error α}
    (h : FaultyRun (rollbackSteps sessionId e) s faults r s') : Undone sessionId s faults s' := by
  rcases (faultyRun_rollback h).2 with ⟨hdb, hfaults⟩ | ⟨rfl, rfl⟩
  · exact .inr ⟨hdb, fun step hstep => .inr (hfaults step hstep)⟩
  · exact .inl ⟨rfl, _, List.mem_singleton_self _, trivial⟩

private theorem publish_none (h : (publish now session manifest).run s = (.ok none, s')) :
    s' = s := by
  unfold publish at h
  rw [run_bind, run_select] at h
  dsimp only at h
  split at h
  · exact (Prod.mk.inj h).2.symm
  · obtain ⟨id, s₁, -, h₁⟩ := run_bind_ok h
    obtain ⟨u, s₂, -, h₂⟩ := run_bind_ok h₁
    obtain ⟨u', s₃, -, h₃⟩ := run_bind_ok h₂
    cases h₃

private theorem undone_publish
    (h : FaultyRun (publishSteps now session manifest) s faults (.error e) s') :
    Undone session.id s faults s' := by
  rcases h.of_bind with ⟨_, -, htx⟩ | ⟨published, _, _, s₁, htx, hrest, rfl⟩
  · rcases faultyRun_tx htx with ⟨_, hr, -⟩ | ⟨_, -, rfl, rfl⟩
    · cases hr
    · exact .inl ⟨rfl, _, List.mem_singleton_self _, trivial⟩
  rcases faultyRun_tx htx with ⟨_, hr, hrun, rfl⟩ | ⟨_, hr, -⟩
  case inr => cases hr
  obtain rfl := Except.ok.inj hr
  cases published with
  | some id => cases hrest
  | none =>
    obtain rfl := publish_none hrun
    exact undone_rollback hrest

private theorem undone_digest
    (h : FaultyRun (digestSteps sha now session manifest) s faults (.error e) s') :
    Undone session.id s faults s' := by
  have hprefix : ∀ {before after : List CommitStep}, (∀ step ∈ before, step = .read) →
      Undone session.id s after s' → Undone session.id s (before ++ after) s' := by
    rintro before after hbefore (⟨rfl, step, hstep, hstrands⟩ | ⟨hdb, hafter⟩)
    · exact .inl ⟨rfl, step, List.mem_append_right _ hstep, hstrands⟩
    · refine .inr ⟨hdb, fun step hstep => (List.mem_append.mp hstep).elim (fun h => ?_) (hafter _)⟩
      exact .inl (hbefore step h)
  rcases h.of_bind with ⟨_, -, htry⟩ | ⟨content, before, after, s₁, htry, hrest, rfl⟩
  · rcases htry.of_tryCatch with ⟨_, hr, -⟩ | ⟨_, before, after, s₁, hread, hhandler, rfl⟩
    · cases hr
    obtain ⟨rfl, hbefore⟩ := faultyRun_readChunks hread
    exact hprefix hbefore (undone_rollback hhandler)
  · rcases htry.of_tryCatch with ⟨_, -, hread⟩ | ⟨_, _, _, _, -, hhandler, -⟩
    · obtain ⟨rfl, hbefore⟩ := faultyRun_readChunks hread
      refine hprefix hbefore ?_
      split at hrest
      · exact undone_rollback hrest
      · exact undone_publish hrest
    · exact absurd rfl ((faultyRun_rollback hhandler).1 content)

private theorem undone_scan {parts : List PartRow}
    (h : FaultyRun (scanSteps sha now session parts) s faults (.error e) s') :
    Undone session.id s faults s' := by
  unfold scanSteps at h
  split at h
  · exact undone_rollback h
  split at h
  · exact undone_rollback h
  split at h
  · exact undone_rollback h
  exact undone_digest h

private theorem undone_commitBody
    (h : FaultyRun (commitBodySteps sha now session) s faults (.error e) s') :
    Undone session.id s faults s' := by
  rcases h.of_bind with ⟨_, -, hreserve⟩ | ⟨_, _, _, s₁, hreserve, hrest, rfl⟩
  · obtain ⟨rfl, ⟨hr, -⟩ | ⟨_, -, rfl⟩⟩ := faultyRun_reserve hreserve
    · cases hr
    · exact .inl ⟨rfl, _, List.mem_singleton_self _, trivial⟩
  obtain ⟨rfl, ⟨-, rfl⟩ | ⟨_, hr, -⟩⟩ := faultyRun_reserve hreserve
  case inr => cases hr
  rcases hrest.of_bind with ⟨_, -, hparts⟩ | ⟨parts, _, _, s₂, hparts, hscan, rfl⟩
  · obtain ⟨rfl, ⟨hr, -⟩ | ⟨_, -, rfl⟩⟩ := faultyRun_select hparts
    · cases hr
    · exact .inl ⟨rfl, _, List.mem_singleton_self _, trivial⟩
  obtain ⟨rfl, ⟨-, rfl⟩ | ⟨_, hr, -⟩⟩ := faultyRun_select hparts
  case inr => cases hr
  exact undone_scan hscan

/-- The same rows, but that some with these digests are marked. -/
def Marked (now : Int64) (digests : List Bytes) (rows rows' : List ChunkRow) : Prop :=
  ∃ marked : ChunkRow → Bool, (∀ c, marked c = true → c.digest ∈ digests) ∧
    rows' = Table.update marked (ChunkRow.mark now) rows

/-- The session is EXPIRED and its parts are released; nothing else has changed, but that chunks of
the parts may be marked. -/
structure Released (now : Int64) (sessionId : Bytes) (db db' : Db) : Prop where
  session : db'.uploadSession =
    Table.update (·.id == sessionId) (fun r => { r with state := .expired }) db.uploadSession
  parts : db'.uploadPart = Table.delete (·.sessionId == sessionId) db.uploadPart
  artifact : db'.artifact = db.artifact
  artifactChunk : db'.artifactChunk = db.artifactChunk
  chunk : Marked now (db.partDigests sessionId) db.chunk db'.chunk

theorem Marked.refl (now : Int64) (digests : List Bytes) (rows : List ChunkRow) :
    Marked now digests rows rows :=
  ⟨fun _ => false, by simp, (Table.update_of_none fun _ _ => rfl).symm⟩

theorem Marked.trans {digests : List Bytes} {rows rows' rows'' : List ChunkRow}
    (h : Marked now digests rows rows') (h' : Marked now digests rows' rows'') :
    Marked now digests rows rows'' := by
  obtain ⟨p, hp, rfl⟩ := h
  obtain ⟨q, hq, rfl⟩ := h'
  refine ⟨fun c => p c || q c, fun c hc => ?_, ?_⟩
  · exact (Bool.or_eq_true _ _ ▸ hc).elim (hp c) (hq c)
  · rw [Table.update, Table.update, Table.update, List.map_map]
    refine List.map_congr_left fun c _ => ?_
    by_cases hpc : p c = true
    · simp only [Function.comp_apply, hpc, if_true, Bool.true_or]
      split <;> rfl
    · simp only [Function.comp_apply, hpc, Bool.false_eq_true, if_false, Bool.false_or]

/-- A bound on steps that only mark chunks of these digests. -/
def onlyMarks (now : Int64) (digests : List Bytes) : Bound Store Error where
  inv _ := True
  rel s s' := ∃ rows, s'.db = { s.db with chunk := rows } ∧ Marked now digests s.db.chunk rows
  err _ := True
  refl s := ⟨_, rfl, .refl _ _ _⟩
  trans := by
    rintro a b c ⟨rows, hb, hrows⟩ ⟨rows', hc, hrows'⟩
    rw [hb] at hc hrows'
    exact ⟨rows', hc, hrows.trans hrows'⟩

private theorem markAllUnreferenced_marks (digests digests' : List Bytes)
    (hsub : ∀ d ∈ digests', d ∈ digests) :
    Stays (onlyMarks now digests) (markAllUnreferenced now digests') := by
  induction digests' with
  | nil => exact .pure trivial
  | cons digest rest ih =>
    obtain ⟨hdigest, hrest⟩ := List.forall_mem_cons.mp hsub
    refine .seq (.labelled (.seq (within_chunkReferenced _) fun _ => .ite (fun _ => .pure trivial)
      fun _ => within_exec fun {s} _ => ⟨⟨_, rfl, ChunkRow.isActive digest, fun c hc => ?_, rfl⟩,
        trivial⟩)) fun _ => ih hrest
    rw [ChunkRow.isActive, Bool.and_eq_true, beq_iff_eq] at hc
    exact hc.1 ▸ hdigest

/-- The tables with the session EXPIRED. -/
def Db.expired (db : Db) (sessionId : Bytes) : Db :=
  db.setSessionState (fun r => r.id == sessionId && r.state == .open) .expired

private theorem Db.expired_uploadSession {db : Db} (hkeys : (db.uploadSession.map (·.id)).Nodup)
    (hrow : session ∈ db.uploadSession) (hopen : session.state = .open) :
    (db.expired session.id).uploadSession =
      Table.update (·.id == session.id) (fun r => { r with state := .expired })
        db.uploadSession := by
  refine Table.update_congr fun r hr => ?_
  by_cases hid : r.id = session.id
  · rw [Table.eq_of_key hkeys hr hrow hid, hopen]
    simp
  · simp [hid]

theorem faultyRun_expire (hkeys : (s.db.uploadSession.map (·.id)).Nodup)
    (hrow : session ∈ s.db.uploadSession) (hdue : session.state = .open ∧ session.expiresAt ≤ now)
    {r : Except Error Unit} (h : FaultyRun (expireSteps session now) s faults r s') :
    (Released now session.id s.db s'.db ∧ ∀ step ∈ faults, step = .mark) ∨
      (∃ e, r = .error e) ∧ (s' = s ∧ faults = [.expire] ∨
        s'.db = s.db.expired session.id ∧ faults = [.release]) := by
  unfold expireSteps at h
  rw [if_pos hdue] at h
  rcases h.of_bind with ⟨e, rfl, hexpire⟩ | ⟨_, _, _, s₁, hexpire, hrest, rfl⟩
  · rcases faultyRun_exec hexpire with ⟨hr, -⟩ | ⟨_, -, rfl, rfl⟩
    · cases hr
    · exact .inr ⟨⟨e, rfl⟩, .inl ⟨rfl, rfl⟩⟩
  rcases faultyRun_exec hexpire with ⟨-, hs₁, rfl⟩ | ⟨_, hr, -⟩
  case inr => cases hr
  have hdb₁ : s₁.db = s.db.expired session.id := congrArg Store.db hs₁
  rcases hrest.of_bind with ⟨e, rfl, hselect⟩ | ⟨digests, _, _, s₂, hselect, hdelete, rfl⟩
  · obtain ⟨rfl, ⟨hr, -⟩ | ⟨_, -, rfl⟩⟩ := faultyRun_select hselect
    · cases hr
    · exact .inr ⟨⟨e, rfl⟩, .inr ⟨hdb₁, rfl⟩⟩
  obtain ⟨rfl, ⟨hdigests, rfl⟩ | ⟨_, hr, -⟩⟩ := faultyRun_select hselect
  case inr => cases hr
  rcases hdelete.of_bind with ⟨e, rfl, hexec⟩ | ⟨_, _, _, s₃, hexec, hmark, rfl⟩
  · rcases faultyRun_exec hexec with ⟨hr, -⟩ | ⟨_, -, rfl, rfl⟩
    · cases hr
    · exact .inr ⟨⟨e, rfl⟩, .inr ⟨hdb₁, rfl⟩⟩
  rcases faultyRun_exec hexec with ⟨-, hs₃, rfl⟩ | ⟨_, hr, -⟩
  case inr => cases hr
  -- the parts are deleted; what is left marks their chunks
  have hdb₃ : s₃.db = (s.db.expired session.id).deleteParts session.id := by
    rw [hs₃, ← hdb₁]
  have hdigests' : digests = s.db.partDigests session.id := by
    rw [Except.ok.inj hdigests, hdb₁]
    rfl
  obtain ⟨faults', hloop, rfl⟩ := hmark.of_tag
  obtain ⟨rows, hrows, hmarked⟩ := ((markAllUnreferenced_marks digests digests
    fun _ => id).exec hloop.exec (fun _ => trivial) trivial).1
  refine .inl ⟨⟨?_, ?_, ?_, ?_, ?_⟩, by simp⟩
  · rw [hrows, hdb₃]
    exact Db.expired_uploadSession hkeys hrow hdue.1
  · rw [hrows, hdb₃]
    rfl
  · rw [hrows, hdb₃]
    rfl
  · rw [hrows, hdb₃]
    rfl
  · rw [hdb₃, hdigests'] at hmarked
    rw [hrows]
    exact hmarked

/-- The tables are as before, or the session was due and is EXPIRED with its parts released. -/
def LeftAsItWas (now : Int64) (sessionId : Bytes) (db db' : Db) : Prop :=
  db' = db ∨ ∃ session ∈ db.uploadSession, session.id = sessionId ∧ session.state = .open ∧
    session.expiresAt ≤ now ∧ Released now sessionId db db'

/-- A step whose failure does not matter: behind it the session is not COMMITTING or is taken back,
and it does not keep the parts of an EXPIRED session. -/
def CommitStep.Harmless (db : Db) (sessionId : Bytes) (step : CommitStep) : Prop :=
  ¬ step.Strands ∧ (step = .release → db.partDigests sessionId = [])

/-- The tables with the session COMMITTING. -/
def Db.claimed (db : Db) (sessionId : Bytes) : Db :=
  db.setSessionState (fun r => r.id == sessionId && r.state == .open) .committing

private theorem Db.claimed_reopened {db : Db} (hkeys : (db.uploadSession.map (·.id)).Nodup)
    (hrow : session ∈ db.uploadSession) (hopen : session.state = .open) :
    (db.claimed session.id).reopened session.id = db := by
  have hrows : ((db.claimed session.id).reopened session.id).uploadSession = db.uploadSession := by
    change (List.map _ (List.map _ db.uploadSession)) = _
    rw [List.map_map]
    refine (List.map_congr_left fun r hr => ?_).trans (List.map_id _)
    by_cases hid : r.id = session.id
    · rw [Table.eq_of_key hkeys hr hrow hid]
      obtain ⟨id, owner, state, ns, name, version, size, digest, chunkSize, created, expires⟩ :=
        session
      cases hopen
      simp
    · simp [hid]
  calc (db.claimed session.id).reopened session.id
      = { db with
            uploadSession := ((db.claimed session.id).reopened session.id).uploadSession } := rfl
    _ = db := by rw [hrows]

private theorem not_leftAsItWas {db db' : Db} {state : SessionState}
    (hkeys : (db.uploadSession.map (·.id)).Nodup) (hrow : session ∈ db.uploadSession)
    (hopen : session.state = .open) (hstate : state ≠ .open)
    (hrow' : { session with state := state } ∈ db'.uploadSession)
    (hreleased : ¬ Released now session.id db db') : ¬ LeftAsItWas now session.id db db' := by
  rintro (rfl | ⟨_, -, -, -, -, h⟩)
  · have hsame := Table.eq_of_key hkeys hrow' hrow rfl
    exact hstate ((congrArg SessionInfo.state hsame).trans hopen)
  · exact hreleased h

private theorem Db.mem_setSessionState_open {db : Db} (hrow : session ∈ db.uploadSession)
    (hopen : session.state = .open) (state : SessionState) :
    { session with state := state } ∈ (db.setSessionState
      (fun r => r.id == session.id && r.state == .open) state).uploadSession := by
  refine Table.mem_update.mpr ⟨session, hrow, ?_⟩
  simp [hopen]

private theorem not_leftAsItWas_claimed {db : Db} (hkeys : (db.uploadSession.map (·.id)).Nodup)
    (hrow : session ∈ db.uploadSession) (hopen : session.state = .open) :
    ¬ LeftAsItWas now session.id db (db.claimed session.id) := by
  have hrow' : { session with state := .committing } ∈ (db.claimed session.id).uploadSession :=
    Db.mem_setSessionState_open hrow hopen .committing
  refine not_leftAsItWas hkeys hrow hopen (by decide) hrow' fun h => ?_
  rw [h.session, Table.mem_update] at hrow'
  obtain ⟨r, -, hr⟩ := hrow'
  split at hr
  · cases congrArg SessionInfo.state hr
  · rename_i hid
    exact hid (by simp [hr])

private theorem leftAsItWas_expired_iff {db : Db} (hkeys : (db.uploadSession.map (·.id)).Nodup)
    (hrow : session ∈ db.uploadSession) (hdue : session.state = .open ∧ session.expiresAt ≤ now) :
    LeftAsItWas now session.id db (db.expired session.id) ↔ db.partDigests session.id = [] := by
  constructor
  · intro h
    by_contra hne
    obtain ⟨digest, hdigest⟩ := List.exists_mem_of_ne_nil _ hne
    obtain ⟨p, hp, hid, -⟩ := Db.mem_partDigests.mp hdigest
    have hrow' : { session with state := .expired } ∈ (db.expired session.id).uploadSession :=
      Db.mem_setSessionState_open hrow hdue.1 .expired
    refine not_leftAsItWas hkeys hrow hdue.1 (by decide) hrow' (fun hreleased => ?_) h
    have hmem : p ∈ (db.expired session.id).uploadPart := hp
    rw [hreleased.parts, Table.mem_delete] at hmem
    simp [hid] at hmem
  · intro hnil
    refine .inr ⟨session, hrow, rfl, hdue.1, hdue.2, ?_⟩
    refine ⟨Db.expired_uploadSession hkeys hrow hdue.1, ?_, rfl, rfl, .refl _ _ _⟩
    refine (Table.delete_of_none fun p hp => ?_).symm
    by_contra hid
    have hmem : p.digest ∈ db.partDigests session.id :=
      Db.mem_partDigests.mpr ⟨p, hp, by simpa using hid, rfl⟩
    rw [hnil] at hmem
    cases hmem

private theorem Db.claimed_of_count {db : Db} {sessionId : Bytes}
    (hcount : ¬ 0 < db.countSessions fun r => r.id == sessionId && r.state == .open) :
    db.claimed sessionId = db := by
  have hnone : ∀ r ∈ db.uploadSession, (r.id == sessionId && r.state == .open) = false := by
    intro r hr
    rw [Db.countSessions, List.countP_pos_iff] at hcount
    exact Bool.eq_false_iff.mpr fun h => hcount ⟨r, hr, h⟩
  calc db.claimed sessionId
      = { db with uploadSession := (db.claimed sessionId).uploadSession } := rfl
    _ = db := by rw [Db.claimed, Db.setSessionState, Table.update_of_none hnone]

private theorem faultyRun_closed {sessionId : Bytes}
    (hcount : ¬ 0 < s.db.countSessions fun r => r.id == sessionId && r.state == .open)
    (h : FaultyRun (claimSteps sha now sessionId session) s faults (.error e) s') :
    s'.db = s.db ∧ ∀ step ∈ faults, ∀ db, step.Harmless db sessionId := by
  have hharmless : ∀ step : CommitStep, step = .claim ∨ step = .count ∨ step = .load →
      ∀ db, step.Harmless db sessionId := by
    rintro _ (rfl | rfl | rfl) db <;> exact ⟨id, fun h => by cases h⟩
  rcases h.of_bind with ⟨_, -, hclaim⟩ | ⟨changed, before, after, s₁, hclaim, hrest, rfl⟩
  · rcases faultyRun_transition hclaim with ⟨hr, -⟩ | ⟨-, rfl, rfl⟩
    · cases hr
    · exact ⟨rfl, fun step hstep => hharmless step (.inl (List.mem_singleton.mp hstep))⟩
  rcases faultyRun_transition hclaim with ⟨hr, hdb₁, hbefore⟩ | ⟨⟨_, hr⟩, -⟩
  case inr => cases hr
  have hsame : s₁.db = s.db := hdb₁.trans (Db.claimed_of_count hcount)
  rw [Except.ok.inj hr, decide_eq_false hcount, if_neg Bool.false_ne_true] at hrest
  suffices hrest : s' = s₁ ∧ ∀ step ∈ after, step = .load by
    refine ⟨congrArg Store.db hrest.1 |>.trans hsame, fun step hstep => hharmless step ?_⟩
    rcases List.mem_append.mp hstep with hstep | hstep
    · exact .inr (.inl (hbefore step hstep))
    · exact .inr (.inr (hrest.2 step hstep))
  rcases hrest.of_bind with ⟨_, -, hload⟩ | ⟨_, before', after', s₂, hload, hthrow, rfl⟩
  · obtain ⟨rfl, hall, -⟩ := faultyRun_loadSession hload
    exact ⟨rfl, hall⟩
  obtain ⟨rfl, hall, -⟩ := faultyRun_loadSession hload
  obtain ⟨rfl, rfl⟩ : s' = s₂ ∧ after' = [] := by
    split at hthrow <;> cases hthrow <;> exact ⟨rfl, rfl⟩
  rw [List.append_nil]
  exact ⟨rfl, hall⟩

private theorem leftAsItWas_of_open (hkeys : (s.db.uploadSession.map (·.id)).Nodup)
    (hrow : session ∈ s.db.uploadSession) (hopen : session.state = .open)
    (h : FaultyRun (claimSteps sha now session.id session) s faults (.error e) s') :
    LeftAsItWas now session.id s.db s'.db ↔
      ∀ step ∈ faults, step.Harmless s.db session.id := by
  have hsame : s'.db = s.db → LeftAsItWas now session.id s.db s'.db := .inl
  rcases h.of_bind with ⟨_, -, hclaim⟩ | ⟨changed, before, after, s₁, hclaim, hrest, rfl⟩
  · rcases faultyRun_transition hclaim with ⟨hr, -⟩ | ⟨-, rfl, rfl⟩
    · cases hr
    · exact iff_of_true (hsame rfl) (by simp [CommitStep.Harmless, CommitStep.Strands])
  rcases faultyRun_transition hclaim with ⟨hr, hdb₁, hbefore⟩ | ⟨⟨_, hr⟩, -⟩
  case inr => cases hr
  have hpos : 0 < s.db.countSessions fun r => r.id == session.id && r.state == .open :=
    List.countP_pos_iff.mpr ⟨session, hrow, by simp [hopen]⟩
  rw [Except.ok.inj hr, decide_eq_true hpos, if_pos rfl] at hrest
  rcases undone_commitBody hrest with ⟨rfl, step, hstep, hstrands⟩ | ⟨hdb', hafter⟩
  · refine iff_of_false ?_ fun hall => (hall step (List.mem_append_right _ hstep)).1 hstrands
    rw [hdb₁]
    exact not_leftAsItWas_claimed hkeys hrow hopen
  · refine iff_of_true (hsame ?_) fun step hstep => ?_
    · rw [hdb', hdb₁]
      exact Db.claimed_reopened hkeys hrow hopen
    · have hstep' : step = .read ∨ step = .count :=
        (List.mem_append.mp hstep).elim (fun h => .inr (hbefore step h)) (hafter step)
      rcases hstep' with rfl | rfl <;> exact ⟨id, fun h => by cases h⟩

theorem Released.closed {db db' : Db} {sessionId : Bytes} (h : Released now sessionId db db') :
    ¬ 0 < db'.countSessions fun r => r.id == sessionId && r.state == .open := by
  rw [Db.countSessions, List.countP_pos_iff, h.session]
  rintro ⟨r, hr, hopen⟩
  obtain ⟨r₀, -, rfl⟩ := Table.mem_update.mp hr
  by_cases hid : r₀.id = sessionId <;> simp [hid] at hopen

/-- A call that fails: everything is as it should be if and only if no step has failed behind which
nothing takes the session back, or which leaves the parts of an EXPIRED session in place. -/
private theorem commitSteps_leftAsItWas_iff {env : CallEnv} {sessionId : Bytes}
    (hkeys : (s.db.uploadSession.map (·.id)).Nodup)
    (h : FaultyRun (commitSteps sha env sessionId) s faults (.error e) s') :
    LeftAsItWas env.now sessionId s.db s'.db ↔
      ∀ step ∈ faults, step.Harmless s.db sessionId := by
  rcases h.of_bind with ⟨_, -, hload⟩ | ⟨session, _, _, s₁, hload, hrest, rfl⟩
  · obtain ⟨rfl, hall, -⟩ := faultyRun_loadSession hload
    refine iff_of_true (.inl rfl) fun step hstep => ?_
    rw [hall step hstep]
    exact ⟨id, fun h => by cases h⟩
  obtain ⟨rfl, -, hloaded⟩ := faultyRun_loadSession hload
  obtain ⟨hfound, rfl⟩ := hloaded session rfl
  obtain ⟨hrow, rfl⟩ := Db.session?_some hfound
  rw [List.nil_append]
  by_cases hdue : session.state = .open ∧ session.expiresAt ≤ env.now
  · rcases hrest.of_bind with ⟨_, -, hexpire⟩ | ⟨u, before, after, s₂, hexpire, hclaim, rfl⟩
    · rcases faultyRun_expire hkeys hrow hdue hexpire with ⟨hreleased, hall⟩ |
        ⟨-, ⟨rfl, rfl⟩ | ⟨hdb, rfl⟩⟩
      · refine iff_of_true (.inr ⟨session, hrow, rfl, hdue.1, hdue.2, hreleased⟩)
          fun step hstep => ?_
        rw [hall step hstep]
        exact ⟨id, fun h => by cases h⟩
      · exact iff_of_true (.inl rfl) (by simp [CommitStep.Harmless, CommitStep.Strands])
      · rw [hdb, leftAsItWas_expired_iff hkeys hrow hdue]
        simp [CommitStep.Harmless, CommitStep.Strands]
    · rcases faultyRun_expire hkeys hrow hdue hexpire with ⟨hreleased, hall⟩ | ⟨⟨_, hr⟩, -⟩
      case inr => cases hr
      obtain ⟨hdb, hall'⟩ := faultyRun_closed hreleased.closed hclaim
      refine iff_of_true (.inr ⟨session, hrow, rfl, hdue.1, hdue.2, hdb ▸ hreleased⟩) ?_
      intro step hstep
      rcases List.mem_append.mp hstep with hstep | hstep
      · rw [hall step hstep]
        exact ⟨id, fun h => by cases h⟩
      · exact hall' step hstep _
  · rw [expireSteps, if_neg hdue] at hrest
    change FaultyRun (claimSteps sha env.now session.id session) _ _ _ _ at hrest
    by_cases hopen : session.state = .open
    · exact leftAsItWas_of_open hkeys hrow hopen hrest
    · have hclosed : ¬ 0 < s₁.db.countSessions fun r => r.id == session.id && r.state == .open := by
        rw [Db.countSessions, List.countP_pos_iff]
        rintro ⟨r, hr, hmatch⟩
        rw [Bool.and_eq_true, beq_iff_eq, beq_iff_eq] at hmatch
        exact hopen (Table.eq_of_key hkeys hr hrow hmatch.1 ▸ hmatch.2)
      obtain ⟨hdb, hall⟩ := faultyRun_closed hclosed hrest
      exact iff_of_true (.inl hdb) fun step hstep => hall step hstep _

/-- From every state that a run reaches, and whatever fails in the call. -/
theorem failed_commit_leaves_session_iff {events : List Event} {config : Option StorageConfig}
    {env : CallEnv} {sessionId : Bytes}
    (hrun : Trace.Run (System.Step sha anywhere) .initial events ⟨s, config⟩)
    (hfails : FaultyRun (commitSteps sha env sessionId) s faults (.error e) s') :
    Exec anywhere (commitSession sha env sessionId) s (some (.error e)) s' ∧
      (LeftAsItWas env.now sessionId s.db s'.db ↔
        ∀ step ∈ faults, step.Harmless s.db sessionId) := by
  have hkept := System.run_kept hrun anywhere_harmless (Set.Subset.refl _) (.empty _ _ _)
  exact ⟨commitSession_exec_iff.mpr ⟨faults, hfails⟩,
    commitSteps_leftAsItWas_iff hkept.inv.rows.sessionKeys hfails⟩

end

/-- A session for a content of this size. -/
def sampleAnnounced (size : UInt64) : List Move :=
  [(Action.open sampleConfig).at (sampleEnv 0),
    (Action.call (.createSession (ascii "team") (ascii "app") (ascii "1.0") size
      (sampleSha.hex (ascii "a")) (ascii "alice"))).at (sampleEnv 0)]

private theorem sampleAnnounced_run {size : UInt64}
    (hsome : (System.initial.play sampleSha (sampleAnnounced size)).isSome = true) :
    Trace.Run (System.Step sampleSha anywhere) .initial
      (played sampleSha (sampleAnnounced size)).1 (played sampleSha (sampleAnnounced size)).2 :=
  played_run (fun _ _ => .inr fun _ _ => trivial) hsome

/-- A commit of the session, with no chunk uploaded. -/
def sampleCommit (size : UInt64) (plan : List (Option Error)) :
    List CommitStep × Except Error ArtifactInfo × Store :=
  (commitSteps sampleSha (sampleEnv 1) (ascii "s1")).runFaulty plan
    (played sampleSha (sampleAnnounced size)).2.store

private theorem sampleCommit_run (size : UInt64) (plan : List (Option Error)) :
    FaultyRun (commitSteps sampleSha (sampleEnv 1) (ascii "s1"))
      (played sampleSha (sampleAnnounced size)).2.store (sampleCommit size plan).1
      (sampleCommit size plan).2.1 (sampleCommit size plan).2.2 := by
  unfold sampleCommit
  exact faultyRun_runFaulty _ _ _

/-- The chunk count does not match, and the session of one byte is taken back. -/
theorem failed_commit_leaves_session_sample :
    (sampleCommit 1 []).2.1.isOk = false ∧ LeftAsItWas 1 (ascii "s1")
      (played sampleSha (sampleAnnounced 1)).2.store.db (sampleCommit 1 []).2.2.db := by
  have hfaults : (sampleCommit 1 []).1 = [] := by decide +kernel
  have hresult : (sampleCommit 1 []).2.1.isOk = false := by decide +kernel
  have hfaulty := sampleCommit_run 1 []
  refine ⟨hresult, ?_⟩
  rcases hcommit : (sampleCommit 1 []).2.1 with e | info
  · rw [hcommit, hfaults] at hfaulty
    exact (failed_commit_leaves_session_iff (sampleAnnounced_run (by decide +kernel))
      hfaulty).2.mpr (by simp)
  · rw [hcommit] at hresult
    cases hresult

/-- The size of a content that nobody has the memory for the manifest of. -/
def hugeSize : UInt64 := 4611686018427387904

/-- There is no memory for the manifest: the session is left COMMITTING. -/
theorem failed_commit_strands_session :
    Trace.Run (System.Step sampleSha anywhere) .initial
      (played sampleSha (sampleAnnounced hugeSize)).1
      (played sampleSha (sampleAnnounced hugeSize)).2 ∧ ∃ e s',
    Exec anywhere (commitSession sampleSha (sampleEnv 1) (ascii "s1"))
      (played sampleSha (sampleAnnounced hugeSize)).2.store (some (.error e)) s' ∧
    ¬ LeftAsItWas 1 (ascii "s1") (played sampleSha (sampleAnnounced hugeSize)).2.store.db s'.db ∧
    (s'.db.session? (ascii "s1")).map (·.state) = some .committing := by
  have hrun : Trace.Run (System.Step sampleSha anywhere) .initial
      (played sampleSha (sampleAnnounced hugeSize)).1
      (played sampleSha (sampleAnnounced hugeSize)).2 :=
    sampleAnnounced_run (by decide +kernel)
  refine ⟨hrun, ?_⟩
  obtain ⟨plan, hplan⟩ :
      ∃ plan, plan = [none, none, none, some (Error.std (ascii "std::bad_alloc"))] := ⟨_, rfl⟩
  have hfaults : (sampleCommit hugeSize plan).1 = [.reserve] := by
    rw [hplan]
    decide +kernel
  have hresult : (sampleCommit hugeSize plan).2.1.isOk = false := by
    rw [hplan]
    decide +kernel
  have hstate : ((sampleCommit hugeSize plan).2.2.db.session? (ascii "s1")).map (·.state) =
      some .committing := by
    rw [hplan]
    decide +kernel
  have hfaulty := sampleCommit_run hugeSize plan
  rcases hcommit : (sampleCommit hugeSize plan).2.1 with e | info
  · rw [hcommit] at hfaulty
    have hkept := System.run_kept hrun anywhere_harmless (Set.Subset.refl _) (.empty _ _ _)
    refine ⟨e, _, commitSession_exec_iff.mpr ⟨_, hfaulty⟩, fun h => ?_, hstate⟩
    have hall := (commitSteps_leftAsItWas_iff hkept.inv.rows.sessionKeys hfaulty).mp h
    rw [hfaults] at hall
    exact (hall .reserve (List.mem_singleton_self _)).1 trivial
  · rw [hcommit] at hresult
    cases hresult

end ForgeRelay
