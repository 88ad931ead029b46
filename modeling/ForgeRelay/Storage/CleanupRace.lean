import ForgeRelay.Storage.PutStages

/-!
# The cleanup beside a put

`cleanup_temp_files` runs in the maintenance thread while a worker is in `put_chunk`. It takes every
file in `tmp/` with its prefix for one that nobody uses any more.
-/

namespace ForgeRelay

open Program Prog

/-- A put in a worker and a cleanup in the maintenance thread, each with what is left of it. -/
structure Race where
  put : StorageM ChunkAccept
  cleanup : StorageM Nat
  store : Store

/-- Who takes the next step. -/
inductive Runner
  | put | cleanup

namespace Race

/-- Both begin. -/
def start (c : PutCall) (store : Store) : Race := ⟨c.program, cleanupTempFiles, store⟩

def next (race : Race) : Runner → Race
  | .put =>
    { race with
      put := (race.put.advance race.store).1
      store := (race.put.advance race.store).2 }
  | .cleanup =>
    { race with
      cleanup := (race.cleanup.advance race.store).1
      store := (race.cleanup.advance race.store).2 }

/-- Their steps in this order. -/
def run (race : Race) (turns : List Runner) : Race := turns.foldl next race

/-- In these turns the cleanup unlinks the temporary file of this name behind its creation by the
put, which may have come before them, and before its rename. -/
def unlinksCreated (name : Bytes) : Bool → Race → List Runner → Bool
  | _, _, [] => false
  | created, race, .put :: turns =>
    unlinksCreated name
      (created || (!race.store.hasTmp name && (race.next .put).store.hasTmp name))
      (race.next .put) turns
  | created, race, .cleanup :: turns =>
    (created && (race.store.hasTmp name && !(race.next .cleanup).store.hasTmp name)) ||
      unlinksCreated name created (race.next .cleanup) turns

/-- What a step of the cleanup does: nothing, or it unlinks a file. -/
def Unlinks (_ : Label) (s s' : Store) : Prop := s' = s ∨ ∃ n, s' = s.dropTmp (· == n)

private theorem steady_unlinkTempFiles (names : List Bytes) :
    Steady (fun _ => True) (fun _ _ => True) Unlinks (unlinkTempFiles names) := by
  induction names with
  | nil => exact .pure _
  | cons n rest ih =>
    refine Steady.bind ?_ fun _ => Steady.bind ih fun _ => .pure _
    split
    · refine Steady.tryCatch (Steady.bind ?_ fun _ => .pure _) fun _ => .pure _
      exact .lift (fun _ _ => trivial) fun s _ => ⟨.inr ⟨n, rfl⟩, trivial⟩
    · exact .pure _

private theorem steady_cleanupTempFiles :
    Steady (fun _ => True) (fun _ _ => True) Unlinks cleanupTempFiles :=
  Steady.bind (.lift (fun _ _ => trivial) fun _ _ => ⟨.inl rfl, trivial⟩) steady_unlinkTempFiles

/-- Where the put stands, and the rest of the cleanup only unlinks. -/
structure Inv (c : PutCall) (R : Set (Except Error ChunkAccept)) (created removed : Bool)
    (race : Race) : Prop where
  stage : PutCall.Stage c R created removed race.put race.store
  cleanup : Safe (fun _ _ => True) Unlinks race.cleanup (fun _ _ => True) race.store

variable {c : PutCall} {R : Set (Except Error ChunkAccept)} {created removed : Bool} {race : Race}

theorem Inv.put (h : Inv c R created removed race) :
    Inv c R (created || (!race.store.hasTmp c.name && (race.next .put).store.hasTmp c.name))
      removed (race.next .put) :=
  ⟨h.stage.put, h.cleanup.elsewhere fun _ _ _ => trivial⟩

theorem Inv.unlink (h : Inv c R created removed race) :
    Inv c R created (removed ||
      (created && (race.store.hasTmp c.name && !(race.next .cleanup).store.hasTmp c.name)))
      (race.next .cleanup) := by
  have hstay : (race.next .cleanup).store = race.store →
      PutCall.Stage c R created (removed ||
        (created && (race.store.hasTmp c.name && !(race.next .cleanup).store.hasTmp c.name)))
        race.put (race.next .cleanup).store := by
    intro hsame
    rw [hsame, Bool.and_not_self, Bool.and_false, Bool.or_false]
    exact h.stage
  cases hhead : race.cleanup.head? with
  | none =>
    have hend := advance_of_none (s := race.store) hhead
    refine ⟨hstay ?_, ?_⟩
    · rw [next, hend]
    · rw [next, hend]
      exact h.cleanup
  | some l =>
    obtain ⟨-, hstep, hrest⟩ := h.cleanup.advance hhead
    refine ⟨?_, hrest⟩
    rcases hstep with hsame | ⟨n, hdrop⟩
    · exact hstay hsame
    · have hstore : (race.next .cleanup).store = race.store.dropTmp (· == n) := hdrop
      rw [hstore]
      exact h.stage.drop n

theorem Inv.run (h : Inv c R created removed race) (turns : List Runner) :
    ∃ created', Inv c R created' (removed || race.unlinksCreated c.name created turns)
      (race.run turns) := by
  induction turns generalizing created removed race with
  | nil => exact ⟨created, by rw [unlinksCreated, Bool.or_false]; exact h⟩
  | cons turn turns ih =>
    cases turn with
    | put => exact ih h.put
    | cleanup =>
      rw [unlinksCreated, ← Bool.or_assoc]
      exact ih h.unlink

theorem Inv.result {r : Except Error ChunkAccept} (h : Inv c R created removed race)
    (hdone : race.put.result? = some r) : if removed then r = .error renameLost else r ∈ R := by
  obtain ⟨put, cleanup, store⟩ := race
  have hrun : (put.run store).1 = r := by rw [run_of_result? hdone store]
  rw [← hrun]
  cases h.stage with
  | checking hp hresult hdrop => exact hresult
  | creating htarget hresult hdrop => exact hresult
  | filling hp hfill htarget htmp hresult =>
    cases removed with
    | false => exact hresult rfl
    | true => exact PutCall.filling_lost hp hfill htarget htmp
  | placing htarget htmp hresult =>
    cases removed with
    | false => exact hresult rfl
    | true => exact PutCall.renameFile_register_lost htarget htmp
  | givingUp hp hresult => exact hresult
  | registering hp hresult htmp => exact hresult

/-- What the put returns if the whole cleanup comes before it, and if it comes after it. -/
def results (c : PutCall) (store : Store) : Set (Except Error ChunkAccept) :=
  {r | r = (c.program.run (cleanupTempFiles.run store).2).1 ∨ r = (c.program.run store).1}

/-- A put that has ended beside a cleanup has the result of one before it or after it, if and only
if the cleanup has not unlinked the temporary file between its creation and its rename. -/
theorem put_beside_cleanup_iff (c : PutCall) (store : Store) (turns : List Runner)
    {r : Except Error ChunkAccept} (hdone : ((start c store).run turns).put.result? = some r) :
    (r = (c.program.run (cleanupTempFiles.run store).2).1 ∨ r = (c.program.run store).1) ↔
      unlinksCreated c.name false (start c store) turns = false := by
  have haware : Unaware (dropsBut c.name) Set.univ c.program := by
    rw [c.program_eq]
    exact (((unaware_drops c.unaware_check).anti (dropsBut_subset _)).mono (Set.subset_univ _)).bind
      fun _ => c.unaware_storeAndRegister
  have hbefore : (c.program.run (store.dropTmp (· == c.name))).1 =
      (c.program.run (cleanupTempFiles.run store).2).1 := by
    have htemp : isTempName c.name = true := rfl
    have hothers : (cleanupTempFiles.run store).2 =
        (store.dropTmp (· == c.name)).dropTmp fun n => isTempName n && !(n == c.name) := by
      rw [cleanupTempFiles_run, Store.dropTmp_dropTmp]
      refine congrArg store.dropTmp (funext fun n => ?_)
      by_cases hn : n = c.name
      · rw [hn, htemp, beq_self_eq_true, Bool.true_or]
      · rw [beq_eq_false_iff_ne.mpr hn, Bool.false_or, Bool.not_false, Bool.and_true]
    have hspares : (isTempName c.name && !(c.name == c.name)) = false := by
      rw [beq_self_eq_true, Bool.not_true, Bool.and_false]
    rw [hothers]
    exact (congrArg Prod.fst (haware.run ⟨_, hspares, rfl⟩ _)).symm
  have hstage : PutCall.Stage c (results c store) false false
      (c.check >>= fun _ => c.storeAndRegister) store := by
    refine .checking c.unaware_check ?_ ?_
    · exact .inr (congrArg (fun p => (Prog.run p store).1) c.program_eq.symm)
    · refine .inl (Eq.trans ?_ hbefore)
      exact congrArg (fun p => (Prog.run p (store.dropTmp (· == c.name))).1) c.program_eq.symm
  have hstart : Inv c (results c store) false false (start c store) := by
    refine ⟨?_, safe_mono (steady_cleanupTempFiles store trivial) fun _ _ _ => trivial⟩
    rw [show (start c store).put = c.check >>= fun _ => c.storeAndRegister from c.program_eq]
    exact hstage
  obtain ⟨created, hend⟩ := hstart.run turns
  have hresult := hend.result hdone
  rw [Bool.false_or] at hresult
  cases hlive : unlinksCreated c.name false (start c store) turns with
  | false =>
    rw [hlive] at hresult
    exact ⟨fun _ => rfl, fun _ => hresult⟩
  | true =>
    rw [hlive] at hresult
    refine ⟨fun h => ?_, fun h => by cases h⟩
    rcases h with h | h
    · exact absurd (h.symm.trans hresult) (c.program_not_lost _)
    · exact absurd (h.symm.trans hresult) (c.program_not_lost _)

end Race

/-- The session `s1` is open, and an earlier process has left a temporary file behind. -/
def sampleLeftover : Store :=
  { ((createSession sampleConfig (sampleEnv 0) (ascii "team") (ascii "app") (ascii "1.0") 1
      (sampleSha.hex (ascii "a")) (ascii "alice")).run .empty).2 with
    tmp := [(ascii "frtmp-chunk-0.part", [])] }

/-- The chunk `a` is put. -/
def samplePut : PutCall := ⟨sampleSha, sampleEnv 1, ascii "s1", 0, ascii "a"⟩

/-- The cleanup lists the directory before the put creates its file. -/
def sampleTurns : List Runner :=
  .put :: .cleanup :: List.replicate 4 .put ++ .cleanup :: List.replicate 8 .put

theorem put_beside_cleanup_sample :
    ∃ r, ((Race.start samplePut sampleLeftover).run sampleTurns).put.result? = some r ∧
      (r = (samplePut.program.run (cleanupTempFiles.run sampleLeftover).2).1 ∨
        r = (samplePut.program.run sampleLeftover).1) := by
  have hdone : ((Race.start samplePut sampleLeftover).run sampleTurns).put.result? =
      some (.ok ⟨sampleSha.hex (ascii "a"), false⟩) := by decide +kernel
  exact ⟨_, hdone, (Race.put_beside_cleanup_iff samplePut sampleLeftover _ hdone).mpr
    (by decide +kernel)⟩

/-- The cleanup comes between the creation and the rename, and the put fails. -/
theorem put_beside_cleanup_lost :
    ((Race.start samplePut sampleLeftover).run
      (List.replicate 5 .put ++ List.replicate 3 .cleanup ++ List.replicate 12 .put)).put.result? =
        some (.error renameLost) ∧
      (samplePut.program.run (cleanupTempFiles.run sampleLeftover).2).1 =
        .ok ⟨sampleSha.hex (ascii "a"), false⟩ ∧
      (samplePut.program.run sampleLeftover).1 = .ok ⟨sampleSha.hex (ascii "a"), false⟩ := by
  decide +kernel

end ForgeRelay
