import ForgeRelay.Storage.Concurrency
import ForgeRelay.Storage.LockedUploads

/-!
# Published artifacts under the threads of the server

Requests with the mutex, SESSION_ABORT and the maintenance without it: their statements come in
any order, any of them may fail, and the process may stop and start again. The published artifacts
stay what they are.
-/

namespace ForgeRelay

open Program Prog

/-- What happens among the threads: a call begins or a thread goes on, a step fails, or the process
stops. A step of the holder of the mutex that fails may leave anything in the temporary files, and
one of another thread any answer of `sqlite3_changes`. -/
inductive Incident
  | turn (cfg : StorageConfig) (turn : Turn)
  | holderFails (e : Error) (tmp : List (Bytes × Bytes))
  | freeFails (i : Nat) (e : Error) (changes : Nat)
  | stops

/-- The threads after it. -/
def Threads.after (sha : Sha256) (threads : Threads) : Incident → Threads
  | .turn cfg turn => threads.next sha cfg turn
  | .holderFails e tmp => threads.failHolder e { threads.state with tmp := tmp }
  | .freeFails i e changes => Threads.recount (threads.failFree i e) changes
  | .stops => threads.stop

def Threads.undergo (sha : Sha256) (threads : Threads) (incidents : List Incident) : Threads :=
  incidents.foldl (after sha) threads

/-- The content of a chunk that a call brings. -/
def Incident.chunk? : Incident → Option Bytes
  | .turn _ (.request (.putChunk _ _ data) _) => some data
  | _ => none

/-- The reference of the artifact that a call deletes. -/
def Incident.deletes? : Incident → Option (Bytes × Bytes × Bytes)
  | .turn _ (.request (.deleteArtifact ns name version) _) => some (ns, name, version)
  | _ => none

/-- The artifact has the announced size and digest, and a read with the mutex that is not stopped
gives the part of the content that is asked for, whatever the other threads do meanwhile. -/
structure ArtifactRow.Serves (sha : Sha256) (s : Store) (a : ArtifactRow) (content : Bytes) :
    Prop where
  size : a.size.toNat = content.length
  digest : a.digest = sha.hex content
  reads : ∀ offset ≤ a.size, ∀ length r s', Among Meddles (fun _ _ _ => False)
    (readArtifactSlice a.ns a.name a.version offset length) s r s' →
    r = none ∨ ∃ pieces sent, r = some (.ok (pieces, sent)) ∧
      pieces.flatten = (content.drop offset.toNat).take length.toNat

variable {sha : Sha256} {contents leaked : Set Bytes} {gone : ArtifactRow → Prop} {s₀ s : Store}

private theorem views_select {α : Type} {f : Db → α}
    (hf : ∀ db db', SameArtifacts db db' → f db' = f db) : Views Meddles (select f) := by
  apply Views.lift
  intro s
  refine ⟨rfl, fun s' hmeddles => ?_⟩
  simp only [hf s.db s'.db hmeddles.same]

private theorem views_chunkStoreGetRange (digestHex : Bytes) (offset len : UInt64) :
    Views Meddles (chunkStoreGetRange digestHex offset len) := by
  apply Views.ite
  · exact .throw _
  · apply Views.bind
    · unfold chunkPath
      split
      · exact .pure _
      · exact .throw _
    · intro path
      apply Views.lift
      intro s
      constructor
      · split <;> rfl
      · intro s' hmeddles
        simp only [hmeddles.files]
        split <;> rfl

private theorem views_readSliceEntries (offset remaining : UInt64) (entries : List ManifestEntry) :
    Views Meddles (readSliceEntries offset remaining entries) := by
  induction entries generalizing offset remaining with
  | nil => exact .pure _
  | cons entry rest ih =>
    refine .ite (.pure _) (.ite (ih _ _) (.ite (.pure _) ?_))
    apply Views.bind (views_chunkStoreGetRange _ _ _)
    intro data
    exact .bind (ih _ _) fun _ => .pure _

private theorem views_showArtifact (ns name version : Bytes) :
    Views Meddles (showArtifact ns name version) := by
  apply Views.bind
  · apply views_select
    intro db db' hsame
    rw [Db.artifact?, Db.artifact?, hsame.artifact]
  · intro found
    cases found with
    | none => exact .throw _
    | some row =>
      refine .bind (views_select fun db db' hsame => ?_) fun _ => .pure _
      simp only [Db.artifact?, hsame.artifact, hsame.manifest]

private theorem views_readArtifactSlice (ns name version : Bytes) (offset maxLen : UInt64) :
    Views Meddles (readArtifactSlice ns name version offset maxLen) := by
  apply Views.bind (views_showArtifact ns name version)
  intro info
  exact .ite (.throw _) (views_readSliceEntries _ _ _)

private theorem ArtifactsInv.serves (h : ArtifactsInv sha contents s)
    (hsha : sha.NoCollision contents)
    {a : ArtifactRow} (ha : a ∈ s.db.artifact) {chunks : List Bytes}
    (hdepicts : Depicts sha contents (s.db.manifest a.id) a chunks) :
    a.Serves sha s chunks.flatten where
  size := hdepicts.size
  digest := hdepicts.digest
  reads offset hoffset length r s' hamong := by
    obtain ⟨pieces, sent, hrun, hpieces, -⟩ :=
      (h.laidOut hsha hdepicts).readArtifactSlice_run (h.artifact?_eq ha) hoffset length
    have hwp : wpAmong Meddles (fun _ _ _ => False) (fun _ => True)
        (readArtifactSlice a.ns a.name a.version offset length)
        (fun r s' => (True ∧ Meddles s s' ∧
          r = ((readArtifactSlice a.ns a.name a.version offset length).run s).1) ∨
          (∃ e, r = .error e) ∧ False) s :=
      (views_readArtifactSlice _ _ _ _ _).among (fun _ _ _ => Meddles.trans)
        (fun _ _ _ _ => trivial) (fun _ _ => trivial) (fun _ _ _ _ hfails => hfails) trivial
        (.refl s)
    have hends := wpAmong_sound hwp hamong
    cases r with
    | none => exact .inl rfl
    | some r =>
      rcases hends with ⟨-, -, hresult⟩ | ⟨-, hfalse⟩
      · rw [hrun] at hresult
        exact .inr ⟨pieces, sent, by rw [hresult], hpieces⟩
      · exact hfalse.elim

private theorem keeps_program (cfg : StorageConfig) (env : CallEnv) {call : Call}
    (hlocks : call.locks = true)
    (hbring : ∀ data ∈ Incident.chunk? (.turn cfg (.request call env)), data ∈ contents)
    (hgone : ∀ ref ∈ Incident.deletes? (.turn cfg (.request call env)),
      ∀ a : ArtifactRow, a.ref = ref → gone a) (hs : IntactSince sha contents gone s₀ s) :
    KeepsIntact sha contents gone s₀ (call.program sha cfg env)
      (fun _ => IntactSince sha contents gone s₀) s := by
  cases call with
  | createSession ns name version size digest owner =>
    apply wpAmong_seq (keeps_quietly (meddling_createSession cfg env _ _ _ _ _ _) hs)
    exact fun _ _ h => h
  | putChunk sessionId ordinal data =>
    apply wpAmong_seq (keeps_putChunk env sessionId ordinal (hbring data rfl) hs)
    exact fun _ _ h => h
  | commitSession sessionId =>
    apply wpAmong_seq (keeps_commitSession env sessionId hs)
    exact fun _ _ h => h
  | abortSession sessionId => exact keeps_quietly (meddling_abortSession env sessionId) hs
  | deleteArtifact ns name version =>
    apply wpAmong_seq (keeps_deleteArtifact env ns name version (hgone _ rfl) hs)
    exact fun _ _ h => h
  | collectGarbage dryRun =>
    apply wpAmong_seq (keeps_collectGarbage cfg env dryRun hs)
    exact fun _ _ h => h
  | runMaintenance => cases hlocks

/-- The store is intact, and so it stays whatever the threads do next. -/
abbrev Threads.KeepIntact (sha : Sha256) (contents : Set Bytes) (gone : ArtifactRow → Prop)
    (s₀ : Store) (threads : Threads) : Prop :=
  threads.Guarded meddling (fun _ => Torn) (IntactSince sha contents gone s₀)

namespace Threads

variable {threads : Threads} {incident : Incident} {incidents : List Incident}

theorem KeepIntact.after (h : threads.KeepIntact sha contents gone s₀)
    (hbring : ∀ data ∈ incident.chunk?, data ∈ contents)
    (hgone : ∀ ref ∈ incident.deletes?, ∀ a : ArtifactRow, a.ref = ref → gone a) :
    (threads.after sha incident).KeepIntact sha contents gone s₀ := by
  have hguards : Pool.Guards meddling (fun _ : Label => Torn)
      (IntactSince sha contents gone s₀) :=
    ⟨fun _ _ => trivial, fun _ => trivial, fun _ _ => IntactSince.meddle⟩
  cases incident with
  | turn cfg turn =>
    cases turn with
    | request call env =>
      change Threads.KeepIntact sha contents gone s₀
        (if call.locks then threads.lock (call.program sha cfg env) else threads)
      split
      · rename_i hlocks
        apply h.lock
        apply wpAmong_mono (keeps_program cfg env hlocks hbring hgone h.state)
        intro r s hr
        cases r with
        | ok a => exact hr
        | error e => exact hr
      · exact h
    | sessionAbort sessionId env => exact h.spawn (meddling_abortSession env sessionId)
    | maintenance env =>
      exact h.spawn (.seq (meddling_runMaintenance env) fun _ => .pure trivial)
    | holder => exact h.runHolder
    | free i changes => exact (h.runFree hguards i).moved hguards (Meddles.recount _ changes)
  | holderFails e tmp => exact h.failHolder fun _ => ⟨tmp, rfl⟩
  | freeFails i e changes =>
    exact (h.failFree hguards i e).moved hguards (Meddles.recount _ changes)
  | stops => exact h.stop

theorem KeepIntact.undergo (h : threads.KeepIntact sha contents gone s₀)
    (hbring : ∀ i ∈ incidents, ∀ data ∈ i.chunk?, data ∈ contents)
    (hgone : ∀ i ∈ incidents, ∀ ref ∈ i.deletes?, ∀ a : ArtifactRow, a.ref = ref → gone a) :
    (threads.undergo sha incidents).KeepIntact sha contents gone s₀ := by
  induction incidents generalizing threads with
  | nil => exact h
  | cons i rest ih =>
    obtain ⟨hbring, hbrings⟩ := List.forall_mem_cons.mp hbring
    obtain ⟨hgone, hgones⟩ := List.forall_mem_cons.mp hgone
    exact ih (h.after hbring hgone) hbrings hgones

private theorem KeepIntact.rebase {gone' : ArtifactRow → Prop}
    (h : threads.KeepIntact sha contents gone s₀) (hfree : threads.holder = none) :
    threads.KeepIntact sha contents gone' threads.state where
  state := ⟨h.state.intact, (SameArtifacts.refl _).evolves⟩
  holder p hp := by
    rw [hfree] at hp
    cases hp
  free := h.free

theorem KeepIntact.deletesOnly (h : threads.KeepIntact sha contents gone s₀)
    (hfree : threads.holder = none) (hbring : ∀ i ∈ incidents, ∀ data ∈ i.chunk?, data ∈ contents) :
    (threads.undergo sha incidents).KeepIntact sha contents
      (fun a => ∃ i ∈ incidents, i.deletes? = some a.ref) threads.state := by
  apply (h.rebase hfree).undergo hbring
  intro i hi ref hdeletes a href
  rw [href]
  exact ⟨i, hi, hdeletes⟩

theorem idle_keepIntact {store : Store} (h : ArtifactsInv sha contents store) :
    (idle store).KeepIntact sha contents gone store where
  state := ⟨h, (SameArtifacts.refl _).evolves⟩
  holder p hp := by cases hp
  free p hp := by cases hp

end Threads

/-- Whatever the threads of the server do, in whichever order their statements come, whichever of
them fail and whenever the process stops: every published artifact serves a content of its size and
digest. Those that are there while nobody holds the mutex stay unless a later call deletes them,
and serve the same content as long as they are there. -/
theorem artifacts_shared {store : Store} (hsha : sha.NoCollision contents)
    (hinv : StoreInv sha contents leaked store) {before after : List Incident}
    (hbring : ∀ i ∈ before ++ after, ∀ data ∈ i.chunk?, data ∈ contents) {earlier later : Threads}
    (hearlier : (Threads.idle store).undergo sha before = earlier)
    (hlater : earlier.undergo sha after = later) :
    (∀ a ∈ later.state.db.artifact, ∃ content, a.Serves sha later.state content) ∧
      (earlier.holder = none → ∀ a ∈ earlier.state.db.artifact, ∃ content,
        a.Serves sha earlier.state content ∧
        ((∀ i ∈ after, i.deletes? ≠ some a.ref) → a ∈ later.state.db.artifact) ∧
        (a ∈ later.state.db.artifact → a.Serves sha later.state content)) := by
  obtain ⟨hbefore, hafter⟩ := List.forall_mem_append.mp hbring
  have hfirst : earlier.KeepIntact sha contents (fun _ => True) store :=
    hearlier ▸ (Threads.idle_keepIntact hinv.artifactsInv).undergo hbefore
      fun _ _ _ _ _ _ => trivial
  have hlast : later.KeepIntact sha contents (fun _ => True) store :=
    hlater ▸ hfirst.undergo hafter fun _ _ _ _ _ _ => trivial
  constructor
  · intro a ha
    obtain ⟨chunks, hdepicts⟩ := hlast.state.intact.depicted hsha a ha
    exact ⟨chunks.flatten, hlast.state.intact.serves hsha ha hdepicts⟩
  · intro hfree a ha
    obtain ⟨chunks, hdepicts⟩ := hfirst.state.intact.depicted hsha a ha
    have hrest := hfirst.deletesOnly hfree hafter
    rw [hlater] at hrest
    have hevolves := hrest.state.evolves
    refine ⟨chunks.flatten, hfirst.state.intact.serves hsha ha hdepicts, ?_, ?_⟩
    · intro hstays
      apply hevolves.keeps a ha
      rintro ⟨i, hi, hdeletes⟩
      exact hstays i hi hdeletes
    · intro ha'
      obtain ⟨-, hmanifest⟩ := hevolves.old a ha' (hfirst.state.intact.artifactIds a ha)
      exact hrest.state.intact.serves hsha ha' (hmanifest ▸ hdepicts)

/-- A commit during which the maintenance runs. -/
def sampleIncidents : List Incident :=
  List.map (.turn sampleConfig) (sampleRequests ++
    Turn.request (.commitSession (ascii "s1")) (sampleEnv 2) :: List.replicate 3 Turn.holder ++
    Turn.maintenance (sampleEnv 3) :: List.replicate 3 (Turn.free 0 1) ++
    List.replicate 24 Turn.holder)

/-- A statement of the maintenance fails, the garbage is collected, and the process stops. -/
def sampleAftermath : List Incident :=
  .freeFails 0 (.of .eIo "step: disk I/O error") 1 ::
    (wholeRequest (.collectGarbage false) (24 * 3600)).map (.turn sampleConfig) ++
    [.stops, .turn sampleConfig (.maintenance (sampleEnv 9)), .turn sampleConfig (.free 0 0)]

/-- The artifact that has been published meanwhile serves the same content afterwards. -/
theorem artifacts_shared_sample :
    ∃ earlier later a content, earlier = (Threads.idle .empty).undergo sampleSha sampleIncidents ∧
      later = earlier.undergo sampleSha sampleAftermath ∧ a ∈ earlier.state.db.artifact ∧
      a.Serves sampleSha earlier.state content ∧ a.Serves sampleSha later.state content := by
  obtain ⟨earlier, hearlier⟩ :
      ∃ threads, (Threads.idle .empty).undergo sampleSha sampleIncidents = threads := ⟨_, rfl⟩
  obtain ⟨later, hlater⟩ : ∃ threads, earlier.undergo sampleSha sampleAftermath = threads :=
    ⟨_, rfl⟩
  have hcollision : sampleSha.NoCollision {ascii "a"} := Set.injOn_singleton _ _
  have hbring : ∀ i ∈ sampleIncidents ++ sampleAftermath, ∀ data ∈ i.chunk?,
      data ∈ ({ascii "a"} : Set Bytes) := by
    have hchunks : (sampleIncidents ++ sampleAftermath).filterMap (·.chunk?) = [ascii "a"] := by
      decide +kernel
    intro i hi data hdata
    have hmem := List.mem_filterMap.mpr ⟨i, hi, hdata⟩
    rw [hchunks] at hmem
    exact List.mem_singleton.mp hmem
  have hfree : earlier.holder = none := by
    rw [← hearlier]
    apply Option.isNone_iff_eq_none.mp
    decide +kernel
  have hpublished : earlier.state.db.artifact ≠ [] := by
    rw [← hearlier]
    decide +kernel
  obtain ⟨a, ha⟩ := List.exists_mem_of_ne_nil _ hpublished
  obtain ⟨content, hserves, hstays, hlast⟩ := (artifacts_shared hcollision
    (.empty sampleSha {ascii "a"} ∅) hbring hearlier hlater).2 hfree a ha
  have hdeletes : ∀ i ∈ sampleAftermath, i.deletes? ≠ some a.ref := by
    have hnone : sampleAftermath.filterMap (·.deletes?) = [] := by decide +kernel
    intro i hi hdeletes
    have hmem := List.mem_filterMap.mpr ⟨i, hi, hdeletes⟩
    rw [hnone] at hmem
    cases hmem
  exact ⟨earlier, later, a, content, hearlier.symm, hlater.symm, ha, hserves,
    hlast (hstays hdeletes)⟩

end ForgeRelay
