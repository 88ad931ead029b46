import ForgeRelay.Storage.Machine
import ForgeRelay.Storage.Reading

/-!
# Published artifacts do not change

Whatever the operations do and wherever the process stops, every artifact in the table is whole,
and a read of it gives the bytes that were published.
-/

namespace ForgeRelay

open Program Prog

/-- The artifact with its manifest, its chunks and their files. -/
structure Intact (sha : Sha256) (s : Store) (a : ArtifactRow) (chunks : List Bytes) : Prop where
  ordinals : (s.db.manifest a.id).map (·.ordinal.toInt) =
    (List.range (s.db.manifest a.id).length).map Int.ofNat
  offsets : ∀ before e after, s.db.manifest a.id = before ++ e :: after →
    e.offset.toNat = (before.map (·.length.toNat)).sum
  size : ((s.db.manifest a.id).map (·.length.toNat)).sum = a.size.toNat
  active : ∀ e ∈ s.db.manifest a.id, ∃ c ∈ s.db.chunk, c.digest = e.digest ∧ c.state = .active
  files : List.Forall₂ (fun e data => s.files (relPath e.digest) = some (chunkFile data) ∧
    e.length.toNat = data.length ∧ e.digest = sha.hex data) (s.db.manifest a.id) chunks
  digest : a.digest = sha.hex chunks.flatten

variable {sha : Sha256} {contents leaked : Set Bytes} {s : Store}

private theorem manifestOf_ordinals {i off : Nat} {chunks : List Bytes}
    (hsmall : i + chunks.length < 2^63) :
    (manifestOf sha i off chunks).map (·.ordinal.toInt) =
      (List.range' i chunks.length).map Int.ofNat := by
  induction chunks generalizing i off with
  | nil => rfl
  | cons data rest ih =>
    rw [List.length_cons] at hsmall ⊢
    rw [manifestOf, List.map_cons, ih (by omega), List.range'_succ, List.map_cons,
      Int64.toInt_ofNat_of_lt (by omega)]
    rfl

private theorem manifestOf_offset {i off : Nat} {chunks : List Bytes}
    (hsmall : off + chunks.flatten.length < 2^64) {before after : List ManifestEntry}
    {e : ManifestEntry} (hsplit : manifestOf sha i off chunks = before ++ e :: after) :
    e.offset.toNat = off + (before.map (·.length.toNat)).sum := by
  induction chunks generalizing i off before with
  | nil => exact absurd hsplit.symm (by simp [manifestOf])
  | cons data rest ih =>
    rw [List.flatten_cons, List.length_append] at hsmall
    rw [manifestOf] at hsplit
    cases before with
    | nil =>
      obtain ⟨rfl, -⟩ := List.cons.inj hsplit
      exact uint64_toNat_ofNat (by omega)
    | cons first before =>
      obtain ⟨rfl, hrest⟩ := List.cons.inj hsplit
      rw [ih (by omega) hrest, List.map_cons, List.sum_cons,
        uint64_toNat_ofNat (by omega), Nat.add_assoc]

private theorem manifestOf_lengths {i off : Nat} {chunks : List Bytes}
    (hsmall : chunks.flatten.length < 2^64) :
    ((manifestOf sha i off chunks).map (·.length.toNat)).sum = chunks.flatten.length := by
  induction chunks generalizing i off with
  | nil => rfl
  | cons data rest ih =>
    rw [List.flatten_cons, List.length_append] at hsmall
    rw [manifestOf, List.map_cons, List.sum_cons, ih (by omega),
      uint64_toNat_ofNat (by omega), List.flatten_cons, List.length_append]

private theorem manifestOf_forall₂ {i off : Nat} {chunks : List Bytes}
    (hfiles : FilesOf sha chunks s) (hsmall : chunks.flatten.length < 2^64) :
    List.Forall₂ (fun e data => s.files (relPath e.digest) = some (chunkFile data) ∧
      e.length.toNat = data.length ∧ e.digest = sha.hex data)
      (manifestOf sha i off chunks) chunks := by
  induction chunks generalizing i off with
  | nil => exact .nil
  | cons data rest ih =>
    rw [List.flatten_cons, List.length_append] at hsmall
    obtain ⟨hfile, hrest⟩ := List.forall_mem_cons.mp hfiles
    refine .cons ⟨hfile, uint64_toNat_ofNat ?_, rfl⟩ (ih hrest (by omega))
    omega

/-- What the invariant says about an artifact, written out. -/
theorem StoreInv.intact (hinv : StoreInv sha contents leaked s) (hsha : sha.NoCollision contents)
    {a : ArtifactRow} {chunks : List Bytes}
    (hdepicts : Depicts sha contents (s.db.manifest a.id) a chunks) : Intact sha s a chunks := by
  have hsmall : chunks.flatten.length < 2^64 := hdepicts.size ▸ a.size.toNat_lt
  have hcount := hdepicts.count
  have hmanifest := hdepicts.manifest
  refine ⟨?_, fun before e after hsplit => ?_, ?_, fun e he => ?_, ?_, hdepicts.digest⟩
  · rw [hmanifest, manifestOf_ordinals (by omega), manifestOf_length, List.range_eq_range']
  · rw [hmanifest] at hsplit
    rw [manifestOf_offset (by omega) hsplit, Nat.zero_add]
  · rw [hmanifest, manifestOf_lengths hsmall, hdepicts.size]
  · obtain ⟨r, hr, -, rfl⟩ := Db.mem_manifest.mp he
    exact (hinv.held _ (.inl (Db.inManifest_iff.mpr ⟨r, hr, rfl⟩))).row
  · rw [hmanifest]
    exact manifestOf_forall₂ (hinv.filesOf hsha hdepicts) hsmall

theorem StoreInv.readArtifact_whole (hinv : StoreInv sha contents leaked s)
    (hsha : sha.NoCollision contents) {a : ArtifactRow} (ha : a ∈ s.db.artifact)
    {chunks : List Bytes} (hdepicts : Depicts sha contents (s.db.manifest a.id) a chunks)
    {length : UInt64} (hlength : a.size ≤ length) :
    (readArtifact a.ns a.name a.version 0 length).run s = (.ok chunks.flatten, s) := by
  have hle := UInt64.le_iff_toNat_le.mp hlength
  rw [hdepicts.size] at hle
  rw [readArtifact_run hinv hsha ha hdepicts UInt64.zero_le, UInt64.toNat_zero, List.drop_zero,
    List.take_of_length_le hle]

/-- The process may stop before every step, and every step may fail. -/
def anywhere : Label → Store → Prop := fun _ _ => True

theorem anywhere_harmless : Harmless sha contents Set.univ anywhere := by
  intro digests s _ h
  rwa [Set.univ_union] at h

/-- In every state that a run reaches, each artifact is intact; from then on it stays in the table
until it is deleted, and as long as it is there a full read gives the same bytes. -/
theorem artifacts_stay_intact {sys sys' : System} {events events' : List Event}
    (hsha : sha.NoCollision (putData (events ++ events')))
    (hrun : Trace.Run (System.Step sha anywhere) .initial events sys)
    (hrun' : Trace.Run (System.Step sha anywhere) sys events' sys') {a : ArtifactRow}
    (ha : a ∈ sys.store.db.artifact) :
    ∃ chunks, Intact sha sys.store a chunks ∧
      (∀ length, a.size ≤ length →
        (readArtifact a.ns a.name a.version 0 length).run sys.store =
          (.ok chunks.flatten, sys.store)) ∧
      (a ∈ sys'.store.db.artifact ∨ ∃ e ∈ events', e.deletes a.ref) ∧
      (a ∈ sys'.store.db.artifact → Intact sha sys'.store a chunks ∧
        ∀ length, a.size ≤ length →
          (readArtifact a.ns a.name a.version 0 length).run sys'.store =
            (.ok chunks.flatten, sys'.store)) := by
  have hput : putData events ⊆ putData (events ++ events') ∧
      putData events' ⊆ putData (events ++ events') := by
    rw [putData_append]
    exact ⟨Set.subset_union_left, Set.subset_union_right⟩
  have hkept := System.run_kept hrun anywhere_harmless hput.1 (.empty _ _ _)
  have hkept' := System.run_kept hrun' anywhere_harmless hput.2 hkept.inv
  obtain ⟨chunks, hdepicts⟩ := hkept.inv.depicted hsha a ha
  refine ⟨chunks, hkept.inv.intact hsha hdepicts,
    fun length => hkept.inv.readArtifact_whole hsha ha hdepicts, ?_, fun ha' => ?_⟩
  · by_cases hgone : ∃ e ∈ events', e.deletes a.ref
    · exact .inr hgone
    · exact .inl (hkept'.evolves.keeps a ha hgone)
  · have hmanifest := (hkept'.evolves.old a ha' (hkept.inv.rows.artifactIds a ha)).2
    have hdepicts' : Depicts sha _ (sys'.store.db.manifest a.id) a chunks := hmanifest ▸ hdepicts
    exact ⟨hkept'.inv.intact hsha hdepicts',
      fun length => hkept'.inv.readArtifact_whole hsha ha' hdepicts'⟩

/-- The sample upload is committed. -/
def samplePublish : List Move :=
  sampleUpload ++ [(Action.call (.commitSession (ascii "s1"))).at (sampleEnv 2)]

/-- Garbage collection after the sample upload has been published. -/
def sampleCollect : Move := (Action.call (.collectGarbage false)).at (sampleEnv 100000)

/-- The published artifact is intact, and the collection leaves it so. -/
theorem artifacts_stay_intact_sample :
    ∃ a ∈ (played sampleSha samplePublish).2.store.db.artifact, ∃ e sys' chunks,
      (played sampleSha samplePublish).2.move sampleSha sampleCollect = some (e, sys') ∧
        Intact sampleSha (played sampleSha samplePublish).2.store a chunks ∧
        (a ∈ sys'.store.db.artifact ∨ ∃ e' ∈ [e], e'.deletes a.ref) := by
  obtain ⟨⟨e, sys'⟩, hmove⟩ : ∃ r,
      (played sampleSha samplePublish).2.move sampleSha sampleCollect = some r :=
    Option.isSome_iff_exists.mp (by decide +kernel)
  have hchunk : ((played sampleSha samplePublish).2.move sampleSha sampleCollect).map
      (·.1.chunk?) = some none := by decide +kernel
  rw [hmove, Option.map_some, Option.some.injEq] at hchunk
  have hdata : (played sampleSha samplePublish).1.filterMap Event.chunk? = [ascii "a"] := by
    decide +kernel
  have hput : putData ((played sampleSha samplePublish).1 ++ [e]) = {ascii "a"} := by
    ext data
    simp [putData, hdata, hchunk]
  obtain ⟨a, ha⟩ := List.exists_mem_of_length_pos
    (show 0 < (played sampleSha samplePublish).2.store.db.artifact.length by decide +kernel)
  have hrun : Trace.Run (System.Step sampleSha anywhere) .initial
      (played sampleSha samplePublish).1 (played sampleSha samplePublish).2 :=
    played_run (fun _ _ => .inr fun _ _ => trivial) (by decide +kernel)
  obtain ⟨chunks, hintact, -, hstays, -⟩ := artifacts_stay_intact
    (by rw [hput]; exact Set.subsingleton_singleton.injOn _) hrun
    (.single (System.move_step (.inl rfl) hmove)) ha
  exact ⟨a, ha, e, sys', chunks, hmove, hintact, hstays⟩

end ForgeRelay
