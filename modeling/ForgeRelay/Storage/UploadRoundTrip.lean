import ForgeRelay.Storage.Reading
import ForgeRelay.Storage.Recovery
import ForgeRelay.Storage.Uploading

/-!
# What is uploaded is what is read

A content that is cut into slices, put in any order and committed is published with the manifest
of its slices, and a read gives the content.
-/

namespace ForgeRelay

open Program Prog Slices

variable {sha : Sha256} {contents : Set Bytes} {s s₀ : Store} {session : SessionInfo} {c : Bytes}
  {done : List Nat}

private theorem Uploading.partsByOrdinal_eq (h : Uploading sha contents session c s₀ done s)
    (hann : Announces sha session c) (hall : ∀ i < session.slices c, i ∈ done) :
    s.db.partsByOrdinal session.id =
      (List.range (session.slices c)).map (slicePart sha session c) := by
  have hordinal {i : Nat} (hi : i < session.slices c) :
      (slicePart sha session c i).ordinal.toInt = i :=
    Int64.toInt_ofNat_of_lt (hann.slices_lt hi)
  have hsorted : ((List.range (session.slices c)).map (slicePart sha session c)).Pairwise
      fun a b => a.ordinal.toInt < b.ordinal.toInt := by
    rw [List.pairwise_map]
    refine List.pairwise_lt_range.imp_of_mem fun {i j} hi hj hlt => ?_
    rw [hordinal (List.mem_range.mp hi), hordinal (List.mem_range.mp hj)]
    exact Int.ofNat_lt.mpr hlt
  refine Table.orderBy_eq ((List.perm_ext_iff_of_nodup ?_ ?_).mpr fun p => ?_) hsorted
  · exact (List.Nodup.of_map _ h.good.inv.rows.partKeys).filter _
  · exact hsorted.imp fun hlt => by
      rintro rfl
      exact lt_irrefl _ hlt
  · simp only [List.mem_filter, beq_iff_eq, List.mem_map, List.mem_range]
    constructor
    · rintro ⟨hp, hid⟩
      obtain ⟨i, -, hi, rfl⟩ := h.parts p hp hid
      exact ⟨i, hi, rfl⟩
    · rintro ⟨i, hi, rfl⟩
      exact ⟨h.present i (hall i hi), rfl⟩

/-- All slices of the session's content. -/
def SessionInfo.allSlices (session : SessionInfo) (c : Bytes) : List Bytes :=
  Slices.slices c session.chunkSize.toNat

theorem Announces.flatten_allSlices (hann : Announces sha session c) :
    (session.allSlices c).flatten = c := Slices.flatten_slices c hann.chunk

private theorem mem_allSlices {data : Bytes} :
    data ∈ session.allSlices c ↔ ∃ i < session.slices c, session.slice c i = data :=
  Slices.mem_slices

private theorem allSlices_length_le :
    ∀ data ∈ session.allSlices c, data.length ≤ session.chunkSize.toNat := by
  intro data hdata
  obtain ⟨i, -, rfl⟩ := mem_allSlices.mp hdata
  exact Slices.slice_length_le _ _ _

private theorem scanParts_slices (hann : Announces sha session c) :
    scanParts session.chunkSize 0 0 []
        ((List.range (session.slices c)).map (slicePart sha session c)) =
      .ok (manifestOf sha 0 0 (session.allSlices c), UInt64.ofNat c.length) := by
  have hreg : List.Forall₂ (Registers sha)
      ((List.range (session.slices c)).map (slicePart sha session c)) (session.allSlices c) := by
    unfold SessionInfo.allSlices Slices.slices
    refine List.forall₂_map_left_iff.mpr (List.forall₂_map_right_iff.mpr ?_)
    refine List.forall₂_same.mpr fun i hi => ⟨rfl, ?_⟩
    have hle : (session.slice c i).length ≤ session.chunkSize.toNat := Slices.slice_length_le _ _ _
    have hlt := session.chunkSize.toNat_lt
    exact uint64_toNat_ofNat (by omega)
  have hordinals : ((List.range (session.slices c)).map (slicePart sha session c)).map (·.ordinal) =
      (List.range' 0 ((List.range (session.slices c)).map
        (slicePart sha session c)).length).map Int64.ofNat := by
    rw [List.map_map, List.length_map, List.length_range, ← List.range_eq_range']
    rfl
  have hscan : scanParts session.chunkSize (Int64.ofNat 0) (UInt64.ofNat 0) []
      ((List.range (session.slices c)).map (slicePart sha session c)) = _ :=
    scanParts_of_registers hreg hordinals allSlices_length_le
  rwa [List.reverse_nil, List.nil_append, Nat.zero_add, hann.flatten_allSlices] at hscan

/-- The streaming loop over complete files. -/
theorem readChunks_run {chunks : List Bytes} {i off : Nat}
    (hsize : ∀ data ∈ chunks, data.length < 2^64)
    (hfiles : FilesOf sha chunks s) :
    (readChunks (manifestOf sha i off chunks)).run s = (.ok chunks.flatten, s) := by
  induction chunks generalizing i off with
  | nil => rfl
  | cons data rest ih =>
    obtain ⟨hdata, hrest⟩ := List.forall_mem_cons.mp hsize
    obtain ⟨hfile, hfiles⟩ := List.forall_mem_cons.mp hfiles
    have hget : (chunkStoreGet (sha.hex data)).run s = (.ok data, s) := by
      rw [chunkStoreGet, chunkStoreGetRange_run hdata (by simp) hfile, UInt64.toNat_zero,
        List.drop_zero, List.take_of_length_le]
      rw [uint64_toNat_ofNat (by decide)]
      omega
    rw [manifestOf, readChunks, run_bind, hget]
    dsimp only
    rw [run_bind, ih hrest hfiles]
    rfl

private theorem commitBody_run {leaked : Set Bytes} {now : Int64}
    (hinv : StoreInv sha contents leaked s) (hann : Announces sha session c)
    (hparts : s.db.partsByOrdinal session.id =
      (List.range (session.slices c)).map (slicePart sha session c))
    (hheld : ∀ data ∈ session.allSlices c, Held s (sha.hex data))
    (hfiles : FilesOf sha (session.allSlices c) s)
    (hcount : session.slices c ≤ maxManifestEntries)
    (hfree : s.db.artifact? session.ns session.name session.version = none)
    (hids : s.db.artifactSeq < maxRowid) :
    (commitBody sha now session).run s =
      (.ok ((session.artifactRow now).info (manifestOf sha 0 0 (session.allSlices c))), { s with
        db := (s.db.published (session.artifactRow now) (manifestOf sha 0 0 (session.allSlices c))
          session.id) }) := by
  have hreserve : (reserveManifest (chunkCount session)).run s = (.ok (), s) := by
    rw [reserveManifest, run_lift, hann.chunkCount_eq, if_neg (Nat.not_lt.mpr hcount)]
  have hlength : (manifestOf sha 0 0 (session.allSlices c)).length =
      (chunkCount session).toNat := by
    rw [manifestOf_length, hann.chunkCount_eq]
    exact Slices.slices_length _ _
  have hactive : ∀ e ∈ manifestOf sha 0 0 (session.allSlices c), ∀ d ∈ s.db.chunk,
      d.digest = e.digest → d.state = .active := by
    intro e he
    obtain ⟨data, hdata, hdigest⟩ := mem_manifestOf_digest.mp ⟨e, he, rfl⟩
    exact hinv.active_of_held (hdigest ▸ hheld data hdata)
  have hsmall : 0 + (session.allSlices c).length < 2^63 := by
    rw [manifestOf_length] at hlength
    rw [hlength, hann.chunkCount_eq, Nat.zero_add]
    exact hcount.trans_lt (by decide)
  have hpublish : (publish now session (manifestOf sha 0 0 (session.allSlices c))).run s = _ :=
    publish_run hinv (manifestOf_sorted hsmall) hactive hfree hids
  have hread : (readChunks (manifestOf sha 0 0 (session.allSlices c))).run s = (.ok c, s) := by
    rw [readChunks_run (fun data hdata => ?_) hfiles, hann.flatten_allSlices]
    exact (allSlices_length_le data hdata).trans_lt (UInt64.toNat_lt _)
  unfold commitBody
  rw [run_bind, run_labelled, hreserve]
  dsimp only
  rw [run_bind, run_labelled, run_select, hparts]
  dsimp only
  rw [scanParts_slices hann]
  dsimp only
  rw [if_neg (not_not.mpr hlength), if_neg (not_not.mpr hann.size.symm), run_bind, run_tryCatch,
    run_labelled, hread]
  dsimp only
  rw [if_neg (not_not.mpr hann.digest.symm), run_bind, run_labelled, tx, transaction, run_lift,
    hpublish]
  rfl

theorem transition_run {sessionId : Bytes} {source target : SessionState}
    (hfound : ∃ r ∈ s.db.uploadSession, r.id = sessionId ∧ r.state = source) :
    (transition sessionId source target).run s = (.ok true,
      s.updateSessions (fun r => r.id == sessionId && r.state == source) target) := by
  obtain ⟨r, hr, hid, hstate⟩ := hfound
  have hpos : 0 < s.db.countSessions fun r => r.id == sessionId && r.state == source :=
    List.countP_pos_iff.mpr ⟨r, hr, by simp [hid, hstate]⟩
  rw [run_transition, decide_eq_true hpos]

theorem Uploading.commitSession_run (h : Uploading sha contents session c s₀ done s)
    (hann : Announces sha session c) (hall : ∀ i < session.slices c, i ∈ done)
    (hsha : sha.NoCollision contents) (hdata : ∀ i < session.slices c, session.slice c i ∈ contents)
    (hcount : session.slices c ≤ maxManifestEntries)
    (hfree : s₀.db.artifact? session.ns session.name session.version = none)
    (hids : s₀.db.artifactSeq < maxRowid) {env : CallEnv} (hdue : env.now < session.expiresAt) :
    ∃ s' a, (commitSession sha env session.id).run s =
        (.ok (a.info (manifestOf sha 0 0 (session.allSlices c))), s') ∧
      StoreInv sha contents Set.univ s' ∧ a ∈ s'.db.artifact ∧
      a.ref = (session.ns, session.name, session.version) ∧ a.size = session.expectedSize ∧
      Depicts sha contents (s'.db.manifest a.id) a (session.allSlices c) := by
  obtain ⟨hsession, -⟩ := Db.session?_some h.row
  obtain ⟨s₁, hs₁⟩ : ∃ s₁ : Store, s₁ = s.updateSessions
    (fun r => r.id == session.id && r.state == .open) .committing := ⟨_, rfl⟩
  have htransition : (transition session.id .open .committing).run s = (.ok true, s₁) :=
    hs₁ ▸ transition_run ⟨session, hsession, rfl, hann.state⟩
  have hcommitting :
      ({ session with state := .committing } : SessionInfo) ∈ s₁.db.uploadSession := by
    rw [hs₁]
    exact Table.mem_update.mpr ⟨session, hsession, by simp [hann.state]⟩
  have hgood : Good sha contents s₀ Set.univ s₁ := by
    rw [hs₁]
    refine h.good.updateSessions (fun r _ hr => ?_) (by simp)
    simp only [Bool.and_eq_true, beq_iff_eq] at hr
    rw [hr.2]
    rfl
  have hpart : s₁.db.uploadPart = s.db.uploadPart := hs₁ ▸ rfl
  have hheld : ∀ data ∈ session.allSlices c, Held s₁ (sha.hex data) := by
    intro data hdata
    obtain ⟨i, hi, rfl⟩ := mem_allSlices.mp hdata
    exact hgood.inv.held _ (.inr (Db.inLivePart_iff.mpr
      ⟨_, hpart ▸ h.present i (hall i hi), rfl, _, hcommitting, rfl, rfl⟩))
  have hknown : ∀ data ∈ session.allSlices c, data ∈ contents := by
    intro data hmem
    obtain ⟨i, hi, rfl⟩ := mem_allSlices.mp hmem
    exact hdata i hi
  have hfiles : FilesOf sha (session.allSlices c) s₁ := fun data hmem =>
    hgood.inv.file_eq hsha (hknown data hmem) (hheld data hmem).file
  have hfree₁ : s₁.db.artifact? session.ns session.name session.version = none := by
    rw [Db.artifact?, hgood.same.artifact]
    exact hfree
  have hseq : s₁.db.artifactSeq < maxRowid := hgood.same.artifactSeq ▸ hids
  have hbody : (commitBody sha env.now session).run s₁ = _ := commitBody_run hgood.inv hann
    (by rw [Db.partsByOrdinal, hpart]; exact h.partsByOrdinal_eq hann hall) hheld hfiles hcount
    hfree₁ hseq
  have hsmall : (session.allSlices c).length < 2^63 := by
    rw [SessionInfo.allSlices, Slices.slices_length]
    exact hcount.trans_lt (by decide)
  have hsize : session.expectedSize.toNat = (session.allSlices c).flatten.length := by
    have hfits := hann.fits
    rw [hann.flatten_allSlices, hann.size, uint64_toNat_ofNat (by omega)]
  have hdigest : session.expectedDigest = sha.hex (session.allSlices c).flatten := by
    rw [hann.flatten_allSlices, hann.digest]
  have hinv := hgood.inv.publish (session.artifactRow env.now) hcommitting rfl
    (Db.artifact?_none hfree₁) hknown hsmall hsize (fun _ => hdigest) hheld (fun p hp hid => ?_)
  · refine ⟨_, { session.artifactRow env.now with id := s₁.db.artifactSeq + 1 }, ?_, hinv,
      List.mem_append_right _ (List.mem_singleton_self _), rfl, rfl, hknown, hsmall,
      hgood.inv.rows.manifest_published hsmall, hsize, hdigest⟩
    unfold commitSession
    rw [run_bind, loadSession_run h.row]
    dsimp only
    rw [run_bind, expireSessionIfDue_run hdue]
    dsimp only
    rw [run_bind, htransition]
    dsimp only
    rw [if_pos rfl, hbody]
    rfl
  · rw [hpart] at hp
    obtain ⟨i, -, hi, rfl⟩ := h.parts p hp hid
    exact ⟨_, mem_allSlices.mpr ⟨i, hi, rfl⟩, rfl⟩

theorem createSession_uploading {leaked : Set Bytes} {cfg : StorageConfig} {env : CallEnv}
    {ns name version owner : Bytes} {expectedSize : UInt64} {expectedDigest : Bytes} {s₁ : Store}
    (hinv : StoreInv sha contents leaked s)
    (hcreate : (createSession cfg env ns name version expectedSize expectedDigest owner).run s =
      (.ok session, s₁)) :
    session = newSession cfg env ns name version expectedSize expectedDigest owner ∧
      Uploading sha contents session c s [] s₁ := by
  have hwp : wp (fun _ _ => False) (fun _ => True)
      (createSession cfg env ns name version expectedSize expectedDigest owner)
      (Outcome (fun _ => True) _) s :=
    createSession_wp .inside ⟨hinv.weaken (Set.subset_univ _), .refl _⟩
  have hpost := wp_run.mp hwp
  rw [hcreate] at hpost
  obtain ⟨hgood, hsession, hinsert, htmp⟩ := hpost
  have hfresh : ∀ r ∈ s.db.uploadSession, r.id ≠ session.id := by
    unfold Db.insertSession at hinsert
    split at hinsert
    · cases hinsert
    · rename_i hnew
      simpa using hnew
  have hdb := Db.insertSession_ok hinsert
  refine ⟨hsession, hgood, htmp, ?_, fun p hp hid => ?_, by simp⟩
  · have hnone : s.db.uploadSession.find? (·.id == session.id) = none :=
      List.find?_eq_none.mpr fun r hr => by simpa using hfresh r hr
    rw [Db.session?, hdb, List.find?_append, hnone]
    simp
  · rw [hdb] at hp
    obtain ⟨r, hr, hrid⟩ := hinv.rows.partSession p hp
    exact absurd (hrid.trans hid) (hfresh r hr)

/-- In whatever state a storage is, the slices of a content that are put in some order, with
repetitions, are accepted, the repeated ones as reused; once all are there, the commit publishes
them in their order, and a read of the artifact gives the content. -/
theorem upload_roundTrip {events : List Event} {cfg : StorageConfig} {env : CallEnv}
    {ns name version owner : Bytes} {s₁ : Store} {puts : List (CallEnv × Nat)}
    (hrun : Trace.Run (System.Step sha anywhere) .initial events ⟨s, some cfg⟩)
    (hfits : c.length + cfg.chunkSize.toNat < 2^63)
    (hsha : sha.NoCollision (putData events ∪ {data | data ∈ session.allSlices c}))
    (hcreate : (createSession cfg env ns name version (UInt64.ofNat c.length) (sha.hex c)
      owner).run s = (.ok session, s₁))
    (hfree : s.db.artifact? ns name version = none) (hids : s.db.artifactSeq < maxRowid)
    (hputs : ∀ p ∈ puts, p.2 < session.slices c ∧ p.1.now < session.expiresAt ∧
      ∀ f ∈ s.tmp, f.1 ≠ tmpFileName p.1.tmpTag) :
    ∃ s₂, (putSlices sha session c puts).run s₁ =
        (.ok (sliceAccepts sha session c [] (puts.map (·.2))), s₂) ∧
      ((∀ i < session.slices c, i ∈ puts.map (·.2)) → ∀ env', env'.now < session.expiresAt →
        ∃ info s₃, (commitSession sha env' session.id).run s₂ = (.ok info, s₃) ∧
          info.chunks = manifestOf sha 0 0 (session.allSlices c) ∧
          ∀ length, UInt64.ofNat c.length ≤ length →
            (readArtifact ns name version 0 length).run s₃ = (.ok c, s₃)) := by
  have hput : putData events ⊆ putData events ∪ {data | data ∈ session.allSlices c} :=
    Set.subset_union_left
  have hkept := System.run_kept hrun anywhere_harmless hput (.empty _ _ _)
  have hconfig := System.run_config hrun (by simp [System.initial]) cfg rfl
  obtain ⟨hsession, hup⟩ := createSession_uploading (c := c) hkept.inv hcreate
  have hchunk := checkConfig_chunkSize hconfig
  have hann : Announces sha session c := by
    rw [hsession]
    exact ⟨rfl, rfl, rfl, by show 0 < cfg.chunkSize.toNat; omega, hfits⟩
  have hknown : ∀ i < session.slices c,
      session.slice c i ∈ putData events ∪ {data | data ∈ session.allSlices c} :=
    fun i hi => .inr (mem_allSlices.mpr ⟨i, hi, rfl⟩)
  obtain ⟨s₂, done, hput, hup₂, hdone⟩ := hup.putSlices_run hann hputs hknown
  refine ⟨s₂, hput, fun hall env' hdue => ?_⟩
  have hcount : session.slices c ≤ maxManifestEntries := by
    rw [hsession]
    exact (Nat.div_le_div (by omega : c.length + cfg.chunkSize.toNat - 1 ≤ 2^63) hchunk
      (by decide)).trans (by decide)
  obtain ⟨s₃, a, hcommit, hinv, ha, href, hsize, hdepicts⟩ := hup₂.commitSession_run hann
    (fun i hi => (hdone i).mpr (.inr (hall i hi))) hsha hknown hcount
    (by rw [hsession]; exact hfree) hids hdue
  refine ⟨_, s₃, hcommit, rfl, fun length hlength => ?_⟩
  rw [hsession] at href
  obtain ⟨rfl, rfl, rfl⟩ : a.ns = ns ∧ a.name = name ∧ a.version = version := by
    simpa [ArtifactRow.ref, newSession] using href
  rw [hinv.readArtifact_whole hsha ha hdepicts (by rw [hsize, hann.size]; exact hlength),
    hann.flatten_allSlices]

/-- A fresh root that is open. -/
def sampleRoot : System := (played sampleSha [(Action.open sampleConfig).at (sampleEnv 0)]).2

/-- A content of one whole slice and one byte. -/
def longContent : Bytes := List.replicate 4194304 97 ++ ascii "a"

private theorem longContent_length : longContent.length = 4194305 := by
  rw [longContent, List.length_append, List.length_replicate]
  rfl

private theorem sampleSha_digest {data : Bytes} (hlength : data.length ≠ 1) :
    sampleSha.digest data = List.replicate 32 0 := by
  have hne : data ≠ ascii "a" := by
    rintro rfl
    exact hlength rfl
  rw [sampleSha]
  exact if_neg hne

private theorem longContent_hex :
    sampleSha.hex longContent = frHexEncode (List.replicate 32 0) := by
  rw [Sha256.hex, sampleSha_digest (by rw [longContent_length]; decide)]

/-- A session for this content on the fresh root. -/
def sampleSession : SessionInfo :=
  newSession sampleConfig (sampleEnv 0) (ascii "team") (ascii "app") (ascii "1.0") 4194305
    (frHexEncode (List.replicate 32 0)) (ascii "alice")

private theorem sampleSession_slices : sampleSession.slices longContent = 2 := by
  rw [SessionInfo.slices, longContent_length]
  decide +kernel

private theorem sampleSession_allSlices :
    sampleSession.allSlices longContent = [List.replicate 4194304 97, ascii "a"] := by
  have hcount : Slices.count longContent.length sampleSession.chunkSize.toNat = 2 :=
    sampleSession_slices
  have hsize : sampleSession.chunkSize.toNat = (List.replicate 4194304 (97 : UInt8)).length := by
    rw [List.length_replicate]
    rfl
  rw [SessionInfo.allSlices, Slices.slices, hcount, longContent, hsize]
  generalize List.replicate 4194304 (97 : UInt8) = front at hsize
  have hshort : (ascii "a").length ≤ front.length := by
    rw [← hsize]
    decide +kernel
  have hfirst : Slices.slice (front ++ ascii "a") front.length 0 = front := by
    rw [Slices.slice, Nat.zero_mul, List.drop_zero, List.take_left]
  have hsecond : Slices.slice (front ++ ascii "a") front.length 1 = ascii "a" := by
    rw [Slices.slice, Nat.one_mul, List.drop_left, List.take_of_length_le hshort]
  rw [List.range_succ, List.range_one, List.singleton_append, List.map_cons, List.map_singleton,
    hfirst, hsecond]

/-- The two slices are put, the last one first and twice. -/
theorem upload_roundTrip_sample :
    ∃ s₁ s₂ accepts, (putSlices sampleSha sampleSession longContent
        [(sampleEnv 1, 1), (sampleEnv 2, 0), (sampleEnv 3, 1)]).run s₁ = (.ok accepts, s₂) ∧
      accepts.map (·.reused) = [false, false, true] ∧
      ∃ info s₃, (commitSession sampleSha (sampleEnv 4) sampleSession.id).run s₂ = (.ok info, s₃) ∧
        (readArtifact (ascii "team") (ascii "app") (ascii "1.0") 0 4194305).run s₃ =
          (.ok longContent, s₃) := by
  have hcreated : ((createSession sampleConfig (sampleEnv 0) (ascii "team") (ascii "app")
      (ascii "1.0") 4194305 (frHexEncode (List.replicate 32 0)) (ascii "alice")).run
      sampleRoot.store).1.toOption = some sampleSession := by decide +kernel
  obtain ⟨s₁, hcreate⟩ : ∃ s₁,
      (createSession sampleConfig (sampleEnv 0) (ascii "team") (ascii "app") (ascii "1.0")
        (UInt64.ofNat longContent.length) (sampleSha.hex longContent) (ascii "alice")).run
        sampleRoot.store = (.ok sampleSession, s₁) := by
    rw [longContent_length, longContent_hex]
    change ∃ s₁, (createSession sampleConfig (sampleEnv 0) (ascii "team") (ascii "app")
      (ascii "1.0") 4194305 (frHexEncode (List.replicate 32 0)) (ascii "alice")).run
      sampleRoot.store = (.ok sampleSession, s₁)
    generalize (createSession sampleConfig (sampleEnv 0) (ascii "team") (ascii "app")
      (ascii "1.0") 4194305 (frHexEncode (List.replicate 32 0)) (ascii "alice")).run
      sampleRoot.store = r at hcreated ⊢
    obtain ⟨(e | session), s₁⟩ := r
    · cases hcreated
    · cases hcreated
      exact ⟨s₁, rfl⟩
  have hconfig : sampleRoot.config = some sampleConfig := by decide +kernel
  have hrun : Trace.Run (System.Step sampleSha anywhere) .initial
      (played sampleSha [(Action.open sampleConfig).at (sampleEnv 0)]).1
      ⟨sampleRoot.store, some sampleConfig⟩ := by
    rw [← hconfig]
    exact played_run (fun _ _ => .inr fun _ _ => trivial) (by decide +kernel)
  have hdata : (played sampleSha [(Action.open sampleConfig).at (sampleEnv 0)]).1.filterMap
      Event.chunk? = [] := by decide +kernel
  have hsha : sampleSha.NoCollision
      (putData (played sampleSha [(Action.open sampleConfig).at (sampleEnv 0)]).1 ∪
        {data | data ∈ sampleSession.allSlices longContent}) := by
    have hpair : putData (played sampleSha [(Action.open sampleConfig).at (sampleEnv 0)]).1 ∪
        {data | data ∈ sampleSession.allSlices longContent} =
          {List.replicate 4194304 97, ascii "a"} := by
      rw [sampleSession_allSlices, putData, hdata]
      ext data
      simp only [Set.mem_union, Set.mem_ofPred_eq, List.not_mem_nil, List.mem_cons, or_false,
        false_or, Set.mem_insert_iff, Set.mem_singleton_iff]
    have hdiffer : sampleSha.digest (List.replicate 4194304 97) ≠ sampleSha.digest (ascii "a") := by
      rw [sampleSha_digest (by rw [List.length_replicate]; decide)]
      decide +kernel
    rw [hpair]
    exact Set.injOn_pair.mpr fun h => absurd h hdiffer
  have hputs : ∀ p ∈ [(sampleEnv 1, 1), (sampleEnv 2, 0), (sampleEnv 3, 1)],
      p.2 < sampleSession.slices longContent ∧ p.1.now < sampleSession.expiresAt ∧
        ∀ f ∈ sampleRoot.store.tmp, f.1 ≠ tmpFileName p.1.tmpTag := by
    rw [sampleSession_slices, show sampleRoot.store.tmp = [] by decide +kernel]
    decide +kernel
  have hfits : longContent.length + sampleConfig.chunkSize.toNat < 2^63 := by
    rw [longContent_length]
    decide +kernel
  obtain ⟨s₂, hput, hcommit⟩ := upload_roundTrip hrun hfits hsha hcreate (by decide +kernel)
    (by decide +kernel) hputs
  have hall : ∀ i < sampleSession.slices longContent, i ∈ [1, 0, 1] := by
    rw [sampleSession_slices]
    decide
  obtain ⟨info, s₃, hinfo, -, hread⟩ := hcommit hall (sampleEnv 4) (by decide +kernel)
  refine ⟨s₁, s₂, _, hput, by decide, info, s₃, hinfo, hread 4194305 ?_⟩
  rw [longContent_length]
  decide

end ForgeRelay
