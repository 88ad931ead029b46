import ForgeRelay.Storage.Durability

/-!
# Range reads

Both readers give the bytes of the window that is asked for, whatever the lengths of the chunks
are, and slices that follow each other are one longer read.
-/

namespace ForgeRelay

open Program Prog

variable {sha : Sha256} {s : Store}

/-- Manifest rows that lay these chunks out from an offset on: consecutive, not empty, and with
the chunk file of each digest in place. -/
inductive Laid (sha : Sha256) (s : Store) : Nat → List ManifestEntry → List Bytes → Prop
  | nil (off : Nat) : Laid sha s off [] []
  | cons {off : Nat} {entry : ManifestEntry} {entries : List ManifestEntry} {data : Bytes}
      {chunks : List Bytes} (hoffset : entry.offset.toNat = off)
      (hlength : entry.length.toNat = data.length) (hpositive : 0 < data.length)
      (hdigest : entry.digest = sha.hex data)
      (hfile : s.files (relPath entry.digest) = some (chunkFile data))
      (hrest : Laid sha s (off + data.length) entries chunks) :
      Laid sha s off (entry :: entries) (data :: chunks)

private theorem Laid.sameExtents {off : Nat} {entries : List ManifestEntry} {chunks : List Bytes}
    (h : Laid sha s off entries chunks) (i : Nat) :
    List.Forall₂ SameExtent entries (manifestOf sha i off chunks) := by
  induction h generalizing i with
  | nil => exact .nil
  | cons hoffset hlength _ hdigest _ _ ih =>
    refine .cons ⟨?_, ?_, hdigest⟩ (ih (i + 1))
    · rw [← hoffset, UInt64.ofNat_toNat]
    · rw [← hlength, UInt64.ofNat_toNat]

theorem Laid.files {off : Nat} {entries : List ManifestEntry} {chunks : List Bytes}
    (h : Laid sha s off entries chunks) : FilesOf sha chunks s := by
  induction h with
  | nil => simp [FilesOf]
  | cons _ _ _ hdigest hfile _ ih =>
    rw [hdigest] at hfile
    exact List.forall_mem_cons.mpr ⟨hfile, ih⟩

/-- An artifact that both readers find, with a well-formed manifest of these chunks. -/
structure WellFormedArtifact (sha : Sha256) (s : Store) (ns name version : Bytes) (a : ArtifactRow)
    (chunks : List Bytes) : Prop where
  found : s.db.artifact? ns name version = some a
  laid : Laid sha s 0 (s.db.manifest a.id) chunks
  size : (chunks.map List.length).sum = a.size.toNat

/-- The bytes of a content from one offset up to another. -/
def window (content : Bytes) (first last : Nat) : Bytes := (content.take last).drop first

/-- The bytes that a reader has to give. -/
def ArtifactRow.range (a : ArtifactRow) (chunks : List Bytes) (offset length : UInt64) : Bytes :=
  window chunks.flatten offset.toNat (min (offset.toNat + length.toNat) a.size.toNat)

section

variable {ns name version : Bytes} {a : ArtifactRow} {chunks : List Bytes} {offset : UInt64}

namespace WellFormedArtifact

theorem laidOut (h : WellFormedArtifact sha s ns name version a chunks) :
    a.LaidOut sha s chunks where
  manifest := h.laid.sameExtents 0
  files := h.laid.files
  size := h.size.symm.trans List.length_flatten.symm

private theorem range_eq (h : WellFormedArtifact sha s ns name version a chunks) (length : UInt64) :
    a.range chunks offset length = (chunks.flatten.drop offset.toNat).take length.toNat := by
  rw [ArtifactRow.range, window, h.laidOut.size, ← List.take_eq_take_min, List.drop_take,
    Nat.add_sub_cancel_left]

private theorem range_length (h : WellFormedArtifact sha s ns name version a chunks)
    (length : UInt64) :
    (a.range chunks offset length).length = min length.toNat (a.size.toNat - offset.toNat) := by
  rw [h.range_eq, List.length_take, List.length_drop, h.laidOut.size]

theorem readArtifactSlice_run (h : WellFormedArtifact sha s ns name version a chunks)
    (hoffset : offset ≤ a.size) (maxLen : UInt64) :
    ∃ pieces sent, (readArtifactSlice ns name version offset maxLen).run s =
        (.ok (pieces, sent), s) ∧ pieces.flatten = a.range chunks offset maxLen ∧
      sent.toNat = (a.range chunks offset maxLen).length := by
  obtain ⟨pieces, sent, hrun, hpieces, hsent, -⟩ :=
    h.laidOut.readArtifactSlice_run h.found hoffset maxLen
  rw [← h.range_eq] at hpieces
  exact ⟨pieces, sent, hrun, hpieces, hpieces ▸ hsent⟩

private theorem range_append (h : WellFormedArtifact sha s ns name version a chunks)
    (hoffset : offset ≤ a.size) {first second whole sent : UInt64}
    (hwhole : whole.toNat = first.toNat + second.toNat)
    (hsent : sent.toNat = (a.range chunks offset first).length) :
    offset + sent ≤ a.size ∧ a.range chunks offset first ++ a.range chunks (offset + sent) second =
      a.range chunks offset whole := by
  have hle := UInt64.le_iff_toNat_le.mp hoffset
  have hsize := a.size.toNat_lt
  rw [h.range_length] at hsent
  have hnext : (offset + sent).toNat = offset.toNat + sent.toNat := by
    rw [UInt64.toNat_add]
    omega
  refine ⟨UInt64.le_iff_toNat_le.mpr (by omega), ?_⟩
  rw [h.range_eq, h.range_eq, h.range_eq, hwhole, hnext, ← List.drop_drop, List.take_add]
  rcases Nat.le_total first.toNat (a.size.toNat - offset.toNat) with hfits | hover
  · rw [hsent, Nat.min_eq_left hfits]
  · -- the first slice already reaches the end
    have hend : (chunks.flatten.drop offset.toNat).length ≤ sent.toNat := by
      rw [List.length_drop, ← h.laidOut.size]
      omega
    rw [List.drop_of_length_le hend, List.drop_of_length_le (hend.trans (by omega))]

end WellFormedArtifact

/-- Within an artifact both readers give exactly the window that is asked for, as far as the
artifact reaches, and a slice counts it; a slice that starts where another one ended completes the
longer read; behind the artifact both readers fail and give nothing. -/
theorem WellFormedArtifact.range_reads
    (h : WellFormedArtifact sha s ns name version a chunks) :
    (∀ offset length : UInt64, offset ≤ a.size → ∃ pieces sent,
      (readArtifact ns name version offset length).run s =
        (.ok (a.range chunks offset length), s) ∧
      (readArtifactSlice ns name version offset length).run s = (.ok (pieces, sent), s) ∧
      pieces.flatten = a.range chunks offset length ∧
      sent.toNat = (a.range chunks offset length).length) ∧
    (∀ offset first second whole : UInt64, offset ≤ a.size →
      whole.toNat = first.toNat + second.toNat → ∃ pieces sent pieces' sent' longer total,
      (readArtifactSlice ns name version offset first).run s = (.ok (pieces, sent), s) ∧
      (readArtifactSlice ns name version (offset + sent) second).run s =
        (.ok (pieces', sent'), s) ∧
      (readArtifactSlice ns name version offset whole).run s = (.ok (longer, total), s) ∧
      longer.flatten = pieces.flatten ++ pieces'.flatten ∧
      total.toNat = sent.toNat + sent'.toNat) ∧
    (∀ offset length : UInt64, a.size < offset →
      (readArtifact ns name version offset length).run s =
        (.error (.of .eRange "read offset beyond artifact size"), s) ∧
      (readArtifactSlice ns name version offset length).run s =
        (.error (.of .eRange "read offset beyond artifact size"), s)) := by
  refine ⟨fun offset length hoffset => ?_, fun offset first second whole hoffset hwhole => ?_,
    fun offset length hbeyond => ?_⟩
  · obtain ⟨pieces, sent, hslice, hpieces, hsent⟩ := h.readArtifactSlice_run hoffset length
    refine ⟨pieces, sent, ?_, hslice, hpieces, hsent⟩
    rw [h.range_eq]
    exact h.laidOut.readArtifact_run h.found hoffset length
  · obtain ⟨pieces, sent, hfirst, hpieces, hsent⟩ := h.readArtifactSlice_run hoffset first
    obtain ⟨hnext, happend⟩ := h.range_append hoffset hwhole hsent
    obtain ⟨pieces', sent', hsecond, hpieces', hsent'⟩ := h.readArtifactSlice_run hnext second
    obtain ⟨longer, total, hlonger, hbytes, htotal⟩ := h.readArtifactSlice_run hoffset whole
    refine ⟨pieces, sent, pieces', sent', longer, total, hfirst, hsecond, hlonger, ?_, ?_⟩
    · rw [hbytes, hpieces, hpieces', happend]
    · rw [htotal, ← happend, List.length_append, ← hsent, ← hsent']
  · have hslice : (readArtifactSlice ns name version offset length).run s =
        (.error (.of .eRange "read offset beyond artifact size"), s) := by
      have hbeyond : (a.info (s.db.manifest a.id)).size < offset := hbeyond
      unfold readArtifactSlice
      rw [run_bind, showArtifact_run h.found]
      dsimp only
      rw [if_pos hbeyond]
      rfl
    exact ⟨by rw [readArtifact_slice, hslice]; rfl, hslice⟩

end

/-- An artifact of two chunks. -/
def sampleParts : Store where
  db := { Db.empty with
    artifact := [⟨1, ascii "team", ascii "app", ascii "1.0", 3, [], 2, ascii "alice", 0⟩]
    artifactChunk := (manifestOf sampleSha 0 0 [ascii "a", ascii "bc"]).map fun e => ⟨1, e⟩ }
  files path :=
    if path = relPath (sampleSha.hex (ascii "a")) then some (chunkFile (ascii "a"))
    else if path = relPath (sampleSha.hex (ascii "bc")) then some (chunkFile (ascii "bc"))
    else none
  tmp := []
  changes := 0

/-- A window that spans the two chunks. -/
theorem WellFormedArtifact.range_reads_sample : ∃ pieces sent,
    (readArtifact (ascii "team") (ascii "app") (ascii "1.0") 0 (UInt64.ofNat (2^64 - 1))).run
      sampleParts = (.ok (ascii "abc"), sampleParts) ∧
    (readArtifactSlice (ascii "team") (ascii "app") (ascii "1.0") 0
      (UInt64.ofNat (2^64 - 1))).run sampleParts = (.ok (pieces, sent), sampleParts) ∧
    pieces.flatten = ascii "abc" ∧ sent.toNat = 3 := by
  have hartifact : WellFormedArtifact sampleSha sampleParts (ascii "team") (ascii "app")
      (ascii "1.0") ⟨1, ascii "team", ascii "app", ascii "1.0", 3, [], 2, ascii "alice", 0⟩
      [ascii "a", ascii "bc"] := by
    refine ⟨by decide +kernel, ?_, by decide⟩
    have hmanifest : sampleParts.db.manifest 1 =
        manifestOf sampleSha 0 0 [ascii "a", ascii "bc"] := by decide +kernel
    rw [hmanifest]
    refine .cons rfl rfl (by decide) rfl (by decide +kernel) ?_
    exact .cons rfl rfl (by decide) rfl (by decide +kernel) (.nil _)
  exact hartifact.range_reads.1 0 (UInt64.ofNat (2^64 - 1)) (by decide)

end ForgeRelay
