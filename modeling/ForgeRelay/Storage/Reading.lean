import ForgeRelay.Storage.CommitSpecs

/-!
# Reading artifacts

An artifact that is the concatenation of its chunks is read as that concatenation, whole or in
part.
-/

namespace ForgeRelay

open Program Prog

variable {sha : Sha256} {contents leaked : Set Bytes} {s : Store}

theorem chunkStoreGetRange_run {data : Bytes} {offset len : UInt64} (hsize : data.length < 2^64)
    (hoffset : offset.toNat ≤ data.length)
    (hfile : s.files (relPath (sha.hex data)) = some (chunkFile data)) :
    (chunkStoreGetRange (sha.hex data) offset len).run s =
      (.ok ((data.drop offset.toNat).take len.toNat), s) := by
  rw [chunkStoreGetRange_hex, fileStep, run_lift]
  simp only [hfile, chunkFileRange_chunkFile hsize hoffset]

theorem toNat_min (a b : UInt64) : (if a < b then a else b).toNat = min a.toNat b.toNat := by
  split <;> rename_i hlt <;> rw [UInt64.lt_iff_toNat_lt] at hlt <;> omega

private theorem readSliceEntries_zero (offset : UInt64) (entries : List ManifestEntry) :
    (readSliceEntries offset 0 entries).run s = (.ok ([], 0), s) := by
  cases entries <;> simp [readSliceEntries]

private theorem readEntries_slice (offset remaining : UInt64) (entries : List ManifestEntry) :
    (readEntries offset remaining entries).run s =
      ((readSliceEntries offset remaining entries).run s).map
        (Except.map fun (pieces, sent) => (pieces.flatten, sent)) id := by
  induction entries generalizing offset remaining s with
  | nil => rfl
  | cons entry entries ih =>
    rw [readEntries, readSliceEntries]
    dsimp only
    split
    · rfl
    split
    · exact ih _ _
    split
    · rfl
    rw [run_bind, run_bind]
    rcases (chunkStoreGetRange entry.digest _ _).run s with ⟨e | data, s₁⟩
    · rfl
    dsimp only
    rw [run_bind, run_bind, ih]
    rcases (readSliceEntries _ _ entries).run s₁ with ⟨e | ⟨pieces, sent⟩, s₂⟩ <;> rfl

private theorem drop_take_append {data rest : Bytes} {skip want : Nat}
    (hskip : skip ≤ data.length) :
    (data.drop skip).take (min want (data.length - skip)) ++
      rest.take (want - min want (data.length - skip)) = ((data ++ rest).drop skip).take want := by
  rw [List.drop_append_of_le_length hskip, List.take_append, List.length_drop]
  by_cases hlt : want ≤ data.length - skip
  · rw [Nat.min_eq_left hlt, Nat.sub_self, Nat.sub_eq_zero_of_le hlt]
  · have hall : (data.drop skip).take (data.length - skip) = data.drop skip :=
      List.take_of_length_le (by rw [List.length_drop])
    have hwant : (data.drop skip).take want = data.drop skip :=
      List.take_of_length_le (by rw [List.length_drop]; omega)
    rw [Nat.min_eq_right (by omega), hall, hwant]

private theorem chunk_window {off len offset remaining : UInt64} {n : Nat}
    (hchunkEnd : (off + len).toNat = n) (hstart : off.toNat ≤ offset.toNat)
    (hinside : offset.toNat < n) :
    let localOffset := if off < offset then offset - off else 0
    let available := off + len - (if off < offset then offset else off)
    let take := if remaining < available then remaining else available
    localOffset.toNat = offset.toNat - off.toNat ∧
      take.toNat = min remaining.toNat (n - offset.toNat) := by
  have hsame : ¬ off < offset → off.toNat = offset.toNat := by
    intro hlt
    rw [UInt64.lt_iff_toNat_lt] at hlt
    omega
  have hlocal : (if off < offset then offset - off else 0).toNat = offset.toNat - off.toNat := by
    split
    · exact UInt64.toNat_sub_of_le _ _ (UInt64.le_iff_toNat_le.mpr hstart)
    · rename_i hlt
      rw [hsame hlt, UInt64.toNat_zero, Nat.sub_self]
  have havailable : (off + len - (if off < offset then offset else off)).toNat =
      n - offset.toNat := by
    split
    · rw [UInt64.toNat_sub_of_le _ _ (UInt64.le_iff_toNat_le.mpr (by omega)), hchunkEnd]
    · rename_i hlt
      have hsame := hsame hlt
      rw [UInt64.toNat_sub_of_le _ _ (UInt64.le_iff_toNat_le.mpr (by omega)), hchunkEnd, hsame]
  exact ⟨hlocal, (toNat_min _ _).trans (by rw [havailable])⟩

/-- The loop of a read whose window starts in or behind the chunks that are left. -/
private theorem readSliceEntries_run {chunks : List Bytes} {i off : Nat} (offset remaining : UInt64)
    (hfiles : FilesOf sha chunks s) (htotal : off + chunks.flatten.length < 2^64)
    (hstart : off ≤ offset.toNat)
    (hend : offset.toNat + remaining.toNat ≤ off + chunks.flatten.length) :
    ∃ pieces, (readSliceEntries offset remaining (manifestOf sha i off chunks)).run s =
        (.ok (pieces, remaining), s) ∧
      pieces.flatten = (chunks.flatten.drop (offset.toNat - off)).take remaining.toNat ∧
      ∀ piece ∈ pieces, piece ≠ [] := by
  induction chunks generalizing i off offset remaining with
  | nil =>
    have hzero : remaining = 0 := by
      rw [← UInt64.toNat_inj, UInt64.toNat_zero]
      simp only [List.flatten_nil, List.length_nil] at hend
      omega
    exact ⟨[], by rw [hzero, readSliceEntries_zero], by simp, by simp⟩
  | cons data rest ih =>
    obtain ⟨hfile, hrest⟩ := List.forall_mem_cons.mp hfiles
    rw [List.flatten_cons, List.length_append] at htotal hend
    have hoff : (UInt64.ofNat off).toNat = off := uint64_toNat_ofNat (by omega)
    have hchunkEnd : (UInt64.ofNat off + UInt64.ofNat data.length).toNat = off + data.length := by
      rw [UInt64.toNat_add, hoff, uint64_toNat_ofNat (by omega)]
      omega
    by_cases hzero : remaining = 0
    · exact ⟨[], by rw [hzero, readSliceEntries_zero], by simp [hzero], by simp⟩
    have hpos : remaining.toNat ≠ 0 := fun h => hzero (UInt64.toNat_inj.mp h)
    rw [manifestOf, readSliceEntries, if_neg hzero]
    by_cases hbefore : UInt64.ofNat off + UInt64.ofNat data.length ≤ offset
    · -- the chunk lies before the window
      rw [if_pos hbefore]
      rw [UInt64.le_iff_toNat_le, hchunkEnd] at hbefore
      have hdrop : (data ++ rest.flatten).drop (offset.toNat - off) =
          rest.flatten.drop (offset.toNat - (off + data.length)) := by
        rw [List.drop_append, List.drop_of_length_le (by omega), List.nil_append, Nat.sub_sub]
      rw [List.flatten_cons, hdrop]
      exact ih _ _ hrest (by omega) hbefore (by omega)
    rw [if_neg hbefore]
    rw [UInt64.le_iff_toNat_le, hchunkEnd] at hbefore
    have hreach : ¬ offset + remaining ≤ UInt64.ofNat off := by
      rw [UInt64.le_iff_toNat_le, UInt64.toNat_add, hoff]
      omega
    rw [if_neg hreach]
    obtain ⟨hlocal, htake⟩ := chunk_window hchunkEnd (by omega)
      (Nat.not_le.mp hbefore)
    rw [hoff] at hlocal
    generalize (if UInt64.ofNat off < offset then offset - UInt64.ofNat off else 0) = localOffset
      at hlocal ⊢
    dsimp only at htake ⊢
    generalize (if remaining < _ then remaining else _) = take at htake ⊢
    have hremaining : (remaining - take).toNat = remaining.toNat - take.toNat :=
      UInt64.toNat_sub_of_le _ _ (UInt64.le_iff_toNat_le.mpr (by omega))
    have hsum : take + (remaining - take) = remaining := by
      rw [← UInt64.toNat_inj, UInt64.toNat_add, hremaining]
      have := remaining.toNat_lt
      omega
    have htake' : take.toNat = min remaining.toNat (data.length - (offset.toNat - off)) := by
      omega
    -- what the rest of the loop reads
    obtain ⟨pieces, hloop, hpieces, hnonempty⟩ : ∃ pieces,
        (readSliceEntries (offset + take) (remaining - take)
          (manifestOf sha (i + 1) (off + data.length) rest)).run s =
          (.ok (pieces, remaining - take), s) ∧
        pieces.flatten = rest.flatten.take (remaining.toNat - take.toNat) ∧
        ∀ piece ∈ pieces, piece ≠ [] := by
      by_cases hdone : remaining - take = 0
      · refine ⟨[], by rw [hdone, readSliceEntries_zero], ?_, by simp⟩
        rw [← hremaining, hdone, UInt64.toNat_zero, List.take_zero, List.flatten_nil]
      · have hmore : remaining.toNat - take.toNat ≠ 0 := fun h =>
          hdone (UInt64.toNat_inj.mp (hremaining.trans h))
        have hoffset : (offset + take).toNat = off + data.length := by
          rw [UInt64.toNat_add]
          omega
        obtain ⟨pieces, hloop, hpieces, hnonempty⟩ :=
          ih (i := i + 1) (offset + take) (remaining - take) hrest (by omega) hoffset.ge (by omega)
        rw [hoffset, Nat.sub_self, List.drop_zero, hremaining] at hpieces
        exact ⟨pieces, hloop, hpieces, hnonempty⟩
    refine ⟨(data.drop localOffset.toNat).take take.toNat :: pieces, ?_, ?_, ?_⟩
    · rw [run_bind, chunkStoreGetRange_run (by omega) (by omega) hfile]
      dsimp only
      rw [run_bind, hloop]
      simp only [run_pure, hsum]
    · rw [List.flatten_cons, hpieces, List.flatten_cons, hlocal, htake',
        drop_take_append (by omega)]
    · refine List.forall_mem_cons.mpr ⟨fun hnil => ?_, hnonempty⟩
      have hlength := congrArg List.length hnil
      rw [List.length_take, List.length_drop, List.length_nil] at hlength
      omega

/-- The chunk files of an artifact in a store that satisfies the invariant. -/
theorem StoreInv.filesOf (hinv : StoreInv sha contents leaked s) (hsha : sha.NoCollision contents)
    {a : ArtifactRow} {chunks : List Bytes}
    (hdepicts : Depicts sha contents (s.db.manifest a.id) a chunks) : FilesOf sha chunks s :=
  fun data hdata => hinv.file_eq hsha (hdepicts.known data hdata)
    (hinv.held _ (hdepicts.referenced hdata)).file

@[simp] theorem ArtifactRow.info_size (a : ArtifactRow) (chunks : List ManifestEntry) :
    (a.info chunks).size = a.size := rfl

@[simp] theorem ArtifactRow.info_chunks (a : ArtifactRow) (chunks : List ManifestEntry) :
    (a.info chunks).chunks = chunks := rfl

theorem showArtifact_run {ns name version : Bytes} {a : ArtifactRow}
    (hfound : s.db.artifact? ns name version = some a) :
    (showArtifact ns name version).run s = (.ok (a.info (s.db.manifest a.id)), s) := by
  simp only [showArtifact, run_bind, run_select, hfound, run_pure]

/-- The entries have chunks at the same places; a reader does not look at their ordinals. -/
structure SameExtent (e e' : ManifestEntry) : Prop where
  offset : e.offset = e'.offset
  length : e.length = e'.length
  digest : e.digest = e'.digest

theorem SameExtent.refl (e : ManifestEntry) : SameExtent e e := ⟨rfl, rfl, rfl⟩

private theorem readSliceEntries_congr {entries entries' : List ManifestEntry}
    (h : List.Forall₂ SameExtent entries entries') (offset remaining : UInt64) :
    readSliceEntries offset remaining entries = readSliceEntries offset remaining entries' := by
  induction h generalizing offset remaining with
  | nil => rfl
  | cons hentry _ ih =>
    simp only [readSliceEntries, hentry.offset, hentry.length, hentry.digest, ih]

/-- An artifact whose table rows lay these chunks out one behind the other. -/
structure ArtifactRow.LaidOut (sha : Sha256) (s : Store) (a : ArtifactRow)
    (chunks : List Bytes) : Prop where
  manifest : List.Forall₂ SameExtent (s.db.manifest a.id) (manifestOf sha 0 0 chunks)
  files : FilesOf sha chunks s
  size : a.size.toNat = chunks.flatten.length

theorem StoreInv.laidOut (hinv : StoreInv sha contents leaked s) (hsha : sha.NoCollision contents)
    {a : ArtifactRow} {chunks : List Bytes}
    (hdepicts : Depicts sha contents (s.db.manifest a.id) a chunks) : a.LaidOut sha s chunks where
  manifest := hdepicts.manifest ▸ List.forall₂_same.mpr fun e _ => .refl e
  files := hinv.filesOf hsha hdepicts
  size := hdepicts.size

section

variable {ns name version : Bytes} {a : ArtifactRow} {chunks : List Bytes} {offset : UInt64}

theorem ArtifactRow.LaidOut.readArtifactSlice_run (hlaid : a.LaidOut sha s chunks)
    (hfound : s.db.artifact? ns name version = some a) (hoffset : offset ≤ a.size)
    (maxLen : UInt64) :
    ∃ pieces sent, (readArtifactSlice ns name version offset maxLen).run s =
        (.ok (pieces, sent), s) ∧
      pieces.flatten = (chunks.flatten.drop offset.toNat).take maxLen.toNat ∧
      sent.toNat = pieces.flatten.length ∧ ∀ piece ∈ pieces, piece ≠ [] := by
  have hle := UInt64.le_iff_toNat_le.mp hoffset
  have hsize := hlaid.size
  have hrest : (a.size - offset).toNat = a.size.toNat - offset.toNat :=
    UInt64.toNat_sub_of_le _ _ hoffset
  obtain ⟨remaining, hremaining, hmin⟩ : ∃ r, r = (if maxLen < a.size - offset then maxLen
      else a.size - offset) ∧ r.toNat = min maxLen.toNat (a.size - offset).toNat :=
    ⟨_, rfl, toNat_min _ _⟩
  obtain ⟨pieces, hloop, hpieces, hnonempty⟩ := readSliceEntries_run (i := 0)
    offset remaining hlaid.files
    (by rw [Nat.zero_add, ← hsize]; exact a.size.toNat_lt) (Nat.zero_le _) (by omega)
  have hread : (chunks.flatten.drop offset.toNat).take remaining.toNat =
      (chunks.flatten.drop offset.toNat).take maxLen.toNat := by
    rw [hmin, hrest, hsize, ← List.length_drop, ← List.take_eq_take_min]
  rw [Nat.sub_zero] at hpieces
  refine ⟨pieces, remaining, ?_, hpieces.trans hread, ?_, hnonempty⟩
  · have hinside : ¬ (a.info (s.db.manifest a.id)).size < offset := UInt64.not_lt.mpr hoffset
    unfold readArtifactSlice
    rw [run_bind, showArtifact_run hfound]
    dsimp only
    rw [if_neg hinside, ArtifactRow.info_size, ArtifactRow.info_chunks, ← hremaining,
      readSliceEntries_congr hlaid.manifest, hloop]
  · rw [hpieces, List.length_take, List.length_drop]
    omega

theorem readArtifact_slice (ns name version : Bytes) (offset length : UInt64) :
    (readArtifact ns name version offset length).run s =
      ((readArtifactSlice ns name version offset length).run s).map
        (Except.map fun (pieces, _) => pieces.flatten) id := by
  unfold readArtifact readArtifactSlice
  rw [run_bind, run_bind]
  rcases (showArtifact ns name version).run s with ⟨e | info, s₁⟩
  · rfl
  dsimp only
  split
  · rfl
  have hclip : (if info.size - offset < length then info.size - offset else length) =
      if length < info.size - offset then length else info.size - offset := by
    rw [← UInt64.toNat_inj, toNat_min, toNat_min, Nat.min_comm]
  rw [run_bind, hclip, readEntries_slice]
  rcases (readSliceEntries offset _ info.chunks).run s₁ with ⟨e | ⟨pieces, sent⟩, s₂⟩ <;> rfl

theorem ArtifactRow.LaidOut.readArtifact_run (hlaid : a.LaidOut sha s chunks)
    (hfound : s.db.artifact? ns name version = some a) (hoffset : offset ≤ a.size)
    (length : UInt64) :
    (readArtifact ns name version offset length).run s =
      (.ok ((chunks.flatten.drop offset.toNat).take length.toNat), s) := by
  obtain ⟨pieces, sent, hslice, hpieces, -⟩ := hlaid.readArtifactSlice_run hfound hoffset length
  rw [readArtifact_slice, hslice, ← hpieces]
  rfl

end

theorem readArtifact_run (hinv : StoreInv sha contents leaked s) (hsha : sha.NoCollision contents)
    {a : ArtifactRow} (ha : a ∈ s.db.artifact) {chunks : List Bytes}
    (hdepicts : Depicts sha contents (s.db.manifest a.id) a chunks) {offset length : UInt64}
    (hoffset : offset ≤ a.size) :
    (readArtifact a.ns a.name a.version offset length).run s =
      (.ok ((chunks.flatten.drop offset.toNat).take length.toNat), s) :=
  (hinv.laidOut hsha hdepicts).readArtifact_run (hinv.rows.artifact?_eq ha) hoffset length

theorem readArtifactSlice_run (hinv : StoreInv sha contents leaked s)
    (hsha : sha.NoCollision contents) {a : ArtifactRow} (ha : a ∈ s.db.artifact)
    {chunks : List Bytes} (hdepicts : Depicts sha contents (s.db.manifest a.id) a chunks)
    {offset : UInt64} (hoffset : offset ≤ a.size) (maxLen : UInt64) :
    ∃ pieces sent, (readArtifactSlice a.ns a.name a.version offset maxLen).run s =
        (.ok (pieces, sent), s) ∧
      pieces.flatten = (chunks.flatten.drop offset.toNat).take maxLen.toNat ∧
      sent.toNat = pieces.flatten.length ∧ ∀ piece ∈ pieces, piece ≠ [] :=
  (hinv.laidOut hsha hdepicts).readArtifactSlice_run (hinv.rows.artifact?_eq ha) hoffset maxLen

private theorem chunkFileRange_length {content data : Bytes} {offset len : UInt64}
    (h : chunkFileRange content offset len = .ok data) : data.length ≤ len.toNat := by
  unfold chunkFileRange at h
  split at h
  · cases h
  cases hinfo : parseHeader (content.take chunkHeaderSize) with
  | error e =>
    rw [hinfo] at h
    cases h
  | ok info =>
    simp only [hinfo, Bind.bind, Except.bind] at h
    split at h
    · cases h
    have hremaining : (if info.rawLen - offset < len then info.rawLen - offset else len).toNat ≤
        len.toNat := by
      rw [toNat_min]
      exact Nat.min_le_right _ _
    generalize (if info.rawLen - offset < len then info.rawLen - offset else len) = remaining
      at h hremaining
    split at h
    · cases h
    split at h
    · cases h
    · cases h
      exact (List.length_take_le _ _).trans hremaining

private theorem chunkStoreGetRange_length {digestHex data : Bytes} {offset len : UInt64}
    {s s' : Store} (h : (chunkStoreGetRange digestHex offset len).run s = (.ok data, s')) :
    data.length ≤ len.toNat := by
  unfold chunkStoreGetRange at h
  split at h
  · cases h
  obtain ⟨path, s₁, -, hread⟩ := run_bind_ok h
  rw [fileStep, run_lift] at hread
  split at hread
  · cases hread
  · exact chunkFileRange_length (congrArg Prod.fst hread)

theorem readSliceEntries_ok {offset remaining sent : UInt64} {entries : List ManifestEntry}
    {pieces : List Bytes} {s s' : Store}
    (h : (readSliceEntries offset remaining entries).run s = (.ok (pieces, sent), s')) :
    (pieces.map List.length).sum ≤ sent.toNat ∧ sent.toNat ≤ remaining.toNat := by
  induction entries generalizing offset remaining pieces sent s with
  | nil =>
    cases h
    simp
  | cons entry entries ih =>
    unfold readSliceEntries at h
    dsimp only at h
    split at h
    · cases h
      simp
    split at h
    · exact ih h
    split at h
    · cases h
      simp
    generalize htake : (if remaining < entry.offset + entry.length -
      (if entry.offset < offset then offset else entry.offset) then remaining
      else entry.offset + entry.length - (if entry.offset < offset then offset else entry.offset)) =
        take at h
    have hle : take.toNat ≤ remaining.toNat := by
      rw [← htake]
      rw [toNat_min]
      exact Nat.min_le_left _ _
    obtain ⟨data, s₁, hdata, h₁⟩ := run_bind_ok h
    obtain ⟨⟨rest, sent'⟩, s₂, hrest, h₂⟩ := run_bind_ok h₁
    cases h₂
    obtain ⟨hsum, hsent⟩ := ih hrest
    have hlen := chunkStoreGetRange_length hdata
    have hsub : (remaining - take).toNat = remaining.toNat - take.toNat :=
      UInt64.toNat_sub_of_le _ _ (UInt64.le_iff_toNat_le.mpr hle)
    have hadd : (take + sent').toNat = take.toNat + sent'.toNat := by
      rw [UInt64.toNat_add]
      have := remaining.toNat_lt
      omega
    simp only [List.map_cons, List.sum_cons, hadd]
    omega

theorem readArtifactSlice_ok {ns name version : Bytes} {offset maxLen sent : UInt64}
    {pieces : List Bytes} {s s' : Store}
    (h : (readArtifactSlice ns name version offset maxLen).run s = (.ok (pieces, sent), s')) :
    (pieces.map List.length).sum ≤ sent.toNat ∧ sent.toNat ≤ maxLen.toNat ∧
      offset.toNat + sent.toNat < 2^64 := by
  obtain ⟨info, s₁, -, h₁⟩ := run_bind_ok h
  split at h₁
  · cases h₁
  rename_i hinside
  obtain ⟨hsum, hsent⟩ := readSliceEntries_ok h₁
  rw [UInt64.lt_iff_toNat_lt] at hinside
  have hrest : (info.size - offset).toNat = info.size.toNat - offset.toNat :=
    UInt64.toNat_sub_of_le _ _ (UInt64.le_iff_toNat_le.mpr (by omega))
  have hsize := info.size.toNat_lt
  refine ⟨hsum, ?_, ?_⟩
  · rw [toNat_min] at hsent
    omega
  · rw [toNat_min] at hsent
    omega

end ForgeRelay
