import ForgeRelay.Storage.ChunkStore

/-!
# Reading back a chunk file

A complete chunk file gives back its data, whole or from its start.
-/

namespace ForgeRelay

@[simp] theorem storeHeader_length (rawLen : Nat) (crc : UInt32) :
    (storeHeader rawLen crc).length = chunkHeaderSize := by
  simp [storeHeader, ascii, chunkHeaderSize]

private theorem storeHeader_drop (rawLen : Nat) (crc : UInt32) :
    (storeHeader rawLen crc).drop 6 = frStoreBe64 (UInt64.ofNat rawLen) ++
      (frStoreBe64 (UInt64.ofNat rawLen) ++ (frStoreBe32 crc ++ (frStoreBe32 0 ++ [0, 0]))) := by
  simp only [storeHeader, List.append_assoc]
  rfl

theorem parseHeader_storeHeader (rawLen : Nat) (crc : UInt32) :
    parseHeader (storeHeader rawLen crc) =
      .ok ⟨UInt64.ofNat rawLen, UInt64.ofNat rawLen, crc⟩ := by
  have h6 := storeHeader_drop rawLen crc
  have h14 : (storeHeader rawLen crc).drop 14 = frStoreBe64 (UInt64.ofNat rawLen) ++
      (frStoreBe32 crc ++ (frStoreBe32 0 ++ [0, 0])) := by
    rw [show 14 = 6 + 8 from rfl, ← List.drop_drop, h6, List.drop_left' (frStoreBe64_length _)]
  have h22 : (storeHeader rawLen crc).drop 22 = frStoreBe32 crc ++ (frStoreBe32 0 ++ [0, 0]) := by
    rw [show 22 = 14 + 8 from rfl, ← List.drop_drop, h14, List.drop_left' (frStoreBe64_length _)]
  have h26 : (storeHeader rawLen crc).drop 26 = frStoreBe32 0 ++ [0, 0] := by
    rw [show 26 = 22 + 4 from rfl, ← List.drop_drop, h22, List.drop_left' (frStoreBe32_length _)]
  have hmagic : (storeHeader rawLen crc).take 4 = ascii "FRCH" := by
    simp only [storeHeader, List.append_assoc]
    rfl
  have hversion : (storeHeader rawLen crc).getD 4 0 = chunkFormatVersion := by
    simp only [storeHeader, List.append_assoc]
    rfl
  have hreserved : (storeHeader rawLen crc).getD 5 0 = 0 := by
    simp only [storeHeader, List.append_assoc]
    rfl
  simp only [parseHeader, hmagic, hversion, hreserved, h6, h14, h22, h26, frLoadBe64_store,
    frLoadBe32_store, ne_eq, not_true_eq_false, if_false]

theorem parseHeader_ok {header : Bytes} {info : ChunkMeta} (h : parseHeader header = .ok info) :
    info.rawLen = frLoadBe64 (header.drop 6) ∧
      frLoadBe64 (header.drop 6) = frLoadBe64 (header.drop 14) ∧
      info.crc = frLoadBe32 (header.drop 22) := by
  unfold parseHeader at h
  split at h
  · cases h
  split at h
  · cases h
  split at h
  · cases h
  split at h
  · cases h
  dsimp only at h
  split at h
  · cases h
  · rename_i hlengths
    cases h
    exact ⟨rfl, not_not.mp hlengths, rfl⟩

theorem chunkFileRange_whole_ok {content out : Bytes}
    (h : chunkFileRange content 0 (UInt64.ofNat (2^64 - 1)) = .ok out) :
    ∃ info, chunkHeaderSize ≤ content.length ∧
      parseHeader (content.take chunkHeaderSize) = .ok info ∧
      out = (content.drop chunkHeaderSize).take info.rawLen.toNat ∧
      out.length = info.rawLen.toNat ∧ frCrc32 out = info.crc := by
  simp only [chunkFileRange, bind, Except.bind, pure, Except.pure] at h
  split at h
  · cases h
  rename_i hlong
  cases hinfo : parseHeader (content.take chunkHeaderSize) with
  | error e =>
    rw [hinfo] at h
    cases h
  | ok info =>
    rw [hinfo] at h
    dsimp only at h
    have hall : (if info.rawLen - 0 < UInt64.ofNat (2^64 - 1) then info.rawLen - 0
        else UInt64.ofNat (2^64 - 1)) = info.rawLen := by
      have hmax : (UInt64.ofNat (2^64 - 1)).toNat = 2^64 - 1 := rfl
      have hlt := info.rawLen.toNat_lt
      split
      · exact UInt64.sub_zero _
      · rename_i hle
        rw [UInt64.lt_iff_toNat_lt, UInt64.sub_zero, hmax] at hle
        exact UInt64.toNat_inj.mp (by omega)
    rw [hall, UInt64.toNat_zero, Nat.add_zero] at h
    split at h
    · cases h
    split at h
    · cases h
    rename_i hfull
    split at h
    · cases h
    rename_i hcrc
    cases h
    have hle := List.length_take_le info.rawLen.toNat (content.drop chunkHeaderSize)
    refine ⟨info, by omega, rfl, rfl, by omega, ?_⟩
    by_contra hne
    exact hcrc ⟨trivial, rfl, hne⟩

theorem chunkFileRange_chunkFile {data : Bytes} {offset len : UInt64} (hsize : data.length < 2^64)
    (hoffset : offset.toNat ≤ data.length) :
    chunkFileRange (chunkFile data) offset len =
      .ok ((data.drop offset.toNat).take len.toNat) := by
  have hlong : ¬ (chunkFile data).length < chunkHeaderSize := by
    rw [chunkFile, List.length_append, storeHeader_length]
    omega
  have hheader : (chunkFile data).take chunkHeaderSize =
      storeHeader data.length (frCrc32 data) :=
    List.take_left' (storeHeader_length _ _)
  have hbody : (chunkFile data).drop (chunkHeaderSize + offset.toNat) =
      data.drop offset.toNat := by
    rw [← List.drop_drop, chunkFile, List.drop_left' (storeHeader_length _ _)]
  have hraw : (UInt64.ofNat data.length).toNat = data.length := UInt64.toNat_ofNat_of_lt' hsize
  have hinside : ¬ UInt64.ofNat data.length < offset := by
    rw [UInt64.lt_iff_toNat_lt, hraw]
    omega
  have havailable : (UInt64.ofNat data.length - offset).toNat = data.length - offset.toNat := by
    rw [UInt64.toNat_sub_of_le _ _ (UInt64.not_lt.mp hinside), hraw]
  -- the length that is asked of the file, and the data it gives
  obtain ⟨remaining, hremaining⟩ : ∃ r, r = if UInt64.ofNat data.length - offset < len then
      UInt64.ofNat data.length - offset else len := ⟨_, rfl⟩
  have hmin : remaining.toNat = min (data.length - offset.toNat) len.toNat := by
    rw [hremaining]
    split
    · rename_i hlt
      rw [UInt64.lt_iff_toNat_lt, havailable] at hlt
      rw [havailable, Nat.min_eq_left (by omega)]
    · rename_i hle
      rw [UInt64.lt_iff_toNat_lt, havailable] at hle
      rw [Nat.min_eq_right (by omega)]
  have hslice : (data.drop offset.toNat).take remaining.toNat =
      (data.drop offset.toNat).take len.toNat := by
    rw [hmin, Nat.min_comm, ← List.length_drop, ← List.take_eq_take_min]
  have hfull : ¬ ((data.drop offset.toNat).take len.toNat).length < remaining.toNat := by
    rw [List.length_take, List.length_drop, hmin, Nat.min_comm]
    omega
  -- a read of the whole chunk has the checksum of the header
  have hcrc : ¬ (offset = 0 ∧ remaining = UInt64.ofNat data.length ∧
      frCrc32 ((data.drop offset.toNat).take len.toNat) ≠ frCrc32 data) := by
    rintro ⟨rfl, hwhole, hne⟩
    rw [← hslice, hwhole, hraw] at hne
    exact hne (by simp)
  simp only [chunkFileRange, hlong, hheader, parseHeader_storeHeader, hinside, if_false,
    ← hremaining, hbody, hslice, hfull, hcrc, bind, Except.bind, pure, Except.pure]

end ForgeRelay
