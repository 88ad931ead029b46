import ForgeRelay.Storage.ChunkFile

/-!
# Which headers are accepted

`parse_header` reads 30 of the 32 bytes: what stands in the last two, which are reserved and
written as zeros, makes no difference to it.
-/

namespace ForgeRelay

variable {header : Bytes}

/-- The fields that `parse_header` looks at are as `store_header` writes them. -/
structure HeaderChecked (header : Bytes) : Prop where
  magic : header.take 4 = ascii "FRCH"
  version : header.getD 4 0 = chunkFormatVersion
  reserved : header.getD 5 0 = 0
  lengths : (header.drop 6).take 8 = (header.drop 14).take 8
  tail : (header.drop 26).take 4 = [0, 0, 0, 0]

private theorem parseHeader_isOk_iff (hsize : header.length = chunkHeaderSize) :
    (∃ info, parseHeader header = .ok info) ↔ HeaderChecked header := by
  have hroom (off size : Nat) (hin : off + size ≤ chunkHeaderSize) :
      size ≤ (header.drop off).length := by
    rw [List.length_drop]
    omega
  have hlengths := frLoadBe64_eq_iff (hroom 6 8 (by decide)) (hroom 14 8 (by decide))
  have hzero : frLoadBe32 (header.drop 26) = 0 ↔ (header.drop 26).take 4 = [0, 0, 0, 0] :=
    frLoadBe32_eq_iff (q := [0, 0, 0, 0]) (hroom 26 4 (by decide)) le_rfl
  unfold parseHeader
  split
  · rename_i hmagic
    exact iff_of_false (by rintro ⟨_, ⟨⟩⟩) fun h => hmagic h.magic
  rename_i hmagic
  split
  · rename_i hversion
    exact iff_of_false (by rintro ⟨_, ⟨⟩⟩) fun h => hversion h.version
  rename_i hversion
  split
  · rename_i hreserved
    exact iff_of_false (by rintro ⟨_, ⟨⟩⟩) fun h => hreserved h.reserved
  rename_i hreserved
  split
  · rename_i htail
    exact iff_of_false (by rintro ⟨_, ⟨⟩⟩) fun h => htail (hzero.mpr h.tail)
  rename_i htail
  dsimp only
  split
  · rename_i hne
    exact iff_of_false (by rintro ⟨_, ⟨⟩⟩) fun h => hne (hlengths.mpr h.lengths)
  · rename_i heq
    exact iff_of_true ⟨_, rfl⟩ ⟨not_not.mp hmagic, not_not.mp hversion, not_not.mp hreserved,
      hlengths.mp (not_not.mp heq), hzero.mp (not_not.mp htail)⟩

private theorem header_fields (hsize : header.length = chunkHeaderSize) :
    header = header.take 4 ++ [header.getD 4 0, header.getD 5 0] ++ (header.drop 6).take 8 ++
      (header.drop 14).take 8 ++ (header.drop 22).take 4 ++ (header.drop 26).take 4 ++
      header.drop 30 := by
  have hsplit (front size : Nat) : header.take front ++ (header.drop front).take size =
      header.take (front + size) := (List.take_add ..).symm
  have hbytes : [header.getD 4 0, header.getD 5 0] = (header.drop 4).take 2 := by
    have h4 : 4 < header.length := by rw [hsize]; decide
    have h5 : 5 < header.length := by rw [hsize]; decide
    rw [List.drop_eq_getElem_cons h4, List.drop_eq_getElem_cons h5, List.getD_eq_getElem _ _ h4,
      List.getD_eq_getElem _ _ h5]
    rfl
  rw [hbytes, hsplit, hsplit, hsplit, hsplit, hsplit, List.take_append_drop]

private theorem eq_storeHeader_iff (hsize : header.length = chunkHeaderSize) :
    (∃ (len : UInt64) (crc : UInt32), header = storeHeader len.toNat crc) ↔
      HeaderChecked header ∧ header.drop 30 = [0, 0] := by
  constructor
  · rintro ⟨len, crc, rfl⟩
    refine ⟨(parseHeader_isOk_iff hsize).mp ⟨_, parseHeader_storeHeader _ _⟩, ?_⟩
    refine List.drop_left' ?_
    simp [ascii]
  · rintro ⟨hchecked, hlast⟩
    refine ⟨frLoadBe64 (header.drop 6), frLoadBe32 (header.drop 22), ?_⟩
    have hlong : 8 ≤ (header.drop 6).length ∧ 4 ≤ (header.drop 22).length := by
      rw [List.length_drop, List.length_drop, hsize]
      decide
    rw [storeHeader, UInt64.ofNat_toNat, frStoreBe64_load _ hlong.1, frStoreBe32_load _ hlong.2]
    conv_lhs => rw [header_fields hsize]
    rw [hchecked.magic, hchecked.version, hchecked.reserved, ← hchecked.lengths, hchecked.tail,
      hlast]
    rfl

/-- What is asked of `parse_header`: it accepts what `store_header` can have written and nothing
else, and gives the length, twice, and the checksum. -/
structure AcceptsWritten (header : Bytes) : Prop where
  accepted : (∃ info, parseHeader header = .ok info) ↔
    ∃ (len : UInt64) (crc : UInt32), header = storeHeader len.toNat crc
  returned : ∀ (len : UInt64) (crc : UInt32), header = storeHeader len.toNat crc →
    parseHeader header = .ok ⟨len, len, crc⟩

/-- Of the 32-byte strings whose other fields are right, the right ones are accepted alone if and
only if the last two bytes are zero. -/
theorem parseHeader_exact_iff (hsize : header.length = chunkHeaderSize) :
    AcceptsWritten header ↔ (HeaderChecked header → header.drop 30 = [0, 0]) := by
  constructor
  · intro h hchecked
    exact ((eq_storeHeader_iff hsize).mp
      (h.accepted.mp ((parseHeader_isOk_iff hsize).mpr hchecked))).2
  · intro hlast
    refine ⟨?_, fun len crc hheader => ?_⟩
    · rw [parseHeader_isOk_iff hsize, eq_storeHeader_iff hsize]
      exact ⟨fun hchecked => ⟨hchecked, hlast hchecked⟩, And.left⟩
    · rw [hheader, parseHeader_storeHeader, UInt64.ofNat_toNat]

theorem parseHeader_exact_iff_written : AcceptsWritten (storeHeader 1 0) :=
  (parseHeader_exact_iff (storeHeader_length 1 0)).mpr fun _ => rfl

/-- A header with a one in its last byte is accepted, and is none that is written. -/
theorem nonzero_tail_accepted : ¬ ∀ header : Bytes, header.length = chunkHeaderSize →
    AcceptsWritten header := by
  intro hall
  have hwritten := (hall ((storeHeader 1 0).set 31 1) rfl).accepted.mp
    ⟨⟨1, 1, 0⟩, by decide +kernel⟩
  obtain ⟨len, crc, hheader⟩ := hwritten
  have hlast := ((eq_storeHeader_iff rfl).mp ⟨len, crc, hheader⟩).2
  exact absurd hlast (by decide +kernel)

end ForgeRelay
