import ForgeRelay.Core.Buffer
import ForgeRelay.Storage.ChunkFile

/-!
# Reading a chunk file into a buffer

`get_range` with the buffer that it fills. The number of bytes comes from a header that may be
damaged, and the status of the reservation is not looked at: without room the read is asked to
write beyond the allocation.
-/

namespace ForgeRelay

variable {alloc : Nat → Bool} {content : Bytes} {offset len : UInt64} {out : FrBuf}

/-- What every operation on a buffer keeps: the content lies within the allocation. -/
def FrBuf.Valid (buf : FrBuf) : Prop := buf.data.length ≤ buf.cap ∧ buf.cap < sizeLimit

/-- The capacity from which a reservation starts doubling. -/
def FrBuf.startCap (buf : FrBuf) : Nat := if buf.cap ≠ 0 then buf.cap else 64

/-- There is room for `n` more bytes, or the first doubled capacity that has it stays within the
address space and the allocator has so many bytes. -/
def CanHold (alloc : Nat → Bool) (buf : FrBuf) (n : Nat) : Prop :=
  buf.data.length + n ≤ buf.cap ∨ ∃ k, buf.startCap * 2^k < sizeLimit ∧
    buf.data.length + n ≤ buf.startCap * 2^k ∧
    (∀ j < k, buf.startCap * 2^j < buf.data.length + n) ∧ alloc (buf.startCap * 2^k) = true

private theorem frBufReserve_ok_iff {buf : FrBuf} (hvalid : buf.Valid) (n : Nat) :
    (frBufReserve alloc buf n).1 = .ok ↔ CanHold alloc buf n := by
  have hpos : 0 < buf.startCap := by
    unfold FrBuf.startCap
    split <;> omega
  have hstart : buf.startCap < sizeLimit := by
    unfold FrBuf.startCap
    split
    · exact hvalid.2
    · decide
  unfold frBufReserve
  dsimp only
  rw [← FrBuf.startCap]
  by_cases hover : sizeLimit ≤ buf.data.length + n
  · rw [if_pos hover]
    refine iff_of_false nofun ?_
    rintro (hroom | ⟨k, hlimit, hneeded, -⟩)
    · exact absurd hvalid.2 (by omega)
    · omega
  rw [if_neg hover]
  by_cases hroom : buf.data.length + n ≤ buf.cap
  · rw [if_pos hroom]
    exact iff_of_true rfl (.inl hroom)
  rw [if_neg hroom]
  cases hgrow : growCap 65 (buf.data.length + n) buf.startCap with
  | none =>
    refine iff_of_false nofun ?_
    rintro (h | ⟨k, hlimit, hneeded, hsmall, -⟩)
    · exact hroom h
    · have hfuel : k < 65 := by
        by_contra hlarge
        have hle : 2^65 ≤ 2^k := Nat.pow_le_pow_right (by decide) (by omega)
        have hmul := Nat.le_mul_of_pos_left (2^k) hpos
        unfold sizeLimit at hlimit
        omega
      rw [growCap_reaches hlimit hneeded hsmall hfuel] at hgrow
      cases hgrow
  | some cap =>
    obtain ⟨hlimit, hneeded, k, rfl, hsmall⟩ := growCap_eq_some hgrow hstart
    dsimp only
    by_cases halloc : alloc (buf.startCap * 2^k) = true
    · rw [if_pos halloc]
      exact iff_of_true rfl (.inr ⟨k, hlimit, hneeded, hsmall, halloc⟩)
    · rw [if_neg halloc]
      refine iff_of_false nofun ?_
      rintro (h | ⟨k', hlimit', hneeded', hsmall', halloc'⟩)
      · exact hroom h
      · -- the first doubling that is large enough is unique
        have hsame : k' = k := by
          rcases Nat.lt_trichotomy k' k with hlt | heq | hlt
          · have hcap := hsmall k' hlt
            omega
          · exact heq
          · have hcap := hsmall' k hlt
            omega
        exact halloc (hsame ▸ halloc')

private theorem frBufReserve_room (alloc : Nat → Bool) (buf : FrBuf) (n : Nat) :
    (frBufReserve alloc buf n).1 = .ok ∧
        buf.data.length + n ≤ (frBufReserve alloc buf n).2.cap ∨
      (frBufReserve alloc buf n).1 ≠ .ok ∧ (frBufReserve alloc buf n).2 = buf := by
  unfold frBufReserve
  dsimp only
  split
  · exact .inr ⟨nofun, rfl⟩
  split
  · exact .inl ⟨rfl, by assumption⟩
  cases hgrow : growCap 65 (buf.data.length + n) (if buf.cap ≠ 0 then buf.cap else 64) with
  | none => exact .inr ⟨nofun, rfl⟩
  | some cap =>
    dsimp only
    split
    · exact .inl ⟨rfl, growCap_le hgrow⟩
    · exact .inr ⟨nofun, rfl⟩

/-- What `fr_fd_read_full` is asked for: so many bytes, and the room behind the place for them. -/
structure Fill where
  count : Nat
  room : Nat
  deriving DecidableEq, Repr

/-- A call of `get_range`: what the read of the data was asked for, if it came to that, the
result, and the buffer. -/
structure RangeRead where
  fill : Option Fill
  result : Except Error Unit
  out : FrBuf
  deriving DecidableEq

/-- `ChunkStore::get_range` behind the opening of the file, which has this content. A read beyond
the allocation is carried out as if there was room. -/
def getRangeInto (alloc : Nat → Bool) (content : Bytes) (offset len : UInt64) (out : FrBuf) :
    RangeRead :=
  if content.length < chunkHeaderSize then
    ⟨none, .error (.fr .eIo (ascii ("read chunk header: read_full: got " ++
      toString content.length ++ " of 32 bytes"))), out⟩
  else match parseHeader (content.take chunkHeaderSize) with
    | .error e => ⟨none, .error e, out⟩
    | .ok info =>
      if info.rawLen < offset then
        ⟨none, .error (.of .eRange "chunk range out of bounds"), out⟩
      else
        let available := info.rawLen - offset
        let remaining := if available < len then available else len
        let position := offset + UInt64.ofNat chunkHeaderSize
        if 2^63 ≤ position.toNat then -- beyond off_t
          ⟨none, .error (.of .eIo "seek chunk: lseek: Invalid argument (errno=22)"), out⟩
        else
          -- the status of the reservation is not looked at
          let grown := (frBufReserve alloc out remaining.toNat).2
          if remaining = 0 then ⟨none, checkCrc offset info [], grown⟩
          else
            let fill := some ⟨remaining.toNat, grown.cap - grown.data.length⟩
            let data := (content.drop position.toNat).take remaining.toNat
            if grown.cap = 0 then -- no allocation
              ⟨fill, .error (.of .eArg "read chunk data: read_full: null buffer"), grown⟩
            else if data.length < remaining.toNat then
              ⟨fill, .error (.fr .eEof (ascii ("read chunk data: read_full: got " ++
                toString data.length ++ " of " ++ toString remaining.toNat ++ " bytes"))), grown⟩
            else ⟨fill, checkCrc offset info data, { grown with data := grown.data ++ data }⟩
where
  /-- The check of the checksum, for a read of the whole chunk. -/
  checkCrc (offset : UInt64) (info : ChunkMeta) (data : Bytes) : Except Error Unit :=
    if offset = 0 ∧ UInt64.ofNat data.length = info.rawLen ∧ frCrc32 data ≠ info.crc then
      .error (.of .eIo "chunk crc mismatch (corrupted chunk file)")
    else .ok ()

/-- The call comes to the reservation: the file has a good header, the offset is not beyond the
length in it, and the data can be seeked. -/
structure Reaches (content : Bytes) (offset : UInt64) (info : ChunkMeta) : Prop where
  header : chunkHeaderSize ≤ content.length
  parsed : parseHeader (content.take chunkHeaderSize) = .ok info
  inside : offset ≤ info.rawLen
  seekable : (offset + UInt64.ofNat chunkHeaderSize).toNat < 2^63

/-- The bytes that are asked for, by the length that the header tells. -/
def ChunkMeta.wanted (info : ChunkMeta) (offset len : UInt64) : UInt64 :=
  if info.rawLen - offset < len then info.rawLen - offset else len

private theorem getRangeInto_early (alloc : Nat → Bool) (len : UInt64) (out : FrBuf)
    (h : ∀ info, ¬ Reaches content offset info) :
    ∃ e, getRangeInto alloc content offset len out = ⟨none, .error e, out⟩ := by
  unfold getRangeInto
  split
  · exact ⟨_, rfl⟩
  rename_i hheader
  cases hparsed : parseHeader (content.take chunkHeaderSize) with
  | error e => exact ⟨e, rfl⟩
  | ok info =>
    dsimp only
    split
    · exact ⟨_, rfl⟩
    rename_i hinside
    split
    · exact ⟨_, rfl⟩
    rename_i hseek
    exact absurd ⟨Nat.not_lt.mp hheader, hparsed, UInt64.not_lt.mp hinside, Nat.not_le.mp hseek⟩
      (h info)

private theorem getRangeInto_reaches (alloc : Nat → Bool) (len : UInt64) (out : FrBuf)
    {info : ChunkMeta} (h : Reaches content offset info) :
    (getRangeInto alloc content offset len out).fill =
      if info.wanted offset len = 0 then none
      else some ⟨(info.wanted offset len).toNat,
        (frBufReserve alloc out (info.wanted offset len).toNat).2.cap - out.data.length⟩ := by
  unfold getRangeInto
  rw [if_neg (Nat.not_lt.mpr h.header), h.parsed]
  dsimp only
  rw [if_neg (UInt64.not_lt.mpr h.inside), if_neg (Nat.not_le.mpr h.seekable), ← ChunkMeta.wanted,
    frBufReserve_data]
  split
  · rfl
  split
  · rfl
  split <;> rfl

/-- What is asked of a call: a read is asked only for bytes that there is room for, and if the room
cannot be reserved the call throws without reading and leaves the buffer as it is. -/
structure ReadsWithin (alloc : Nat → Bool) (content : Bytes) (offset len : UInt64) (out : FrBuf) :
    Prop where
  within : ∀ fill, (getRangeInto alloc content offset len out).fill = some fill →
    fill.count ≤ fill.room
  refused : ∀ info, Reaches content offset info →
    (frBufReserve alloc out (info.wanted offset len).toNat).1 ≠ .ok →
    ∃ e, getRangeInto alloc content offset len out = ⟨none, .error e, out⟩

/-- A call reads within its buffer if and only if it throws before the reservation, or there is room
for the bytes that the header makes it want. -/
theorem getRange_readsWithin_iff (hvalid : out.Valid) :
    ReadsWithin alloc content offset len out ↔
      ∀ info, Reaches content offset info →
        CanHold alloc out (info.wanted offset len).toNat := by
  refine ⟨fun hreads info hreaches => ?_, fun hroom => ⟨fun fill hfill => ?_, ?_⟩⟩
  · by_contra hnone
    have hstatus := mt (frBufReserve_ok_iff hvalid _).mp hnone
    obtain ⟨e, hrefused⟩ := hreads.refused info hreaches hstatus
    have hwanted : info.wanted offset len ≠ 0 := by
      intro hzero
      rw [hzero] at hnone
      exact hnone (.inl hvalid.1)
    have hfill := getRangeInto_reaches alloc len out hreaches
    rw [hrefused, if_neg hwanted] at hfill
    cases hfill
  · by_cases hreaches : ∃ info, Reaches content offset info
    · obtain ⟨info, hreaches⟩ := hreaches
      rw [getRangeInto_reaches alloc len out hreaches] at hfill
      split at hfill
      · cases hfill
      cases hfill
      rcases frBufReserve_room alloc out (info.wanted offset len).toNat with
        ⟨-, hle⟩ | ⟨hstatus, -⟩
      · exact Nat.le_sub_of_add_le (Nat.add_comm _ _ ▸ hle)
      · exact absurd ((frBufReserve_ok_iff hvalid _).mpr (hroom info hreaches)) hstatus
    · obtain ⟨e, hearly⟩ := getRangeInto_early alloc len out (not_exists.mp hreaches)
      rw [hearly] at hfill
      cases hfill
  · exact fun info hreaches hstatus =>
      absurd ((frBufReserve_ok_iff hvalid _).mpr (hroom info hreaches)) hstatus

private theorem checkCrc_eq {info : ChunkMeta} {wanted : UInt64} {data : Bytes} {fill : Option Fill}
    {grown : FrBuf} (hgrown : grown.data = out.data ++ data)
    (hlength : data.length = wanted.toNat) :
    (RangeRead.mk fill (getRangeInto.checkCrc offset info data) grown).result =
        (if offset = 0 ∧ wanted = info.rawLen ∧ frCrc32 data ≠ info.crc then
          Except.error (Error.of .eIo "chunk crc mismatch (corrupted chunk file)")
        else .ok data).map (fun _ => ()) ∧
      ∀ data', (if offset = 0 ∧ wanted = info.rawLen ∧ frCrc32 data ≠ info.crc then
          Except.error (Error.of .eIo "chunk crc mismatch (corrupted chunk file)")
        else .ok data) = .ok data' →
        (RangeRead.mk fill (getRangeInto.checkCrc offset info data) grown).out.data =
          out.data ++ data' := by
  unfold getRangeInto.checkCrc
  rw [hlength, UInt64.ofNat_toNat]
  split
  · exact ⟨rfl, nofun⟩
  · refine ⟨rfl, fun data' hdata => ?_⟩
    cases hdata
    exact hgrown

theorem getRangeInto_eq_chunkFileRange (hvalid : out.Valid)
    (hroom : ∀ info, Reaches content offset info → CanHold alloc out (info.wanted offset len).toNat)
    (hoffset : offset.toNat + chunkHeaderSize < 2^63) :
    (getRangeInto alloc content offset len out).result =
        (chunkFileRange content offset len).map (fun _ => ()) ∧
      ∀ data, chunkFileRange content offset len = .ok data →
        (getRangeInto alloc content offset len out).out.data = out.data ++ data := by
  have hposition : (offset + UInt64.ofNat chunkHeaderSize).toNat =
      chunkHeaderSize + offset.toNat := by
    have hsize : (UInt64.ofNat chunkHeaderSize).toNat = chunkHeaderSize := rfl
    rw [UInt64.toNat_add, hsize, Nat.mod_eq_of_lt (by omega), Nat.add_comm]
  simp only [getRangeInto, chunkFileRange, bind, Except.bind, pure, Except.pure]
  by_cases hheader : content.length < chunkHeaderSize
  · rw [if_pos hheader, if_pos hheader]
    exact ⟨rfl, by rintro _ ⟨⟩⟩
  rw [if_neg hheader, if_neg hheader]
  cases hparsed : parseHeader (content.take chunkHeaderSize) with
  | error e => exact ⟨rfl, by rintro _ ⟨⟩⟩
  | ok info =>
    dsimp only
    by_cases hinside : info.rawLen < offset
    · rw [if_pos hinside, if_pos hinside]
      exact ⟨rfl, by rintro _ ⟨⟩⟩
    have hreaches : Reaches content offset info :=
      ⟨Nat.not_lt.mp hheader, hparsed, UInt64.not_lt.mp hinside, by omega⟩
    have hreserve := (frBufReserve_ok_iff hvalid _).mpr (hroom info hreaches)
    rw [if_neg hinside, if_neg hinside, if_neg (Nat.not_le.mpr hreaches.seekable), hposition,
      ← ChunkMeta.wanted]
    by_cases hzero : info.wanted offset len = 0
    · rw [if_pos hzero, hzero, UInt64.toNat_zero, List.take_zero, List.length_nil,
        if_neg (Nat.lt_irrefl 0)]
      exact checkCrc_eq ((frBufReserve_data alloc out 0).trans (List.append_nil _).symm) rfl
    rw [if_neg hzero]
    have hcap : (frBufReserve alloc out (info.wanted offset len).toNat).2.cap ≠ 0 := by
      have hwanted : (info.wanted offset len).toNat ≠ 0 := fun h => hzero (UInt64.toNat_inj.mp h)
      rcases frBufReserve_room alloc out (info.wanted offset len).toNat with ⟨-, hle⟩ | ⟨hstatus, -⟩
      · omega
      · exact absurd hreserve hstatus
    rw [if_neg hcap]
    split
    · exact ⟨rfl, by rintro _ ⟨⟩⟩
    · rename_i hfull
      have hlength : ((content.drop (chunkHeaderSize + offset.toNat)).take
          (info.wanted offset len).toNat).length = (info.wanted offset len).toNat :=
        Nat.le_antisymm (List.length_take_le _ _) (Nat.not_lt.mp hfull)
      exact checkCrc_eq (congrArg (· ++ _) (frBufReserve_data alloc out _)) hlength

/-- A file whose header tells a length of 32 TiB. -/
def sampleOversized : Bytes :=
  storeHeader 35184372088832 0 ++ List.replicate 100 0

theorem getRange_readsWithin_iff_sample :
    ReadsWithin (fun _ => true) (chunkFile (ascii "a")) 0 18446744073709551615 ⟨[], 64⟩ := by
  refine (getRange_readsWithin_iff ⟨by decide, by decide⟩).mpr fun info hreaches => .inl ?_
  have hparsed : parseHeader ((chunkFile (ascii "a")).take chunkHeaderSize) =
      .ok ⟨1, 1, frCrc32 (ascii "a")⟩ := by decide +kernel
  obtain rfl := Except.ok.inj (hparsed.symm.trans hreaches.parsed)
  decide

/-- The buffer of an earlier chunk has 64 bytes, there is no memory for more, and the read is asked
for 2^45. -/
theorem oversized_header_overruns :
    ¬ ReadsWithin (· < 2^45) sampleOversized 0 18446744073709551615 ⟨[], 64⟩ := by
  intro hreads
  have hle := hreads.within ⟨35184372088832, 64⟩ (by decide +kernel)
  exact absurd hle (by decide)

end ForgeRelay
