import ForgeRelay.Core.Crc32
import ForgeRelay.Storage.ChunkFile
import ForgeRelay.Storage.Rejections

/-!
# Damaged chunk files

The length stands twice in the header of a chunk file, eight bytes apart, and the checksum stands
far enough from the data. So damage within four bytes in a row is noticed by the reader, or it is
in bytes that nobody reads.
-/

namespace ForgeRelay

open Program Prog

variable {sha : Sha256} {s s₀ s₁ : Store} {data content written : Bytes}

private theorem field_getElem? (file : Bytes) {off size j : Nat} (hj : j < size)
    (hoff : off + size ≤ chunkHeaderSize) :
    (((file.take chunkHeaderSize).drop off).take size)[j]? = file[off + j]? := by
  rw [List.getElem?_take, if_pos hj, List.getElem?_drop, List.getElem?_take, if_pos (by omega)]

private theorem field_eq {file written : Bytes} {off size : Nat}
    (hoff : off + size ≤ chunkHeaderSize)
    (hsame : ∀ j < size, file[off + j]? = written[off + j]?) :
    ((file.take chunkHeaderSize).drop off).take size =
      ((written.take chunkHeaderSize).drop off).take size := by
  refine List.ext_getElem? fun j => ?_
  by_cases hj : j < size
  · rw [field_getElem? file hj hoff, field_getElem? written hj hoff, hsame j hj]
  · rw [List.getElem?_take, if_neg hj, List.getElem?_take, if_neg hj]

/-- The two lengths of a header check each other: no window of four bytes reaches a byte of the
one and the same byte of the other. -/
private theorem rawLen_of_window {start : Nat} (hfile : chunkHeaderSize ≤ content.length)
    (hwritten : chunkHeaderSize ≤ written.length)
    (hsame : ∀ i, i < start ∨ start + 4 ≤ i → content[i]? = written[i]?)
    (hcontent : frLoadBe64 ((content.take chunkHeaderSize).drop 6) =
      frLoadBe64 ((content.take chunkHeaderSize).drop 14))
    (horiginal : frLoadBe64 ((written.take chunkHeaderSize).drop 6) =
      frLoadBe64 ((written.take chunkHeaderSize).drop 14)) :
    frLoadBe64 ((content.take chunkHeaderSize).drop 6) =
      frLoadBe64 ((written.take chunkHeaderSize).drop 6) := by
  have hroom : ∀ (file : Bytes) (off : Nat), chunkHeaderSize ≤ file.length → off ≤ 24 →
      8 ≤ ((file.take chunkHeaderSize).drop off).length := by
    intro file off hfile hoff
    rw [List.length_drop, List.length_take, Nat.min_eq_left hfile, chunkHeaderSize]
    omega
  have htwice : ∀ file : Bytes, chunkHeaderSize ≤ file.length →
      frLoadBe64 ((file.take chunkHeaderSize).drop 6) =
        frLoadBe64 ((file.take chunkHeaderSize).drop 14) →
      ∀ j < 8, file[6 + j]? = file[14 + j]? := by
    intro file hlong hlengths j hj
    have hfields := (frLoadBe64_eq_iff (hroom file 6 hlong (by decide))
      (hroom file 14 hlong (by decide))).mp hlengths
    rw [← field_getElem? file hj (by decide : 6 + 8 ≤ chunkHeaderSize), hfields,
      field_getElem? file hj (by decide : 14 + 8 ≤ chunkHeaderSize)]
  refine (frLoadBe64_eq_iff (hroom _ 6 hfile (by decide)) (hroom _ 6 hwritten (by decide))).mpr ?_
  refine field_eq (by decide) fun j hj => ?_
  by_cases houtside : 6 + j < start ∨ start + 4 ≤ 6 + j
  · exact hsame _ houtside
  · rw [htwice content hfile hcontent j hj, htwice written hwritten horiginal j hj]
    exact hsame _ (by omega)

private theorem chunkFileRange_window {out : Bytes} (hsize : data.length < 2^64)
    (hdiffers : DiffersWithin 4 content (chunkFile data))
    (h : chunkFileRange content 0 (UInt64.ofNat (2^64 - 1)) = .ok out) : out = data := by
  obtain ⟨hlength, start, hsame⟩ := hdiffers
  obtain ⟨info, hlong, hinfo, hout, hcount, hcrc⟩ := chunkFileRange_whole_ok h
  obtain ⟨hraw, hlengths, hsum⟩ := parseHeader_ok hinfo
  have hheader : (chunkFile data).take chunkHeaderSize =
      storeHeader data.length (frCrc32 data) := List.take_left' (storeHeader_length _ _)
  have hbody : (chunkFile data).drop chunkHeaderSize = data :=
    List.drop_left' (storeHeader_length _ _)
  have hwritten : chunkHeaderSize ≤ (chunkFile data).length := hlength ▸ hlong
  obtain ⟨hraw', hlengths', hsum'⟩ := parseHeader_ok (parseHeader_storeHeader data.length
    (frCrc32 data))
  rw [← hheader] at hraw' hlengths' hsum'
  -- all of the data is read
  have hraw : info.rawLen.toNat = data.length := by
    rw [hraw, rawLen_of_window hlong hwritten hsame hlengths hlengths', ← hraw']
    exact UInt64.toNat_ofNat_of_lt' hsize
  have hsize : (content.drop chunkHeaderSize).length = data.length := by
    rw [List.length_drop, hlength, ← List.length_drop, hbody]
  rw [hraw, ← hsize, List.take_length] at hout
  have hbytes : ∀ i, i + chunkHeaderSize < start ∨ start + 4 ≤ i + chunkHeaderSize →
      out[i]? = data[i]? := by
    intro i hi
    rw [hout, ← hbody, List.getElem?_drop, List.getElem?_drop]
    exact hsame _ (by omega)
  have hheaderSize : chunkHeaderSize = 32 := rfl
  by_cases hinside : start + 4 ≤ chunkHeaderSize
  · exact List.ext_getElem? fun i => hbytes i (by omega)
  -- the window reaches the data, so the checksum is the one that was written
  have hfield : ((content.take chunkHeaderSize).drop 22).take 4 =
      (((chunkFile data).take chunkHeaderSize).drop 22).take 4 :=
    field_eq (by decide) fun j hj => hsame _ (by omega)
  have hroom : ∀ file : Bytes, chunkHeaderSize ≤ file.length →
      4 ≤ ((file.take chunkHeaderSize).drop 22).length := by
    intro file hfile
    rw [List.length_drop, List.length_take, Nat.min_eq_left hfile]
    omega
  rw [hsum, (frLoadBe32_eq_iff (hroom _ hlong) (hroom _ hwritten)).mpr hfield, ← hsum'] at hcrc
  refine frCrc32_window (start - chunkHeaderSize) ?_ (fun i hi => hbytes i (by omega)) hcrc
  rw [hout, hsize]

/-- What `get` gives of a file that is there, whatever fails in it. -/
private theorem chunkStoreGet_exec {r : Except Error Bytes} {s' : Store}
    (hfile : s.files (relPath (sha.hex data)) = some content)
    (hget : Exec anywhere (chunkStoreGet (sha.hex data)) s (some r) s') {out : Bytes}
    (hok : r = .ok out) : chunkFileRange content 0 (UInt64.ofNat (2^64 - 1)) = .ok out := by
  have hwp : wp anywhere (fun _ => True) (chunkStoreGet (sha.hex data))
      (fun r _ => ∀ out, r = .ok out →
        chunkFileRange content 0 (UInt64.ofNat (2^64 - 1)) = .ok out) s := by
    rw [chunkStoreGet, chunkStoreGetRange_hex, fileStep, wp_lift]
    refine ⟨fun _ => ⟨trivial, fun e out h => (by cases h)⟩, fun out h => ?_⟩
    simp only [hfile] at h
    exact h
  exact wp_sound hwp hget out hok

/-- The file that a put has written is damaged within four bytes in a row, anywhere in it: then a
get throws, or it gives exactly the content that was put. -/
theorem short_corruption_noticed {tag : Bytes} {r : Except Error Bytes} {s' : Store}
    (hsize : data.length < 2^64) (hnew : s₀.files (relPath (sha.hex data)) = none)
    (hput : Exec anywhere (chunkStorePut sha tag data (sha.hex data)) s₀ (some (.ok ())) s₁)
    (hwritten : s₁.files (relPath (sha.hex data)) = some written)
    (hdiffers : DiffersWithin 4 content written)
    (hfile : s.files (relPath (sha.hex data)) = some content)
    (hget : Exec anywhere (chunkStoreGet (sha.hex data)) s (some r) s') :
    (∃ e, r = .error e) ∨ r = .ok data := by
  have hplaced : wp anywhere (fun _ => True) (chunkStorePut sha tag data (sha.hex data)) _ s₀ :=
    chunkStorePut_places fun _ _ => trivial
  have hfiles : s₁.files (relPath (sha.hex data)) = some (chunkFile data) := by
    rcases wp_sound hplaced hput with ⟨-, hstored⟩ | ⟨-, tmp, hs₁⟩
    · rw [Stored, hnew] at hstored
      cases hstored
    · rw [hs₁]
      exact Function.update_self _ _ _
  obtain rfl := Option.some.inj (hwritten.symm.trans hfiles)
  rcases hr : r with e | out
  · exact .inl ⟨e, rfl⟩
  · have hread := chunkStoreGet_exec hfile hget hr
    exact .inr (congrArg _ (chunkFileRange_window hsize hdiffers hread))

/-- The file of the content `a` with another last byte. -/
def sampleDamaged : Bytes := storeHeader 1 (frCrc32 (ascii "a")) ++ ascii "b"

theorem short_corruption_noticed_sample :
    ((chunkStoreGet (sampleSha.hex (ascii "a"))).run
      { Store.empty with files := fun _ => some sampleDamaged }).1.isOk = false := by
  have hput := exec_run anywhere
    (chunkStorePut sampleSha (ascii "1") (ascii "a") (sampleSha.hex (ascii "a"))) .empty
  rw [chunkStorePut_run (by simp [Store.empty])] at hput
  have hwritten : (Store.empty.withFile sampleSha (ascii "a")).files
      (relPath (sampleSha.hex (ascii "a"))) = some (chunkFile (ascii "a")) := by
    rw [Store.withFile, if_neg (by simp [Store.empty])]
    simp [Store.empty]
  have hdiffers : DiffersWithin 4 sampleDamaged (chunkFile (ascii "a")) := by
    have hwindow : DiffersWithin 4 (storeHeader 1 (frCrc32 (ascii "a")) ++ ascii "b" ++ [])
        (storeHeader 1 (frCrc32 (ascii "a")) ++ ascii "a" ++ []) :=
      .of_append _ _ rfl (by decide)
    rwa [List.append_nil, List.append_nil] at hwindow
  rcases short_corruption_noticed (by decide) rfl hput hwritten hdiffers rfl
    (exec_run anywhere (chunkStoreGet (sampleSha.hex (ascii "a")))
      { Store.empty with files := fun _ => some sampleDamaged }) with ⟨e, he⟩ | hdata
  · rw [he]
    rfl
  · exact absurd hdata (by decide +kernel)

end ForgeRelay
