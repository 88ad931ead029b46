import ForgeRelay.Storage.UploadSpecs

/-!
# Building a manifest

The scan over the parts of a session gives the manifest of the uploaded chunks, and reading the
chunks of a manifest gives their concatenation.
-/

namespace ForgeRelay

open Program Prog

variable {sha : Sha256} {contents leaked : Set Bytes} {s₀ s : Store}
  {interrupts : Label → Store → Prop} {crash : Store → Prop}

/-- The part registers this chunk. -/
structure Registers (sha : Sha256) (p : PartRow) (data : Bytes) : Prop where
  digest : p.digest = sha.hex data
  length : p.length.toNat = data.length

theorem uint64_toNat_ofNat {n : Nat} (h : n < 2^64) : (UInt64.ofNat n).toNat = n :=
  UInt64.toNat_ofNat_of_lt' h

private theorem uint64_ofNat_add (off : Nat) {len : UInt64} {n : Nat} (h : len.toNat = n) :
    UInt64.ofNat off + len = UInt64.ofNat (off + n) := by
  rw [UInt64.ofNat_add, ← h, UInt64.ofNat_toNat]

private theorem scanParts_ok_aux {chunkSize total : UInt64} {parts : List PartRow}
    {acc manifest : List ManifestEntry} {i off : Nat}
    (hparts : ∀ p ∈ parts, ∃ data ∈ contents, Registers sha p data)
    (hscan : scanParts chunkSize (Int64.ofNat i) (UInt64.ofNat off) acc parts =
      .ok (manifest, total)) :
    ∃ chunks, List.Forall₂ (Registers sha) parts chunks ∧ (∀ data ∈ chunks, data ∈ contents) ∧
      (∀ data ∈ chunks, data.length ≤ chunkSize.toNat) ∧
      manifest = acc.reverse ++ manifestOf sha i off chunks ∧
      total = UInt64.ofNat (off + chunks.flatten.length) := by
  induction parts generalizing i off acc with
  | nil =>
    simp only [scanParts, Except.ok.injEq, Prod.mk.injEq] at hscan
    exact ⟨[], .nil, by simp, by simp, by simp [manifestOf, hscan.1], by simp [hscan.2]⟩
  | cons part parts ih =>
    obtain ⟨data, hdata, hreg⟩ := hparts part List.mem_cons_self
    rw [scanParts] at hscan
    split at hscan
    · cases hscan
    rename_i hordinal
    split at hscan
    · cases hscan
    rename_i hlength
    rw [uint64_ofNat_add off hreg.length, show Int64.ofNat i + 1 = Int64.ofNat (i + 1) from
      (Int64.ofNat_add i 1).symm] at hscan
    obtain ⟨chunks, hforall, hknown, hsize, hmanifest, htotal⟩ :=
      ih (fun p hp => hparts p (List.mem_cons_of_mem _ hp)) hscan
    refine ⟨data :: chunks, .cons hreg hforall, ?_, ?_, ?_, ?_⟩
    · exact List.forall_mem_cons.mpr ⟨hdata, hknown⟩
    · refine List.forall_mem_cons.mpr ⟨?_, hsize⟩
      rw [← hreg.length]
      exact UInt64.le_iff_toNat_le.mp (UInt64.not_lt.mp hlength)
    · have hlen : part.length = UInt64.ofNat data.length := by
        rw [← hreg.length, UInt64.ofNat_toNat]
      rw [hmanifest, List.reverse_cons, manifestOf, not_not.mp hordinal, hreg.digest, hlen]
      simp
    · rw [htotal, List.flatten_cons, List.length_append]
      congr 1
      omega

theorem scanParts_ok {chunkSize total : UInt64} {parts : List PartRow}
    {manifest : List ManifestEntry}
    (hparts : ∀ p ∈ parts, ∃ data ∈ contents, Registers sha p data)
    (hscan : scanParts chunkSize 0 0 [] parts = .ok (manifest, total)) :
    ∃ chunks, List.Forall₂ (Registers sha) parts chunks ∧ (∀ data ∈ chunks, data ∈ contents) ∧
      (∀ data ∈ chunks, data.length ≤ chunkSize.toNat) ∧
      manifest = manifestOf sha 0 0 chunks ∧ total = UInt64.ofNat chunks.flatten.length := by
  obtain ⟨chunks, hforall, hknown, hsize, hmanifest, htotal⟩ :=
    scanParts_ok_aux (i := 0) hparts hscan
  exact ⟨chunks, hforall, hknown, hsize, by simpa using hmanifest, by simpa using htotal⟩

theorem scanParts_of_registers {chunkSize : UInt64} {parts : List PartRow} {chunks : List Bytes}
    {acc : List ManifestEntry} {i off : Nat} (hreg : List.Forall₂ (Registers sha) parts chunks)
    (hordinals : parts.map (·.ordinal) = (List.range' i parts.length).map Int64.ofNat)
    (hsize : ∀ data ∈ chunks, data.length ≤ chunkSize.toNat) :
    scanParts chunkSize (Int64.ofNat i) (UInt64.ofNat off) acc parts =
      .ok (acc.reverse ++ manifestOf sha i off chunks,
        UInt64.ofNat (off + chunks.flatten.length)) := by
  induction hreg generalizing i off acc with
  | nil => simp [scanParts, manifestOf]
  | @cons part data parts chunks hpart _ ih =>
    obtain ⟨hdata, hrest⟩ := List.forall_mem_cons.mp hsize
    rw [List.length_cons, List.range'_succ, List.map_cons, List.map_cons] at hordinals
    obtain ⟨hordinal, hordinals⟩ := List.cons.inj hordinals
    have hlen : part.length = UInt64.ofNat data.length := by
      rw [← hpart.length, UInt64.ofNat_toNat]
    have hfits : ¬ chunkSize < part.length := by
      rw [UInt64.lt_iff_toNat_lt, hpart.length]
      omega
    rw [scanParts, if_neg (not_not.mpr hordinal), if_neg hfits, uint64_ofNat_add off hpart.length,
      show Int64.ofNat i + 1 = Int64.ofNat (i + 1) from (Int64.ofNat_add i 1).symm,
      ih hordinals hrest, manifestOf, hordinal, hpart.digest, hlen, List.reverse_cons,
      List.append_assoc, List.singleton_append, List.flatten_cons, List.length_append,
      Nat.add_assoc]

theorem chunkCount_mul_lt (session : SessionInfo) :
    (chunkCount session).toNat * session.chunkSize.toNat < 2^64 := by
  unfold chunkCount
  split
  · simp
  · rw [UInt64.toNat_div]
    exact (Nat.div_mul_le_self _ _).trans_lt (UInt64.toNat_lt _)

theorem flatten_length_le {chunks : List Bytes} {n : Nat}
    (hsize : ∀ data ∈ chunks, data.length ≤ n) : chunks.flatten.length ≤ chunks.length * n := by
  induction chunks with
  | nil => simp
  | cons data rest ih =>
    obtain ⟨hdata, hrest⟩ := List.forall_mem_cons.mp hsize
    have hih := ih hrest
    rw [List.flatten_cons, List.length_append, List.length_cons, Nat.succ_mul]
    omega

theorem chunkStoreGetRange_hex (data : Bytes) (offset len : UInt64) :
    chunkStoreGetRange (sha.hex data) offset len = fileStep fun s =>
      match s.files (relPath (sha.hex data)) with
      | none => (.error (.of .eNotfound "chunk file missing"), s)
      | some content => (chunkFileRange content offset len, s) := by
  rw [chunkStoreGetRange, if_neg (by simp [sha.hex_valid]), chunkPath_hex]
  exact bind_pure_left _ _

/-- The files of all these chunks are there. -/
def FilesOf (sha : Sha256) (chunks : List Bytes) (s : Store) : Prop :=
  ∀ data ∈ chunks, s.files (relPath (sha.hex data)) = some (chunkFile data)

/-- A complete file gives back its chunk; whatever a file is, reading it changes nothing. -/
private theorem chunkStoreGet_wp {data : Bytes} (hcrash : crash s) (hsize : data.length < 2^64) :
    wp interrupts crash (chunkStoreGet (sha.hex data))
      (Outcome (· = s) fun content s' => s' = s ∧
        (s.files (relPath (sha.hex data)) = some (chunkFile data) → content = data)) s := by
  rw [chunkStoreGet, chunkStoreGetRange_hex, fileStep, wp_lift]
  refine ⟨fun _ => ⟨hcrash, fun _ => rfl⟩, ?_⟩
  cases hfile : s.files (relPath (sha.hex data)) with
  | none => exact rfl
  | some file =>
    dsimp only
    cases hread : chunkFileRange file 0 (UInt64.ofNat (2^64 - 1)) with
    | error e => exact rfl
    | ok content =>
      refine ⟨rfl, fun hcomplete => ?_⟩
      rw [Option.some.inj hcomplete, chunkFileRange_chunkFile hsize (by simp)] at hread
      rw [← Except.ok.inj hread, UInt64.toNat_zero, List.drop_zero, List.take_of_length_le]
      rw [UInt64.toNat_ofNat_of_lt' (by decide)]
      omega

/-- The streaming loop yields the concatenation of complete files and changes nothing. -/
theorem readChunks_wp {chunks : List Bytes} {i off : Nat} (hcrash : crash s)
    (hsize : ∀ data ∈ chunks, data.length < 2^64) :
    wp interrupts crash (readChunks (manifestOf sha i off chunks))
      (Outcome (· = s) fun content s' => s' = s ∧
        (FilesOf sha chunks s → content = chunks.flatten)) s := by
  induction chunks generalizing i off with
  | nil => exact ⟨rfl, fun _ => rfl⟩
  | cons data rest ih =>
    obtain ⟨hdata, hrest⟩ := List.forall_mem_cons.mp hsize
    refine wp_seq (chunkStoreGet_wp hcrash hdata) ?_
    rintro content s' ⟨rfl, hcontent⟩
    refine wp_seq (ih hrest) ?_
    rintro others s'' ⟨rfl, hothers⟩
    refine ⟨rfl, fun hfiles => ?_⟩
    obtain ⟨hfile, hfiles⟩ := List.forall_mem_cons.mp hfiles
    rw [hcontent hfile, hothers hfiles, List.flatten_cons]

end ForgeRelay
