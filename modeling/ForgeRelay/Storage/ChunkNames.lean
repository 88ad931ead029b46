import ForgeRelay.Core.RelPath
import ForgeRelay.Storage.ChunkStore

/-!
# Digests, their texts and their files

A digest has one text, the text has one path below `chunks/`, and both ways lead back: no two
digests share a chunk file.
-/

namespace ForgeRelay

/-- `Sha256`: 32 bytes. -/
abbrev Sha256Digest := Vector UInt8 32

def sha256ToHex (digest : Sha256Digest) : Bytes := frHexEncode digest.toList

/-- `sha256_from_hex`. The decoder writes into an array of zeros, and its status is not looked
at. -/
def sha256FromHex (hex : Bytes) : Except Error Sha256Digest :=
  if frDigestHexValid hex = true then
    match frHexDecode hex 32 with
    | .ok raw => .ok (Vector.ofFn fun i => raw.getD i 0)
    | .error _ => .ok (Vector.replicate 32 0)
  else .error (.of .eArg "digest hex is not 64 lowercase hex chars")

def relativePath (digestHex : Bytes) : Except Error Bytes :=
  match frChunkRelPath digestHex with
  | .ok rel => .ok rel
  | .error _ => .error (.of .eArg "invalid digest for chunk path")

/-- `operator/` of `std::filesystem::path`. -/
def appendPath (dir rel : Bytes) : Bytes :=
  if rel.head? = some 47 then rel
  else if dir = [] ∨ dir.getLast? = some 47 then dir ++ rel
  else dir ++ 47 :: rel

/-- `chunks_dir_` of a store that is opened at this root. -/
def chunksDir (root : Bytes) : Bytes := appendPath root (ascii "chunks")

/-- `ChunkStore::chunk_path`. -/
def chunkFilePath (root digestHex : Bytes) : Except Error Bytes :=
  (relativePath digestHex).map (appendPath (chunksDir root))

theorem chunkPath_eq (digestHex : Bytes) :
    chunkPath digestHex = match relativePath digestHex with
      | .ok rel => pure rel
      | .error e => throw e := by
  unfold chunkPath relativePath
  cases frChunkRelPath digestHex <;> rfl

@[simp] theorem sha256ToHex_length (digest : Sha256Digest) : (sha256ToHex digest).length = 64 := by
  rw [sha256ToHex, frHexEncode_length, Vector.length_toList]

private theorem sha256ToHex_injective : Function.Injective sha256ToHex := by
  intro a b h
  exact Vector.toList_inj.mp (frHexEncode_injective h)

private theorem sha256ToHex_valid (digest : Sha256Digest) :
    frDigestHexValid (sha256ToHex digest) = true :=
  frDigestHexValid_encode _ (Vector.length_toList)

private theorem sha256FromHex_toHex (digest : Sha256Digest) :
    sha256FromHex (sha256ToHex digest) = .ok digest := by
  have hdecode : frHexDecode (sha256ToHex digest) 32 = .ok digest.toList :=
    frHexDecode_encode _ _ (Vector.length_toList).le
  rw [sha256FromHex, if_pos (sha256ToHex_valid digest), hdecode]
  refine congrArg Except.ok (Vector.ext fun i hi => ?_)
  have hlist : i < digest.toList.length := by rwa [Vector.length_toList]
  rw [Vector.getElem_ofFn, List.getD_eq_getElem _ _ hlist, Vector.getElem_toList]

/-- The relative path of a digest's file. -/
def digestRelPath (digest : Sha256Digest) : Bytes :=
  (sha256ToHex digest).take 2 ++ [47] ++ (sha256ToHex digest).drop 2

private theorem relativePath_toHex (digest : Sha256Digest) :
    relativePath (sha256ToHex digest) = .ok (digestRelPath digest) := by
  rw [relativePath, frChunkRelPath_of_valid (sha256ToHex_valid digest) (sha256ToHex_length digest),
    digestRelPath]

private theorem digestRelPath_injective : Function.Injective digestRelPath := by
  intro a b h
  exact sha256ToHex_injective (relPath_injective (sha256ToHex_length a) (sha256ToHex_length b) h)

private theorem safeComponent_of_hex {component : Bytes} (hne : component ≠ [])
    (hlower : ∀ c ∈ component, isLowerHex c = true) : SafeComponent component := by
  have hident (c : UInt8) (hc : isLowerHex c = true) : isIdentComponentChar c = true := by
    simp only [isLowerHex, isIdentComponentChar, Bool.or_eq_true, Bool.and_eq_true,
      decide_eq_true_eq] at hc ⊢
    rcases hc with hdigit | ⟨hlow, hhigh⟩
    · exact .inl (.inl (.inl (.inr hdigit)))
    · exact .inl (.inl (.inl (.inl (.inl ⟨hlow, UInt8.le_trans hhigh (by decide)⟩))))
  have hdot : (46 : UInt8) ∉ component := fun hmem => absurd (hlower 46 hmem) (by decide)
  refine ⟨hne, fun c hc => hident c (hlower c hc), ?_, ?_⟩ <;>
  · rintro rfl
    exact hdot (by decide)

private theorem digestRelPath_safe (digest : Sha256Digest) :
    SafeRelPath (digestRelPath digest) := by
  have hlower : ∀ c ∈ sha256ToHex digest, isLowerHex c = true := frHexEncode_lower _
  have hlength := sha256ToHex_length digest
  refine ⟨[(sha256ToHex digest).take 2, (sha256ToHex digest).drop 2], by simp, ?_,
    by simp [digestRelPath]⟩
  intro component hmem
  rcases List.mem_pair.mp hmem with rfl | rfl
  · refine safeComponent_of_hex (List.ne_nil_of_length_pos ?_)
      fun c hc => hlower c (List.mem_of_mem_take hc)
    rw [List.length_take]
    omega
  · refine safeComponent_of_hex (List.ne_nil_of_length_pos ?_)
      fun c hc => hlower c (List.mem_of_mem_drop hc)
    rw [List.length_drop]
    omega

private theorem cString_digestRelPath (digest : Sha256Digest) :
    cString (digestRelPath digest) = digestRelPath digest := by
  refine cString_eq_self fun hzero => ?_
  have hhex : 0 ∉ sha256ToHex digest := by
    intro hmem
    exact isLowerHex_ne_zero (frHexEncode_lower _ 0 hmem) rfl
  rcases List.mem_append.mp hzero with hzero | hzero
  · rcases List.mem_append.mp hzero with hzero | hzero
    · exact hhex (List.mem_of_mem_take hzero)
    · exact absurd hzero (by decide)
  · exact hhex (List.mem_of_mem_drop hzero)

private theorem frPathValidateRel_digest (digest : Sha256Digest) :
    frPathValidateRel (some (digestRelPath digest)) = .ok := by
  rw [frPathValidateRel_iff, cString_digestRelPath]
  exact digestRelPath_safe digest

/-- Whatever the root is, the directory's path ends in its name. -/
private theorem chunksDir_getLast (root : Bytes) : (chunksDir root).getLast? = some 115 := by
  have hchunks : ascii "chunks" = ascii "chunk" ++ [115] := by decide
  have hhead : (ascii "chunks").head? ≠ some 47 := by decide
  rw [chunksDir, appendPath, if_neg hhead, hchunks]
  split
  · rw [← List.append_assoc, List.getLast?_concat]
  · rw [← List.cons_append, ← List.append_assoc, List.getLast?_concat]

private theorem chunksDir_ne_nil (root : Bytes) : chunksDir root ≠ [] := by
  intro hnil
  have hlast := chunksDir_getLast root
  rw [hnil] at hlast
  cases hlast

private theorem chunkFilePath_toHex (root : Bytes) (digest : Sha256Digest) :
    chunkFilePath root (sha256ToHex digest) =
      .ok (chunksDir root ++ 47 :: digestRelPath digest) := by
  have hhead : (digestRelPath digest).head? ≠ some 47 := by
    intro hslash
    have hvalid := frPathValidateRel_digest digest
    rw [frPathValidateRel_ok_iff, cString_digestRelPath] at hvalid
    exact hvalid.1 (by rw [hslash, beq_self_eq_true, Bool.or_true])
  have hdir : ¬ (chunksDir root = [] ∨ (chunksDir root).getLast? = some 47) := by
    rw [chunksDir_getLast]
    exact not_or.mpr ⟨chunksDir_ne_nil root, by decide⟩
  rw [chunkFilePath, relativePath_toHex, Except.map, appendPath, if_neg hhead, if_neg hdir]

/-- A digest is read back from its text, which is a valid one; different digests have different
relative paths and different files; and the relative path is accepted, and leads to a file below
`chunks/`. -/
theorem digest_names_exact (a b : Sha256Digest) (root : Bytes) :
    sha256FromHex (sha256ToHex a) = .ok a ∧
    frDigestHexValid (sha256ToHex a) = true ∧
    (relativePath (sha256ToHex a) = relativePath (sha256ToHex b) → a = b) ∧
    (chunkFilePath root (sha256ToHex a) = chunkFilePath root (sha256ToHex b) → a = b) ∧
    ∃ rel path, relativePath (sha256ToHex a) = .ok rel ∧
      frPathValidateRel (some rel) = .ok ∧
      chunkFilePath root (sha256ToHex a) = .ok path ∧
      resolve path = ((resolve (chunksDir root)).1,
        (resolve (chunksDir root)).2 ++ rel.splitOn 47) ∧
      ∀ component ∈ rel.splitOn 47, SafeComponent component := by
  have hsafe := safeRelPath_iff.mp (digestRelPath_safe a)
  refine ⟨sha256FromHex_toHex a, sha256ToHex_valid a, ?_, ?_, digestRelPath a,
    chunksDir root ++ 47 :: digestRelPath a, relativePath_toHex a, frPathValidateRel_digest a,
    chunkFilePath_toHex root a, resolve_append (chunksDir_ne_nil root) hsafe, hsafe⟩
  · rw [relativePath_toHex, relativePath_toHex]
    intro h
    exact digestRelPath_injective (Except.ok.inj h)
  · rw [chunkFilePath_toHex, chunkFilePath_toHex]
    intro h
    exact digestRelPath_injective (List.cons.inj (List.append_cancel_left (Except.ok.inj h))).2

end ForgeRelay
