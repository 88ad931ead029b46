import ForgeRelay.Core.Hex

/-!
# Identifiers and chunk paths

The characters an artifact's identity may have, and the path of a chunk file below `chunks/`,
which is made from its digest alone.
-/

namespace ForgeRelay

def isIdentComponentChar (c : UInt8) : Bool :=
  (97 ≤ c && c ≤ 122) || (65 ≤ c && c ≤ 90) || (48 ≤ c && c ≤ 57) || c == 46 || c == 95 || c == 45

def isVersionExtraChar (c : UInt8) : Bool := c == 43 || c == 95

def validDotSegmentFree (s : Bytes) : Bool := s != ascii "." && s != ascii ".."

def frIdentComponentMax : Nat := 64

def frIdentVersionMax : Nat := 96

def frIdentValidComponent (s : Bytes) : Bool :=
  let s := cString s
  1 ≤ s.length && s.length ≤ frIdentComponentMax && s.all isIdentComponentChar &&
    validDotSegmentFree s

def frIdentValidVersion (s : Bytes) : Bool :=
  let s := cString s
  1 ≤ s.length && s.length ≤ frIdentVersionMax &&
    s.all (fun c => isIdentComponentChar c || isVersionExtraChar c) && validDotSegmentFree s

/-- `fr_chunk_rel_path` into a buffer that is large enough. -/
def frChunkRelPath (hexDigest : Bytes) : Except FrStatus Bytes :=
  if frDigestHexValid hexDigest = true then
    .ok (hexDigest.take 2 ++ [47] ++ (hexDigest.drop 2).take 62)
  else .error .eArg

theorem frChunkRelPath_of_valid {hex : Bytes} (hvalid : frDigestHexValid hex = true)
    (hlen : hex.length = 64) : frChunkRelPath hex = .ok (hex.take 2 ++ [47] ++ hex.drop 2) := by
  have hrest : (hex.drop 2).length ≤ 62 := by rw [List.length_drop, hlen]
  rw [frChunkRelPath, if_pos hvalid, List.take_of_length_le hrest]

theorem relPath_injective {a b : Bytes} (ha : a.length = 64) (hb : b.length = 64)
    (h : a.take 2 ++ [47] ++ a.drop 2 = b.take 2 ++ [47] ++ b.drop 2) : a = b := by
  have hlen : (a.take 2 ++ [47]).length = (b.take 2 ++ [47]).length := by simp [ha, hb]
  obtain ⟨hhead, htail⟩ := List.append_inj h hlen
  have hhead' := List.append_cancel_right hhead
  rw [← List.take_append_drop 2 a, ← List.take_append_drop 2 b, hhead', htail]

end ForgeRelay
