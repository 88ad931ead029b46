import ForgeRelay.Core.Status
import ForgeRelay.Lib.Crc

/-!
# Bitwise IEEE CRC32

The register of `fr_crc32` has 32 bits, so byte strings of one length that differ only within four
bytes in a row have different checksums.
-/

namespace ForgeRelay

/-- One step of the inner loop. -/
def crcBit (crc : UInt32) : UInt32 :=
  if crc &&& 1 ≠ 0 then (crc >>> 1) ^^^ 0xedb88320 else crc >>> 1

/-- One step of the outer loop: eight bits of one byte. -/
def crcByte (crc : UInt32) (byte : UInt8) : UInt32 := crcBit^[8] (crc ^^^ byte.toUInt32)

def frCrc32 (data : Bytes) : UInt32 :=
  if data = [] then 0 else data.foldl crcByte 0xffffffff ^^^ 0xffffffff

example : frCrc32 (ascii "123456789") = 0xcbf43926 := by decide +kernel

/-- Of one length, and the same outside a window of `n` bytes in a row. -/
def DiffersWithin (n : Nat) (xs ys : Bytes) : Prop :=
  xs.length = ys.length ∧ ∃ start, ∀ i, i < start ∨ start + n ≤ i → xs[i]? = ys[i]?

theorem DiffersWithin.of_append {n : Nat} (front back : Bytes) {as bs : Bytes}
    (hlength : as.length = bs.length) (hshort : as.length ≤ n) :
    DiffersWithin n (front ++ as ++ back) (front ++ bs ++ back) := by
  refine ⟨by simp [hlength], front.length, fun i hi => ?_⟩
  rcases hi with hi | hi
  · rw [List.append_assoc, List.append_assoc, List.getElem?_append_left hi,
      List.getElem?_append_left hi]
  · have has : (front ++ as).length ≤ i := by
      rw [List.length_append]
      omega
    have hbs : (front ++ bs).length ≤ i := by
      rw [List.length_append]
      omega
    rw [List.getElem?_append_right has, List.getElem?_append_right hbs, List.length_append,
      List.length_append, hlength]

private theorem crcBit_toBitVec (crc : UInt32) :
    (crcBit crc).toBitVec = Crc.step 0xedb88320#32 crc.toBitVec := by
  have hlow : crc &&& 1 ≠ 0 ↔ crc.toBitVec.getLsbD 0 = true := by
    rw [ne_eq, ← UInt32.toNat_inj, UInt32.toNat_and, UInt32.toNat_one, UInt32.toNat_zero,
      Nat.and_one_is_mod, BitVec.getLsbD, Nat.testBit_zero, decide_eq_true_iff,
      UInt32.toNat_toBitVec]
    omega
  unfold crcBit Crc.step
  by_cases hbit : crc &&& 1 ≠ 0
  · rw [if_pos hbit, if_pos (hlow.mp hbit)]
    rfl
  · rw [if_neg hbit, if_neg fun h => hbit (hlow.mpr h)]
    rfl

private theorem crcByte_toBitVec (crc : UInt32) (byte : UInt8) :
    (crcByte crc byte).toBitVec = Crc.feed 0xedb88320#32 crc.toBitVec byte := by
  have hiterate : ∀ (n : Nat) (crc : UInt32),
      (crcBit^[n] crc).toBitVec = (Crc.step 0xedb88320#32)^[n] crc.toBitVec := by
    intro n
    induction n with
    | zero => exact fun _ => rfl
    | succ n ih =>
      intro crc
      rw [Function.iterate_succ_apply, Function.iterate_succ_apply, ih, crcBit_toBitVec]
  rw [crcByte, hiterate, Crc.feed, UInt32.toBitVec_xor, UInt8.toBitVec_toUInt32]

private theorem crcFold_toBitVec (bytes : Bytes) (crc : UInt32) :
    (bytes.foldl crcByte crc).toBitVec = bytes.foldl (Crc.feed 0xedb88320#32) crc.toBitVec := by
  induction bytes generalizing crc with
  | nil => rfl
  | cons byte bytes ih => rw [List.foldl_cons, List.foldl_cons, ih, crcByte_toBitVec]

theorem frCrc32_window (start : Nat) {xs ys : Bytes} (hlength : xs.length = ys.length)
    (hsame : ∀ i, i < start ∨ start + 4 ≤ i → xs[i]? = ys[i]?) (h : frCrc32 xs = frCrc32 ys) :
    xs = ys := by
  by_cases hempty : xs = []
  · rw [hempty] at hlength ⊢
    exact (List.length_eq_zero_iff.mp hlength.symm).symm
  have hother : ys ≠ [] := fun h => hempty (List.length_eq_zero_iff.mp (by rw [hlength, h]; rfl))
  rw [frCrc32, if_neg hempty, frCrc32, if_neg hother] at h
  have hfold := congrArg UInt32.toBitVec ((UInt32.xor_left_inj _).mp h)
  rw [crcFold_toBitVec, crcFold_toBitVec] at hfold
  exact Crc.window_detected (by decide) _ hlength (by decide) hsame hfold

/-- Every burst within four bytes changes the checksum. -/
theorem frCrc32_burst {xs ys : Bytes} (hne : xs ≠ ys) (hdiffers : DiffersWithin 4 xs ys) :
    frCrc32 xs ≠ frCrc32 ys := by
  obtain ⟨hlength, start, hsame⟩ := hdiffers
  exact fun hcrc => hne (frCrc32_window start hlength hsame hcrc)

/-- Four digits in the middle of nine are other digits. -/
theorem frCrc32_burst_digits : frCrc32 (ascii "123000089") ≠ frCrc32 (ascii "123456789") :=
  have hdiffers : DiffersWithin 4 (ascii "123" ++ ascii "0000" ++ ascii "89")
      (ascii "123" ++ ascii "4567" ++ ascii "89") := .of_append _ _ rfl (by decide)
  frCrc32_burst (by decide) hdiffers

end ForgeRelay
