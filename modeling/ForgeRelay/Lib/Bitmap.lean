import Mathlib.Data.Nat.Bitwise

/-!
# Bits in a list of bytes

Bit `i` is bit `i mod 8` of byte `i / 8`. Setting bits within the list sets these and no others,
and there are no bits behind the list.
-/

namespace Bitmap

def bit (bitmap : List UInt8) (i : Nat) : Bool :=
  match bitmap[i / 8]? with
  | some byte => byte.toNat.testBit (i % 8)
  | none => false

/-- A bit outside the list is not set. -/
def set (bitmap : List UInt8) (i : Nat) : List UInt8 :=
  bitmap.modify (i / 8) (· ||| ((1 : UInt8) <<< UInt8.ofNat (i % 8)))

@[simp] theorem length_set (bitmap : List UInt8) (i : Nat) :
    (set bitmap i).length = bitmap.length := List.length_modify _ _ _

theorem bit_replicate (n i : Nat) : bit (List.replicate n 0) i = false := by
  rw [bit, List.getElem?_replicate]
  split
  · rename_i byte hbyte
    split at hbyte
    · cases hbyte
      exact Nat.zero_testBit _
    · cases hbyte
  · rfl

private theorem testBit_or_shift (byte : UInt8) {k : Nat} (hk : k < 8) (i : Nat) :
    (byte ||| ((1 : UInt8) <<< UInt8.ofNat k)).toNat.testBit i =
      (byte.toNat.testBit i || decide (k = i)) := by
  have hshift : ((1 : UInt8) <<< UInt8.ofNat k).toNat = 2 ^ k := by
    rw [UInt8.toNat_shiftLeft, UInt8.toNat_ofNat_of_lt' (hk.trans (by decide)),
      Nat.mod_eq_of_lt hk, Nat.shiftLeft_eq, UInt8.toNat_one, Nat.one_mul]
    exact Nat.mod_eq_of_lt (Nat.pow_lt_pow_right (by decide) hk)
  rw [UInt8.toNat_or, Nat.testBit_or, hshift, Nat.testBit_two_pow]

private theorem bit_set {bitmap : List UInt8} {i : Nat} (h : i / 8 < bitmap.length) (j : Nat) :
    bit (set bitmap i) j = (bit bitmap j || decide (i = j)) := by
  rw [bit, bit, set, List.getElem?_modify, Option.map_eq_map]
  by_cases hbyte : i / 8 = j / 8
  · have hlt : j / 8 < bitmap.length := hbyte ▸ h
    have hsame : decide (i % 8 = j % 8) = decide (i = j) := by
      rw [decide_eq_decide]
      omega
    rw [List.getElem?_eq_getElem hlt, Option.map_some]
    dsimp only
    rw [if_pos hbyte, testBit_or_shift _ (Nat.mod_lt _ (by decide)), hsame]
  · have hne : decide (i = j) = false := decide_eq_false fun heq => hbyte (heq ▸ rfl)
    rw [hne, Bool.or_false]
    cases bitmap[j / 8]? with
    | none => rfl
    | some byte =>
      dsimp only [Option.map_some]
      rw [if_neg hbyte]

theorem bit_foldl {bitmap : List UInt8} {is : List Nat} (h : ∀ i ∈ is, i / 8 < bitmap.length)
    (j : Nat) : bit (is.foldl set bitmap) j = (bit bitmap j || decide (j ∈ is)) := by
  induction is generalizing bitmap with
  | nil => simp
  | cons i is ih =>
    obtain ⟨hi, his⟩ := List.forall_mem_cons.mp h
    rw [List.foldl_cons, ih (by simpa using his), bit_set hi, Bool.or_assoc, ← Bool.decide_or]
    simp only [List.mem_cons, eq_comm]

theorem length_foldl (bitmap : List UInt8) (is : List Nat) :
    (is.foldl set bitmap).length = bitmap.length := by
  induction is generalizing bitmap with
  | nil => rfl
  | cons i is ih => rw [List.foldl_cons, ih, length_set]

end Bitmap
