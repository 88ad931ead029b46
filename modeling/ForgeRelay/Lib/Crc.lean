import Mathlib.Data.List.Basic
import Mathlib.Logic.Function.Iterate

/-!
# Bitwise cyclic redundancy checks

A register takes in a message byte by byte, the lowest bit first, and shifts to the right. As many
bytes as the register has room for act on it like one word, and a register whose polynomial has
its top bit set can be run backwards: so messages of one length that differ only within the width
of the register leave different registers.
-/

namespace Crc

variable {w : Nat} {poly : BitVec w}

/-- One bit leaves the register. -/
def step (poly c : BitVec w) : BitVec w :=
  if c.getLsbD 0 then (c >>> 1) ^^^ poly else c >>> 1

/-- One byte of the message. -/
def feed (poly c : BitVec w) (byte : UInt8) : BitVec w :=
  (step poly)^[8] (c ^^^ byte.toBitVec.setWidth w)

/-- The bytes as one word, the first byte lowest. -/
def word (w : Nat) : List UInt8 → BitVec w
  | [] => 0
  | byte :: bytes => byte.toBitVec.setWidth w ^^^ word w bytes <<< 8

private theorem step_top (hpoly : poly.getLsbD (w - 1) = true) (c : BitVec w) :
    (step poly c).getLsbD (w - 1) = c.getLsbD 0 := by
  have hwidth : 0 < w := by
    by_contra hzero
    rw [BitVec.getLsbD_of_ge _ _ (by omega)] at hpoly
    cases hpoly
  have hshift : (c >>> 1).getLsbD (w - 1) = false := by
    rw [BitVec.getLsbD_ushiftRight]
    exact BitVec.getLsbD_of_ge _ _ (by omega)
  unfold step
  split
  · rename_i hlow
    rw [BitVec.getLsbD_xor, hshift, hpoly, hlow]
    rfl
  · rename_i hlow
    rw [hshift, Bool.eq_false_iff.mpr hlow]

private theorem eq_of_ushiftRight {a b : BitVec w} (hlow : a.getLsbD 0 = b.getLsbD 0)
    (hshift : a >>> 1 = b >>> 1) : a = b := by
  refine BitVec.eq_of_getLsbD_eq fun i hi => ?_
  rcases i with _ | i
  · exact hlow
  · have hbit := congrArg (fun x => x.getLsbD i) hshift
    simpa only [BitVec.getLsbD_ushiftRight, Nat.add_comm 1 i] using hbit

private theorem step_injective (hpoly : poly.getLsbD (w - 1) = true) :
    Function.Injective (step poly) := by
  intro a b hab
  have hlow : a.getLsbD 0 = b.getLsbD 0 := by
    rw [← step_top hpoly a, ← step_top hpoly b, hab]
  refine eq_of_ushiftRight hlow ?_
  unfold step at hab
  rw [← hlow] at hab
  split at hab
  · exact (BitVec.xor_left_inj poly).mp hab
  · exact hab

private theorem feed_injective (hpoly : poly.getLsbD (w - 1) = true) (byte : UInt8) :
    Function.Injective fun c => feed poly c byte := fun _ _ h =>
  (BitVec.xor_left_inj _).mp ((step_injective hpoly).iterate 8 h)

private theorem foldl_feed_injective (hpoly : poly.getLsbD (w - 1) = true) (bytes : List UInt8) :
    Function.Injective (bytes.foldl (feed poly)) := by
  induction bytes with
  | nil => exact Function.injective_id
  | cons byte bytes ih => exact ih.comp (feed_injective hpoly byte)

private theorem step_xor_shiftLeft (x : BitVec w) {y : BitVec w} (hy : y.getLsbD (w - 1) = false) :
    step poly (x ^^^ y <<< 1) = step poly x ^^^ y := by
  have hlow : (x ^^^ y <<< 1).getLsbD 0 = x.getLsbD 0 := by simp
  have hshift : (x ^^^ y <<< 1) >>> 1 = x >>> 1 ^^^ y := by
    refine BitVec.eq_of_getLsbD_eq fun i hi => ?_
    simp only [BitVec.getLsbD_ushiftRight, BitVec.getLsbD_xor, BitVec.getLsbD_shiftLeft]
    by_cases htop : i = w - 1
    · rw [htop, hy]
      simp [show ¬ 1 + (w - 1) < w by omega]
    · simp [show 1 + i < w by omega]
  unfold step
  rw [hlow, hshift]
  split
  · rw [BitVec.xor_assoc, BitVec.xor_comm y, ← BitVec.xor_assoc]
  · rfl

private theorem iterate_step_xor_shiftLeft {n : Nat} (x : BitVec w) {y : BitVec w}
    (hy : ∀ i, w - n ≤ i → y.getLsbD i = false) :
    (step poly)^[n] (x ^^^ y <<< n) = (step poly)^[n] x ^^^ y := by
  induction n generalizing x with
  | zero => simp
  | succ n ih =>
    have htop : (y <<< n).getLsbD (w - 1) = false := by
      rw [BitVec.getLsbD_shiftLeft, hy (w - 1 - n) (by omega), Bool.and_false]
    rw [BitVec.shiftLeft_add, Function.iterate_succ_apply, Function.iterate_succ_apply,
      step_xor_shiftLeft x htop, ih _ fun i hi => hy i (by omega)]

private theorem byte_high (byte : UInt8) {i : Nat} (hi : 8 ≤ i) :
    (byte.toBitVec.setWidth w).getLsbD i = false := by
  rw [BitVec.getLsbD_setWidth, BitVec.getLsbD_of_ge _ _ hi, Bool.and_false]

private theorem word_high {bytes : List UInt8} {i : Nat} (hi : 8 * bytes.length ≤ i) :
    (word w bytes).getLsbD i = false := by
  induction bytes generalizing i with
  | nil => simp [word]
  | cons byte bytes ih =>
    rw [List.length_cons] at hi
    rw [word, BitVec.getLsbD_xor, byte_high byte (by omega), BitVec.getLsbD_shiftLeft,
      ih (by omega), Bool.and_false, Bool.false_xor]

private theorem foldl_feed_word (c : BitVec w) {bytes : List UInt8} (hroom : 8 * bytes.length ≤ w) :
    bytes.foldl (feed poly) c = (step poly)^[8 * bytes.length] (c ^^^ word w bytes) := by
  induction bytes generalizing c with
  | nil => simp [word]
  | cons byte bytes ih =>
    rw [List.length_cons] at hroom
    have hhigh : ∀ i, w - 8 ≤ i → (word w bytes).getLsbD i = false :=
      fun i hi => word_high (by omega)
    rw [List.foldl_cons, ih _ (by omega), feed, List.length_cons, Nat.mul_succ, word,
      Function.iterate_add_apply, ← BitVec.xor_assoc, iterate_step_xor_shiftLeft _ hhigh]

private theorem word_injective {as bs : List UInt8} (hlength : as.length = bs.length)
    (hroom : 8 * as.length ≤ w) (h : word w as = word w bs) : as = bs := by
  induction as generalizing bs with
  | nil => exact (List.length_eq_zero_iff.mp hlength.symm).symm
  | cons a as ih =>
    rcases bs with _ | ⟨b, bs⟩
    · cases hlength
    rw [List.length_cons] at hroom hlength
    have hlength : as.length = bs.length := by simpa using hlength
    have hbit : ∀ i, (word w (a :: as)).getLsbD i = (word w (b :: bs)).getLsbD i := by
      simp [h]
    have hhead : a = b := by
      refine UInt8.toBitVec_inj.mp (BitVec.eq_of_getLsbD_eq fun i hi => ?_)
      simpa [word, hi, show i < w by omega] using hbit i
    have htail : word w as = word w bs := by
      refine BitVec.eq_of_getLsbD_eq fun i hi => ?_
      by_cases hin : i + 8 < w
      · have hnext := hbit (i + 8)
        simp only [word, BitVec.getLsbD_xor, byte_high _ (Nat.le_add_left 8 i),
          BitVec.getLsbD_shiftLeft, hin, Nat.not_lt.mpr (Nat.le_add_left 8 i), decide_true,
          decide_false, Bool.not_false, Bool.true_and, Bool.false_xor, Nat.add_sub_cancel] at hnext
        exact hnext
      · rw [word_high (by omega), word_high (by omega)]
    rw [hhead, ih hlength (by omega) htail]

/-- Behind a common beginning and in front of a common end, two bursts that fit into the register
are told apart. -/
private theorem burst_detected (hpoly : poly.getLsbD (w - 1) = true) (c : BitVec w)
    (front back : List UInt8) {as bs : List UInt8} (hlength : as.length = bs.length)
    (hroom : 8 * as.length ≤ w)
    (h : (front ++ as ++ back).foldl (feed poly) c = (front ++ bs ++ back).foldl (feed poly) c) :
    as = bs := by
  simp only [List.foldl_append] at h
  have hwindow := foldl_feed_injective hpoly back h
  generalize front.foldl (feed poly) c = c' at hwindow
  rw [foldl_feed_word c' hroom, foldl_feed_word c' (by omega), ← hlength] at hwindow
  exact word_injective hlength hroom
    ((BitVec.xor_right_inj _).mp ((step_injective hpoly).iterate _ hwindow))

theorem window_detected (hpoly : poly.getLsbD (w - 1) = true) (c : BitVec w) {start n : Nat}
    {xs ys : List UInt8} (hlength : xs.length = ys.length) (hroom : 8 * n ≤ w)
    (hsame : ∀ i, i < start ∨ start + n ≤ i → xs[i]? = ys[i]?)
    (h : xs.foldl (feed poly) c = ys.foldl (feed poly) c) : xs = ys := by
  have hfront : xs.take start = ys.take start := by
    refine List.ext_getElem? fun i => ?_
    rw [List.getElem?_take, List.getElem?_take]
    split
    · exact hsame i (.inl ‹_›)
    · rfl
  have hback : xs.drop (start + n) = ys.drop (start + n) := by
    refine List.ext_getElem? fun i => ?_
    rw [List.getElem?_drop, List.getElem?_drop]
    exact hsame _ (.inr (Nat.le_add_right _ _))
  have hparts : ∀ zs : List UInt8,
      zs = zs.take start ++ (zs.drop start).take n ++ zs.drop (start + n) := by
    intro zs
    rw [← List.drop_drop, List.append_assoc, List.take_append_drop, List.take_append_drop]
  have hlong : ((xs.drop start).take n).length ≤ n := List.length_take_le _ _
  have hburst : (xs.drop start).take n = (ys.drop start).take n := by
    refine burst_detected hpoly c (xs.take start) (xs.drop (start + n)) ?_ (by omega) ?_
    · simp [hlength]
    · rw [← hparts xs, h, hfront, hback, ← hparts ys]
  rw [hparts xs, hparts ys, hfront, hburst, hback]

end Crc
