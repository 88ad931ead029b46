import Mathlib.Algebra.Group.Int.Defs
import Mathlib.Algebra.Group.Nat.Defs
import Mathlib.Data.List.Basic
import Mathlib.Data.Nat.Bitwise
import Mathlib.Tactic.Linarith
import Mathlib.Tactic.Ring

/-!
# Words

A natural number is written as a fixed number of bytes, most significant byte first, and
read back by shifting and or-ing. The two directions are inverse up to the width. A cast between
words of one width keeps the bits: what is too large for the target comes out shifted by the number
of words.
-/

namespace BigEndian

/-- The low `n` bytes of `v`, most significant first. -/
def store : Nat → Nat → List UInt8
  | 0, _ => []
  | n+1, v => UInt8.ofNat (v >>> (8*n)) :: store n v

/-- The number held by the first `n` bytes; a missing byte reads as zero. -/
def load : Nat → List UInt8 → Nat
  | 0, _ => 0
  | n+1, bs => ((bs.headD 0).toNat <<< (8*n)) ||| load n bs.tail

@[simp] theorem store_length (n v : Nat) : (store n v).length = n := by
  induction n with
  | zero => rfl
  | succ n ih => simp [store, ih]

theorem load_lt (n : Nat) (bs : List UInt8) : load n bs < 2^(8*n) := by
  induction n generalizing bs with
  | zero => simp [load]
  | succ n ih =>
    have hb : (bs.headD 0).toNat < 2^8 := (bs.headD 0).toNat_lt
    rw [load, ← Nat.shiftLeft_add_eq_or_of_lt (ih bs.tail), Nat.shiftLeft_eq]
    have hr := ih bs.tail
    have hp : 2^(8*(n+1)) = 2^8 * 2^(8*n) := by rw [← Nat.pow_add]; congr 1; ring
    rw [hp]
    nlinarith

private theorem load_cons (n : Nat) (b : UInt8) (bs : List UInt8) :
    load (n+1) (b :: bs) = b.toNat * 2^(8*n) + load n bs := by
  rw [load, List.headD_cons, List.tail_cons, ← Nat.shiftLeft_add_eq_or_of_lt (load_lt n bs),
    Nat.shiftLeft_eq]

theorem load_store (n v : Nat) (rest : List UInt8) :
    load n (store n v ++ rest) = v % 2^(8*n) := by
  induction n with
  | zero => simp [load, Nat.mod_one]
  | succ n ih =>
    rw [store, List.cons_append, load_cons, ih]
    have hp : 2^(8*(n+1)) = 2^(8*n) * 2^8 := by rw [← Nat.pow_add]; congr 1
    rw [hp, Nat.mod_mul, UInt8.toNat_ofNat', Nat.shiftRight_eq_div_pow]
    ring

private theorem store_mod (n v : Nat) : store n (v % 2^(8*n)) = store n v := by
  suffices h : ∀ m, n ≤ m → store n (v % 2^(8*m)) = store n v from h n (Nat.le_refl n)
  induction n with
  | zero => intro m _; rfl
  | succ n ih =>
    intro m hm
    rw [store, store, ih m (by omega)]
    congr 1
    apply UInt8.toNat_inj.mp
    rw [UInt8.toNat_ofNat', UInt8.toNat_ofNat', Nat.shiftRight_eq_div_pow,
      Nat.shiftRight_eq_div_pow]
    have hp : 2^(8*m) = 2^(8*n) * 2^(8*(m-n)) := by rw [← Nat.pow_add]; congr 1; omega
    have hq : (2:Nat)^8 ∣ 2^(8*(m-n)) := Nat.pow_dvd_pow 2 (by omega)
    rw [hp, Nat.mod_mul_right_div_self, Nat.mod_mod_of_dvd _ hq]

theorem store_load (n : Nat) (bs : List UInt8) (hlen : n ≤ bs.length) :
    store n (load n bs) = bs.take n := by
  induction n generalizing bs with
  | zero => rfl
  | succ n ih =>
    cases bs with
    | nil => simp at hlen
    | cons b bs =>
      have hlow : load n bs < 2^(8*n) := load_lt n bs
      have hhead : (b.toNat * 2^(8*n) + load n bs) / 2^(8*n) = b.toNat := by
        rw [Nat.add_comm, Nat.add_mul_div_right _ _ (Nat.two_pow_pos _),
          Nat.div_eq_of_lt hlow, Nat.zero_add]
      have htail : store n (b.toNat * 2^(8*n) + load n bs) = store n (load n bs) := by
        rw [← store_mod, Nat.mul_comm, Nat.mul_add_mod, Nat.mod_eq_of_lt hlow]
      rw [load_cons, store, htail, ih bs (by simpa using hlen), Nat.shiftRight_eq_div_pow, hhead,
        UInt8.ofNat_toNat]
      rfl

end BigEndian

namespace Casts

theorem toInt_toInt64 (x : UInt64) :
    x.toInt64.toInt = if x.toNat < 2^63 then (x.toNat : Int) else x.toNat - 2^64 := by
  have hlt := x.toNat_lt
  change x.toBitVec.toInt = if x.toBitVec.toNat < 2^63 then _ else _
  rw [BitVec.toInt_eq_toNat_cond]
  change x.toBitVec.toNat < 2^64 at hlt
  change _ = if x.toBitVec.toNat < 2^63 then (x.toBitVec.toNat : Int) else x.toBitVec.toNat - 2^64
  split <;> split <;> omega

theorem toNat_toUInt64 (x : Int64) :
    (x.toUInt64.toNat : Int) = if 0 ≤ x.toInt then x.toInt else x.toInt + 2^64 := by
  have hlt := x.toInt_lt
  have hge := x.le_toInt
  have hnat := x.toUInt64.toNat_lt
  have hcast := toInt_toInt64 x.toUInt64
  rw [Int64.toInt64_toUInt64] at hcast
  split at hcast <;> split <;> omega

theorem toNat_toUInt64_emod (x : Int64) : (x.toUInt64.toNat : Int) = x.toInt % 2^64 := by
  have hlt := x.toInt_lt
  have hge := x.le_toInt
  rw [toNat_toUInt64]
  split <;> omega

theorem bmod_eq_self_iff (n : Int) : n.bmod (2^32) = n ↔ -2^31 ≤ n ∧ n < 2^31 := by
  constructor
  · intro h
    have hlow := Int.le_bmod (x := n) (m := 2^32) (by decide)
    have hhigh := Int.bmod_lt (x := n) (m := 2^32) (by decide)
    omega
  · intro h
    exact Int.bmod_eq_of_le (by omega) (by omega)

theorem toInt_eq_toNat {x : Int64} (h : x.toUInt64.toNat < 2^63) :
    x.toInt = x.toUInt64.toNat := by
  have hcast := toInt_toInt64 x.toUInt64
  rwa [Int64.toInt64_toUInt64, if_pos h] at hcast

end Casts
