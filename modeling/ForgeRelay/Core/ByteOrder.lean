import ForgeRelay.Core.Status
import ForgeRelay.Lib.Words

/-!
# Network byte order

Every multi-byte field of a frame, a message payload and a chunk header is big-endian.
-/

namespace ForgeRelay

def frStoreBe16 (v : UInt16) : Bytes := BigEndian.store 2 v.toNat
def frStoreBe32 (v : UInt32) : Bytes := BigEndian.store 4 v.toNat
def frStoreBe64 (v : UInt64) : Bytes := BigEndian.store 8 v.toNat

def frLoadBe16 (p : Bytes) : UInt16 := UInt16.ofNat (BigEndian.load 2 p)
def frLoadBe32 (p : Bytes) : UInt32 := UInt32.ofNat (BigEndian.load 4 p)
def frLoadBe64 (p : Bytes) : UInt64 := UInt64.ofNat (BigEndian.load 8 p)

@[simp] theorem frStoreBe16_length (v : UInt16) : (frStoreBe16 v).length = 2 :=
  BigEndian.store_length _ _

@[simp] theorem frStoreBe32_length (v : UInt32) : (frStoreBe32 v).length = 4 :=
  BigEndian.store_length _ _

@[simp] theorem frStoreBe64_length (v : UInt64) : (frStoreBe64 v).length = 8 :=
  BigEndian.store_length _ _

@[simp] theorem frLoadBe16_store (v : UInt16) (rest : Bytes) :
    frLoadBe16 (frStoreBe16 v ++ rest) = v := by
  rw [frLoadBe16, frStoreBe16, BigEndian.load_store, Nat.mod_eq_of_lt v.toNat_lt]
  exact UInt16.ofNat_toNat

@[simp] theorem frLoadBe32_store (v : UInt32) (rest : Bytes) :
    frLoadBe32 (frStoreBe32 v ++ rest) = v := by
  rw [frLoadBe32, frStoreBe32, BigEndian.load_store, Nat.mod_eq_of_lt v.toNat_lt]
  exact UInt32.ofNat_toNat

@[simp] theorem frLoadBe64_store (v : UInt64) (rest : Bytes) :
    frLoadBe64 (frStoreBe64 v ++ rest) = v := by
  rw [frLoadBe64, frStoreBe64, BigEndian.load_store, Nat.mod_eq_of_lt v.toNat_lt]
  exact UInt64.ofNat_toNat

theorem frStoreBe16_load (p : Bytes) (hlen : 2 ≤ p.length) :
    frStoreBe16 (frLoadBe16 p) = p.take 2 := by
  have hlt : BigEndian.load 2 p < 2^16 := BigEndian.load_lt 2 p
  rw [frStoreBe16, frLoadBe16, UInt16.toNat_ofNat', Nat.mod_eq_of_lt hlt,
    BigEndian.store_load 2 p hlen]

theorem frStoreBe32_load (p : Bytes) (hlen : 4 ≤ p.length) :
    frStoreBe32 (frLoadBe32 p) = p.take 4 := by
  have hlt : BigEndian.load 4 p < 2^32 := BigEndian.load_lt 4 p
  rw [frStoreBe32, frLoadBe32, UInt32.toNat_ofNat', Nat.mod_eq_of_lt hlt,
    BigEndian.store_load 4 p hlen]

theorem frStoreBe64_load (p : Bytes) (hlen : 8 ≤ p.length) :
    frStoreBe64 (frLoadBe64 p) = p.take 8 := by
  have hlt : BigEndian.load 8 p < 2^64 := BigEndian.load_lt 8 p
  rw [frStoreBe64, frLoadBe64, UInt64.toNat_ofNat', Nat.mod_eq_of_lt hlt,
    BigEndian.store_load 8 p hlen]

theorem frLoadBe64_eq_iff {p q : Bytes} (hp : 8 ≤ p.length) (hq : 8 ≤ q.length) :
    frLoadBe64 p = frLoadBe64 q ↔ p.take 8 = q.take 8 := by
  rw [← frStoreBe64_load p hp, ← frStoreBe64_load q hq]
  refine ⟨congrArg frStoreBe64, fun h => ?_⟩
  rw [← frLoadBe64_store (frLoadBe64 p) [], h, frLoadBe64_store]

theorem frLoadBe32_eq_iff {p q : Bytes} (hp : 4 ≤ p.length) (hq : 4 ≤ q.length) :
    frLoadBe32 p = frLoadBe32 q ↔ p.take 4 = q.take 4 := by
  rw [← frStoreBe32_load p hp, ← frStoreBe32_load q hq]
  refine ⟨congrArg frStoreBe32, fun h => ?_⟩
  rw [← frLoadBe32_store (frLoadBe32 p) [], h, frLoadBe32_store]

end ForgeRelay
