import ForgeRelay.Core.ByteOrder
import Mathlib.Tactic.Linarith
import Mathlib.Tactic.Ring

/-!
# Growable buffers and bounded readers

`fr_buf` grows by doubling with overflow checks; `alloc` tells for a requested capacity whether
`realloc` succeeds. A failing operation leaves the content as it was. `fr_buf_reader` is a
cursor which never passes the end of its input.
-/

namespace ForgeRelay

/-- `SIZE_MAX + 1` on the target platforms. -/
def sizeLimit : Nat := 2^64

/-- `memcpy` to a position in a buffer. -/
def writeAt (out : Bytes) (pos : Nat) (src : Bytes) : Bytes :=
  out.take pos ++ src ++ out.drop (pos + src.length)

def frCheckedAddSize (a b : Nat) : Option Nat := if a + b < sizeLimit then some (a + b) else none

/-- `fr_buf`: the first `len` bytes of the allocation, and its capacity. -/
structure FrBuf where
  data : Bytes
  cap : Nat
  deriving DecidableEq, Repr

def frBufInit : FrBuf := ⟨[], 0⟩

/-- The doubling loop of `fr_buf_reserve`. A capacity of at least one byte passes `SIZE_MAX`
within 64 doublings, so the bound on the iterations is never what ends the loop. -/
def growCap : Nat → Nat → Nat → Option Nat
  | 0, _, _ => none
  | fuel+1, needed, cap =>
    if cap < needed then
      if cap * 2 < sizeLimit then growCap fuel needed (cap * 2) else none
    else some cap

def frBufReserve (alloc : Nat → Bool) (buf : FrBuf) (additional : Nat) : FrStatus × FrBuf :=
  let needed := buf.data.length + additional
  if sizeLimit ≤ needed then (.eOverflow, buf)
  else if needed ≤ buf.cap then (.ok, buf)
  else
    match growCap 65 needed (if buf.cap ≠ 0 then buf.cap else 64) with
    | none => (.eOverflow, buf)
    | some cap => if alloc cap then (.ok, { buf with cap := cap }) else (.eNomem, buf)

def frBufAppend (alloc : Nat → Bool) (buf : FrBuf) (src : Bytes) : FrStatus × FrBuf :=
  match frBufReserve alloc buf src.length with
  | (.ok, buf) => (.ok, { buf with data := buf.data ++ src })
  | (st, buf) => (st, buf)

/-- `fr_buf_clear` keeps the capacity. -/
def frBufClear (buf : FrBuf) : FrBuf := { buf with data := [] }

theorem writeAt_behind (written src out : Bytes) {pos : Nat} (hpos : pos = written.length) :
    writeAt (written ++ out.drop pos) pos src =
      (written ++ src) ++ out.drop (pos + src.length) := by
  subst hpos
  have hdrop : (written ++ out.drop written.length).drop (written.length + src.length) =
      out.drop (written.length + src.length) := by
    rw [List.drop_append, List.drop_drop, List.drop_eq_nil_of_le (by omega), List.nil_append]
    congr 1
    omega
  rw [writeAt, List.take_left, hdrop]

theorem set_behind (written out : Bytes) (c : UInt8) {pos : Nat} (hpos : pos = written.length)
    (hfits : pos < out.length) :
    (written ++ out.drop pos).set pos c = (written ++ [c]) ++ out.drop (pos + 1) := by
  subst hpos
  rw [List.set_append_right _ _ (Nat.le_refl _), Nat.sub_self, List.drop_eq_getElem_cons hfits,
    List.set_cons_zero, List.append_assoc, List.singleton_append]

private theorem growCap_some (fuel needed cap : Nat) (hcap : 0 < cap) (hneeded : needed ≤ 2^63)
    (hfuel : needed ≤ cap * 2^fuel) : ∃ c, growCap (fuel+1) needed cap = some c := by
  induction fuel generalizing cap with
  | zero =>
    refine ⟨cap, ?_⟩
    simp only [Nat.pow_zero, Nat.mul_one] at hfuel
    simp [growCap, Nat.not_lt.mpr hfuel]
  | succ fuel ih =>
    rw [growCap]
    by_cases hlt : cap < needed
    · have hdouble : cap * 2 < sizeLimit := by unfold sizeLimit; omega
      rw [if_pos hlt, if_pos hdouble]
      apply ih (cap * 2) (by omega)
      rw [Nat.mul_assoc, ← Nat.pow_succ']
      exact hfuel
    · exact ⟨cap, if_neg hlt⟩

/-- The loop ends with the first doubling that is large enough. -/
theorem growCap_eq_some {fuel needed cap c : Nat} (h : growCap fuel needed cap = some c)
    (hcap : cap < sizeLimit) : c < sizeLimit ∧ needed ≤ c ∧
      ∃ k, c = cap * 2^k ∧ ∀ j < k, cap * 2^j < needed := by
  induction fuel generalizing cap with
  | zero => cases h
  | succ fuel ih =>
    rw [growCap] at h
    split at h
    · rename_i hlt
      split at h
      · rename_i hdouble
        obtain ⟨hc, hneeded, k, rfl, hsmall⟩ := ih h hdouble
        refine ⟨hc, hneeded, k + 1, by rw [Nat.mul_assoc, ← Nat.pow_succ'], fun j hj => ?_⟩
        rcases j with _ | j
        · simpa using hlt
        · have hnext := hsmall j (by omega)
          rwa [Nat.mul_assoc, ← Nat.pow_succ'] at hnext
      · cases h
    · cases h
      exact ⟨hcap, by omega, 0, by simp, by simp⟩

theorem growCap_le {fuel needed cap c : Nat} (h : growCap fuel needed cap = some c) :
    needed ≤ c := by
  induction fuel generalizing cap with
  | zero => cases h
  | succ fuel ih =>
    rw [growCap] at h
    split at h
    · split at h
      · exact ih h
      · cases h
    · cases h
      omega

theorem growCap_reaches {fuel needed cap k : Nat} (hlimit : cap * 2^k < sizeLimit)
    (hneeded : needed ≤ cap * 2^k) (hsmall : ∀ j < k, cap * 2^j < needed) (hfuel : k < fuel) :
    growCap fuel needed cap = some (cap * 2^k) := by
  induction k generalizing fuel cap with
  | zero =>
    obtain ⟨fuel, rfl⟩ := Nat.exists_eq_succ_of_ne_zero (by omega : fuel ≠ 0)
    rw [Nat.pow_zero, Nat.mul_one] at hneeded ⊢
    rw [growCap, if_neg (Nat.not_lt.mpr hneeded)]
  | succ k ih =>
    obtain ⟨fuel, rfl⟩ := Nat.exists_eq_succ_of_ne_zero (by omega : fuel ≠ 0)
    rw [Nat.pow_succ', ← Nat.mul_assoc] at hlimit hneeded ⊢
    have hlt : cap < needed := by simpa using hsmall 0 (by omega)
    have hdouble : cap * 2 < sizeLimit := by
      have hle := Nat.le_mul_of_pos_right (cap * 2) (Nat.two_pow_pos k)
      omega
    rw [growCap, if_pos hlt, if_pos hdouble]
    refine ih hlimit hneeded (fun j hj => ?_) (by omega)
    rw [Nat.mul_assoc, ← Nat.pow_succ']
    exact hsmall (j + 1) (by omega)

theorem frBufReserve_ok (buf : FrBuf) (n : Nat) (hlen : buf.data.length + n ≤ 2^63) :
    ∃ cap, frBufReserve (fun _ => true) buf n = (.ok, { buf with cap := cap }) := by
  have hfit : ¬ sizeLimit ≤ buf.data.length + n := by unfold sizeLimit; omega
  unfold frBufReserve
  simp only [hfit, if_false]
  by_cases hcap : buf.data.length + n ≤ buf.cap
  · exact ⟨buf.cap, by simp [hcap]⟩
  · have hstart : 0 < (if buf.cap ≠ 0 then buf.cap else 64) := by split <;> omega
    obtain ⟨c, hc⟩ := growCap_some 64 (buf.data.length + n) _ hstart hlen
      (le_trans (by omega) (Nat.le_mul_of_pos_left (2^64) hstart))
    exact ⟨c, by rw [if_neg hcap, hc]; rfl⟩

/-- Whatever the allocator answers, a reservation keeps the content. -/
theorem frBufReserve_data (alloc : Nat → Bool) (buf : FrBuf) (n : Nat) :
    (frBufReserve alloc buf n).2.data = buf.data := by
  unfold frBufReserve
  dsimp only
  split
  · rfl
  · split
    · rfl
    · split
      · rfl
      · split <;> rfl

private theorem frBufReserve_status (alloc : Nat → Bool) (buf : FrBuf) (n : Nat) :
    (frBufReserve alloc buf n).1 ≠ .eProtocol := by
  unfold frBufReserve
  dsimp only
  split
  · simp
  · split
    · simp
    · split
      · simp
      · split <;> simp

theorem frBufAppend_ok (buf : FrBuf) (src : Bytes) (hlen : buf.data.length + src.length ≤ 2^63) :
    ∃ cap, frBufAppend (fun _ => true) buf src = (.ok, ⟨buf.data ++ src, cap⟩) := by
  obtain ⟨cap, hcap⟩ := frBufReserve_ok buf src.length hlen
  exact ⟨cap, by rw [frBufAppend, hcap]⟩

theorem frBufAppend_cases (alloc : Nat → Bool) (buf : FrBuf) (src : Bytes) :
    ((frBufAppend alloc buf src).1 = .ok ∧
      (frBufAppend alloc buf src).2.data = buf.data ++ src) ∨
    ((frBufAppend alloc buf src).1 ≠ .ok ∧ (frBufAppend alloc buf src).1 ≠ .eProtocol ∧
      (frBufAppend alloc buf src).2.data = buf.data) := by
  have hdata := frBufReserve_data alloc buf src.length
  have hstatus := frBufReserve_status alloc buf src.length
  unfold frBufAppend
  generalize frBufReserve alloc buf src.length = r at hdata hstatus ⊢
  obtain ⟨st, grown⟩ := r
  cases st <;> simp_all

/-- `fr_buf_reader`: borrowed data and the read position. -/
structure FrBufReader where
  data : Bytes
  pos : Nat
  deriving DecidableEq, Repr

def frBufReaderInit (data : Bytes) : FrBufReader := ⟨data, 0⟩

def frBufReaderRemaining (r : FrBufReader) : Nat := r.data.length - r.pos

/-- `fr_buf_reader_read`: on success the position moves by `n`. -/
def frBufReaderRead (r : FrBufReader) (n : Nat) : Except FrStatus (Bytes × FrBufReader) :=
  if frBufReaderRemaining r < n then .error .eRange
  else .ok ((r.data.drop r.pos).take n, { r with pos := r.pos + n })

def frBufReaderU8 (r : FrBufReader) : Except FrStatus (UInt8 × FrBufReader) := do
  let (raw, r) ← frBufReaderRead r 1
  return (raw.headD 0, r)

def frBufReaderU16be (r : FrBufReader) : Except FrStatus (UInt16 × FrBufReader) := do
  let (raw, r) ← frBufReaderRead r 2
  return (frLoadBe16 raw, r)

def frBufReaderU32be (r : FrBufReader) : Except FrStatus (UInt32 × FrBufReader) := do
  let (raw, r) ← frBufReaderRead r 4
  return (frLoadBe32 raw, r)

def frBufReaderU64be (r : FrBufReader) : Except FrStatus (UInt64 × FrBufReader) := do
  let (raw, r) ← frBufReaderRead r 8
  return (frLoadBe64 raw, r)

/-- The bytes a reader has yet to deliver. -/
def FrBufReader.rest (r : FrBufReader) : Bytes := r.data.drop r.pos

theorem frBufReaderRead_rest {r : FrBufReader} {taken tail : Bytes} (h : r.rest = taken ++ tail) :
    ∃ r', frBufReaderRead r taken.length = .ok (taken, r') ∧ r'.rest = tail := by
  unfold FrBufReader.rest at h
  have hlen : taken.length ≤ frBufReaderRemaining r := by
    have hsum := congrArg List.length h
    rw [List.length_drop, List.length_append] at hsum
    unfold frBufReaderRemaining
    omega
  refine ⟨{ r with pos := r.pos + taken.length }, ?_, ?_⟩
  · rw [frBufReaderRead, if_neg (Nat.not_lt.mpr hlen), h, List.take_left]
  · rw [FrBufReader.rest, ← List.drop_drop, h, List.drop_left]

end ForgeRelay
