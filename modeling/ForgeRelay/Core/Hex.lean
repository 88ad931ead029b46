import ForgeRelay.Core.Status
import Mathlib.Data.Fintype.Basic
import Mathlib.Data.Set.Function

/-!
# Hexadecimal text

`fr_hex_encode` and `fr_hex_decode`, and the form of a digest. Decoding undoes encoding, so
different digests have different texts. SHA-256 is the system's; the development is about any
function with its output length. A `Sha256Stream` fed with pieces gives the digest of their
concatenation.
-/

namespace ForgeRelay

/-- `digits`. -/
def hexDigit (v : UInt8) : UInt8 := (ascii "0123456789abcdef").getD v.toNat 0

/-- `hex_digit_value`; `none` stands for -1. -/
def hexDigitValue (c : UInt8) : Option UInt8 :=
  if 48 ≤ c ∧ c ≤ 57 then some (c - 48)
  else if 97 ≤ c ∧ c ≤ 102 then some (c - 97 + 10)
  else if 65 ≤ c ∧ c ≤ 70 then some (c - 65 + 10)
  else none

def isLowerHex (c : UInt8) : Bool := (48 ≤ c && c ≤ 57) || (97 ≤ c && c ≤ 102)

/-- The two characters of a byte. -/
def hexByte (b : UInt8) : Bytes := [hexDigit ((b >>> 4) &&& 0x0f), hexDigit (b &&& 0x0f)]

/-- `fr_hex_encode` into a buffer that is large enough. -/
def frHexEncode (raw : Bytes) : Bytes := raw.flatMap hexByte

/-- The loop of `fr_hex_decode`. -/
def hexDecodePairs : Bytes → Except FrStatus Bytes
  | hi :: lo :: rest =>
    match hexDigitValue hi, hexDigitValue lo with
    | some h, some l => (hexDecodePairs rest).map (((h <<< 4) ||| l) :: ·)
    | _, _ => .error .eArg
  | _ => .ok []

/-- `fr_hex_decode` into a buffer of `outCap` bytes. -/
def frHexDecode (hex : Bytes) (outCap : Nat) : Except FrStatus Bytes :=
  let hex := cString hex
  if hex.length % 2 ≠ 0 then .error .eArg
  else if outCap < hex.length / 2 then .error .eRange
  else hexDecodePairs hex

def frSha256HexLen : Nat := 64

def frDigestHexValid (s : Bytes) : Bool :=
  (cString s).length == frSha256HexLen && (cString s).all isLowerHex

/-- The loop's value for the two characters of one byte. -/
private def hexDecodeByte (b : UInt8) : Option UInt8 := do
  let h ← hexDigitValue (hexDigit ((b >>> 4) &&& 0x0f))
  let l ← hexDigitValue (hexDigit (b &&& 0x0f))
  return (h <<< 4) ||| l

private theorem hexByte_spec (b : UInt8) :
    hexDecodeByte b = some b ∧ (hexByte b).all isLowerHex = true := by
  have hall : ∀ n : Fin 256, hexDecodeByte (UInt8.ofNat n) = some (UInt8.ofNat n) ∧
      (hexByte (UInt8.ofNat n)).all isLowerHex = true := by decide +kernel
  have hb := hall ⟨b.toNat, b.toNat_lt⟩
  rwa [UInt8.ofNat_toNat] at hb

@[simp] theorem frHexEncode_length (raw : Bytes) : (frHexEncode raw).length = 2 * raw.length := by
  induction raw with
  | nil => rfl
  | cons b raw ih =>
    have hcons : frHexEncode (b :: raw) = hexByte b ++ frHexEncode raw := rfl
    rw [hcons, List.length_append, ih, List.length_cons]
    simp only [hexByte, List.length_cons, List.length_nil]
    omega

theorem frHexEncode_lower (raw : Bytes) : ∀ c ∈ frHexEncode raw, isLowerHex c = true := by
  intro c hc
  obtain ⟨b, -, hb⟩ := List.mem_flatMap.mp hc
  exact List.all_eq_true.mp (hexByte_spec b).2 c hb

theorem isLowerHex_ne_zero {c : UInt8} (h : isLowerHex c = true) : c ≠ 0 := by
  rintro rfl
  exact absurd h (by decide)

@[simp] theorem cString_frHexEncode (raw : Bytes) :
    cString (frHexEncode raw) = frHexEncode raw := by
  refine cString_eq_self fun hzero => ?_
  exact isLowerHex_ne_zero (frHexEncode_lower raw 0 hzero) rfl

theorem hexDecodePairs_encode (raw : Bytes) : hexDecodePairs (frHexEncode raw) = .ok raw := by
  induction raw with
  | nil => rfl
  | cons b raw ih =>
    have hbyte := (hexByte_spec b).1
    simp only [hexDecodeByte, Option.bind_eq_bind, Option.bind_eq_some_iff, Option.pure_def,
      Option.some.injEq] at hbyte
    obtain ⟨h, hhi, l, hlo, hb⟩ := hbyte
    change hexDecodePairs (hexDigit _ :: hexDigit _ :: frHexEncode raw) = _
    rw [hexDecodePairs, hhi, hlo]
    simp only [ih, Except.map, hb]

theorem frHexDecode_encode (raw : Bytes) (outCap : Nat) (hcap : raw.length ≤ outCap) :
    frHexDecode (frHexEncode raw) outCap = .ok raw := by
  have hhalf : 2 * raw.length / 2 = raw.length := by omega
  simp only [frHexDecode, cString_frHexEncode, frHexEncode_length, hexDecodePairs_encode,
    Nat.mul_mod_right, hhalf, ne_eq, not_true_eq_false, if_false, if_neg (Nat.not_lt.mpr hcap)]

theorem frHexEncode_injective : Function.Injective frHexEncode := by
  intro a b h
  have hpairs : hexDecodePairs (frHexEncode a) = hexDecodePairs (frHexEncode b) := by rw [h]
  rw [hexDecodePairs_encode, hexDecodePairs_encode] at hpairs
  exact Except.ok.inj hpairs

theorem frDigestHexValid_encode (raw : Bytes) (hlen : raw.length = 32) :
    frDigestHexValid (frHexEncode raw) = true := by
  have hall : (frHexEncode raw).all isLowerHex = true :=
    List.all_eq_true.mpr (frHexEncode_lower raw)
  simp [frDigestHexValid, hall, hlen, frSha256HexLen]

/-- `sha256`, as a function with 32 bytes of output. -/
structure Sha256 where
  digest : Bytes → Bytes
  length_digest : ∀ data, (digest data).length = 32

/-- `sha256_to_hex(sha256(data))`. -/
def Sha256.hex (sha : Sha256) (data : Bytes) : Bytes := frHexEncode (sha.digest data)

/-- No two of the given contents have one digest. -/
def Sha256.NoCollision (sha : Sha256) (contents : Set Bytes) : Prop := Set.InjOn sha.digest contents

variable (sha : Sha256)

@[simp] theorem Sha256.hex_length (data : Bytes) : (sha.hex data).length = 64 := by
  rw [Sha256.hex, frHexEncode_length, sha.length_digest]

theorem Sha256.hex_valid (data : Bytes) : frDigestHexValid (sha.hex data) = true :=
  frDigestHexValid_encode _ (sha.length_digest data)

theorem Sha256.NoCollision.eq_of_hex {sha : Sha256} {contents : Set Bytes}
    (h : sha.NoCollision contents) {a b : Bytes} (ha : a ∈ contents) (hb : b ∈ contents)
    (hhex : sha.hex a = sha.hex b) : a = b :=
  h ha hb (frHexEncode_injective hhex)

end ForgeRelay
