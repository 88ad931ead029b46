import ForgeRelay.Core.Status

/-!
# Decimal numbers

`std::to_string` gives an integer's decimal digits, behind a minus sign if it is negative.
-/

namespace ForgeRelay

/-- `std::to_string`. -/
def decimal (n : Int) : Bytes := ascii (toString n)

private theorem ascii_append (s t : String) : ascii (s ++ t) = ascii s ++ ascii t := by
  rw [ascii, String.toList_append, List.map_append]
  rfl

theorem ascii_toString_digit {n : Nat} {b : UInt8} (hb : b ∈ ascii (toString n)) :
    48 ≤ b ∧ b ≤ 57 := by
  obtain ⟨c, hc, rfl⟩ := List.mem_map.mp hb
  have hdigit : c.isDigit := by
    change c ∈ (Nat.repr n).toList at hc
    rw [Nat.toList_repr] at hc
    exact Nat.isDigit_of_mem_toDigits (by decide) (by decide) hc
  rw [Char.isDigit, Bool.and_eq_true, decide_eq_true_iff, decide_eq_true_iff] at hdigit
  have hlo : 48 ≤ c.toNat := hdigit.1
  have hhi : c.toNat ≤ 57 := hdigit.2
  have hbyte : c.toNat.toUInt8.toNat = c.toNat := by
    rw [Nat.toUInt8_eq, UInt8.toNat_ofNat', Nat.mod_eq_of_lt (by omega)]
  rw [UInt8.le_iff_toNat_le, UInt8.le_iff_toNat_le, hbyte]
  exact ⟨hlo, hhi⟩

theorem ascii_toString_injective {m n : Nat} (h : ascii (toString m) = ascii (toString n)) :
    m = n := by
  have hback : ∀ k : Nat,
      (ascii (toString k)).map (fun b => Char.ofNat b.toNat) = Nat.toDigits 10 k := by
    intro k
    rw [ascii, List.map_map]
    change (Nat.repr k).toList.map _ = _
    rw [Nat.toList_repr]
    refine (List.map_congr_left fun c hc => ?_).trans (List.map_id _)
    have hdigit : c.isDigit := Nat.isDigit_of_mem_toDigits (by decide) (by decide) hc
    rw [Char.isDigit, Bool.and_eq_true, decide_eq_true_iff, decide_eq_true_iff] at hdigit
    have hhi : c.toNat ≤ 57 := hdigit.2
    rw [Function.comp_apply, Nat.toUInt8_eq, UInt8.toNat_ofNat', Nat.mod_eq_of_lt (by omega)]
    exact Char.ofNat_toNat c
  have hdigits := (hback m).symm.trans ((congrArg _ h).trans (hback n))
  rw [← Nat.ofDigitChars_ten_toDigits (n := m), hdigits, Nat.ofDigitChars_ten_toDigits]

theorem decimal_byte {n : Int} {b : UInt8} (hb : b ∈ decimal n) : b = 45 ∨ 48 ≤ b ∧ b ≤ 57 := by
  cases n with
  | ofNat n => exact .inr (ascii_toString_digit hb)
  | negSucc n =>
    have hneg : decimal (Int.negSucc n) = 45 :: ascii (toString (n + 1)) := ascii_append "-" _
    rw [hneg] at hb
    rcases List.mem_cons.mp hb with rfl | hb
    · exact .inl rfl
    · exact .inr (ascii_toString_digit hb)

end ForgeRelay
