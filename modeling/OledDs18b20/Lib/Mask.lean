import Mathlib

/-! Words whose low bits are masked off: the value is rounded down to a multiple
of a power of two, signed or unsigned. -/
namespace OledDs18b20.Lib.Mask

variable {w : ℕ}

/-- All bits but the lowest `low` ones. -/
def highBits (w low : ℕ) : BitVec w := BitVec.allOnes w <<< low

theorem toNat_and_highBits (word : BitVec w) (low : ℕ) :
    (word &&& highBits w low).toNat = word.toNat / 2 ^ low * 2 ^ low := by
  have hle : word.toNat / 2 ^ low * 2 ^ low ≤ word.toNat := Nat.div_mul_le_self _ _
  rw [highBits, ← BitVec.shiftLeft_ushiftRight, BitVec.toNat_shiftLeft, BitVec.toNat_ushiftRight,
    Nat.shiftRight_eq_div_pow, Nat.shiftLeft_eq]
  exact Nat.mod_eq_of_lt (hle.trans_lt word.isLt)

theorem div_mul_lt_iff (value : ℕ) {bound unit : ℕ} (hunit : 0 < unit) (h : unit ∣ bound) :
    value / unit * unit < bound ↔ value < bound := by
  obtain ⟨count, rfl⟩ := h
  rw [Nat.mul_comm unit count, Nat.mul_lt_mul_right hunit, Nat.div_lt_iff_lt_mul hunit]

theorem toInt_and_highBits (word : BitVec w) {low : ℕ} (h : low < w) :
    (word &&& highBits w low).toInt = word.toInt - word.toInt % 2 ^ low := by
  have hunit : 0 < 2 ^ low := Nat.two_pow_pos low
  have hwhole : 2 ^ w = 2 * 2 ^ (w - 1) := by
    rw [← Nat.pow_succ', Nat.succ_eq_add_one, Nat.sub_add_cancel (by omega)]
  have hsign := div_mul_lt_iff word.toNat hunit (Nat.pow_dvd_pow 2 (show low ≤ w - 1 by omega))
  have hrounded : ((word.toNat / 2 ^ low * 2 ^ low : ℕ) : ℤ) =
      word.toNat - (word.toNat : ℤ) % 2 ^ low := by
    have hdivision := Int.mul_ediv_add_emod (word.toNat : ℤ) (2 ^ low)
    push_cast
    linarith
  have hperiod : ((word.toNat : ℤ) - (2 ^ w : ℕ)) % 2 ^ low = (word.toNat : ℤ) % 2 ^ low := by
    obtain ⟨count, hcount⟩ := Nat.pow_dvd_pow 2 h.le
    rw [hcount]
    push_cast
    exact Int.sub_mul_emod_self_left _ _ _
  rw [BitVec.toInt_eq_toNat_cond, BitVec.toInt_eq_toNat_cond, toNat_and_highBits]
  by_cases hpos : word.toNat < 2 ^ (w - 1)
  · rw [if_pos (by omega), if_pos (by omega)]
    exact hrounded
  · rw [if_neg (by omega), if_neg (by omega), hperiod, hrounded]
    ring

end OledDs18b20.Lib.Mask
