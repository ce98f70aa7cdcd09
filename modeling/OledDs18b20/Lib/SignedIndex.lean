import Mathlib

/-! Signed bytes used as array indices, as counters and as 8-bit coordinates. -/
namespace OledDs18b20.Lib.SignedIndex

theorem toInt_eq_toNatClampNeg {index : Int8} (h : 0 ≤ index) :
    index.toInt = index.toNatClampNeg := by
  have hnonneg : 0 ≤ index.toInt := Int8.le_iff_toInt_le.mp h
  exact (Int.toNat_of_nonneg hnonneg).symm

theorem toNatClampNeg_lt_iff {index : Int8} {bound : ℕ} (h : 0 ≤ index)
    (hbound : bound < 128) : index.toNatClampNeg < bound ↔ index < Int8.ofNat bound := by
  rw [Int8.lt_iff_toInt_lt, Int8.toInt_ofNat_of_lt hbound, toInt_eq_toNatClampNeg h,
    Int.ofNat_lt]

theorem toNatClampNeg_add_one {index : Int8} (h : 0 ≤ index) (hlt : index < 127) :
    (index + 1).toNatClampNeg = index.toNatClampNeg + 1 := by
  have hnext : 0 ≤ index + 1 := by grind
  have hint := toInt_eq_toNatClampNeg hnext
  have hold := toInt_eq_toNatClampNeg h
  have hsmall : index.toInt < 127 := Int8.lt_iff_toInt_lt.mp hlt
  rw [Int8.toInt_add, Int8.toInt_one, hold] at hint
  rw [hold] at hsmall
  rw [Int.bmod_eq_of_le (by omega) (by omega)] at hint
  omega

theorem ofNat_nonneg {n : ℕ} (h : n < 128) : 0 ≤ Int8.ofNat n := by
  rw [Int8.le_iff_toInt_le, Int8.toInt_ofNat_of_lt h]
  exact Int.natCast_nonneg n

theorem toNat_ofInt (value : ℤ) : (UInt8.ofInt value).toNat = (value % 256).toNat := by
  have hlow := Int.emod_nonneg value (show (256 : ℤ) ≠ 0 by decide)
  have hhigh := Int.emod_lt_of_pos value (show (0 : ℤ) < 256 by decide)
  change (UInt8.ofNat (value % 256).toNat).toNat = _
  rw [UInt8.toNat_ofNat']
  exact Nat.mod_eq_of_lt (by omega)

theorem ofInt_toInt_inj {left right : Int8} :
    UInt8.ofInt left.toInt = UInt8.ofInt right.toInt ↔ left = right := by
  have hleft := left.le_toInt
  have hright := right.le_toInt
  have hleft' := left.toInt_lt
  have hright' := right.toInt_lt
  rw [← UInt8.toNat_inj, toNat_ofInt, toNat_ofInt, ← Int8.toInt_inj]
  omega

end OledDs18b20.Lib.SignedIndex
