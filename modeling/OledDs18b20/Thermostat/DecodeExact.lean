import OledDs18b20.Lib.Mask
import OledDs18b20.Lib.Truncation
import OledDs18b20.Thermostat.Decode

/-! The decoded temperature against the number that the sensor delivers. -/
namespace OledDs18b20.Thermostat.DecodeExact
open Lib Decode

/-- The 16-bit two's-complement value of `data[1]:data[0]`. -/
def t16 (data : Vector UInt8 9) : ℤ :=
  (256 * ((data.get 1).toNat : ℤ) + (data.get 0).toNat).bmod (2 ^ 16)

/-- The number of low bits that the configured resolution leaves undefined. -/
def undefinedBits (data : Vector UInt8 9) : ℕ :=
  if data.get 4 &&& 0x60 = 0x00 then 3
  else if data.get 4 &&& 0x60 = 0x20 then 2
  else if data.get 4 &&& 0x60 = 0x40 then 1
  else 0

def countRemain (data : Vector UInt8 9) : ℕ := (data.get 6).toNat

theorem toInt_toInt16 (word : UInt16) :
    word.toInt16.toInt = (word.toNat : ℤ).bmod (2 ^ 16) :=
  BitVec.toInt_eq_toNat_bmod word.toBitVec

theorem word_toInt (high low : UInt8) :
    (high.toUInt16 <<< 8 ||| low.toUInt16).toInt16.toInt =
      (256 * (high.toNat : ℤ) + low.toNat).bmod (2 ^ 16) := by
  have hhigh := high.toNat_lt
  have hlow := low.toNat_lt
  have hjoin : (high.toUInt16 <<< 8 ||| low.toUInt16).toNat = 256 * high.toNat + low.toNat := by
    have hshift : high.toNat <<< 8 % 2 ^ 16 = high.toNat <<< 8 := by
      rw [Nat.shiftLeft_eq]
      exact Nat.mod_eq_of_lt (by omega)
    have hcount : UInt16.toNat 8 % 16 = 8 := rfl
    rw [UInt16.toNat_or, UInt16.toNat_shiftLeft, UInt8.toNat_toUInt16, UInt8.toNat_toUInt16,
      hcount, hshift, ← Nat.shiftLeft_add_eq_or_of_lt hlow, Nat.shiftLeft_eq]
    omega
  rw [toInt_toInt16, hjoin]
  push_cast
  rfl

theorem toInt_and_not (word : Int16) {low : ℕ} (mask : Int16) (h : low < 16)
    (hmask : (~~~mask).toBitVec = Mask.highBits 16 low) :
    (word &&& ~~~mask).toInt = word.toInt - word.toInt % 2 ^ low := by
  change (word.toBitVec &&& (~~~mask).toBitVec).toInt = _
  rw [hmask]
  exact Mask.toInt_and_highBits word.toBitVec h

theorem raw_zero (data : Vector UInt8 9) :
    (raw 0 data).toInt = t16 data - t16 data % 2 ^ undefinedBits data := by
  have hword := word_toInt data[1] data[0]
  have hconfig : data.get 4 = data[4] := rfl
  unfold raw undefinedBits
  rw [if_neg (by decide), hconfig]
  dsimp only
  split_ifs
  · rw [toInt_and_not _ 7 (show 3 < 16 by decide) (by decide), hword]
    rfl
  · rw [toInt_and_not _ 3 (show 2 < 16 by decide) (by decide), hword]
    rfl
  · rw [toInt_and_not _ 1 (show 1 < 16 by decide) (by decide), hword]
    rfl
  · rw [hword, pow_zero, Int.emod_one, sub_zero]
    rfl

/-- A DS18S20 counts half degrees; in its range the shift loses nothing. -/
theorem toInt_shifted {word : Int16} (hlow : -110 ≤ word.toInt) (hhigh : word.toInt ≤ 250) :
    (word <<< 3).toInt = 8 * word.toInt := by
  have hbits := word.toUInt16.toNat_lt
  have hshift : (word <<< 3).toInt = ((word.toUInt16.toNat <<< 3 : ℕ) : ℤ).bmod (2 ^ 16) :=
    BitVec.toInt_shiftLeft
  have hword : word.toInt = (word.toUInt16.toNat : ℤ).bmod (2 ^ 16) :=
    toInt_toInt16 word.toUInt16
  rw [hword] at hlow hhigh ⊢
  rw [hshift, Nat.shiftLeft_eq]
  simp only [Int.bmod] at hlow hhigh ⊢
  omega

/-- What the unsigned sum of the half-degree formula loses, the conversion back restores. -/
theorem bmod_remain {bits remain word : ℤ} (hbits : 0 ≤ bits) (hbits' : bits < 65536)
    (hremain : 0 ≤ remain) (hremain' : remain < 256) (hlow : -110 ≤ word) (hhigh : word ≤ 250)
    (hword : bits.bmod 65536 = 8 * word) :
    ((65536 - remain + (bits / 16 * 16 + 12) % 65536) % 65536).bmod 65536 =
      16 * (word / 2) + 12 - remain := by
  have hwrapped : bits = 8 * word ∨ bits = 8 * word + 65536 := by
    rw [Int.bmod_def] at hword
    split_ifs at hword
    all_goals omega
  have hwhole : bits / 16 * 16 = 16 * (word / 2) ∨ bits / 16 * 16 = 16 * (word / 2) + 65536 := by
    omega
  have hsum : (65536 - remain + (bits / 16 * 16 + 12) % 65536) % 65536 =
      (16 * (word / 2) + 12 - remain) % 65536 := by
    rcases hwhole with hwhole | hwhole
    all_goals rw [hwhole]; omega
  have hsmall : (16 * (word / 2) + 12 - remain).bmod 65536 = 16 * (word / 2) + 12 - remain :=
    Int.bmod_eq_of_le (by omega) (by omega)
  rw [hsum]
  exact (Int.emod_bmod _ 65536).trans hsmall

section HalfDegrees
variable {data : Vector UInt8 9}

theorem raw_one (hlow : -110 ≤ t16 data) (hhigh : t16 data ≤ 250) (hper : data[7] ≠ 0x10) :
    (raw 1 data).toInt = 8 * t16 data := by
  have hword : (data[1].toUInt16 <<< 8 ||| data[0].toUInt16).toInt16.toInt = t16 data :=
    word_toInt data[1] data[0]
  rw [← hword] at hlow hhigh ⊢
  rw [raw, if_pos (by decide)]
  dsimp only
  rw [if_neg hper]
  exact toInt_shifted hlow hhigh

theorem raw_one_remain (hlow : -110 ≤ t16 data) (hhigh : t16 data ≤ 250)
    (hper : data[7] = 0x10) :
    (raw 1 data).toInt = 16 * (t16 data / 2) + 12 - countRemain data := by
  have hword : (data[1].toUInt16 <<< 8 ||| data[0].toUInt16).toInt16.toInt = t16 data :=
    word_toInt data[1] data[0]
  rw [← hword] at hlow hhigh ⊢
  rw [raw, if_pos (by decide)]
  dsimp only
  rw [if_pos hper]
  generalize (data[1].toUInt16 <<< 8 ||| data[0].toUInt16).toInt16 = word at hlow hhigh ⊢
  have hshifted : ((word <<< 3).toUInt16.toNat : ℤ).bmod (2 ^ 16) = 8 * word.toInt :=
    (toInt_toInt16 (word <<< 3).toUInt16).symm.trans (toInt_shifted hlow hhigh)
  have hwhole : ((word <<< 3).toUInt16 &&& 0xFFF0).toNat =
      (word <<< 3).toUInt16.toNat / 2 ^ 4 * 2 ^ 4 := by
    have hmask : (0xFFF0 : UInt16).toBitVec = Mask.highBits 16 4 := by decide
    rw [← UInt16.toNat_toBitVec, UInt16.toBitVec_and, hmask]
    exact Mask.toNat_and_highBits (word <<< 3).toUInt16.toBitVec 4
  have htwelve : UInt16.toNat 12 = 12 := rfl
  have hbits : ((word <<< 3).toUInt16.toNat : ℤ) < 65536 := by
    exact_mod_cast (word <<< 3).toUInt16.toNat_lt
  have hremain : (data[6].toNat : ℤ) < 256 := by exact_mod_cast data[6].toNat_lt
  have hsum := bmod_remain (Int.natCast_nonneg _) hbits (Int.natCast_nonneg _) hremain hlow hhigh
    hshifted
  have hunder : data[6].toNat ≤ 65536 := by omega
  rw [toInt_toInt16, UInt16.toNat_sub, UInt16.toNat_add, hwhole, htwelve, UInt8.toNat_toUInt16]
  push_cast [Nat.cast_sub hunder]
  exact hsum

end HalfDegrees

theorem tenths_eq (raw : Int16) : (tenths (celsius raw)).toInt = (10 * raw.toInt).tdiv 16 := by
  have hlow := raw.le_toInt
  have hhigh := raw.toInt_lt
  have hsmall : |10 * raw.toInt| < 2 ^ Binary32.precision :=
    abs_lt.mpr ⟨by rw [Binary32.precision]; omega, by rw [Binary32.precision]; omega⟩
  have hscaled : celsius raw * 10 = ((10 * raw.toInt : ℤ) : ℚ) * 2 ^ (-4 : ℤ) := by
    rw [celsius_eq]
    push_cast
    norm_num
    ring
  have hquotient : ((10 * raw.toInt : ℤ) : ℚ) * 2 ^ (-4 : ℤ) =
      ((10 * raw.toInt : ℤ) : ℚ) / (16 : ℤ) := by
    norm_num [div_eq_mul_inv]
  have hbounds : -32768 ≤ (10 * raw.toInt).tdiv 16 ∧ (10 * raw.toInt).tdiv 16 ≤ 32767 := by
    rw [Truncation.le_tdiv_iff (by decide) (by decide),
      Truncation.tdiv_le_iff (by decide) (by decide)]
    omega
  rw [tenths, hscaled, Binary32.round_eq_self _ _ hsmall (by decide), hquotient,
    Binary32.truncate_div _ _ (by decide)]
  exact Int16.toInt_ofInt_of_le (by omega) (by omega)

theorem remain_degrees (word : ℤ) (remain : ℕ) :
    ((16 * (word / 2) + 12 - remain : ℤ) : ℚ) =
      16 * (⌊(word : ℚ) / 2⌋ - 1 / 4 + (16 - remain) / 16) := by
  have hfloor : ⌊(word : ℚ) / 2⌋ = word / 2 := by
    have hdiv := Rat.floor_intCast_div_natCast word 2
    exact_mod_cast hdiv
  rw [hfloor]
  push_cast
  ring

/-- In the sensor's range no step of the 16-bit arithmetic loses anything, and the value
recorded for any raw word is the exact quotient truncated, which fits in an `int`. -/
theorem decode_exact (family : UInt8) (hfamily : family = 0x28 ∨ family = 0x22 ∨ family = 0x10)
    (data : Vector UInt8 9) :
    ∃ typeS dsNum, chip family = some (typeS, dsNum) ∧
      (family = 0x28 ∨ family = 0x22 →
        (raw typeS data).toInt = t16 data - t16 data % 2 ^ undefinedBits data) ∧
      (family = 0x10 → -110 ≤ t16 data → t16 data ≤ 250 →
        (data.get 7 ≠ 16 → (raw typeS data).toInt = 8 * t16 data) ∧
        (data.get 7 = 16 → data.get 6 ≤ 16 → ((raw typeS data).toInt : ℚ) =
          16 * (⌊(t16 data : ℚ) / 2⌋ - 1 / 4 + (16 - countRemain data) / 16))) ∧
      ∀ word : Int16, (tenths (celsius word)).toInt = (10 * word.toInt).tdiv 16 := by
  rcases hfamily with rfl | rfl | rfl
  · exact ⟨0, 1, rfl, fun _ => raw_zero data, fun hother => absurd hother (by decide), tenths_eq⟩
  · exact ⟨0, 2, rfl, fun _ => raw_zero data, fun hother => absurd hother (by decide), tenths_eq⟩
  · refine ⟨1, 0, rfl, fun hother => absurd hother (by decide), ?_, tenths_eq⟩
    intro _ hlow hhigh
    refine ⟨raw_one hlow hhigh, ?_⟩
    intro hper _
    rw [raw_one_remain hlow hhigh hper]
    exact remain_degrees _ _

/-- Half a degree below zero, with 4 counts remaining of 16. -/
theorem below_zero : ∃ typeS dsNum, chip 0x10 = some (typeS, dsNum) ∧
    ((raw typeS #v[0xFF, 0xFF, 0, 0, 0, 0, 4, 0x10, 0]).toInt : ℚ) = -8 := by
  obtain ⟨typeS, dsNum, hchip, -, hhalf, -⟩ := decode_exact 0x10 (by decide)
    #v[0xFF, 0xFF, 0, 0, 0, 0, 4, 0x10, 0]
  refine ⟨typeS, dsNum, hchip, ?_⟩
  rw [(hhalf rfl (by decide) (by decide)).2 rfl (by decide)]
  have hword : t16 #v[0xFF, 0xFF, 0, 0, 0, 0, 4, 0x10, 0] = -1 := by decide
  have hfloor : ⌊(-1 : ℚ) / 2⌋ = -1 := by rw [Int.floor_eq_iff]; norm_num
  have hremain : countRemain #v[0xFF, 0xFF, 0, 0, 0, 0, 4, 0x10, 0] = 4 := rfl
  rw [hword, hremain]
  push_cast
  rw [hfloor]
  norm_num

end OledDs18b20.Thermostat.DecodeExact
