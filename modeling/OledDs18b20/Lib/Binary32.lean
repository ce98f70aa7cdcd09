import Mathlib

/-! Single-precision results as exact rationals: each operation is the rational
operation followed by `round`, to the nearest multiple of the unit in the last
place, ties to even. The exponent is bounded below and not above, so overflow
to infinity is outside the format's range here. -/
namespace OledDs18b20.Lib.Binary32

def precision : ℕ := 24
def minExponent : ℤ := -149

/-- The exponent of the unit in the last place of a value of `q`'s magnitude. -/
def lastPlace (q : ℚ) : ℤ :=
  max (Int.log 2 |q| - (precision - 1 : ℕ)) minExponent

def nearestEven (q : ℚ) : ℤ :=
  let low := ⌊q⌋
  if q - low < 1 / 2 then low
  else if 1 / 2 < q - low then low + 1
  else if low % 2 = 0 then low else low + 1

def round (q : ℚ) : ℚ :=
  nearestEven (q / 2 ^ lastPlace q) * 2 ^ lastPlace q

/-- The conversion of a value to an integer type, which drops the fraction. -/
def truncate (q : ℚ) : ℤ := q.num.tdiv q.den

@[simp] theorem nearestEven_intCast (m : ℤ) : nearestEven m = m := by
  simp [nearestEven]

theorem lastPlace_le (m e : ℤ) (hm : |m| < 2 ^ precision) (hnonzero : m ≠ 0)
    (he : minExponent ≤ e) : lastPlace (m * 2 ^ e) ≤ e := by
  have hscale : (0 : ℚ) < 2 ^ e := zpow_pos (by norm_num) e
  have hpos : 0 < |(m : ℚ) * 2 ^ e| :=
    abs_pos.mpr (mul_ne_zero (Int.cast_ne_zero.mpr hnonzero) hscale.ne')
  have hmag : |(m : ℚ)| < 2 ^ precision := by exact_mod_cast hm
  have hlt : |(m : ℚ) * 2 ^ e| < ((2 : ℕ) : ℚ) ^ (precision + e) := by
    rw [abs_mul, abs_of_pos hscale, Nat.cast_ofNat, zpow_add₀ (by norm_num), zpow_natCast]
    exact mul_lt_mul_of_pos_right hmag hscale
  have hlog : Int.log 2 |(m : ℚ) * 2 ^ e| < precision + e :=
    (Int.lt_zpow_iff_log_lt (by norm_num) hpos).mp hlt
  refine max_le ?_ he
  simp only [precision] at hlog ⊢
  omega

/-- A value of at most 24 significant bits is its own rounding. -/
theorem round_eq_self (m e : ℤ) (hm : |m| < 2 ^ precision) (he : minExponent ≤ e) :
    round (m * 2 ^ e) = m * 2 ^ e := by
  by_cases hzero : m = 0
  · have hnearest : nearestEven 0 = 0 := by simpa using nearestEven_intCast 0
    simp [round, hzero, hnearest]
  · have hle := lastPlace_le m e hm hzero he
    have hround : round (m * 2 ^ e) =
        nearestEven (m * 2 ^ e / 2 ^ lastPlace (m * 2 ^ e)) *
          2 ^ lastPlace (m * 2 ^ e) := rfl
    generalize lastPlace (m * 2 ^ e) = place at hle hround
    obtain ⟨shift, hshift⟩ := Int.eq_ofNat_of_zero_le (sub_nonneg.mpr hle)
    have hplace : (2 : ℚ) ^ place ≠ 0 := zpow_ne_zero place (by norm_num)
    have hsplit : (2 : ℚ) ^ e = 2 ^ shift * 2 ^ place := by
      rw [← zpow_natCast, ← zpow_add₀ (by norm_num), ← hshift, sub_add_cancel]
    have hunits : (m : ℚ) * 2 ^ e / 2 ^ place = ((m * 2 ^ shift : ℤ) : ℚ) := by
      rw [hsplit, ← mul_assoc, mul_div_cancel_right₀ _ hplace]
      push_cast
      rfl
    rw [hround, hunits, nearestEven_intCast]
    push_cast
    rw [hsplit, mul_assoc]

/-- Integers below the precision convert exactly. -/
theorem round_intCast (m : ℤ) (hm : |m| < 2 ^ precision) : round m = m := by
  simpa using round_eq_self m 0 hm (by decide)

/-- Truncating a quotient of integers is the truncating division. -/
theorem truncate_div (a b : ℤ) (hb : 0 < b) : truncate ((a : ℚ) / b) = a.tdiv b := by
  obtain ⟨scale, hnum, hden⟩ :=
    Rat.num_den_mk hb.ne' (show ((a : ℚ) / b) = Rat.divInt a b by rw [Rat.divInt_eq_div])
  generalize (a : ℚ) / b = quotient at hnum hden ⊢
  have hpos : 0 < scale := by
    rw [hden] at hb
    exact pos_of_mul_pos_left hb (Int.natCast_nonneg _)
  rw [truncate, hnum, hden]
  exact (Int.mul_tdiv_mul_of_pos _ _ hpos).symm

end OledDs18b20.Lib.Binary32
