import Mathlib

/-! Division that truncates toward zero, compared with a bound, and the linear
rescaling of one interval to another that is built on it. Rescaling extrapolates
outside its interval. -/
namespace OledDs18b20.Lib.Truncation

variable {a c k : ℤ}

theorem tdiv_le_iff (hc : 0 < c) (hk : 0 ≤ k) : a.tdiv c ≤ k ↔ a < (k + 1) * c := by
  constructor
  · intro hle
    calc
      a < (a.tdiv c + 1) * c := Int.lt_tdiv_add_one_mul_self a hc
      _ ≤ (k + 1) * c := by gcongr
  · intro hlt
    rcases le_total 0 a with hpos | hneg
    · rw [Int.tdiv_eq_ediv_of_nonneg hpos]
      exact Int.lt_add_one_iff.mp (Int.ediv_lt_of_lt_mul hc hlt)
    · have hnonpos : a.tdiv c ≤ 0 := by
        have h := Int.tdiv_le_tdiv hc hneg
        rwa [Int.zero_tdiv] at h
      exact hnonpos.trans hk

theorem le_tdiv_iff (hc : 0 < c) (hk : k ≤ 0) : k ≤ a.tdiv c ↔ (k - 1) * c < a := by
  have h := tdiv_le_iff (a := -a) hc (neg_nonneg.mpr hk)
  rw [Int.neg_tdiv, neg_le_neg_iff] at h
  rw [h]
  constructor
  · intro hlt
    linarith
  · intro hlt
    linarith

/-- A whole number against an exact quotient. -/
theorem abs_sub_div_le_one_iff {whole numerator range : ℤ} (h : 0 < range) :
    |(whole : ℚ) - (numerator : ℚ) / range| ≤ 1 ↔ |whole * range - numerator| ≤ range := by
  have hrange : (0 : ℚ) < range := by exact_mod_cast h
  have hquotient : (whole : ℚ) - (numerator : ℚ) / range =
      ((whole * range - numerator : ℤ) : ℚ) / range := by
    push_cast
    field_simp
  rw [hquotient, abs_div, abs_of_pos hrange, div_le_one hrange]
  exact_mod_cast Iff.rfl

def rescale (x inMin inMax outMin outMax : ℤ) : ℤ :=
  ((x - inMin) * (outMax - outMin)).tdiv (inMax - inMin) + outMin

section Rescale
variable {x y inMin inMax outMin outMax : ℤ}

theorem rescale_mono (hin : inMin < inMax) (hout : outMin ≤ outMax) (h : x ≤ y) :
    rescale x inMin inMax outMin outMax ≤ rescale y inMin inMax outMin outMax := by
  have hscaled : (x - inMin) * (outMax - outMin) ≤ (y - inMin) * (outMax - outMin) :=
    mul_le_mul_of_nonneg_right (by linarith) (sub_nonneg.mpr hout)
  exact add_le_add_left (Int.tdiv_le_tdiv (sub_pos.mpr hin) hscaled) outMin

theorem rescale_le_iff (hin : inMin < inMax) (hk : outMin ≤ k) :
    rescale x inMin inMax outMin outMax ≤ k ↔
      (x - inMin) * (outMax - outMin) < (k - outMin + 1) * (inMax - inMin) := by
  rw [← tdiv_le_iff (sub_pos.mpr hin) (sub_nonneg.mpr hk), rescale, le_sub_iff_add_le]

theorem le_rescale_iff (hin : inMin < inMax) (hk : k ≤ outMin) :
    k ≤ rescale x inMin inMax outMin outMax ↔
      (k - outMin - 1) * (inMax - inMin) < (x - inMin) * (outMax - outMin) := by
  rw [← le_tdiv_iff (sub_pos.mpr hin) (sub_nonpos.mpr hk), rescale, sub_le_iff_le_add]

/-- The two intermediate results of a rescaling stay small. -/
theorem rescale_bounds (hout : outMin ≤ outMax) (hx : |x - inMin| ≤ 2 ^ 16)
    (hscale : outMax - outMin ≤ 2 ^ 10) :
    |(x - inMin) * (outMax - outMin)| ≤ 2 ^ 26 ∧
      |((x - inMin) * (outMax - outMin)).tdiv (inMax - inMin)| ≤ 2 ^ 26 := by
  have hproduct : |(x - inMin) * (outMax - outMin)| ≤ 2 ^ 26 := by
    rw [abs_mul, abs_of_nonneg (sub_nonneg.mpr hout)]
    calc
      |x - inMin| * (outMax - outMin) ≤ 2 ^ 16 * 2 ^ 10 :=
        mul_le_mul hx hscale (sub_nonneg.mpr hout) (by norm_num)
      _ = 2 ^ 26 := by norm_num
  refine ⟨hproduct, ?_⟩
  have hquotient := Int.natAbs_tdiv_le_natAbs ((x - inMin) * (outMax - outMin)) (inMax - inMin)
  rw [Int.abs_eq_natAbs] at hproduct ⊢
  omega

end Rescale

end OledDs18b20.Lib.Truncation
