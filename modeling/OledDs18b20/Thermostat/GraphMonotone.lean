import OledDs18b20.Lib.Narrowing
import OledDs18b20.Thermostat.GraphRow

/-! Whether graph type 3 keeps hotter samples above colder ones. The row is narrowed to a
`char` before it is clamped. -/
namespace OledDs18b20.Thermostat.GraphMonotone
open Lib GraphRow

/-- The hotter sample is drawn no lower than the colder one. -/
def InOrder (s : Sketch) (colder hotter : Int16) : Prop :=
  ∃ upper lower, drawnRow s hotter = some upper ∧ drawnRow s colder = some lower ∧
    upper ≤ lower

/-- The product of the row's expression is an `int`. -/
def ProductFits (s : Sketch) (logged : Int16) : Prop :=
  -2 ^ 15 ≤ rise s logged ∧ rise s logged < 2 ^ 15

/-- No temperature of the sensor's range leaves the `char`. -/
def Unwrapped (s : Sketch) : Prop :=
  (125 - (s.params 5).toInt) * scale s ≤ 190 ∧ ((s.params 5).toInt + 55) * scale s ≤ 65

instance : DecidablePred Unwrapped := fun _ => inferInstanceAs (Decidable (_ ∧ _))

def exactRow (s : Sketch) (temperature : ℤ) : ℤ :=
  62 - (temperature - (s.params 5).toInt) * scale s

section Settings
variable {s : Sketch}

theorem scale_range (hheight : 2 ≤ (s.params 3).toInt) (hframe : (s.params 3).toInt ≤ 62)
    (hlimits : (s.params 5).toInt < (s.params 4).toInt) : 0 ≤ scale s ∧ scale s ≤ 62 := by
  have hrange := sub_pos.mpr hlimits
  constructor
  · exact Int.tdiv_nonneg (by omega) hrange.le
  · exact (Int.tdiv_le_self _ (by omega)).trans hframe

theorem degrees_range {logged : Int16} (hlow : -550 ≤ logged.toInt)
    (hhigh : logged.toInt ≤ 1250) : -55 ≤ degrees logged ∧ degrees logged ≤ 125 := by
  rw [le_degrees_iff (by decide), degrees_le_iff (by decide)]
  omega

theorem productFits (hheight : 2 ≤ (s.params 3).toInt) (hframe : (s.params 3).toInt ≤ 62)
    (hlimits : (s.params 5).toInt < (s.params 4).toInt) {logged : Int16}
    (hlow : -550 ≤ logged.toInt) (hhigh : logged.toInt ≤ 1250) : ProductFits s logged := by
  obtain ⟨hscale, hscale'⟩ := scale_range hheight hframe hlimits
  obtain ⟨hdegrees, hdegrees'⟩ := degrees_range hlow hhigh
  have hmin := int8_bounds (s.params 5)
  have hoffset : |degrees logged - (s.params 5).toInt| ≤ 255 :=
    abs_le.mpr ⟨by omega, by omega⟩
  have hproduct : |rise s logged| ≤ 255 * 62 := by
    rw [rise, abs_mul, abs_of_nonneg hscale]
    exact mul_le_mul hoffset hscale' hscale (by decide)
  obtain ⟨hnegative, hpositive⟩ := abs_le.mp hproduct
  exact ⟨by omega, by omega⟩

def clampedRow (s : Sketch) (temperature : ℤ) : ℤ :=
  max (63 - (s.params 3).toInt) (min 61 ((exactRow s temperature).bmod 256))

theorem inOrder_iff (hheight : 2 ≤ (s.params 3).toInt)
    (hlimits : (s.params 5).toInt < (s.params 4).toInt) (colder hotter : Int16) :
    InOrder s colder hotter ↔
      clampedRow s (degrees hotter) ≤ clampedRow s (degrees colder) := by
  obtain ⟨upper, hupper, htop⟩ := drawnRow_eq hheight (limits_ne hlimits) hotter
  obtain ⟨lower, hlower, hbottom⟩ := drawnRow_eq hheight (limits_ne hlimits) colder
  rw [InOrder, hupper, hlower]
  simp only [Option.some.injEq, exists_and_left, exists_eq_left', Int8.le_iff_toInt_le]
  rw [htop, hbottom]
  rfl

theorem exists_logged {temperature : ℤ} (hlow : -55 ≤ temperature) (hhigh : temperature ≤ 125) :
    (Int16.ofInt (temperature * 10)).toInt = temperature * 10 ∧
      degrees (Int16.ofInt (temperature * 10)) = temperature := by
  have hvalue : (Int16.ofInt (temperature * 10)).toInt = temperature * 10 :=
    Int16.toInt_ofInt_of_le (by omega) (by omega)
  refine ⟨hvalue, ?_⟩
  rw [degrees, hvalue]
  exact Int.mul_tdiv_cancel temperature (by decide)

theorem all_inOrder_iff (hheight : 2 ≤ (s.params 3).toInt)
    (hlimits : (s.params 5).toInt < (s.params 4).toInt) :
    (∀ colder hotter : Int16, -550 ≤ colder.toInt → colder ≤ hotter → hotter.toInt ≤ 1250 →
      InOrder s colder hotter) ↔
    ∀ earlier later, -55 ≤ earlier → earlier ≤ later → later ≤ 125 →
      clampedRow s later ≤ clampedRow s earlier := by
  constructor
  · intro hordered earlier later hfirst hle hlast
    obtain ⟨hcolder, hearlier⟩ := exists_logged hfirst (hle.trans hlast)
    obtain ⟨hhotter, hlater⟩ := exists_logged (hfirst.trans hle) hlast
    have hpair := hordered (Int16.ofInt (earlier * 10)) (Int16.ofInt (later * 10)) (by omega)
      (Int16.le_iff_toInt_le.mpr (by omega)) (by omega)
    rwa [inOrder_iff hheight hlimits, hearlier, hlater] at hpair
  · intro hfalls colder hotter hlow hle hhigh
    have hvalues := Int16.le_iff_toInt_le.mp hle
    rw [inOrder_iff hheight hlimits]
    exact hfalls _ _ (degrees_range hlow (hvalues.trans hhigh)).1 (degrees_mono hle)
      (degrees_range (hlow.trans hvalues) hhigh).2

theorem turn_eq_iff_unwrapped (hheight : 2 ≤ (s.params 3).toInt)
    (hframe : (s.params 3).toInt ≤ 62) (hlimits : (s.params 5).toInt < (s.params 4).toInt) :
    Narrowing.turn 128 (exactRow s (-55)) = Narrowing.turn 128 (exactRow s 125) ↔
      Unwrapped s := by
  obtain ⟨hscale, hscale'⟩ := scale_range hheight hframe hlimits
  have hmin := int8_bounds (s.params 5)
  have hmax := int8_bounds (s.params 4)
  have hproduct : -128 * scale s ≤ (s.params 5).toInt * scale s ∧
      (s.params 5).toInt * scale s ≤ 126 * scale s :=
    ⟨mul_le_mul_of_nonneg_right hmin.1 hscale, mul_le_mul_of_nonneg_right (by omega) hscale⟩
  have hcold : exactRow s (-55) = 62 + 55 * scale s + (s.params 5).toInt * scale s := by
    rw [exactRow]
    ring
  have hhot : exactRow s 125 = 62 - 125 * scale s + (s.params 5).toInt * scale s := by
    rw [exactRow]
    ring
  rw [hcold, hhot, Unwrapped, sub_mul, add_mul, Narrowing.turn, Narrowing.turn]
  -- 180 steps of 3 rows are more than one turn, so no setting stays on another turn.
  omega

theorem clampedRow_falls_iff (hheight : 2 ≤ (s.params 3).toInt)
    (hframe : (s.params 3).toInt ≤ 62) (hlimits : (s.params 5).toInt < (s.params 4).toInt) :
    (∀ earlier later, -55 ≤ earlier → earlier ≤ later → later ≤ 125 →
      clampedRow s later ≤ clampedRow s earlier) ↔ s.params 3 = 2 ∨ Unwrapped s := by
  obtain ⟨hscale, hscale'⟩ := scale_range hheight hframe hlimits
  by_cases hflat : s.params 3 = 2
  · have hrow (temperature : ℤ) : clampedRow s temperature = 61 := by
      rw [clampedRow, hflat, show Int8.toInt 2 = 2 from rfl]
      omega
    simp only [hrow, hflat, le_refl, implies_true, true_or]
  · have hframe' : 63 - (s.params 3).toInt < 61 := by
      have hother : (s.params 3).toInt ≠ 2 := fun htwo => hflat (Int8.toInt_inj.mp htwo)
      omega
    have hstep (temperature : ℤ) :
        0 ≤ exactRow s temperature - exactRow s (temperature + 1) ∧
          exactRow s temperature - exactRow s (temperature + 1) ≤ scale s := by
      have hdegree : exactRow s temperature - exactRow s (temperature + 1) = scale s := by
        rw [exactRow, exactRow]
        ring
      rw [hdegree]
      exact ⟨hscale, le_rfl⟩
    have hfalls := Narrowing.falling_clamp_iff (show 0 < 128 by decide)
      (show (-55 : ℤ) ≤ 125 by decide) hframe' hstep (by omega) (by omega)
    rw [turn_eq_iff_unwrapped hheight hframe hlimits] at hfalls
    rw [or_iff_right hflat]
    exact hfalls

/-- A setting draws hotter samples above colder ones exactly when its frame has a single
row or no temperature of the sensor's range wraps around. The product always fits. -/
theorem hotter_never_lower_iff (s : Sketch) (hheight : 2 ≤ (s.params 3).toInt)
    (hframe : (s.params 3).toInt ≤ 62) (hlimits : (s.params 5).toInt < (s.params 4).toInt) :
    (∀ colder hotter : Int16, -550 ≤ colder.toInt → colder ≤ hotter → hotter.toInt ≤ 1250 →
      InOrder s colder hotter ∧ ProductFits s colder ∧ ProductFits s hotter) ↔
    s.params 3 = 2 ∨ Unwrapped s := by
  rw [← clampedRow_falls_iff hheight hframe hlimits, ← all_inOrder_iff hheight hlimits]
  constructor
  · intro hall colder hotter hlow hle hhigh
    exact (hall colder hotter hlow hle hhigh).1
  · intro hordered colder hotter hlow hle hhigh
    have hvalues := Int16.le_iff_toInt_le.mp hle
    exact ⟨hordered colder hotter hlow hle hhigh,
      productFits hheight hframe hlimits hlow (hvalues.trans hhigh),
      productFits hheight hframe hlimits (hlow.trans hvalues) hhigh⟩

end Settings

theorem thirty_rows_in_order : InOrder (settings 30 0) (-550) 1250 ∧
    ProductFits (settings 30 0) (-550) ∧ ProductFits (settings 30 0) 1250 :=
  (hotter_never_lower_iff (settings 30 0) (by decide) (by decide) (by decide)).mpr
    (.inr (by decide)) (-550) 1250 (by decide) (by decide) (by decide)

/-- With the declared settings -55 degrees are drawn at the top, above -45 degrees. -/
theorem frost_drawn_at_top :
    drawnRow (settings 10 20) (-550) = some 53 ∧ drawnRow (settings 10 20) (-450) = some 61 ∧
      ¬ InOrder (settings 10 20) (-550) (-450) := by
  have hfrost : drawnRow (settings 10 20) (-550) = some 53 := by decide
  have hmilder : drawnRow (settings 10 20) (-450) = some 61 := by decide
  refine ⟨hfrost, hmilder, ?_⟩
  rintro ⟨upper, lower, hupper, hlower, hle⟩
  obtain rfl := Option.some.inj (hmilder.symm.trans hupper)
  obtain rfl := Option.some.inj (hfrost.symm.trans hlower)
  exact absurd hle (by decide)

end OledDs18b20.Thermostat.GraphMonotone
