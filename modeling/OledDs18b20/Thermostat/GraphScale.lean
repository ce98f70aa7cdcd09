import OledDs18b20.Thermostat.GraphRow

/-! Graph type 3 against the scale its axis is labelled with. The pixels per degree are an
integer quotient, taken before the multiplication. -/
namespace OledDs18b20.Thermostat.GraphScale
open Lib GraphRow

def range (s : Sketch) : ℤ := (s.params 4).toInt - (s.params 5).toInt

def offset (s : Sketch) (logged : Int16) : ℤ := degrees logged - (s.params 5).toInt

/-- The row is within one pixel of the labelled scale. -/
def OnScale (s : Sketch) (logged : Int16) (ypos : Int8) : Prop :=
  |((62 - ypos.toInt : ℤ) : ℚ) -
    ((offset s logged * (s.params 3).toInt : ℤ) : ℚ) / (range s : ℚ)| ≤ 1

/-- The remainder that the quotient drops stays below one pixel at this value; with more
degrees than rows the quotient is zero and all of the height is dropped. -/
def QuotientSuffices (s : Sketch) (logged : Int16) : Prop :=
  range s ≤ (s.params 3).toInt ∧ offset s logged * ((s.params 3).toInt % range s) ≤ range s ∨
  (s.params 3).toInt < range s ∧ offset s logged * (s.params 3).toInt ≤ 2 * range s

instance (s : Sketch) : DecidablePred (QuotientSuffices s) := fun _ =>
  inferInstanceAs (Decidable (_ ∨ _))

def lift (frame range offset : ℤ) : ℤ := min (frame - 1) (max 1 (offset * (frame / range)))

section Integers
variable {frame range offset : ℤ}

theorem lift_zero (hframe : 2 ≤ frame) : lift frame range 0 = 1 := by
  rw [lift, zero_mul]
  omega

theorem lift_of_lt (hframe : 2 ≤ frame) (h : frame < range) : lift frame range offset = 1 := by
  rw [lift, Int.ediv_eq_zero_of_lt (by omega) h, mul_zero]
  omega

theorem offset_mul_le (hframe : 0 ≤ frame) (hrange : 0 < range) (hoffset : offset ≤ range) :
    offset * (frame / range) ≤ frame :=
  calc
    offset * (frame / range) ≤ range * (frame / range) :=
      mul_le_mul_of_nonneg_right hoffset (Int.ediv_nonneg hframe hrange.le)
    _ ≤ frame := Int.mul_ediv_self_le hrange.ne'

theorem lift_range (hframe : 2 ≤ frame) (hrange : 0 < range)
    (h : range ≤ frame ∧ range * (frame % range) ≤ range ∨
      frame < range ∧ range * frame ≤ 2 * range) : lift frame range range = frame - 1 := by
  rcases h with ⟨hfine, hdropped⟩ | ⟨hcoarse, hdropped⟩
  · have hremain : frame % range ≤ 1 :=
      le_of_mul_le_mul_left (hdropped.trans_eq (mul_one range).symm) hrange
    have hdivision := Int.mul_ediv_add_emod frame range
    rw [lift]
    omega
  · have htwo : frame ≤ 2 := le_of_mul_le_mul_left (hdropped.trans_eq (mul_comm 2 range)) hrange
    rw [lift_of_lt hframe hcoarse]
    omega

theorem lift_error (hlow : 1 ≤ offset * (frame / range))
    (hhigh : offset * (frame / range) ≤ frame - 1) :
    lift frame range offset * range - offset * frame = -(offset * (frame % range)) := by
  have hlift : lift frame range offset = offset * (frame / range) := by
    rw [lift]
    omega
  rw [hlift]
  linear_combination offset * Int.mul_ediv_add_emod frame range

theorem lift_error_iff (hframe : 2 ≤ frame) (hrange : 0 < range) (hoffset : 0 ≤ offset)
    (hoffset' : offset ≤ range) :
    |lift frame range offset * range - offset * frame| ≤ range ↔
      range ≤ frame ∧ offset * (frame % range) ≤ range ∨
        frame < range ∧ offset * frame ≤ 2 * range := by
  by_cases hcoarse : frame < range
  · have hnonneg : 0 ≤ offset * frame := by positivity
    rw [lift_of_lt hframe hcoarse, one_mul, abs_le]
    omega
  · rw [or_iff_left (fun h => hcoarse h.1), and_iff_right (by omega)]
    have hquotient : 1 ≤ frame / range := (Int.le_ediv_iff_mul_le hrange).mpr (by omega)
    rcases hoffset.eq_or_lt with rfl | hpos
    · rw [lift_zero hframe, one_mul, zero_mul, zero_mul, sub_zero, abs_of_pos hrange]
      exact ⟨fun _ => hrange.le, fun _ => le_rfl⟩
    · have hlow : 1 ≤ offset * (frame / range) := one_le_mul_of_one_le_of_one_le hpos hquotient
      by_cases hhigh : offset * (frame / range) ≤ frame - 1
      · rw [lift_error hlow hhigh, abs_neg,
          abs_of_nonneg (mul_nonneg hoffset (Int.emod_nonneg _ hrange.ne'))]
      · -- Only the whole range can reach the frame, and then the quotient drops nothing.
        have hreach := Int.mul_ediv_self_le (x := frame) hrange.ne'
        have htop : offset = range :=
          le_antisymm hoffset' (le_of_mul_le_mul_right (by omega) hquotient)
        subst htop
        have hdivision := Int.mul_ediv_add_emod frame offset
        have hremain := Int.emod_nonneg frame hrange.ne'
        have hexact : frame % offset = 0 := by omega
        have hlift : lift frame offset offset = frame - 1 := by
          rw [lift]
          omega
        have herror : (frame - 1) * offset - offset * frame = -offset := by ring
        rw [hlift, herror, abs_neg, abs_of_pos hrange, hexact, mul_zero]
        exact ⟨fun _ => hrange.le, fun _ => le_rfl⟩

end Integers

section Settings
variable {s : Sketch} {logged : Int16}

/-- Between the limits nothing wraps around. -/
theorem drawnRow_lift (hheight : 2 ≤ (s.params 3).toInt) (hframe : (s.params 3).toInt ≤ 62)
    (hlimits : (s.params 5).toInt < (s.params 4).toInt)
    (hlow : (s.params 5).toInt ≤ degrees logged) (hhigh : degrees logged ≤ (s.params 4).toInt) :
    ∃ ypos, drawnRow s logged = some ypos ∧
      62 - ypos.toInt = lift (s.params 3).toInt (range s) (offset s logged) := by
  obtain ⟨ypos, hdrawn, hvalue⟩ := drawnRow_eq hheight (limits_ne hlimits) logged
  have hrange : 0 < range s := sub_pos.mpr hlimits
  have hoffset : 0 ≤ offset s logged := sub_nonneg.mpr hlow
  have hoffset' : offset s logged ≤ range s := sub_le_sub_right hhigh _
  have hrise : rise s logged = offset s logged * ((s.params 3).toInt / range s) := by
    rw [rise, scale, Int.tdiv_eq_ediv_of_nonneg (by omega)]
    rfl
  have hnonneg : 0 ≤ offset s logged * ((s.params 3).toInt / range s) :=
    mul_nonneg hoffset (Int.ediv_nonneg (by omega) hrange.le)
  have hbelow : offset s logged * ((s.params 3).toInt / range s) ≤ (s.params 3).toInt :=
    offset_mul_le (by omega) hrange hoffset'
  refine ⟨ypos, hdrawn, ?_⟩
  rw [hrise, Int.bmod_eq_of_le (by omega) (by omega)] at hvalue
  rw [hvalue, lift]
  omega

/-- Between its limits the graph keeps its scale, to one pixel, exactly for the values for
which the integer quotient suffices; the limits themselves are then drawn at the frame. -/
theorem on_scale_iff (s : Sketch) (logged : Int16) (hheight : 2 ≤ (s.params 3).toInt)
    (hframe : (s.params 3).toInt ≤ 62) (hlimits : (s.params 5).toInt < (s.params 4).toInt)
    (hlow : (s.params 5).toInt ≤ degrees logged) (hhigh : degrees logged ≤ (s.params 4).toInt) :
    (∃ ypos, drawnRow s logged = some ypos ∧ OnScale s logged ypos ∧
      (degrees logged = (s.params 4).toInt → ypos.toInt = 63 - (s.params 3).toInt) ∧
      (degrees logged = (s.params 5).toInt → ypos.toInt = 61)) ↔
    QuotientSuffices s logged := by
  obtain ⟨ypos, hdrawn, hlift⟩ := drawnRow_lift hheight hframe hlimits hlow hhigh
  have hrange : 0 < range s := sub_pos.mpr hlimits
  have hoffset : 0 ≤ offset s logged := sub_nonneg.mpr hlow
  have hoffset' : offset s logged ≤ range s := sub_le_sub_right hhigh _
  have hscale : OnScale s logged ypos ↔ QuotientSuffices s logged := by
    rw [OnScale, Truncation.abs_sub_div_le_one_iff hrange, hlift]
    exact lift_error_iff hheight hrange hoffset hoffset'
  constructor
  · rintro ⟨other, hother, honscale, -⟩
    obtain rfl := Option.some.inj (hdrawn.symm.trans hother)
    exact hscale.mp honscale
  · intro hsuffices
    refine ⟨ypos, hdrawn, hscale.mpr hsuffices, ?_, ?_⟩
    · intro htop
      have hwhole : offset s logged = range s := by rw [offset, htop, range]
      rw [QuotientSuffices, hwhole] at hsuffices
      rw [hwhole, lift_range hheight hrange hsuffices] at hlift
      omega
    · intro hbottom
      have hzero : offset s logged = 0 := sub_eq_zero.mpr hbottom
      rw [hzero, lift_zero hheight] at hlift
      omega

end Settings

theorem declared_on_scale : ∃ ypos, drawnRow (settings 10 20) 257 = some ypos ∧
    OnScale (settings 10 20) 257 ypos := by
  obtain ⟨ypos, hdrawn, honscale, -⟩ := (on_scale_iff (settings 10 20) 257 (by decide)
    (by decide) (by decide) (by decide) (by decide)).mpr (by decide)
  exact ⟨ypos, hdrawn, honscale⟩

/-- With 10 rows for 30 degrees the upper limit is drawn on the lower line. -/
theorem flat_line : drawnRow (settings 10 0) 300 = some 61 ∧
    degrees 300 = ((settings 10 0).params 4).toInt ∧ ¬ OnScale (settings 10 0) 300 61 := by
  have hrange : range (settings 10 0) = 30 := by decide
  refine ⟨by decide, by decide, ?_⟩
  rw [OnScale, Truncation.abs_sub_div_le_one_iff (by rw [hrange]; decide)]
  decide

end OledDs18b20.Thermostat.GraphScale
