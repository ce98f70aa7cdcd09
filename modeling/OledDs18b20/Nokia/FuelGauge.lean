import OledDs18b20.Lib.SignedIndex
import OledDs18b20.Nokia.Averaging

/-! The fuel gauge against its scale: the calibration points lie inside the
range of the ADC, and `map` extrapolates beyond them. -/
namespace OledDs18b20.Nokia.FuelGauge
open Lib Dashboard Screen Loop Averaging

/-- The row that `fuelBar` hands to the library, as an 8-bit coordinate. -/
def barRow (d : Dashboard) : UInt8 := UInt8.ofInt (heightLCD - d.drawH.toInt)

structure OnScale (d : Dashboard) : Prop where
  percent : 0 ≤ d.fuelLVLProcent.toInt ∧ d.fuelLVLProcent.toInt ≤ 100
  bar : 0 ≤ d.drawH.toInt ∧ d.drawH.toInt ≤ heightLCD
  row : ∃ row, fuelBar d = [.drawFrame 74 0 10 row, .drawBox 74 row 10 48] ∧
    row.toNat ≤ heightLCD

/-- More fuel readings never show less. -/
def MonotoneInSum : Prop :=
  ∀ d d' : Dashboard, 0 ≤ d.sensorLat.toInt → d.sensorLat.toInt ≤ d'.sensorLat.toInt →
    d'.sensorLat.toInt ≤ 1023 * latcount →
      (publish d).fuelLVLProcent.toInt ≤ (publish d').fuelLVLProcent.toInt ∧
        (publish d).drawH.toInt ≤ (publish d').drawH.toInt

theorem fuelBar_row (d : Dashboard) :
    fuelBar d = [.drawFrame 74 0 10 (barRow d), .drawBox 74 (barRow d) 10 48] := rfl

theorem percent_on_scale_iff (readings : List Reading) :
    0 ≤ (image readings).fuelLVLProcent ∧ (image readings).fuelLVLProcent ≤ 100 ↔
      613 ≤ total Reading.sensor readings ∧ total Reading.sensor readings ≤ 9587 := by
  have hin : (700 : ℤ) < 9500 := by decide
  have hlow : 0 ≤ (image readings).fuelLVLProcent ↔ _ :=
    Truncation.le_rescale_iff hin (by decide)
  have hhigh : (image readings).fuelLVLProcent ≤ 100 ↔ _ :=
    Truncation.rescale_le_iff hin (by decide)
  rw [hlow, hhigh]
  omega

theorem bar_on_scale {readings : List Reading}
    (hlow : 613 ≤ total Reading.sensor readings)
    (hhigh : total Reading.sensor readings ≤ 9587) :
    0 ≤ (image readings).drawH ∧ (image readings).drawH ≤ 48 := by
  have hin : (700 : ℤ) < 9500 := by decide
  constructor
  · exact (Truncation.le_rescale_iff hin (by decide)).mpr (by omega)
  · exact (Truncation.rescale_le_iff hin (by decide)).mpr (by omega)

theorem onScale_iff {d : Dashboard} {readings : List Reading} (h : displayed d = image readings) :
    OnScale d ↔
      613 ≤ total Reading.sensor readings ∧ total Reading.sensor readings ≤ 9587 := by
  have hpercent : d.fuelLVLProcent.toInt = (image readings).fuelLVLProcent :=
    congrArg Display.fuelLVLProcent h
  have hbar : d.drawH.toInt = (image readings).drawH := congrArg Display.drawH h
  rw [← percent_on_scale_iff, ← hpercent]
  constructor
  · intro onScale
    exact onScale.percent
  · intro percent
    rw [hpercent, percent_on_scale_iff] at percent
    have hscale := bar_on_scale percent.1 percent.2
    rw [← hbar] at hscale
    have hheight : heightLCD = 48 := rfl
    refine ⟨?_, ?_, barRow d, fuelBar_row d, ?_⟩
    · rwa [hpercent, percent_on_scale_iff]
    · rw [hheight]
      exact hscale
    · rw [barRow, SignedIndex.toNat_ofInt, hheight]
      omega

theorem monotone_in_sum : MonotoneInSum := by
  intro d d' hnonneg hle hmax
  have hcount : (latcount : ℤ) = 10 := rfl
  have hmin : (700 : ℤ) < 9500 := by decide
  obtain ⟨hpercent, hheight⟩ := publish_fuel hnonneg (by omega)
  obtain ⟨hpercent', hheight'⟩ := publish_fuel (hnonneg.trans hle) (by omega)
  rw [hpercent, hpercent', hheight, hheight']
  exact ⟨Truncation.rescale_mono hmin (by decide) hle,
    Truncation.rescale_mono hmin (by decide) hle⟩

/-- The publications of a run stay on the scale exactly when the published
blocks do not leave it; the gauge is monotone in every run. -/
theorem fuel_on_scale_iff (inputs : List PassInput) :
    ((∀ d ∈ allPublished powerOn inputs, OnScale d) ∧ MonotoneInSum) ↔
      ∀ block ∈ blocks inputs,
        613 ≤ total Reading.sensor block.val ∧ total Reading.sensor block.val ≤ 9587 := by
  have hpublished := allPublished_eq inputs powerOn_represents
  constructor
  · rintro ⟨onScale, _⟩ block hblock
    have hmem : image block.val ∈ (allPublished powerOn inputs).map displayed := by
      rw [hpublished]
      exact List.mem_map_of_mem hblock
    obtain ⟨d, hd, hdisplayed⟩ := List.mem_map.mp hmem
    exact (onScale_iff hdisplayed).mp (onScale d hd)
  · intro scale
    refine ⟨?_, monotone_in_sum⟩
    intro d hd
    have hmem : displayed d ∈ (blocks inputs).map fun block => image block.val := by
      rw [blocks, ← hpublished]
      exact List.mem_map_of_mem hd
    obtain ⟨block, hblock, himage⟩ := List.mem_map.mp hmem
    exact (onScale_iff himage.symm).mpr (scale block hblock)

/-- Ten readings of zero are published as -7 percent and a bar of height -2. -/
theorem dry_leaves_scale :
    ¬ ∀ d ∈ allPublished powerOn (List.replicate 11 silent), OnScale d := by
  intro h
  have hpublished : (allPublished powerOn (List.replicate 11 silent)).map Dashboard.fuelLVLProcent =
      [-7] := by decide +kernel
  obtain ⟨d, hd, hpercent⟩ := List.mem_map.mp (hpublished ▸ List.mem_singleton_self (-7 : Int8))
  have hscale := (h d hd).percent.1
  rw [hpercent] at hscale
  exact absurd hscale (by decide)

end OledDs18b20.Nokia.FuelGauge
