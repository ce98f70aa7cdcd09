import Mathlib
import OledDs18b20.Lib.Truncation
import OledDs18b20.Thermostat.Draw

/-! The rows of graph type 3 as integers: the scale, the row of a logged value
before it is narrowed to a `char`, and the two clamps. -/
namespace OledDs18b20.Thermostat.GraphRow
open Lib Draw

/-- `TempLog[aab] / 10`, which truncates toward zero. -/
def degrees (logged : Int16) : ℤ := logged.toInt.tdiv 10

def scale (s : Sketch) : ℤ :=
  (s.params 3).toInt.tdiv ((s.params 4).toInt - (s.params 5).toInt)

/-- The height of a logged value above the lower frame line. -/
def rise (s : Sketch) (logged : Int16) : ℤ :=
  (degrees logged - (s.params 5).toInt) * scale s

theorem int8_bounds (value : Int8) : -128 ≤ value.toInt ∧ value.toInt ≤ 127 :=
  ⟨value.le_toInt, by have h := value.toInt_lt; omega⟩

theorem degrees_le_iff {logged : Int16} {bound : ℤ} (h : 0 ≤ bound) :
    degrees logged ≤ bound ↔ logged.toInt < (bound + 1) * 10 :=
  Truncation.tdiv_le_iff (by decide) h

theorem le_degrees_iff {logged : Int16} {bound : ℤ} (h : bound ≤ 0) :
    bound ≤ degrees logged ↔ (bound - 1) * 10 < logged.toInt :=
  Truncation.le_tdiv_iff (by decide) h

theorem degrees_bounds (logged : Int16) : -3276 ≤ degrees logged ∧ degrees logged ≤ 3276 := by
  have hlow := logged.le_toInt
  have hhigh := logged.toInt_lt
  rw [le_degrees_iff (by decide), degrees_le_iff (by decide)]
  omega

theorem degrees_mono {low high : Int16} (h : low ≤ high) : degrees low ≤ degrees high :=
  Int.tdiv_le_tdiv (by decide) (Int16.le_iff_toInt_le.mp h)

theorem toInt_range (s : Sketch) :
    ((s.params 4).toInt16 - (s.params 5).toInt16).toInt =
      (s.params 4).toInt - (s.params 5).toInt := by
  have hmax := int8_bounds (s.params 4)
  have hmin := int8_bounds (s.params 5)
  rw [Int16.toInt_sub, Int8.toInt_toInt16, Int8.toInt_toInt16]
  exact Int.bmod_eq_of_le (by omega) (by omega)

theorem toInt_degrees (logged : Int16) : (logged / 10).toInt = degrees logged := by
  have hbounds := degrees_bounds logged
  unfold degrees at hbounds ⊢
  rw [Int16.toInt_div, show Int16.toInt 10 = 10 from rfl]
  exact Int.bmod_eq_of_le (by omega) (by omega)

theorem scale_bounds (s : Sketch) : -128 ≤ scale s ∧ scale s ≤ 128 := by
  have hheight := int8_bounds (s.params 3)
  have habs := Int.natAbs_tdiv_le_natAbs (s.params 3).toInt
    ((s.params 4).toInt - (s.params 5).toInt)
  unfold scale
  omega

theorem toInt_scale (s : Sketch) :
    ((s.params 3).toInt16 / ((s.params 4).toInt16 - (s.params 5).toInt16)).toInt = scale s := by
  have hbounds := scale_bounds s
  unfold scale at hbounds ⊢
  rw [Int16.toInt_div, toInt_range, Int8.toInt_toInt16]
  exact Int.bmod_eq_of_le (by omega) (by omega)

theorem limits_ne {s : Sketch} (h : (s.params 5).toInt < (s.params 4).toInt) :
    s.params 4 ≠ s.params 5 := by
  intro heq
  rw [heq] at h
  exact lt_irrefl _ h

/-- The row keeps its value modulo 256; nothing else is lost on the way. -/
theorem row_eq {s : Sketch} (h : s.params 4 ≠ s.params 5) (logged : Int16) :
    ∃ drawn, row s logged = some drawn ∧ drawn.toInt = (62 - rise s logged).bmod 256 := by
  have hrange : ¬ (s.params 4).toInt16 - (s.params 5).toInt16 = 0 := by
    intro hzero
    have hnone : row s logged = none := if_pos hzero
    exact h ((row_eq_none_iff s logged).mp hnone)
  refine ⟨_, if_neg hrange, ?_⟩
  have hoffset : (Int16.ofInt (height - 2)).toInt = 62 := rfl
  have hdegrees : (logged / 10 - (s.params 5).toInt16).toInt =
      (degrees logged - (s.params 5).toInt).bmod (2 ^ 16) := by
    rw [Int16.toInt_sub, toInt_degrees, Int8.toInt_toInt16]
  have hwrap (value : ℤ) : (value.bmod (2 ^ 16)).bmod (2 ^ 8) = value.bmod 256 :=
    Int.bmod_bmod_of_dvd (by decide)
  rw [Int16.toInt_toInt8, Int16.toInt_sub, hwrap, hoffset, Int16.toInt_mul, hdegrees,
    toInt_scale, Int.bmod_mul_bmod, ← hwrap, Int.sub_bmod_bmod, hwrap]
  rfl

/-- The two clamps together: a frame of height 2 or more keeps a row between its
two lines, a lower one knows a single row. -/
theorem clampRow_toInt (s : Sketch) (ypos : Int8) :
    (clampRow s ypos).toInt =
      if (s.params 3).toInt ≤ 1 then (63 - (s.params 3).toInt).bmod 256
      else max (63 - (s.params 3).toInt) (min 61 ypos.toInt) := by
  have hheight := int8_bounds (s.params 3)
  have hnarrow : (Int8.ofInt (height - 2 - ((s.params 3).toInt - 1))).toInt =
      (63 - (s.params 3).toInt).bmod 256 := by
    rw [Int8.toInt_ofInt, sub_sub_eq_add_sub]
    rfl
  have hbottom : (Int8.ofInt (height - 3)).toInt = 61 := rfl
  have hlow : height - 2 = 62 := rfl
  dsimp only [clampRow]
  rw [hlow] at hnarrow ⊢
  by_cases hbelow : ypos.toInt ≥ 62
  · rw [if_pos hbelow, hbottom]
    by_cases hsingle : (s.params 3).toInt ≤ 1
    · rw [if_pos hsingle, if_pos (by omega), hnarrow]
    · rw [if_neg hsingle, if_neg (by omega), hbottom]
      omega
  · rw [if_neg hbelow]
    by_cases hsingle : (s.params 3).toInt ≤ 1
    · rw [if_pos hsingle, if_pos (by omega), hnarrow]
    · rw [if_neg hsingle]
      by_cases habove : ypos.toInt ≤ 62 - (s.params 3).toInt
      · rw [if_pos habove, hnarrow, Int.bmod_eq_of_le (by omega) (by omega)]
        omega
      · rw [if_neg habove]
        omega

/-- The rows that a frame of usable height leaves between its lines. -/
theorem clampRow_between {s : Sketch} (h : 2 ≤ (s.params 3).toInt) (ypos : Int8) :
    (clampRow s ypos).toInt = max (63 - (s.params 3).toInt) (min 61 ypos.toInt) := by
  rw [clampRow_toInt, if_neg (by omega)]

/-- The row `Ypos` at which a logged value is drawn. -/
def drawnRow (s : Sketch) (logged : Int16) : Option Int8 := (row s logged).map (clampRow s)

theorem drawnRow_eq {s : Sketch} (hheight : 2 ≤ (s.params 3).toInt)
    (hlimits : s.params 4 ≠ s.params 5) (logged : Int16) :
    ∃ ypos, drawnRow s logged = some ypos ∧
      ypos.toInt = max (63 - (s.params 3).toInt) (min 61 ((62 - rise s logged).bmod 256)) := by
  obtain ⟨unclamped, hrow, hvalue⟩ := row_eq hlimits logged
  refine ⟨clampRow s unclamped, ?_, ?_⟩
  · rw [drawnRow, hrow, Option.map_some]
  · rw [clampRow_between hheight, hvalue]

def settings (height lowerLimit : Int8) : Sketch :=
  ((powerOn ⟨fun _ => 0, 7⟩ fun _ => 0xFF).setParam 3 height).setParam 5 lowerLimit

end OledDs18b20.Thermostat.GraphRow
