import OledDs18b20.Lib.Bresenham
import OledDs18b20.U8glib.Drawing

/-! `u8g_DrawLine` in bytes draws a straight line, as long as its error fits an `int8_t`. -/
namespace OledDs18b20.U8glib
open Lib Lib.Bresenham

def plane (place : Place) : ℤ × ℤ := (place.1.toNat, place.2.toNat)

theorem lineLoop_swap (dx dy ystep : UInt8) (count : ℕ) (x y : UInt8) (err : Int8) :
    places (lineLoop true dx dy ystep count x y err) =
      (places (lineLoop false dx dy ystep count x y err)).map Prod.swap := by
  induction count generalizing x y err with
  | zero => rfl
  | succ count ih =>
      have hcall (swapxy : Bool) (x' y' : UInt8) (err' : Int8)
          (hrest : lineLoop swapxy dx dy ystep (count + 1) x y err =
            (if swapxy then .pixel y x else .pixel x y) ::
              lineLoop swapxy dx dy ystep count x' y' err') :
          places (lineLoop swapxy dx dy ystep (count + 1) x y err) =
            (if swapxy then (y, x) else (x, y)) ::
              places (lineLoop swapxy dx dy ystep count x' y' err') := by
        rw [hrest, places_cons]
        cases swapxy <;> rfl
      by_cases hover : err - dy.toInt8 < 0
      · rw [hcall true _ _ _ (if_pos hover), hcall false _ _ _ (if_pos hover), ih]
        rfl
      · rw [hcall true _ _ _ (if_neg hover), hcall false _ _ _ (if_neg hover), ih]
        rfl

theorem lineRight_swap (dx dy x1 y1 x2 y2 : UInt8) :
    places (lineRight true dx dy x1 y1 x2 y2) =
      (places (lineRight false dx dy x1 y1 x2 y2)).map Prod.swap :=
  lineLoop_swap ..

theorem toInt_toInt8 {length : UInt8} (h : length.toNat ≤ 127) :
    length.toInt8.toInt = length.toNat := by
  obtain ⟨⟨length⟩⟩ := length
  revert length
  decide +kernel

/-- The error of the loop is the error of the algorithm, and does not overflow. -/
theorem err_step {dx dy : UInt8} (hdx : 0 < dx.toNat) (hdy : dy.toNat ≤ dx.toNat)
    (hlong : dx.toNat ≤ 127) {turns : ℕ} {err : Int8}
    (herr : err.toInt = error dx.toNat dy.toNat turns) :
    (err - dy.toInt8 < 0 ↔ error dx.toNat dy.toNat turns - dy.toNat < 0) ∧
      (if err - dy.toInt8 < 0 then err - dy.toInt8 + dx.toInt8 else err - dy.toInt8).toInt =
        error dx.toNat dy.toNat (turns + 1) := by
  have hlow : 0 ≤ error dx.toNat dy.toNat turns := error_nonneg hdx turns
  have hhigh : error dx.toNat dy.toNat turns < dx.toNat := error_lt hdx turns
  have hless : (err - dy.toInt8).toInt = error dx.toNat dy.toNat turns - dy.toNat := by
    rw [Int8.toInt_sub, herr, toInt_toInt8 (hdy.trans hlong)]
    apply Int.bmod_eq_of_le <;> omega
  have hsign : err - dy.toInt8 < 0 ↔ error dx.toNat dy.toNat turns - dy.toNat < 0 := by
    rw [Int8.lt_iff_toInt_lt, hless]
    rfl
  refine ⟨hsign, ?_⟩
  have hadvance : (advance dx.toNat dy.toNat (error dx.toNat dy.toNat turns)).2 =
      error dx.toNat dy.toNat (turns + 1) := by
    rw [advance_error hdx hdy]
  rw [← hadvance, advance]
  by_cases hover : error dx.toNat dy.toNat turns - dy.toNat < 0
  · rw [if_pos (hsign.mpr hover), if_pos hover, Int8.toInt_add, hless, toInt_toInt8 hlong]
    apply Int.bmod_eq_of_le <;> omega
  · rw [if_neg (mt hsign.mp hover), if_neg hover]
    exact hless

theorem places_lineLoop {dx dy : UInt8} (hdx : 0 < dx.toNat) (hdy : dy.toNat ≤ dx.toNat)
    (hlong : dx.toNat ≤ 127) (ystep x1 y1 : UInt8) (count : ℕ) {turns : ℕ} {err : Int8}
    (herr : err.toInt = error dx.toNat dy.toNat turns) :
    places (lineLoop false dx dy ystep count (x1 + UInt8.ofNat turns)
        (y1 + UInt8.ofNat (rise dx.toNat dy.toNat turns) * ystep) err) =
      (List.range' turns count).map fun turns =>
        (x1 + UInt8.ofNat turns, y1 + UInt8.ofNat (rise dx.toNat dy.toNat turns) * ystep) := by
  induction count generalizing turns err with
  | zero => rfl
  | succ count ih =>
      obtain ⟨hsign, hnext⟩ := err_step hdx hdy hlong herr
      have hrest := ih hnext
      have hcolumn : x1 + UInt8.ofNat (turns + 1) = x1 + UInt8.ofNat turns + 1 := by
        rw [UInt8.ofNat_add, ← UInt8.add_assoc]
        rfl
      rw [rise_succ hdx hdy, hcolumn] at hrest
      rw [lineLoop, List.range'_succ, List.map_cons]
      by_cases hover : err - dy.toInt8 < 0
      · have hrow : y1 + UInt8.ofNat (rise dx.toNat dy.toNat turns + 1) * ystep =
            y1 + UInt8.ofNat (rise dx.toNat dy.toNat turns) * ystep + ystep := by
          rw [UInt8.ofNat_add, UInt8.add_mul, ← UInt8.add_assoc]
          congr 1
          exact UInt8.one_mul ystep
        rw [if_pos (hsign.mp hover), if_pos hover, hrow] at hrest
        simp only [hover, if_true]
        rw [places_cons, hrest]
        rfl
      · rw [if_neg (mt hsign.mpr hover), if_neg hover, Nat.add_zero] at hrest
        simp only [hover, if_false]
        rw [places_cons, hrest]
        rfl

/-- The greater byte less the smaller one, as `u8g_DrawLine` takes it. -/
def apart (a b : UInt8) : UInt8 := if a > b then a - b else b - a

theorem apart_toNat (a b : UInt8) : ((apart a b).toNat : ℤ) = |(b.toNat : ℤ) - a.toNat| := by
  unfold apart
  by_cases h : a > b
  · have hle : b.toNat < a.toNat := UInt8.lt_iff_toNat_lt.mp h
    rw [if_pos h, UInt8.toNat_sub_of_le _ _ (UInt8.le_iff_toNat_le.mpr hle.le), abs_of_nonpos] <;>
      omega
  · have hle : a.toNat ≤ b.toNat := UInt8.le_iff_toNat_le.mp (UInt8.not_lt.mp h)
    rw [if_neg h, UInt8.toNat_sub_of_le _ _ (UInt8.le_iff_toNat_le.mpr hle), abs_of_nonneg] <;>
      omega

theorem reach_plane (x1 y1 x2 y2 : UInt8) : reach (plane (x1, y1)) (plane (x2, y2)) =
    max ((apart x1 x2).toNat : ℤ) (apart y1 y2).toNat := by
  rw [apart_toNat, apart_toNat]
  rfl

/-- Up or down, the minor coordinate does not wrap on the way to its end. -/
theorem minor_toNat {y1 y2 : UInt8} {up : ℕ} (hup : up ≤ (apart y1 y2).toNat) :
    ((y1 + UInt8.ofNat up * (if y2 > y1 then 1 else 0 - 1)).toNat : ℤ) =
      y1.toNat + (if y2 > y1 then 1 else -1) * up := by
  have hstart := y1.toNat_lt
  have hend := y2.toNat_lt
  have hapart := apart_toNat y1 y2
  by_cases h : y2 > y1
  · have hle : y1.toNat < y2.toNat := UInt8.lt_iff_toNat_lt.mp h
    rw [abs_of_nonneg (by omega)] at hapart
    rw [if_pos h, if_pos h, UInt8.mul_one, UInt8.toNat_add, UInt8.toNat_ofNat']
    omega
  · have hle : y2.toNat ≤ y1.toNat := UInt8.le_iff_toNat_le.mp (UInt8.not_lt.mp h)
    rw [abs_of_nonpos (by omega)] at hapart
    have hdown : y1 + UInt8.ofNat up * (0 - 1) = y1 - UInt8.ofNat up := by grind
    have hsmall : (UInt8.ofNat up).toNat = up := by
      rw [UInt8.toNat_ofNat']
      omega
    rw [if_neg h, if_neg h, hdown, UInt8.toNat_sub_of_le _ _ (by
      rw [UInt8.le_iff_toNat_le]
      omega), hsmall]
    omega

theorem plane_dot {x1 x2 y1 y2 : UInt8} (hright : x1.toNat ≤ x2.toNat) {turns up : ℕ}
    (hturns : turns ≤ (x2 - x1).toNat) (hup : up ≤ (apart y1 y2).toNat) :
    plane (x1 + UInt8.ofNat turns, y1 + UInt8.ofNat up * (if y2 > y1 then 1 else 0 - 1)) =
      ((plane (x1, y1)).1 + turns, (plane (x1, y1)).2 + (if y2 > y1 then 1 else -1) * up) := by
  have hend := x2.toNat_lt
  rw [UInt8.toNat_sub_of_le _ _ (UInt8.le_iff_toNat_le.mpr hright)] at hturns
  apply Prod.ext
  · change ((x1 + UInt8.ofNat turns).toNat : ℤ) = x1.toNat + turns
    rw [UInt8.toNat_add, UInt8.toNat_ofNat']
    omega
  · exact minor_toNat hup

theorem shiftRight_toInt {dx : UInt8} : (dx >>> 1).toInt8.toInt = (dx.toNat / 2 : ℕ) := by
  obtain ⟨⟨dx⟩⟩ := dx
  revert dx
  decide +kernel

theorem straight_lineRight {x1 y1 x2 y2 : UInt8} (hright : x1.toNat < x2.toNat)
    (hlong : (x2 - x1).toNat ≤ 127) (hflat : (apart y1 y2).toNat ≤ (x2 - x1).toNat)
    (hedge : x2 ≠ 255) :
    Straight (plane (x1, y1)) (plane (x2, y2))
      ((places (lineRight false (x2 - x1) (apart y1 y2) x1 y1 x2 y2)).map plane) := by
  have hle : x1 ≤ x2 := UInt8.le_iff_toNat_le.mpr hright.le
  have hlength : (x2 - x1).toNat = x2.toNat - x1.toNat := UInt8.toNat_sub_of_le _ _ hle
  have hdx : 0 < (x2 - x1).toNat := by omega
  have hstart : (((x2 - x1) >>> 1).toInt8).toInt = error (x2 - x1).toNat (apart y1 y2).toNat 0 := by
    rw [shiftRight_toInt, error_zero hdx]
  have hdots := places_lineLoop hdx hflat hlong (if y2 > y1 then 1 else 0 - 1) x1 y1
    ((x2 - x1).toNat + 1) hstart
  have hfirst : x1 + UInt8.ofNat 0 = x1 := UInt8.add_zero x1
  have hfirst' (ystep : UInt8) : y1 + UInt8.ofNat 0 * ystep = y1 := by
    change y1 + 0 * ystep = y1
    rw [UInt8.zero_mul, UInt8.add_zero]
  rw [rise_zero hdx, hfirst, hfirst'] at hdots
  have hline : (places (lineRight false (x2 - x1) (apart y1 y2) x1 y1 x2 y2)).map plane =
      rightward (x2 - x1).toNat (apart y1 y2).toNat (if y2 > y1 then 1 else -1)
        (plane (x1, y1)).1 (plane (x1, y1)).2 := by
    unfold lineRight
    simp only [hedge, if_false, hle, if_true]
    rw [hdots, List.map_map, rightward, List.range_eq_range']
    apply List.map_congr_left
    intro turns hturns
    rw [← List.range_eq_range', List.mem_range, Nat.lt_succ_iff] at hturns
    apply plane_dot hright.le hturns
    exact (rise_mono _ _ hturns).trans (rise_last hdx).le
  have hend : plane (x2, y2) = ((plane (x1, y1)).1 + (x2 - x1).toNat,
      (plane (x1, y1)).2 + (if y2 > y1 then 1 else -1) * (apart y1 y2).toNat) := by
    rw [← plane_dot hright.le le_rfl le_rfl, UInt8.ofNat_toNat, UInt8.ofNat_toNat]
    congr 2
    · grind
    · unfold apart
      split_ifs <;> grind
  have hslope : |if y2 > y1 then (1 : ℤ) else -1| = 1 := by split_ifs <;> rfl
  rw [hline, hend]
  exact straight_rightward hdx hflat hslope _ _

theorem apart_comm (a b : UInt8) : apart a b = apart b a := by
  unfold apart
  split_ifs with hless hmore hmore
  · exact absurd (UInt8.lt_trans hless hmore) (UInt8.lt_irrefl _)
  · rfl
  · rfl
  · rw [UInt8.le_antisymm (UInt8.not_lt.mp hless) (UInt8.not_lt.mp hmore)]

theorem apart_eq_zero {a b : UInt8} (h : apart a b = 0) : a = b := by
  unfold apart at h
  split_ifs at h <;> grind

/-- `u8g_DrawLine` with the axes named by length. -/
theorem line_eq (x1 y1 x2 y2 : UInt8) : line x1 y1 x2 y2 =
    if apart y1 y2 > apart x1 x2 then
      if y1 > y2 then lineRight true (apart y1 y2) (apart x1 x2) y2 x2 y1 x1
      else lineRight true (apart y1 y2) (apart x1 x2) y1 x1 y2 x2
    else if x1 > x2 then lineRight false (apart x1 x2) (apart y1 y2) x2 y2 x1 y1
    else lineRight false (apart x1 x2) (apart y1 y2) x1 y1 x2 y2 := by
  by_cases hsteep : apart y1 y2 > apart x1 x2
  · rw [if_pos hsteep]
    unfold apart at hsteep
    unfold line
    simp only [hsteep, decide_true, if_true]
    rfl
  · rw [if_neg hsteep]
    unfold apart at hsteep
    unfold line
    simp only [hsteep, decide_false, Bool.false_eq_true, if_false]
    rfl

/-- A line is the same from either end. -/
theorem line_symm (x1 y1 x2 y2 : UInt8) : line x1 y1 x2 y2 = line x2 y2 x1 y1 := by
  have hflip (swapxy : Bool) (a b c d : UInt8) (hflat : apart b d ≤ apart a c) :
      (if a > c then lineRight swapxy (apart a c) (apart b d) c d a b
        else lineRight swapxy (apart a c) (apart b d) a b c d) =
      if c > a then lineRight swapxy (apart a c) (apart b d) a b c d
        else lineRight swapxy (apart a c) (apart b d) c d a b := by
    split_ifs with hless hmore hmore
    · exact absurd (UInt8.lt_trans hless hmore) (UInt8.lt_irrefl _)
    · rfl
    · rfl
    · obtain rfl := UInt8.le_antisymm (UInt8.not_lt.mp hless) (UInt8.not_lt.mp hmore)
      have hnone : apart a a = 0 := by
        unfold apart
        rw [ite_self, UInt8.sub_self]
      rw [hnone, UInt8.le_zero_iff] at hflat
      rw [apart_eq_zero hflat]
  rw [line_eq, line_eq x2, apart_comm x2 x1, apart_comm y2 y1]
  by_cases hsteep : apart y1 y2 > apart x1 x2
  · rw [if_pos hsteep, if_pos hsteep]
    exact hflip true y1 x1 y2 x2 (UInt8.le_of_lt hsteep)
  · rw [if_neg hsteep, if_neg hsteep]
    exact hflip false x1 y1 x2 y2 (UInt8.not_lt.mp hsteep)

/-- A line that does not go back along its longer axis. -/
theorem straight_forward {x1 y1 x2 y2 : UInt8} (hlong : (apart x1 x2).toNat ≤ 127)
    (hflat : apart y1 y2 ≤ apart x1 x2) (hright : x1 ≤ x2) (hedge : x2 ≠ 255) :
    Straight (plane (x1, y1)) (plane (x2, y2))
      ((places (lineRight false (apart x1 x2) (apart y1 y2) x1 y1 x2 y2)).map plane) := by
  have hdx : apart x1 x2 = x2 - x1 := if_neg (UInt8.not_lt.mpr hright)
  rw [hdx] at hlong hflat ⊢
  rcases UInt8.lt_or_eq_of_le hright with hless | rfl
  · exact straight_lineRight (UInt8.lt_iff_toNat_lt.mp hless) hlong
      (UInt8.le_iff_toNat_le.mp hflat) hedge
  · rw [UInt8.sub_self, UInt8.le_zero_iff] at hflat
    obtain rfl := apart_eq_zero hflat
    have hdots : places (lineRight false (x1 - x1) (apart y1 y1) x1 y1 x1 y1) = [(x1, y1)] := by
      have hcount : (if x1 ≤ x1 then (x1 - x1).toNat + 1 else 0) = 1 := by
        rw [if_pos (UInt8.le_refl x1), UInt8.sub_self]
        rfl
      unfold lineRight
      simp only [hedge, if_false, hcount]
      simp only [lineLoop, Bool.false_eq_true, if_false, ite_self]
      rfl
    rw [hdots]
    exact ⟨by simp [reach], rfl, rfl, by simp [reach, cross], List.isChain_singleton _⟩

/-- Bytes as coordinates and a signed byte as the error are enough for a line whose ends are at
most 127 apart: it goes from end to end without a gap, and is nowhere more than half a place off.
At 255 the loop would not end, and the source stops it one place earlier. -/
theorem line_straight {x1 y1 x2 y2 : UInt8} (hlong : reach (plane (x1, y1)) (plane (x2, y2)) ≤ 127)
    (hx : x1 ≠ 255 ∧ x2 ≠ 255) (hy : y1 ≠ 255 ∧ y2 ≠ 255) :
    Straight (plane (x1, y1)) (plane (x2, y2)) ((places (line x1 y1 x2 y2)).map plane) ∨
      Straight (plane (x2, y2)) (plane (x1, y1)) ((places (line x1 y1 x2 y2)).map plane) := by
  have hlengths : (apart x1 x2).toNat ≤ 127 ∧ (apart y1 y2).toNat ≤ 127 := by
    rw [reach_plane] at hlong
    omega
  have hforward {x1 y1 x2 y2 : UInt8} (hlong : (apart x1 x2).toNat ≤ 127)
      (hhigh : (apart y1 y2).toNat ≤ 127) (hx : x2 ≠ 255) (hy : y2 ≠ 255)
      (hahead : if apart y1 y2 > apart x1 x2 then y1 ≤ y2 else x1 ≤ x2) :
      Straight (plane (x1, y1)) (plane (x2, y2)) ((places (line x1 y1 x2 y2)).map plane) := by
    rw [line_eq]
    by_cases hsteep : apart y1 y2 > apart x1 x2
    · rw [if_pos hsteep] at hahead ⊢
      rw [if_neg (UInt8.not_lt.mpr hahead)]
      have hswapped := (straight_forward hhigh (UInt8.le_of_lt hsteep) hahead hy).swap
      rw [List.map_map, show Prod.swap ∘ plane = plane ∘ Prod.swap from rfl, ← List.map_map,
        ← lineRight_swap] at hswapped
      exact hswapped
    · rw [if_neg hsteep] at hahead ⊢
      rw [if_neg (UInt8.not_lt.mpr hahead)]
      exact straight_forward hlong (UInt8.not_lt.mp hsteep) hahead hx
  by_cases hahead : if apart y1 y2 > apart x1 x2 then y1 ≤ y2 else x1 ≤ x2
  · exact .inl (hforward hlengths.1 hlengths.2 hx.2 hy.2 hahead)
  · right
    rw [line_symm]
    rw [apart_comm x1 x2, apart_comm y1 y2] at hlengths hahead
    apply hforward hlengths.1 hlengths.2 hx.1 hy.1
    split_ifs at hahead ⊢ <;> exact UInt8.le_of_lt (UInt8.not_le.mp hahead)

theorem line_straight_steep :
    Straight (plane (60, 5)) (plane (57, 40)) ((places (line 60 5 57 40)).map plane) ∨
      Straight (plane (57, 40)) (plane (60, 5)) ((places (line 60 5 57 40)).map plane) :=
  line_straight (by decide) (by decide) (by decide)

end OledDs18b20.U8glib
