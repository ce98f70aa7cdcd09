import OledDs18b20.Nokia.Texts

/-! The pages of one frame against the pins that each call of `draw` reads. -/
namespace OledDs18b20.Nokia.FramePages
open Lib Dashboard Screen Loop Averaging Texts

def bitmap? : Command → Option Bitmap
  | .drawBitmapP _ _ _ _ bitmap => some bitmap
  | _ => none

theorem draw_bitmaps (d : Dashboard) (input : PageInput) :
    (draw d input).filterMap bitmap? =
      [.fuel, .accum, .bigLoBeam, .bigHiBeam] ++ (turnSig input).filterMap bitmap? := by
  have hbefore : (u8gPrepare ++ (rawFuel d ++ fuelPercent d ++ fuelBar d ++ fuelBarMark ++
      fuelMark ++ accumMark d ++ headLight ++ sigTable)).filterMap bitmap? =
      [.fuel, .accum, .bigLoBeam, .bigHiBeam] := rfl
  have hafter : (leftBarFrame d ++ (leftBarMark ++ rawVoltage input)).filterMap bitmap? = [] :=
    rfl
  have hsplit : draw d input = (u8gPrepare ++ (rawFuel d ++ fuelPercent d ++ fuelBar d ++
      fuelBarMark ++ fuelMark ++ accumMark d ++ headLight ++ sigTable)) ++
      (turnSig input ++ (leftBarFrame d ++ (leftBarMark ++ rawVoltage input))) := by
    simp only [draw, u8g1screen, List.append_assoc]
  rw [hsplit, List.filterMap_append, hbefore, List.filterMap_append, hafter, List.append_nil]

theorem turnSig_inj {left right : PageInput}
    (h : (turnSig left).filterMap bitmap? = (turnSig right).filterMap bitmap?) :
    left.lTurn = right.lTurn ∧ left.rTurn = right.rTurn := by
  unfold turnSig at h
  revert h
  cases left.lTurn <;> cases left.rTurn <;> cases right.lTurn <;> cases right.rTurn <;> decide

theorem rawVoltageText_inj {left right : Adc} (h : rawVoltageText left = rawVoltageText right) :
    left = right := by
  unfold rawVoltageText at h
  have hdigits := (String.append_right_inj _).mp h
  rw [toInt_analog, toInt_analog] at hdigits
  exact Fin.ext (Nat.repr_inj.mp hdigits)

/-- Every pin that a call of `draw` reads shows in its commands. -/
theorem draw_inj (d : Dashboard) (left right : PageInput) :
    draw d left = draw d right ↔ left = right := by
  constructor
  · intro h
    have htexts := congrArg (List.filterMap text?) h
    have hbitmaps := congrArg (List.filterMap bitmap?) h
    rw [draw_texts, draw_texts] at htexts
    rw [draw_bitmaps, draw_bitmaps] at hbitmaps
    obtain ⟨hlTurn, hrTurn⟩ := turnSig_inj (List.append_cancel_left hbitmaps)
    simp only [texts, List.cons.injEq, and_true, true_and] at htexts
    have hvolt := rawVoltageText_inj htexts
    obtain ⟨lTurn, rTurn, volt⟩ := left
    obtain ⟨lTurn', rTurn', volt'⟩ := right
    rw [PageInput.mk.injEq]
    exact ⟨hlTurn, hrTurn, hvolt⟩
  · intro h
    rw [h]

/-- All pages of a frame show the same picture exactly when the pins keep still
while the picture loop runs. -/
theorem single_moment_iff (d : Dashboard) (input : PassInput) :
    (∀ first ∈ (loop d input).frame, ∀ second ∈ (loop d input).frame, first = second) ↔
      ∀ left ∈ input.draws, ∀ right ∈ input.draws, left = right := by
  constructor
  · intro h left hleft right hright
    exact (draw_inj d left right).mp
      (h _ (List.mem_map_of_mem hleft) _ (List.mem_map_of_mem hright))
  · intro h first hfirst second hsecond
    obtain ⟨left, hleft, rfl⟩ := List.mem_map.mp hfirst
    obtain ⟨right, hright, rfl⟩ := List.mem_map.mp hsecond
    rw [h left hleft right hright]

/-- The left turn signal lights up between the first and the second page. -/
def blinking : PassInput := { silent with pages := [{ silent.page with lTurn := true }] }

theorem blinking_tears :
    ¬ ∀ first ∈ (loop powerOn blinking).frame, ∀ second ∈ (loop powerOn blinking).frame,
      first = second := by
  intro h
  have hsame := h _ (List.mem_map_of_mem List.mem_cons_self) _
    (List.mem_map_of_mem (List.mem_cons_of_mem _ List.mem_cons_self))
  exact absurd ((draw_inj _ _ _).mp hsame) (by decide)

end OledDs18b20.Nokia.FramePages
