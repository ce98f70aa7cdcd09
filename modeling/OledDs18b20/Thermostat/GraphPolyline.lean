import OledDs18b20.Lib.Polyline
import OledDs18b20.Thermostat.GraphRow

/-! The polyline of graph type 3: the loop carries the clamped end of a segment over to
the next one and clamps it there once more. -/
namespace OledDs18b20.Thermostat.GraphPolyline
open Lib Draw GraphRow

def rows (s : Sketch) (cells : List (Fin logsize)) : List Int8 :=
  cells.filterMap fun aab => row s (s.log.val.tempLog.get aab)

/-- The start row and the end row of each segment, from the value that `Ypos` holds before
the loop. -/
def polyline (s : Sketch) (cells : List (Fin logsize)) (ypos : Int8) : List (Int8 × Int8) :=
  Polyline.carry (clampRow s) ypos (rows s cells)

def segmentLine (s : Sketch) (aab : Fin logsize) (segment : Int8 × Int8) : Command :=
  line (s.startXGraph.toInt + aab.val - 1) segment.1.toInt
    (s.startXGraph.toInt + aab.val) segment.2.toInt

def Inside (s : Sketch) (row : Int8) : Prop :=
  63 - (s.params 3).toInt ≤ row.toInt ∧ row.toInt ≤ 61

/-- A clamped row is not moved by the second clamping, whatever the height. -/
theorem clampRow_clampRow (s : Sketch) (ypos : Int8) :
    clampRow s (clampRow s ypos) = clampRow s ypos := by
  rw [← Int8.toInt_inj, clampRow_toInt, clampRow_toInt]
  split_ifs
  · rfl
  · omega

theorem clampRow_inside {s : Sketch} (hheight : 2 ≤ (s.params 3).toInt)
    (ypos : Int8) : Inside s (clampRow s ypos) := by
  rw [Inside, clampRow_between hheight]
  omega

section LimitsApart
variable {s : Sketch} (h : s.params 4 ≠ s.params 5)
include h

theorem rows_cons (aab : Fin logsize) (rest : List (Fin logsize)) :
    ∃ drawn, row s (s.log.val.tempLog.get aab) = some drawn ∧
      rows s (aab :: rest) = drawn :: rows s rest := by
  obtain ⟨drawn, hrow, _⟩ := row_eq h (s.log.val.tempLog.get aab)
  refine ⟨drawn, hrow, ?_⟩
  rw [rows, List.filterMap_cons, hrow]
  rfl

theorem length_rows (cells : List (Fin logsize)) : (rows s cells).length = cells.length := by
  induction cells with
  | nil => rfl
  | cons aab rest ih =>
      obtain ⟨drawn, _, hrows⟩ := rows_cons h aab rest
      rw [hrows, List.length_cons, List.length_cons, ih]

theorem segments_eq (cells : List (Fin logsize)) (ypos : Int8) :
    segments s cells ypos = .of (List.zipWith (segmentLine s) cells (polyline s cells ypos)) := by
  induction cells generalizing ypos with
  | nil => rfl
  | cons aab rest ih =>
      obtain ⟨drawn, hrow, hrows⟩ := rows_cons h aab rest
      have hcell : row s s.log.val.tempLog[aab] = some drawn := hrow
      rw [segments, polyline, hrows, Polyline.carry, List.zipWith_cons_cons]
      simp only [hcell]
      rw [ih]
      rfl

end LimitsApart

/-- With the limits apart the loop draws a connected polyline, a segment for each cell of
the log; if the frame has a usable height, the polyline stays inside, from whatever value
`Ypos` holds before. -/
theorem connected_inside (s : Sketch) (h : s.params 4 ≠ s.params 5) (ypos : Int8) :
    let drawn := polyline s (List.finRange logsize) ypos
    segments s (List.finRange logsize) ypos =
        .of (List.zipWith (segmentLine s) (List.finRange logsize) drawn) ∧
      drawn.length = logsize ∧
      (∀ row, clampRow s (clampRow s row) = clampRow s row) ∧
      Polyline.Connected drawn ∧
      (2 ≤ (s.params 3).toInt → (s.params 3).toInt ≤ 62 →
        ∀ segment ∈ drawn, Inside s segment.1 ∧ Inside s segment.2) := by
  intro drawn
  refine ⟨segments_eq h _ ypos, ?_, clampRow_clampRow s, ?_, ?_⟩
  · have hrows : drawn.length = (rows s (List.finRange logsize)).length :=
      Polyline.length_carry _ _ _
    rw [hrows, length_rows h, List.length_finRange]
  · exact Polyline.carry_connected (clampRow_clampRow s) ypos _
  · intro hheight _
    exact Polyline.carry_inside (clampRow_inside hheight) ypos _

theorem declared_connected :
    Polyline.Connected (polyline (settings 10 20) (List.finRange logsize) 127) ∧
      ∀ segment ∈ polyline (settings 10 20) (List.finRange logsize) 127,
        Inside (settings 10 20) segment.1 ∧ Inside (settings 10 20) segment.2 := by
  obtain ⟨-, -, -, hconnected, hinside⟩ := connected_inside (settings 10 20) (by decide) 127
  exact ⟨hconnected, hinside (by decide) (by decide)⟩

end OledDs18b20.Thermostat.GraphPolyline
