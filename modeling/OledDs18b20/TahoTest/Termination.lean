import OledDs18b20.TahoTest.Loop

/-! Which calls of `DrawRoundScale` come to an end: all those that `draw` makes, and of a
sector those whose angle the counter can reach. -/
namespace OledDs18b20.TahoTest.Termination
open Lib Counting Gauge Loop

/-- Tests of a loop's bound that are enough for every loop that ends at all. -/
def enoughFuel : ℕ := 256

theorem loop_from_zero_isSome {γ β : Type*} {counter : Counter γ} {start : γ} {bound : ℤ}
    {body : γ → Option (List β)} (hstart : counter.val start = 0)
    (htop : counter.top < enoughFuel) (hbound : bound ≤ counter.top)
    (hbody : ∀ count, (body count).isSome) :
    (Counting.loop counter bound body enoughFuel start).isSome := by
  apply loop_isSome hbound hbody
  · rw [hstart]
    omega
  · decide

section Loops
variable (trig : Trig) (gauge : Gauge)

/-- A `char` reaches every bound that is a `char` itself. -/
theorem int8_loop_isSome {body : Int8 → Option (List Command)} (bound : Int8)
    (hbody : ∀ count, (body count).isSome) :
    (Counting.loop int8 bound.toInt body enoughFuel 0).isSome := by
  apply loop_from_zero_isSome
  · rfl
  · decide
  · exact Int.le_of_lt_add_one bound.toInt_lt
  · exact hbody

theorem barRow_isSome (temp2 : Int8) : (barRow trig enoughFuel gauge temp2).isSome := by
  unfold barRow
  exact int8_loop_isSome gauge.barW fun _ => rfl

theorem bar_isSome : (bar trig enoughFuel gauge).isSome := by
  unfold bar
  split_ifs
  · exact int8_loop_isSome gauge.barH (barRow_isSome trig gauge)
  · rfl

theorem sector_isSome (h : gauge.scaleType ≠ 3 ∨ gauge.arrowDegre.toInt ≤ 255) :
    (sector trig enoughFuel gauge).isSome := by
  unfold sector
  split_ifs with htype
  · apply loop_from_zero_isSome
    · rfl
    · decide
    · exact h.resolve_left (not_not.mpr htype)
    · exact fun _ => rfl
  · rfl

/-- An `unsigned char` never reaches an angle of more than 255 degrees. -/
theorem sector_eq_none (htype : gauge.scaleType = 3) (h : 255 < gauge.arrowDegre.toInt)
    (fuel : ℕ) : sector trig fuel gauge = none := by
  rw [sector, if_pos htype]
  exact loop_eq_none h _ fuel 0

theorem drawRoundScale_isSome_iff (fuel : ℕ) :
    (drawRoundScale trig fuel gauge).isSome ↔
      (bar trig fuel gauge).isSome ∧ (sector trig fuel gauge).isSome := by
  unfold drawRoundScale
  cases bar trig fuel gauge with
  | none => simp
  | some drawnBar =>
      cases sector trig fuel gauge with
      | none => simp
      | some drawnSector => simp

theorem drawRoundScale_isSome (h : gauge.scaleType ≠ 3 ∨ gauge.arrowDegre.toInt ≤ 255) :
    (drawRoundScale trig enoughFuel gauge).isSome :=
  (drawRoundScale_isSome_iff trig gauge enoughFuel).mpr
    ⟨bar_isSome trig gauge, sector_isSome trig gauge h⟩

theorem drawRoundScale_eq_none (htype : gauge.scaleType = 3)
    (h : 255 < gauge.arrowDegre.toInt) (fuel : ℕ) : drawRoundScale trig fuel gauge = none := by
  unfold drawRoundScale
  rw [sector_eq_none trig gauge htype h]
  cases bar trig fuel gauge <;> rfl

end Loops

section Stable
variable {trig : Trig} {gauge : Gauge} {fuel fuel' : ℕ} (hfuel : fuel ≤ fuel')
  {drawn : List Command}
include hfuel

theorem bar_stable (h : bar trig fuel gauge = some drawn) :
    bar trig fuel' gauge = some drawn := by
  unfold bar at h ⊢
  split_ifs at h ⊢
  · refine loop_stable ?_ hfuel h
    intro temp2 row hrow
    exact loop_stable (fun _ _ hpixel => hpixel) hfuel hrow
  · exact h

theorem sector_stable (h : sector trig fuel gauge = some drawn) :
    sector trig fuel' gauge = some drawn := by
  unfold sector at h ⊢
  split_ifs at h ⊢
  · exact loop_stable (fun _ _ hline => hline) hfuel h
  · exact h

/-- What a call draws does not depend on the fuel, if it is enough. -/
theorem drawRoundScale_stable (h : drawRoundScale trig fuel gauge = some drawn) :
    drawRoundScale trig fuel' gauge = some drawn := by
  obtain ⟨drawnBar, hbar, hrest⟩ := Option.bind_eq_some_iff.mp h
  obtain ⟨drawnSector, hsector, hdrawn⟩ := Option.bind_eq_some_iff.mp hrest
  rw [drawRoundScale, bar_stable hfuel hbar, sector_stable hfuel hsector]
  exact hdrawn

end Stable

/-- `DrawRoundScale` comes to an end exactly if it draws no sector or the angle fits into
the counter of the sector's loop. -/
theorem finishes_iff (trig : Trig) (gauge : Gauge) :
    (∃ fuel, (drawRoundScale trig fuel gauge).isSome) ↔
      gauge.scaleType ≠ 3 ∨ gauge.arrowDegre.toInt ≤ 255 := by
  constructor
  · rintro ⟨fuel, hsome⟩
    by_contra hangle
    push Not at hangle
    rw [drawRoundScale_eq_none trig gauge hangle.1 hangle.2] at hsome
    exact Bool.false_ne_true hsome
  · intro hangle
    exact ⟨enoughFuel, drawRoundScale_isSome trig gauge hangle⟩

/-- The call that `draw` has commented out: the gauge angle as a sector. -/
def sectorGauge (t : Taho) : Gauge := ⟨12, 36, 12, t.alpha, 3, 2, 5, 3⟩

theorem sectorGauge_eq_none {t : Taho} (h : 255 < t.alpha.toInt) (trig : Trig) (fuel : ℕ) :
    drawRoundScale trig fuel (sectorGauge t) = none :=
  drawRoundScale_eq_none trig (sectorGauge t) rfl h fuel

/-- After 234 passes with a quiet serial port the angle is 256 degrees. -/
theorem turned_sector_never_ends :
    (Run.final step powerOn (List.replicate 234 (idle 0))).alpha.toInt = 256 ∧
      ∀ trig, ¬∃ fuel, (drawRoundScale trig fuel
        (sectorGauge (Run.final step powerOn (List.replicate 234 (idle 0))))).isSome := by
  have hangle : (Run.final step powerOn (List.replicate 234 (idle 0))).alpha.toInt = 256 :=
    idle_run 0 234
  refine ⟨hangle, ?_⟩
  rintro trig ⟨fuel, hsome⟩
  rw [sectorGauge_eq_none (by omega)] at hsome
  exact Bool.false_ne_true hsome

/-! The gauges of `draw` are lines, a bar and a thick arrow. -/

theorem gauges_scaleType (t : Taho) : ∀ gauge ∈ gauges t, gauge.scaleType ≠ 3 := by
  intro gauge hgauge
  simp only [gauges, List.mem_cons, List.not_mem_nil, or_false] at hgauge
  rcases hgauge with rfl | rfl | rfl | rfl <;> exact of_decide_eq_true rfl

theorem mapM_isSome {α β : Type*} {draw : α → Option β} {calls : List α}
    (h : ∀ call ∈ calls, (draw call).isSome) : (calls.mapM draw).isSome := by
  induction calls with
  | nil => rfl
  | cons call rest ih =>
      rw [List.forall_mem_cons] at h
      obtain ⟨drawn, hdrawn⟩ := Option.isSome_iff_exists.mp h.1
      obtain ⟨later, hlater⟩ := Option.isSome_iff_exists.mp (ih h.2)
      rw [List.mapM_cons, hdrawn, hlater]
      rfl

theorem draw_isSome (trig : Trig) (t : Taho) : (draw trig enoughFuel t).isSome := by
  have hdrawn : ((gauges t).mapM (drawRoundScale trig enoughFuel)).isSome :=
    mapM_isSome fun gauge hgauge =>
      drawRoundScale_isSome trig gauge (.inl (gauges_scaleType t gauge hgauge))
  obtain ⟨drawn, hdrawn⟩ := Option.isSome_iff_exists.mp hdrawn
  rw [draw, hdrawn]
  rfl

/-- Every page of every pass is drawn to its end, from whatever state. -/
theorem frame_isSome (trig : Trig) (t : Taho) (input : PassInput) :
    ∀ page ∈ (Loop.loop trig enoughFuel t input).frame, page.isSome := by
  intro page hpage
  rw [List.eq_of_mem_replicate hpage]
  exact draw_isSome trig _

end OledDs18b20.TahoTest.Termination
