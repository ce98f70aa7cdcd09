import OledDs18b20.Thermostat.Decode
import OledDs18b20.Thermostat.Sketch

/-! The part of a pass that works on the new temperature: the log, the
thermostat and the load switch, in this order. -/
namespace OledDs18b20.Thermostat.Control

def logTemp (s : Sketch) : Sketch :=
  let s := { s with timeLogCounter := s.timeLogCounter + 1 }
  if s.timeLogCounter > s.params 12 then
    { s with
      timeLogCounter := 0
      log := s.log.record (s.params 2) (Decode.tenths s.celsius) }
  else s

/-- The second comparison also runs after the first one has switched on. -/
def thermostat (s : Sketch) : Sketch :=
  if s.params 8 = 1 then
    let s := if s.celsius < (s.params 7).toInt then s.setParam 9 1 else s
    if ((s.params 6).toInt : ℚ) < s.celsius then s.setParam 9 0 else s
  else s

/-- A command other than 0 and 1 leaves the outputs as they are. -/
def loadSwitch (s : Sketch) : Sketch :=
  let s := if s.params 9 = 1 then { s with pins := .on } else s
  if s.params 9 = 0 then { s with pins := .off } else s

def control (celsius : ℚ) (s : Sketch) : Sketch :=
  loadSwitch (thermostat (logTemp { s with celsius := celsius }))

/-! What the three stages leave, each as a function of the state before them. -/

/-- The counter passes its threshold in this pass. -/
def Tripped (s : Sketch) : Prop := s.params 12 < s.timeLogCounter + 1

instance (s : Sketch) : Decidable (Tripped s) := inferInstanceAs (Decidable (_ < _))

def nextCounter (s : Sketch) : Int8 :=
  if Tripped s then 0 else s.timeLogCounter + 1

def nextLog (celsius : ℚ) (s : Sketch) : ValidLog :=
  if Tripped s then s.log.record (s.params 2) (Decode.tenths celsius) else s.log

/-- The sample written to `TempLog`, if the pass writes one. -/
def sample (celsius : ℚ) (s : Sketch) : Option Int16 :=
  if Tripped s ∧ (s.params 2 = 1 ∨ s.params 2 = 2 ∨ s.params 2 = 3) then
    some (Decode.tenths celsius)
  else none

def TooCold (celsius : ℚ) (s : Sketch) : Prop := celsius < (s.params 7).toInt
def TooHot (celsius : ℚ) (s : Sketch) : Prop := ((s.params 6).toInt : ℚ) < celsius

instance (celsius : ℚ) (s : Sketch) : Decidable (TooCold celsius s) :=
  inferInstanceAs (Decidable (_ < _))

instance (celsius : ℚ) (s : Sketch) : Decidable (TooHot celsius s) :=
  inferInstanceAs (Decidable (_ < _))

/-- The command in `Params[9]`: the comparison that runs last wins. -/
def command (celsius : ℚ) (s : Sketch) : Int8 :=
  if s.params 8 = 1 ∧ TooHot celsius s then 0
  else if s.params 8 = 1 ∧ TooCold celsius s then 1
  else s.params 9

/-- The thermostat decides, or the command is one that the load switch knows. -/
def Decided (celsius : ℚ) (s : Sketch) : Prop :=
  (s.params 8 = 1 ∧ (TooHot celsius s ∨ TooCold celsius s)) ∨
    s.params 9 = 0 ∨ s.params 9 = 1

def outputs (command : Int8) (pins : Pins) : Pins :=
  if command = 1 then .on else if command = 0 then .off else pins

theorem command_decided {celsius : ℚ} {s : Sketch} :
    command celsius s = 0 ∨ command celsius s = 1 ↔ Decided celsius s := by
  unfold command Decided
  rw [and_or_left]
  by_cases hhot : s.params 8 = 1 ∧ TooHot celsius s
  · simp [hhot]
  · by_cases hcold : s.params 8 = 1 ∧ TooCold celsius s
    · rw [if_neg hhot, if_pos hcold]
      exact ⟨fun _ => .inl (.inr hcold), fun _ => .inr rfl⟩
    · simp only [hhot, hcold, if_false, or_self, false_or]

theorem command_undecided {celsius : ℚ} {s : Sketch} (h : ¬ Decided celsius s) :
    command celsius s = s.params 9 := by
  unfold Decided at h
  unfold command
  rw [if_neg (by tauto), if_neg (by tauto)]

theorem logTemp_eq (s : Sketch) :
    logTemp s = { s with
      timeLogCounter := nextCounter s
      log := nextLog s.celsius s } := by
  unfold logTemp nextCounter nextLog Tripped
  by_cases htrip : s.params 12 < s.timeLogCounter + 1
  · simp [htrip]
  · simp [htrip]

theorem thermostat_eq (s : Sketch) :
    thermostat s = s.setParam 9 (command s.celsius s) := by
  have hkeep : s = s.setParam 9 (s.params 9) := by simp [Sketch.setParam]
  unfold thermostat command TooHot TooCold
  by_cases hused : s.params 8 = 1
  · by_cases hcold : s.celsius < (s.params 7).toInt
    · by_cases hhot : ((s.params 6).toInt : ℚ) < s.celsius
      · simp [hused, hcold, hhot, Sketch.setParam]
      · simp [hused, hcold, hhot, Sketch.setParam]
    · by_cases hhot : ((s.params 6).toInt : ℚ) < s.celsius
      · simp [hused, hcold, hhot]
      · simpa [hused, hcold, hhot] using hkeep
  · simpa [hused] using hkeep

theorem loadSwitch_eq (s : Sketch) :
    loadSwitch s = { s with pins := outputs (s.params 9) s.pins } := by
  unfold loadSwitch outputs
  by_cases hon : s.params 9 = 1
  · simp [hon]
  · simp only [hon, if_false]
    split <;> rfl

theorem control_eq (celsius : ℚ) (s : Sketch) :
    control celsius s = { s with
      params := Function.update s.params 9 (command celsius s)
      pins := outputs (command celsius s) s.pins
      celsius := celsius
      timeLogCounter := nextCounter s
      log := nextLog celsius s } := by
  unfold control
  rw [loadSwitch_eq, thermostat_eq, logTemp_eq, Sketch.setParam_same]
  rfl

@[simp] theorem control_params_nine (celsius : ℚ) (s : Sketch) :
    (control celsius s).params 9 = command celsius s := by
  simp [control_eq]

@[simp] theorem control_params_other (celsius : ℚ) (s : Sketch) {index : ℕ}
    (h : index ≠ 9) : (control celsius s).params index = s.params index := by
  simp [control_eq, h]

/-- The sample of a pass is what its log records. -/
theorem nextLog_of_sample (celsius : ℚ) (s : Sketch) :
    nextLog celsius s = match sample celsius s with
      | none => s.log
      | some value => s.log.record (s.params 2) value := by
  unfold nextLog sample
  by_cases htrip : Tripped s
  · by_cases hgraph : s.params 2 = 1 ∨ s.params 2 = 2 ∨ s.params 2 = 3
    · rw [if_pos htrip, if_pos ⟨htrip, hgraph⟩]
    · rw [if_pos htrip, if_neg (fun h => hgraph h.2)]
      rw [not_or, not_or] at hgraph
      exact ValidLog.record_other _ s.log hgraph
  · rw [if_neg htrip, if_neg (fun h => htrip h.1)]

attribute [irreducible] control

end OledDs18b20.Thermostat.Control
