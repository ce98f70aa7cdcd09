import OledDs18b20.Thermostat.Loop

/-! A pass whose scratchpad fails its checksum. The code never compares the
ninth byte, so the reading goes through the log, the thermostat and the load
switch like any other. -/
namespace OledDs18b20.Thermostat.Corruption
open Lib Loop

def Corrupted (input : PassInput) : Prop :=
  OneWire.crc8 (input.data.toList.take 8) ≠ input.data[8]

/-- The pass leaves what depends on the temperature as it was; `atKeys` is the
state after the control part, before a key is handled. -/
structure Unaffected (s : Sketch) (input : PassInput) : Prop where
  celsius : (step s input).celsius = s.celsius
  tempLog : (step s input).log.val.tempLog = s.log.val.tempLog
  tempLogIndex : (step s input).log.val.tempLogIndex = s.log.val.tempLogIndex
  load : (atKeys s input).params 9 = s.params 9
  pins : (step s input).pins = s.pins

/-- A sample recorded now leaves the log as it is: no ring can, and a shifted
array only when it is full of this value. -/
def LogHarmless (celsius : ℚ) (s : Sketch) : Prop :=
  Control.Tripped s → s.params 2 ≠ 1 ∧
    (s.params 2 = 2 ∨ s.params 2 = 3 →
      ∀ held ∈ s.log.val.tempLog.toList, held = Decode.tenths celsius)

/-- The thermostat repeats the command, and the load switch the outputs. -/
def ControlHarmless (celsius : ℚ) (s : Sketch) : Prop :=
  (s.params 8 = 1 → (Control.TooHot celsius s → s.params 9 = 0) ∧
    (¬ Control.TooHot celsius s → Control.TooCold celsius s → s.params 9 = 1)) ∧
  (s.params 9 = 1 → s.pins = .on) ∧ (s.params 9 = 0 → s.pins = .off)

/-- The reading is the temperature already known, and nothing acts on it. -/
def Harmless (celsius : ℚ) (s : Sketch) : Prop :=
  celsius = s.celsius ∧ LogHarmless celsius s ∧ ControlHarmless celsius s

theorem nextIndex_ne (index : Int8) : Log.nextIndex index ≠ index := by
  simp only [Log.nextIndex, logsize]
  grind

theorem record_shift_unchanged (value : Int16) (log : Log) {graphType : Int8}
    (h : graphType = 2 ∨ graphType = 3) {recorded : Log}
    (hrecord : Log.record graphType value log = some recorded) :
    (recorded.tempLog = log.tempLog ∧ recorded.tempLogIndex = log.tempLogIndex) ↔
      ∀ held ∈ log.tempLog.toList, held = value := by
  rw [Log.record_shift value log h, Log.recordShift_eq] at hrecord
  obtain rfl := Option.some.inj hrecord
  rw [← Window.push_eq_self_iff, ← Vector.toList_inj]
  dsimp only
  rw [and_iff_left rfl]
  exact Eq.congr_left (Window.toList_shiftDown_set log.tempLog value)

theorem record_ring_changed (value : Int16) (log : Log) {recorded : Log}
    (hrecord : Log.record 1 value log = some recorded) :
    recorded.tempLogIndex ≠ log.tempLogIndex := by
  rw [Log.record_ring, Log.recordRing] at hrecord
  obtain ⟨tempLog, _, hrecorded⟩ := Option.bind_eq_some_iff.mp hrecord
  obtain rfl := Option.some.inj hrecorded
  exact nextIndex_ne log.tempLogIndex

theorem record_unchanged (graphType : Int8) (value : Int16) (log : ValidLog) :
    ((log.record graphType value).val.tempLog = log.val.tempLog ∧
      (log.record graphType value).val.tempLogIndex = log.val.tempLogIndex) ↔
      graphType ≠ 1 ∧ (graphType = 2 ∨ graphType = 3 →
        ∀ held ∈ log.val.tempLog.toList, held = value) := by
  have hrecord := ValidLog.record_val graphType value log
  by_cases hring : graphType = 1
  · rw [hring] at hrecord ⊢
    have hchanged := record_ring_changed value log.val hrecord
    exact ⟨fun h => absurd h.2 hchanged, fun h => absurd rfl h.1⟩
  · by_cases hshift : graphType = 2 ∨ graphType = 3
    · rw [record_shift_unchanged value log.val hshift hrecord]
      exact ⟨fun h => ⟨hring, fun _ => h⟩, fun h => h.2 hshift⟩
    · rw [ValidLog.record_other value log ⟨hring, not_or.mp hshift⟩]
      exact ⟨fun _ => ⟨hring, fun h => absurd h hshift⟩, fun _ => ⟨rfl, rfl⟩⟩

theorem nextLog_unchanged (celsius : ℚ) (s : Sketch) :
    ((Control.nextLog celsius s).val.tempLog = s.log.val.tempLog ∧
      (Control.nextLog celsius s).val.tempLogIndex = s.log.val.tempLogIndex) ↔
      LogHarmless celsius s := by
  unfold Control.nextLog LogHarmless
  by_cases htrip : Control.Tripped s
  · rw [if_pos htrip, record_unchanged]
    exact ⟨fun h _ => h, fun h => h htrip⟩
  · rw [if_neg htrip]
    exact ⟨fun _ h => absurd h htrip, fun _ => ⟨rfl, rfl⟩⟩

theorem command_unchanged (celsius : ℚ) (s : Sketch) :
    Control.command celsius s = s.params 9 ↔
      (s.params 8 = 1 → (Control.TooHot celsius s → s.params 9 = 0) ∧
        (¬ Control.TooHot celsius s → Control.TooCold celsius s → s.params 9 = 1)) := by
  unfold Control.command
  by_cases hused : s.params 8 = 1
  · by_cases hhot : Control.TooHot celsius s
    · simp [hused, hhot, eq_comm]
    · by_cases hcold : Control.TooCold celsius s
      · simp [hused, hhot, hcold, eq_comm]
      · simp [hhot, hcold]
  · simp [hused]

theorem outputs_unchanged (load : Int8) (pins : Pins) :
    Control.outputs load pins = pins ↔
      (load = 1 → pins = .on) ∧ (load = 0 → pins = .off) := by
  unfold Control.outputs
  by_cases hon : load = 1
  · simp [hon, eq_comm]
  · by_cases hoff : load = 0
    · simp [hoff, eq_comm]
    · simp [hon, hoff]

/-- A pass leaves everything as it was exactly when its reading repeats what the
sketch already has. -/
theorem unaffected_iff {s : Sketch} {input : PassInput} {typeS : UInt8} {dsNum : Fin 4}
    (detected : detect input = .ok (typeS, dsNum)) :
    Unaffected s input ↔ Harmless (reading typeS input) s := by
  constructor
  · rintro ⟨celsius, tempLog, tempLogIndex, load, pins⟩
    rw [step_celsius detected] at celsius
    rw [step_log detected] at tempLog tempLogIndex
    rw [atKeys_load detected] at load
    rw [step_pins detected, load] at pins
    refine ⟨celsius, (nextLog_unchanged _ s).mp ⟨tempLog, tempLogIndex⟩, ?_⟩
    exact ⟨(command_unchanged _ s).mp load, (outputs_unchanged _ _).mp pins⟩
  · rintro ⟨celsius, log, control⟩
    have hrecorded := (nextLog_unchanged _ s).mpr log
    have hcommand := (command_unchanged _ s).mpr control.1
    constructor
    · rw [step_celsius detected, celsius]
    · rw [step_log detected, hrecorded.1]
    · rw [step_log detected, hrecorded.2]
    · rw [atKeys_load detected, hcommand]
    · rw [step_pins detected, hcommand]
      exact (outputs_unchanged _ _).mpr control.2

/-- No corrupted scratchpad of a run reaches the control state exactly when the
reading of each one is harmless in the state that it meets. -/
theorem corrupted_unaffected_iff (board : Board) (eeprom : ℕ → UInt8)
    (inputs : List PassInput) :
    (∀ visit ∈ Run.visits step (boot board eeprom) inputs, ∀ typeS dsNum,
        detect visit.2 = .ok (typeS, dsNum) → Corrupted visit.2 →
          Unaffected visit.1 visit.2) ↔
      ∀ visit ∈ Run.visits step (boot board eeprom) inputs, ∀ typeS dsNum,
        detect visit.2 = .ok (typeS, dsNum) → Corrupted visit.2 →
          Harmless (reading typeS visit.2) visit.1 := by
  constructor
  · intro unaffected visit hvisit typeS dsNum detected corrupted
    exact (unaffected_iff detected).mp (unaffected visit hvisit typeS dsNum detected corrupted)
  · intro harmless visit hvisit typeS dsNum detected corrupted
    exact (unaffected_iff detected).mpr (harmless visit hvisit typeS dsNum detected corrupted)

/-! The sensor is pulled out after the search: the bus reads all ones. -/

def pulledOut : PassInput := { benchPass [] with data := Vector.replicate 9 0xFF }

theorem pulledOut_detected : detect pulledOut = .ok (0, 1) := by decide +kernel

theorem pulledOut_corrupted : Corrupted pulledOut := by
  unfold Corrupted
  decide +kernel

theorem pulledOut_reading : reading 0 pulledOut = -1 / 16 := by
  have hraw : Decode.raw 0 pulledOut.data = -1 := by decide +kernel
  rw [reading, hraw, Decode.celsius_eq]
  rfl

/-- The sketch takes the all-ones pattern for -1/16 of a degree. -/
theorem pulledOut_affects :
    ¬ ∀ visit ∈ Run.visits step (boot benchBoard declaredImage) [pulledOut],
      ∀ typeS dsNum, detect visit.2 = .ok (typeS, dsNum) → Corrupted visit.2 →
        Unaffected visit.1 visit.2 := by
  intro unaffected
  have hbooted : (boot benchBoard declaredImage).celsius = 0 := by
    obtain ⟨_, hboot⟩ := boot_eq benchBoard declaredImage
    rw [hboot]
    rfl
  have hsame := (unaffected (boot benchBoard declaredImage, pulledOut) (by simp) 0 1
    pulledOut_detected pulledOut_corrupted).celsius
  rw [step_celsius pulledOut_detected, pulledOut_reading, hbooted] at hsame
  norm_num at hsame

end OledDs18b20.Thermostat.Corruption
