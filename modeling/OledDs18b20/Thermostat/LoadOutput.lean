import OledDs18b20.Thermostat.Loop

/-! The three load pins against the load command in `Params[9]`, over runs from
any EEPROM content. -/
namespace OledDs18b20.Thermostat.LoadOutput
open Lib Loop Control

def Matches (load : Int8) (pins : Pins) : Prop :=
  (load = 1 ∧ pins = .on) ∨ (load = 0 ∧ pins = .off)

def Follows (s : Sketch) : Prop := Matches (s.params 9) s.pins

/-- After `setup` and after every pass that handles no key the outputs follow
the command. -/
def FollowsThroughout (board : Board) (eeprom : ℕ → UInt8) (inputs : List PassInput) : Prop :=
  Follows (boot board eeprom) ∧
    ∀ visit ∈ Run.visits step (boot board eeprom) inputs,
      (loop visit.1 visit.2).handled = none → Follows (step visit.1 visit.2)

/-- The key is the load key, or edits `Params[9]` in the menu. -/
def EditsLoad (value : UInt32) (s : Sketch) : Prop :=
  Keys.Key.ofValue value = .switchHeater ∨
    (s.params 0 = 9 ∧
      (Keys.Key.ofValue value = .increase ∨ Keys.Key.ofValue value = .decrease))

/-- A menu edit that takes an unknown command to the one the outputs show. -/
def Repairs (value : UInt32) (s : Sketch) : Prop :=
  s.params 0 = 9 ∧
    ((Keys.Key.ofValue value = .increase ∧ s.params 9 = -1 ∧ s.pins = .off) ∨
      (Keys.Key.ofValue value = .decrease ∧ s.params 9 = 2 ∧ s.pins = .on))

/-- The key handled after this reading does not part the command from the outputs. -/
def KeepsLoad (celsius : ℚ) (value : UInt32) (s : Sketch) : Prop :=
  (Decided celsius s → ¬ EditsLoad value s) ∧ (¬ Decided celsius s → Repairs value s)

theorem matches_outputs (load : Int8) (pins : Pins) :
    Matches load (Control.outputs load pins) ↔ load = 0 ∨ load = 1 := by
  unfold Matches Control.outputs
  constructor
  · rintro (h | h)
    · exact .inr h.1
    · exact .inl h.1
  · rintro (rfl | rfl)
    · exact .inr ⟨rfl, rfl⟩
    · exact .inl ⟨rfl, rfl⟩

def loadAfter (key : Keys.Key) (shown load : Int8) : Int8 :=
  if key = .switchHeater then
    if load = 0 then 1 else if load = 1 then 0 else load
  else load + Keys.delta key shown 9

theorem handle_load (value : UInt32) (s : Sketch) :
    (Keys.handle value s).params 9 =
      loadAfter (Keys.Key.ofValue value) (s.params 0) (s.params 9) := by
  unfold loadAfter
  by_cases hkey : Keys.Key.ofValue value = .switchHeater
  · rw [if_pos hkey, Keys.handle, hkey, Keys.press, Keys.switchHeater]
    split_ifs
    · exact Sketch.setParam_same _ 9 1
    · exact Sketch.setParam_same _ 9 0
    · rfl
  · rw [if_neg hkey]
    exact Keys.handle_params s hkey (by decide) (by decide)

theorem handle_pins (value : UInt32) (s : Sketch) : (Keys.handle value s).pins = s.pins := by
  obtain ⟨params, eeprom, address, hhandle, _⟩ := Keys.handle_eq value s
  rw [hhandle]

/-- After a known command the outputs show it, so any change of it parts them. -/
theorem matches_known (key : Keys.Key) (shown : Int8) (pins : Pins) {load : Int8}
    (h : load = 0 ∨ load = 1) :
    Matches (loadAfter key shown load) (Control.outputs load pins) ↔
      ¬ (key = .switchHeater ∨ (shown = 9 ∧ (key = .increase ∨ key = .decrease))) := by
  by_cases hshown : shown = 9
  · rcases h with rfl | rfl <;> cases key <;>
      simp [loadAfter, Keys.delta, Matches, Control.outputs, hshown] <;> decide
  · rcases h with rfl | rfl <;> cases key <;>
      simp [loadAfter, Keys.delta, Matches, Control.outputs, hshown] <;> decide

/-- An unknown command leaves the outputs alone, and only a menu edit ends it. -/
theorem matches_unknown (key : Keys.Key) (shown : Int8) (pins : Pins) {load : Int8}
    (hoff : load ≠ 0) (hon : load ≠ 1) :
    Matches (loadAfter key shown load) (Control.outputs load pins) ↔
      shown = 9 ∧ ((key = .increase ∧ load = -1 ∧ pins = .off) ∨
        (key = .decrease ∧ load = 2 ∧ pins = .on)) := by
  have hup : load + 1 = 1 ↔ load = 0 := by grind
  have hup' : load + 1 = 0 ↔ load = -1 := by grind
  have hdown : load + -1 = 1 ↔ load = 2 := by grind
  have hdown' : load + -1 = 0 ↔ load = 1 := by grind
  unfold Matches Control.outputs
  rw [if_neg hon, if_neg hoff]
  by_cases hshown : shown = 9
  · cases key <;> simp [loadAfter, Keys.delta, hshown, hoff, hon, hup, hup', hdown, hdown']
  · cases key <;> simp [loadAfter, Keys.delta, hshown, hoff, hon]

theorem keepsLoad_iff (celsius : ℚ) (value : UInt32) (s : Sketch) :
    Matches (loadAfter (Keys.Key.ofValue value) (s.params 0) (Control.command celsius s))
        (Control.outputs (Control.command celsius s) s.pins) ↔
      KeepsLoad celsius value s := by
  unfold KeepsLoad
  by_cases hdecided : Decided celsius s
  · rw [matches_known _ _ _ (command_decided.mpr hdecided)]
    exact ⟨fun h => ⟨fun _ => h, fun hnot => absurd hdecided hnot⟩, fun h => h.1 hdecided⟩
  · have hload := mt command_decided.mp hdecided
    rw [not_or] at hload
    rw [matches_unknown _ _ _ hload.1 hload.2, command_undecided hdecided]
    exact ⟨fun h => ⟨fun hyes => absurd hyes hdecided, fun _ => h⟩, fun h => h.2 hdecided⟩

/-! The outputs after one pass, for each of the three ways it can go. -/

theorem follows_early {s : Sketch} {input : PassInput} {cause : EarlyReturn}
    (h : detect input = .error cause) : Follows (step s input) ↔ Follows s := by
  rw [step, loop_early h]
  rfl

theorem follows_keyless {s : Sketch} {input : PassInput} {typeS : UInt8} {dsNum : Fin 4}
    (h : detect input = .ok (typeS, dsNum)) (hkey : receive input.early s.irrecv = none) :
    Follows (step s input) ↔ Decided (reading typeS input) s := by
  obtain ⟨aab, hstep⟩ := step_keyless h hkey
  unfold Follows
  rw [hstep]
  dsimp only
  rw [polled_params_nine, polled_pins, matches_outputs]
  exact command_decided

theorem follows_keyed {s : Sketch} {input : PassInput} {typeS : UInt8} {dsNum : Fin 4}
    {value : UInt32} (h : detect input = .ok (typeS, dsNum))
    (hkey : receive input.early s.irrecv = some value) :
    Follows (step s input) ↔ KeepsLoad (reading typeS input) value s := by
  obtain ⟨aab, hstep⟩ := step_keyed h hkey
  unfold Follows
  rw [hstep]
  dsimp only
  rw [handle_load, handle_pins, polled_params_nine, polled_pins,
    polled_params_other _ _ _ _ (by decide)]
  exact keepsLoad_iff _ _ _

theorem follows_boot (board : Board) (eeprom : ℕ → UInt8) :
    Follows (boot board eeprom) ↔ eeprom 9 = 1 := by
  unfold Follows Matches
  rw [boot_pins, boot_params board eeprom (by decide)]
  constructor
  · rintro (⟨hload, _⟩ | ⟨_, hpins⟩)
    · exact congrArg Int8.toUInt8 hload
    · cases hpins
  · intro himage
    rw [himage]
    exact .inl ⟨rfl, rfl⟩

def Commanded (s : Sketch) (input : PassInput) : Prop :=
  ∀ typeS dsNum, detect input = .ok (typeS, dsNum) →
    receive input.early s.irrecv = none → Decided (reading typeS input) s

/-- The key handled by the pass, if there is one, keeps command and outputs together. -/
def KeyKeepsLoad (s : Sketch) (input : PassInput) : Prop :=
  ∀ typeS dsNum value, detect input = .ok (typeS, dsNum) →
    receive input.early s.irrecv = some value → KeepsLoad (reading typeS input) value s

/-- Before a pass that returns early, the pass directly before it keeps the load. -/
def KeysKeepLoad (s : Sketch) (inputs : List PassInput) : Prop :=
  ∀ earlier key lost later cause, inputs = earlier ++ key :: lost :: later →
    detect lost = .error cause → KeyKeepsLoad (Run.final step s earlier) key

section Run
variable {board : Board} {eeprom : ℕ → UInt8} {inputs : List PassInput}

theorem commanded_of_follows (h : FollowsThroughout board eeprom inputs) :
    ∀ visit ∈ Run.visits step (boot board eeprom) inputs, Commanded visit.1 visit.2 := by
  intro visit hvisit typeS dsNum hdetect hnone
  have hhandled := (handled_full (s := visit.1) hdetect).trans hnone
  exact (follows_keyless hdetect hnone).mp (h.2 visit hvisit hhandled)

theorem keysKeepLoad_of_follows (h : FollowsThroughout board eeprom inputs) :
    KeysKeepLoad (boot board eeprom) inputs := by
  intro earlier key lost later cause hinputs hlost typeS dsNum value hdetect hsome
  have hvisit : (Run.final step (boot board eeprom) (earlier ++ [key]), lost) ∈
      Run.visits step (boot board eeprom) inputs := by
    apply Run.mem_visits
    rw [hinputs, List.append_assoc]
    rfl
  have hfollows := h.2 _ hvisit (handled_early hlost)
  rw [follows_early hlost, Run.final_concat] at hfollows
  exact (follows_keyed hdetect hsome).mp hfollows

/-- The induction is on the passes before the one looked at. -/
theorem follows_after (himage : eeprom 9 = 1)
    (commanded : ∀ visit ∈ Run.visits step (boot board eeprom) inputs,
      Commanded visit.1 visit.2)
    (keys : KeysKeepLoad (boot board eeprom) inputs)
    (earlier : List PassInput) (input : PassInput) (later : List PassInput)
    (hinputs : inputs = earlier ++ input :: later)
    (hkey : (loop (Run.final step (boot board eeprom) earlier) input).handled = none) :
    Follows (step (Run.final step (boot board eeprom) earlier) input) := by
  induction earlier using List.reverseRecOn generalizing input later with
  | nil =>
      rcases detect_cases input with ⟨cause, hdetect⟩ | ⟨typeS, dsNum, hdetect⟩
      · exact (follows_early hdetect).mpr ((follows_boot board eeprom).mpr himage)
      · have hvisit := commanded _ (Run.mem_visits hinputs)
        rw [handled_full hdetect] at hkey
        exact (follows_keyless hdetect hkey).mpr (hvisit typeS dsNum hdetect hkey)
  | append_singleton earlier last ih =>
      rcases detect_cases input with ⟨cause, hdetect⟩ | ⟨typeS, dsNum, hdetect⟩
      · rw [follows_early hdetect, Run.final_concat]
        rw [List.append_assoc] at hinputs
        cases hlast : (loop (Run.final step (boot board eeprom) earlier) last).handled with
        | none => exact ih last (input :: later) hinputs hlast
        | some value =>
            rcases detect_cases last with ⟨cause', hearly⟩ | ⟨typeS, dsNum, hfull⟩
            · rw [handled_early hearly] at hlast
              cases hlast
            · rw [handled_full hfull] at hlast
              apply (follows_keyed hfull hlast).mpr
              exact keys earlier last input later cause hinputs hdetect typeS dsNum value hfull
                hlast
      · have hvisit := commanded _ (Run.mem_visits hinputs)
        rw [handled_full hdetect] at hkey
        exact (follows_keyless hdetect hkey).mpr (hvisit typeS dsNum hdetect hkey)

end Run

/-- The outputs follow the command exactly when the image commands the load on,
every command to carry out is known, and no key parts the two before a pass that
returns early. -/
theorem follows_throughout_iff (board : Board) (eeprom : ℕ → UInt8)
    (inputs : List PassInput) :
    FollowsThroughout board eeprom inputs ↔
      eeprom 9 = 1 ∧
      (∀ visit ∈ Run.visits step (boot board eeprom) inputs, Commanded visit.1 visit.2) ∧
      KeysKeepLoad (boot board eeprom) inputs := by
  constructor
  · intro h
    exact ⟨(follows_boot board eeprom).mp h.1, commanded_of_follows h,
      keysKeepLoad_of_follows h⟩
  · rintro ⟨himage, commanded, keys⟩
    refine ⟨(follows_boot board eeprom).mpr himage, ?_⟩
    intro visit hvisit hkey
    obtain ⟨earlier, later, hinputs, hstate⟩ := Run.mem_visits_iff.mp hvisit
    rw [hstate] at hkey ⊢
    exact follows_after himage commanded keys earlier visit.2 later hinputs hkey

/-- The declared settings switch the load off, and `setup` leaves it on. -/
theorem booted_load_on : ¬ FollowsThroughout benchBoard declaredImage [] := by
  intro h
  exact absurd ((follows_boot benchBoard declaredImage).mp h.1) (by decide)

end OledDs18b20.Thermostat.LoadOutput
