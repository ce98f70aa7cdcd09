import OledDs18b20.Thermostat.Loop

/-! The settings image: what the save key writes, that nothing else writes it,
and what the next power-up reads back. -/
namespace OledDs18b20.Thermostat.SaveReboot
open Lib Loop

/-- The pass handles the save key. -/
def Saves (s : Sketch) (input : PassInput) : Prop :=
  ∃ value, (loop s input).handled = some value ∧ Keys.Key.ofValue value = .save

theorem handle_save {value : UInt32} (s : Sketch) (h : Keys.Key.ofValue value = .save) :
    (Keys.handle value s).eeprom = fun index =>
      if index < paramCount then (Function.update s.params 0 0 index).toUInt8
      else s.eeprom index := by
  rw [Keys.handle, h, Keys.press, Keys.save_eq]

theorem handle_not_save {value : UInt32} (s : Sketch)
    (h : Keys.Key.ofValue value ≠ .save) : (Keys.handle value s).eeprom = s.eeprom := by
  obtain ⟨params, eeprom, address, hhandle, hsame⟩ := Keys.handle_eq value s
  rw [hhandle]
  exact (hsame h).1

theorem step_not_saves {s : Sketch} {input : PassInput} (h : ¬ Saves s input) :
    (step s input).eeprom = s.eeprom := by
  cases outcome s input with
  | early cause dsNum irrecv detected handled left => rw [left]
  | keyless typeS dsNum irrecv aab detected handled left =>
      rw [left]
      dsimp only
      rw [polled_eeprom]
  | keyed typeS dsNum value irrecv aab detected handled left =>
      have hkey : Keys.Key.ofValue value ≠ .save := fun hsave => h ⟨value, handled, hsave⟩
      rw [left]
      dsimp only
      rw [handle_not_save _ hkey, polled_eeprom]

theorem step_saves {s : Sketch} {input : PassInput} (h : Saves s input) :
    (step s input).eeprom = fun index =>
      if index < paramCount then
        (Function.update (atKeys s input).params 0 0 index).toUInt8
      else s.eeprom index := by
  obtain ⟨saved, hsaved, hkey⟩ := h
  cases outcome s input with
  | early cause dsNum irrecv detected handled left => simp [handled] at hsaved
  | keyless typeS dsNum irrecv aab detected handled left => simp [handled] at hsaved
  | keyed typeS dsNum value irrecv aab detected handled left =>
      obtain rfl := Option.some.inj (handled.symm.trans hsaved)
      rw [left, atKeys_eq detected]
      dsimp only
      rw [handle_save _ hkey, polled_eeprom]

/-- A pass leaves every byte behind the image as it is. -/
theorem step_behind_image (s : Sketch) (input : PassInput) {index : ℕ}
    (h : paramCount ≤ index) : (step s input).eeprom index = s.eeprom index := by
  by_cases hsave : Saves s input
  · rw [step_saves hsave]
    exact if_neg (Nat.not_lt.mpr h)
  · rw [step_not_saves hsave]

theorem run_behind_image (s : Sketch) (inputs : List PassInput) {index : ℕ}
    (h : paramCount ≤ index) :
    (Run.final step s inputs).eeprom index = s.eeprom index := by
  have hstep : ∀ (t : Sketch) (input : PassInput), t.eeprom index = s.eeprom index →
      (step t input).eeprom index = s.eeprom index :=
    fun t input kept => (step_behind_image t input h).trans kept
  exact Run.invariant_always inputs hstep rfl

theorem run_not_saves {s : Sketch} {inputs : List PassInput}
    (h : ∀ visit ∈ Run.visits step s inputs, ¬ Saves visit.1 visit.2) :
    (Run.final step s inputs).eeprom = s.eeprom := by
  have hstep : ∀ (t : Sketch) (input : PassInput), t.eeprom = s.eeprom →
      ¬ Saves t input → (step t input).eeprom = s.eeprom :=
    fun t input kept unsaved => (step_not_saves unsaved).trans kept
  exact (Run.invariant hstep rfl h).2

/-- A power-up after any run without a further save restores the settings of
the moment the save key was handled, with the menu closed. -/
theorem save_then_boot (board : Board) (s : Sketch) (input : PassInput)
    (later : List PassInput) (saved : Saves s input)
    (unsaved : ∀ visit ∈ Run.visits step (step s input) later, ¬ Saves visit.1 visit.2) :
    let rebooted := boot board (Run.final step (step s input) later).eeprom
    rebooted.params 0 = 0 ∧
      (∀ index, 1 ≤ index → index < paramCount →
        rebooted.params index = (atKeys s input).params index) ∧
      ∀ (t : Sketch) (inputs : List PassInput) (index : ℕ), paramCount ≤ index →
        (Run.final step t inputs).eeprom index = t.eeprom index ∧
          (boot board t.eeprom).eeprom index = t.eeprom index := by
  intro rebooted
  have himage : (Run.final step (step s input) later).eeprom = fun index =>
      if index < paramCount then
        (Function.update (atKeys s input).params 0 0 index).toUInt8
      else s.eeprom index :=
    (run_not_saves unsaved).trans (step_saves saved)
  have hrestored : ∀ index, index < paramCount →
      rebooted.params index = Function.update (atKeys s input).params 0 0 index := by
    intro index hindex
    rw [boot_params board _ hindex, himage]
    simp [hindex]
  refine ⟨?_, ?_, ?_⟩
  · rw [hrestored 0 (by decide), Function.update_self]
  · intro index hpos hindex
    rw [hrestored index hindex, Function.update_of_ne (by omega)]
  · intro t inputs index hindex
    exact ⟨run_behind_image t inputs hindex, by rw [boot_eeprom]⟩

/-- Saved on the bench with the upper limit lowered to -1 below zero. -/
theorem save_then_boot_bench :
    (boot benchBoard (Run.final step
      (step (boot benchBoard (Function.update declaredImage 7 255)) (benchPass [0xFF38C7]))
      [benchPass [0xFFE21D], lostPass []]).eeprom).params 7 = -1 := by
  have hsaved : Saves (boot benchBoard (Function.update declaredImage 7 255))
      (benchPass [0xFF38C7]) := ⟨0xFF38C7, by decide +kernel, by decide⟩
  have hunsaved : ∀ visit ∈ Run.visits step
      (step (boot benchBoard (Function.update declaredImage 7 255)) (benchPass [0xFF38C7]))
      [benchPass [0xFFE21D], lostPass []], ¬ Saves visit.1 visit.2 := by
    simp only [Run.visits_cons, Run.visits_nil, List.forall_mem_cons, List.not_mem_nil,
      false_imp_iff, implies_true, and_true]
    refine ⟨?_, ?_⟩
    · rintro ⟨value, hhandled, hkey⟩
      have hvalue : value = 0xFFE21D := Option.some.inj (hhandled.symm.trans (by decide +kernel))
      subst hvalue
      exact absurd hkey (by decide)
    · rintro ⟨value, hhandled, _⟩
      have hlost : detect (lostPass []) = .error .noDevice := rfl
      rw [loop_early hlost] at hhandled
      cases hhandled
  have hrestored := (save_then_boot benchBoard _ _ _ hsaved hunsaved).2.1 7
    (by decide) (by decide)
  exact hrestored.trans (by decide +kernel)

end OledDs18b20.Thermostat.SaveReboot
