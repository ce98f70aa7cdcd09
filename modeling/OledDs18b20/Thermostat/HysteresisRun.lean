import OledDs18b20.Lib.Hysteresis
import OledDs18b20.Thermostat.Loop

/-! The thermostat over interleavings of readings and presses of the load key:
it runs the two-point controller between `Params[7]` and `Params[6]`. -/
namespace OledDs18b20.Thermostat.HysteresisRun
open Lib Hysteresis

def toggleCode : UInt32 := 0xFFE21D

/-- A control step with the reading, or a press of the load key. -/
def act (s : Sketch) : Event ℚ → Sketch
  | .reading celsius => Control.control celsius s
  | .toggle => Keys.handle toggleCode s

def tOn (s : Sketch) : ℚ := (s.params 7).toInt
def tOff (s : Sketch) : ℚ := (s.params 6).toInt

def load (command : Bool) : Int8 := if command then 1 else 0

/-- The thermostat is in use between these limits and commands `command`. -/
structure Regulated (low high : ℚ) (s : Sketch) (command : Bool) : Prop where
  used : s.params 8 = 1
  on : tOn s = low
  off : tOff s = high
  loadOn : s.params 9 = load command

variable {low high : ℚ} {s : Sketch} {command : Bool}

theorem command_eq_regulate (h : Regulated low high s command) (celsius : ℚ) :
    Control.command celsius s = load (regulate low high command celsius) := by
  have hcold : Control.TooCold celsius s ↔ celsius < low := by rw [← h.on]; rfl
  have hhot : Control.TooHot celsius s ↔ high < celsius := by rw [← h.off]; rfl
  unfold Control.command regulate
  simp only [h.used, h.loadOn, hcold, hhot, true_and]
  split_ifs <;> rfl

theorem control_regulated (h : Regulated low high s command) (celsius : ℚ) :
    Regulated low high (Control.control celsius s) (regulate low high command celsius) where
  used := (Control.control_params_other celsius s (by decide)).trans h.used
  on := by
    rw [tOn, Control.control_params_other celsius s (by decide)]
    exact h.on
  off := by
    rw [tOff, Control.control_params_other celsius s (by decide)]
    exact h.off
  loadOn := by
    rw [Control.control_params_nine]
    exact command_eq_regulate h celsius

theorem switchHeater_load (s : Sketch) (h : s.params 9 = load command) :
    Keys.switchHeater s = s.setParam 9 (load !command) := by
  unfold Keys.switchHeater
  rw [h]
  cases command <;> rfl

theorem toggle_regulated (h : Regulated low high s command) :
    Regulated low high (Keys.handle toggleCode s) !command := by
  have hpressed : Keys.handle toggleCode s =
      Sketch.setParam { s with results := toggleCode } 9 (load !command) :=
    switchHeater_load { s with results := toggleCode } h.loadOn
  rw [hpressed]
  constructor
  · rw [Sketch.setParam_other _ _ (by decide)]
    exact h.used
  · rw [tOn, Sketch.setParam_other _ _ (by decide)]
    exact h.on
  · rw [tOff, Sketch.setParam_other _ _ (by decide)]
    exact h.off
  · rw [Sketch.setParam_same]

theorem act_regulated (h : Regulated low high s command) (event : Event ℚ) :
    Regulated low high (act s event) (Hysteresis.step low high command event) := by
  cases event with
  | reading celsius => exact control_regulated h celsius
  | toggle => exact toggle_regulated h

theorem run_regulated (h : Regulated low high s command) (events : List (Event ℚ)) :
    Regulated low high (Run.final act s events)
      (Run.final (Hysteresis.step low high) command events) := by
  refine Run.simulation ?_ h (List.forall₂_same.mpr fun _ _ => rfl)
  rintro s command event _ regulated rfl
  exact act_regulated regulated event

theorem regulated_start (used : s.params 8 = 1) (start : s.params 9 = 0 ∨ s.params 9 = 1) :
    ∃ command, Regulated (tOn s) (tOff s) s command := by
  rcases start with hoff | hon
  · exact ⟨false, used, rfl, rfl, hoff⟩
  · exact ⟨true, used, rfl, rfl, hon⟩

theorem load_injective {first second : Bool} (h : load first = load second) :
    first = second := by
  revert h
  cases first <;> cases second <;> decide

/-! The passes of `loop` in which no other key is handled are such interleavings. -/

def passEvents (s : Sketch) (input : Loop.PassInput) : List (Event ℚ) :=
  match Loop.detect input with
  | .error _ => []
  | .ok (typeS, _) =>
      .reading (Loop.reading typeS input) ::
        if (Loop.loop s input).handled = some toggleCode then [.toggle] else []

theorem regulated_of_params {t : Sketch} (h : Regulated low high s command)
    (same : t.params = s.params) : Regulated low high t command := by
  constructor
  · rw [same]
    exact h.used
  · rw [tOn, same]
    exact h.on
  · rw [tOff, same]
    exact h.off
  · rw [same]
    exact h.loadOn

theorem polled_regulated (h : Regulated low high s command) (typeS : UInt8) (dsNum : Fin 4)
    (input : Loop.PassInput) :
    Regulated low high (Loop.polled typeS dsNum s input)
      (regulate low high command (Loop.reading typeS input)) := by
  apply regulated_of_params (control_regulated h (Loop.reading typeS input))
  rw [Loop.polled_eq, Control.control_eq]

theorem step_regulated (h : Regulated low high s command) (input : Loop.PassInput)
    (keys : ∀ value, (Loop.loop s input).handled = some value → value = toggleCode) :
    Regulated low high (Loop.step s input)
      (Run.final (Hysteresis.step low high) command (passEvents s input)) := by
  unfold passEvents
  cases Loop.outcome s input with
  | early cause dsNum irrecv detected handled left =>
      rw [detected, left]
      exact regulated_of_params h rfl
  | keyless typeS dsNum irrecv aab detected handled left =>
      rw [detected, handled, left]
      exact regulated_of_params (polled_regulated h typeS dsNum input) rfl
  | keyed typeS dsNum value irrecv aab detected handled left =>
      obtain rfl := keys value handled
      rw [detected, handled, left]
      simp only [if_true]
      have hpressed := toggle_regulated (polled_regulated h typeS dsNum input)
      exact regulated_of_params hpressed rfl

theorem loop_regulated (h : Regulated low high s command) (inputs : List Loop.PassInput)
    (keys : ∀ visit ∈ Run.visits Loop.step s inputs, ∀ value,
      (Loop.loop visit.1 visit.2).handled = some value → value = toggleCode) :
    Regulated low high (Run.final Loop.step s inputs)
      (Run.final (Hysteresis.step low high) command
        ((Run.visits Loop.step s inputs).flatMap fun visit => passEvents visit.1 visit.2)) := by
  induction inputs generalizing s command with
  | nil => exact h
  | cons input rest ih =>
      rw [Run.visits_cons, List.forall_mem_cons] at keys
      rw [Run.visits_cons, List.flatMap_cons, Run.final_append, Run.final_cons]
      exact ih (step_regulated h input keys.1) keys.2

/-- While no other key is handled, `loop` is a two-point controller: it keeps the command that
the readings of its passes and the presses of the load key make. -/
theorem passes_hysteresis (s : Sketch) (used : s.params 8 = 1)
    (start : s.params 9 = 0 ∨ s.params 9 = 1) (inputs : List Loop.PassInput)
    (keys : ∀ visit ∈ Run.visits Loop.step s inputs, ∀ value,
      (Loop.loop visit.1 visit.2).handled = some value → value = toggleCode) :
    ∃ command, s.params 9 = load command ∧
      (Run.final Loop.step s inputs).params 9 =
        load (Run.final (Hysteresis.step (tOn s) (tOff s)) command
          ((Run.visits Loop.step s inputs).flatMap fun visit => passEvents visit.1 visit.2)) := by
  obtain ⟨command, hstart⟩ := regulated_start used start
  exact ⟨command, hstart.loadOn, (loop_regulated hstart inputs keys).loadOn⟩

/-- Off at first, at 20 degrees on, off by hand, and at 20 degrees on again. -/
theorem passes_hysteresis_bench :
    (Run.final Loop.step (Loop.boot Loop.benchBoard Loop.declaredImage)
      [Loop.benchPass [], Loop.benchPass [toggleCode], Loop.benchPass []]).params 9 = 1 := by
  have hkeys : ∀ visit ∈ Run.visits Loop.step (Loop.boot Loop.benchBoard Loop.declaredImage)
      [Loop.benchPass [], Loop.benchPass [toggleCode], Loop.benchPass []], ∀ value,
      (Loop.loop visit.1 visit.2).handled = some value → value = toggleCode := by
    have hhandled : ∀ visit ∈ Run.visits Loop.step (Loop.boot Loop.benchBoard Loop.declaredImage)
        [Loop.benchPass [], Loop.benchPass [toggleCode], Loop.benchPass []],
        (Loop.loop visit.1 visit.2).handled = none ∨
          (Loop.loop visit.1 visit.2).handled = some toggleCode := by
      simp only [Run.visits_cons, Run.visits_nil, List.forall_mem_cons, List.not_mem_nil,
        false_imp_iff, implies_true, and_true]
      exact ⟨.inl (by decide +kernel), .inr (by decide +kernel), .inl (by decide +kernel)⟩
    intro visit hvisit value hvalue
    rcases hhandled visit hvisit with hnone | hsome
    · rw [hnone] at hvalue
      contradiction
    · exact Option.some.inj (hvalue.symm.trans hsome)
  obtain ⟨command, -, hload⟩ := passes_hysteresis _ (by decide +kernel) (.inl (by decide +kernel))
    _ hkeys
  rw [hload]
  cases command <;> decide +kernel

/-- The reading changes the load command. -/
def Switches (s : Sketch) (celsius : ℚ) : Prop :=
  (Control.control celsius s).params 9 ≠ s.params 9

theorem switches_iff (h : Regulated low high s command) (celsius : ℚ) :
    Switches s celsius ↔ regulate low high command celsius ≠ command := by
  unfold Switches
  rw [(control_regulated h celsius).loadOn, h.loadOn]
  exact not_congr ⟨load_injective, congrArg load⟩

theorem control_steady (h : Regulated low high s command) {celsius : ℚ}
    (steady : ¬ Switches s celsius) : Regulated low high (Control.control celsius s) command := by
  have hkeep : regulate low high command celsius = command :=
    not_not.mp ((switches_iff h celsius).not.mp steady)
  have hafter := control_regulated h celsius
  rw [hkeep] at hafter
  exact hafter

theorem steady_regulated (h : Regulated low high s command) (readings : List ℚ)
    (steady : ∀ visit ∈ Run.visits (flip Control.control) s readings,
      ¬ Switches visit.1 visit.2) :
    Regulated low high (Run.final (flip Control.control) s readings) command := by
  have hstep : ∀ (t : Sketch) (celsius : ℚ), Regulated low high t command →
      ¬ Switches t celsius → Regulated low high (flip Control.control t celsius) command :=
    fun t celsius regulated quiet => control_steady regulated quiet
  exact (Run.invariant hstep h steady).2

/-- Successive switchings come from opposite sides of the band. -/
theorem switchings_opposite (h : Regulated low high s command) {first second : ℚ}
    (between : List ℚ) (hfirst : Switches s first)
    (steady : ∀ visit ∈ Run.visits (flip Control.control)
      (Control.control first s) between, ¬ Switches visit.1 visit.2)
    (hsecond : Switches (Run.final (flip Control.control)
      (Control.control first s) between) second) :
    (first < low ∧ high < second) ∨ (high < first ∧ second < low) := by
  have hafter := control_regulated h first
  have hbetween := steady_regulated hafter between steady
  apply opposite_sides
  · exact (switches_iff h first).mp hfirst
  · exact (switches_iff hbetween second).mp hsecond

/-- Inside the band the command is the one of the last decisive event, outside
it the reading decides; with crossed limits only `T Off` counts. The readings
are any rationals; those of a sensor are multiples of 1/16. -/
theorem hysteresis (s : Sketch) (used : s.params 8 = 1)
    (start : s.params 9 = 0 ∨ s.params 9 = 1) (earlier : List (Event ℚ)) :
    let before := Run.final act s earlier
    (tOn s ≤ tOff s →
      (∀ celsius < tOn s, (Control.control celsius before).params 9 = 1) ∧
      (∀ celsius > tOff s, (Control.control celsius before).params 9 = 0) ∧
      (∀ (event : Event ℚ) (quiet : List (Event ℚ)) (celsius : ℚ),
        Decisive (tOn s) (tOff s) event →
        (∀ later ∈ quiet, ¬ Decisive (tOn s) (tOff s) later) →
        tOn s ≤ celsius → celsius ≤ tOff s →
        (Control.control celsius (Run.final act before (event :: quiet))).params 9 =
          (act before event).params 9) ∧
      ((∀ event ∈ earlier, ¬ Decisive (tOn s) (tOff s) event) →
        ∀ celsius, tOn s ≤ celsius → celsius ≤ tOff s →
        (Control.control celsius before).params 9 = s.params 9) ∧
      (act before .toggle).params 9 = (if before.params 9 = 1 then 0 else 1) ∧
      ∀ (first second : ℚ) (between : List ℚ), Switches before first →
        (∀ visit ∈ Run.visits (flip Control.control)
          (Control.control first before) between, ¬ Switches visit.1 visit.2) →
        Switches (Run.final (flip Control.control)
          (Control.control first before) between) second →
        (first < tOn s ∧ tOff s < second) ∨ (tOff s < first ∧ second < tOn s)) ∧
    (tOff s < tOn s →
      ∀ celsius, (Control.control celsius before).params 9 = 1 ↔ celsius ≤ tOff s) := by
  obtain ⟨initial, hstart⟩ := regulated_start used start
  have hbefore := run_regulated hstart earlier
  intro before
  change Regulated _ _ before _ at hbefore
  refine ⟨fun ordered => ⟨?_, ?_, ?_, ?_, ?_, ?_⟩, ?_⟩
  · intro celsius hcold
    rw [(control_regulated hbefore celsius).loadOn, regulate_below ordered hcold]
    rfl
  · intro celsius hhot
    rw [(control_regulated hbefore celsius).loadOn, regulate_above hhot]
    rfl
  · intro event quiet celsius _ hquiet hlow hhigh
    have hevent := act_regulated hbefore event
    have hrun := run_regulated hbefore (event :: quiet)
    rw [final_cons_quiet event hquiet] at hrun
    rw [(control_regulated hrun celsius).loadOn, regulate_inside hlow hhigh, hevent.loadOn]
  · intro hquiet celsius hlow hhigh
    rw [final_quiet hquiet] at hbefore
    rw [(control_regulated hbefore celsius).loadOn, regulate_inside hlow hhigh,
      hstart.loadOn]
  · rw [act, (toggle_regulated hbefore).loadOn, hbefore.loadOn]
    cases Run.final (Hysteresis.step (tOn s) (tOff s)) initial earlier <;> rfl
  · intro first second between hfirst steady hsecond
    exact switchings_opposite hbefore between hfirst steady hsecond
  · intro crossed celsius
    rw [(control_regulated hbefore celsius).loadOn, ← regulate_crossed crossed]
    cases regulate (tOn s) (tOff s) _ celsius <;> simp [load]

/-- Switched on at 20 degrees and off again by hand: at 30 degrees, inside the
declared band, the load stays off. -/
theorem hysteresis_toggled_off :
    let booted := Loop.boot Loop.benchBoard Loop.declaredImage
    (Control.control 30 (Run.final act booted [.reading 20, .toggle, .reading 30])).params 9 =
      (act (Run.final act booted [.reading 20]) .toggle).params 9 := by
  intro booted
  have hparam : ∀ index < paramCount,
      booted.params index = (Loop.declaredImage index).toInt8 :=
    fun index hindex => Loop.boot_params Loop.benchBoard Loop.declaredImage hindex
  have hon : tOn booted = 29 := by
    rw [tOn, hparam 7 (by decide)]
    rfl
  have hoff : tOff booted = 31 := by
    rw [tOff, hparam 6 (by decide)]
    rfl
  have hused : booted.params 8 = 1 := (hparam 8 (by decide)).trans (by decide)
  have hstart : booted.params 9 = 0 := (hparam 9 (by decide)).trans (by decide)
  have hband := (hysteresis booted hused (.inl hstart) [.reading 20]).1
  rw [hon, hoff] at hband
  refine (hband (by norm_num)).2.2.1 .toggle [.reading 30] 30 trivial ?_ ?_ ?_
  · simp [Decisive]
    norm_num
  · norm_num
  · norm_num

end OledDs18b20.Thermostat.HysteresisRun
