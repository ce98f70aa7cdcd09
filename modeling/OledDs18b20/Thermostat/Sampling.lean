import OledDs18b20.Lib.Counting
import OledDs18b20.Lib.Period
import OledDs18b20.Thermostat.Loop

/-! How often a pass writes a sample: `TimeLogCounter` against the threshold in
`Params[12]`, both signed bytes. -/
namespace OledDs18b20.Thermostat.Sampling
open Lib Loop

/-- For each pass of a run that reaches the logging code, whether it writes. -/
def writes (s : Sketch) (inputs : List PassInput) : List Bool :=
  (Run.visits step s inputs).filterMap fun visit =>
    if (loop visit.1 visit.2).returned = none then
      some (loop visit.1 visit.2).sampled.isSome
    else none

/-- Every pass finds the threshold at `n` and one of the three graph types. -/
def Held (n : ℕ) (s : Sketch) (inputs : List PassInput) : Prop :=
  ∀ visit ∈ Run.visits step s inputs, visit.1.params 12 = Int8.ofNat n ∧
    (visit.1.params 2 = 1 ∨ visit.1.params 2 = 2 ∨ visit.1.params 2 = 3)

/-- The counter alone, over a number of passes. -/
def trips (threshold : Int8) : Int8 → ℕ → List Bool
  | _, 0 => []
  | counter, passes + 1 =>
      decide (threshold < counter + 1) ::
        trips threshold (if threshold < counter + 1 then 0 else counter + 1) passes

@[simp] theorem trips_length (threshold counter : Int8) (passes : ℕ) :
    (trips threshold counter passes).length = passes := by
  induction passes generalizing counter with
  | zero => rfl
  | succ passes ih => rw [trips, List.length_cons, ih]

theorem writes_cons_early {s : Sketch} {input : PassInput} {cause : EarlyReturn}
    (rest : List PassInput) (h : detect input = .error cause) :
    writes s (input :: rest) = writes (step s input) rest := by
  unfold writes
  rw [Run.visits_cons, List.filterMap_cons, loop_early h]
  rfl

theorem writes_cons_full {s : Sketch} {input : PassInput} {typeS : UInt8} {dsNum : Fin 4}
    (rest : List PassInput) (h : detect input = .ok (typeS, dsNum)) :
    writes s (input :: rest) =
      (Control.sample (reading typeS input) s).isSome :: writes (step s input) rest := by
  unfold writes
  rw [Run.visits_cons, List.filterMap_cons, loop_full h]
  rfl

theorem tripped_iff {s : Sketch} {n : ℕ} (hheld : s.params 12 = Int8.ofNat n) :
    Control.Tripped s ↔ Int8.ofNat n < s.timeLogCounter + 1 := by
  rw [← hheld]
  rfl

theorem sample_isSome (celsius : ℚ) {s : Sketch} {n : ℕ} (hheld : s.params 12 = Int8.ofNat n)
    (hgraph : s.params 2 = 1 ∨ s.params 2 = 2 ∨ s.params 2 = 3) :
    (Control.sample celsius s).isSome = decide (Int8.ofNat n < s.timeLogCounter + 1) := by
  simp only [Control.sample, tripped_iff hheld]
  by_cases htrip : Int8.ofNat n < s.timeLogCounter + 1
  · simp [htrip, hgraph]
  · simp [htrip]

/-- Only the counter and the threshold decide which passes write. -/
theorem writes_eq_trips {n : ℕ} {s : Sketch} {inputs : List PassInput} (held : Held n s inputs) :
    writes s inputs = trips (Int8.ofNat n) s.timeLogCounter (writes s inputs).length := by
  induction inputs generalizing s with
  | nil => rfl
  | cons input rest ih =>
      unfold Held at held ih
      rw [Run.visits_cons, List.forall_mem_cons] at held
      obtain ⟨⟨hthreshold, hgraph⟩, hrest⟩ := held
      have hlater := ih hrest
      rcases detect_cases input with ⟨cause, hdetect⟩ | ⟨typeS, dsNum, hdetect⟩
      · have hcounter : (step s input).timeLogCounter = s.timeLogCounter := by
          rw [step, loop_early hdetect]
          rfl
        rw [hcounter] at hlater
        rw [writes_cons_early rest hdetect]
        exact hlater
      · rw [step_timeLogCounter hdetect] at hlater
        simp only [Control.nextCounter, tripped_iff hthreshold] at hlater
        rw [writes_cons_full rest hdetect, sample_isSome _ hthreshold hgraph,
          List.length_cons, trips, ← hlater]

/-! The counter as a byte. -/

theorem toInt_add_one {counter : Int8} (h : counter.toInt < 127) :
    (counter + 1).toInt = counter.toInt + 1 :=
  Counting.int8.val_next counter h

/-- A counter below the threshold climbs to it without a write. -/
theorem trips_climbing {n : ℕ} (hn : n < 128) (counter : Int8) (passes place : ℕ)
    (h : counter.toInt + place + 1 ≤ n)
    (hplace : place < (trips (Int8.ofNat n) counter passes).length) :
    (trips (Int8.ofNat n) counter passes)[place] = false := by
  induction passes generalizing counter place with
  | zero => exact absurd hplace (Nat.not_lt_zero place)
  | succ passes ih =>
      have hnext := toInt_add_one (show counter.toInt < 127 by omega)
      have hquiet : ¬ Int8.ofNat n < counter + 1 := by
        rw [Int8.lt_iff_toInt_lt, Int8.toInt_ofNat_of_lt hn, hnext]
        omega
      cases place with
      | zero => simp only [trips, List.getElem_cons_zero, hquiet, decide_false]
      | succ place =>
          simp only [trips, List.getElem_cons_succ, hquiet, if_false]
          apply ih
          rw [hnext]
          omega

/-- No signed byte is above 127. -/
theorem trips_highest (counter : Int8) (passes place : ℕ)
    (hplace : place < (trips (Int8.ofNat 127) counter passes).length) :
    (trips (Int8.ofNat 127) counter passes)[place] = false := by
  induction passes generalizing counter place with
  | zero => exact absurd hplace (Nat.not_lt_zero place)
  | succ passes ih =>
      have hquiet : ¬ Int8.ofNat 127 < counter + 1 := by
        rw [Int8.lt_iff_toInt_lt, Int8.toInt_ofNat_of_lt (by decide)]
        have hhigh := (counter + 1).toInt_lt
        omega
      cases place with
      | zero => simp only [trips, List.getElem_cons_zero, hquiet, decide_false]
      | succ place =>
          simp only [trips, List.getElem_cons_succ, hquiet, if_false]
          exact ih _ _ _

/-- The counter and the threshold from which sampling is regular. -/
def Regular (n : ℕ) (counter : Int8) : Prop :=
  n ≤ 126 ∧ 0 ≤ counter ∧ counter < 127

theorem trips_silent {n : ℕ} (hn : n < 128) {counter : Int8} (h : ¬ Regular n counter)
    (passes place : ℕ) (hplace : place < (trips (Int8.ofNat n) counter passes).length)
    (hearly : place < n + 1) : (trips (Int8.ofNat n) counter passes)[place] = false := by
  unfold Regular at h
  by_cases htop : n = 127
  · subst htop
    exact trips_highest counter passes place hplace
  · by_cases hnegative : counter < 0
    · rw [Int8.lt_iff_toInt_lt, Int8.toInt_zero] at hnegative
      exact trips_climbing hn counter passes place (by omega) hplace
    · have hlast : counter = 127 := by grind
      subst hlast
      cases passes with
      | zero => exact absurd hplace (Nat.not_lt_zero place)
      | succ passes =>
          have hwrapped : ¬ Int8.ofNat n < (127 : Int8) + 1 := by
            rw [Int8.lt_iff_toInt_lt, Int8.toInt_ofNat_of_lt hn]
            have hlowest : ((127 : Int8) + 1).toInt = -128 := rfl
            omega
          cases place with
          | zero => simp only [trips, List.getElem_cons_zero, hwrapped, decide_false]
          | succ place =>
              simp only [trips, List.getElem_cons_succ, hwrapped, if_false]
              apply trips_climbing hn
              have hlowest : ((127 : Int8) + 1).toInt = -128 := rfl
              omega

/-- In the regular range the byte counts like a natural number. -/
theorem trips_eq_ticks {n : ℕ} {counter : Int8} (h : Regular n counter) (passes : ℕ) :
    trips (Int8.ofNat n) counter passes =
      Period.ticks (n + 1) (min counter.toNatClampNeg n) passes := by
  induction passes generalizing counter with
  | zero => rfl
  | succ passes ih =>
      obtain ⟨hn, hnonneg, hlt⟩ := h
      have hint := SignedIndex.toInt_eq_toNatClampNeg hnonneg
      have hsucc := SignedIndex.toNatClampNeg_add_one hnonneg hlt
      have hnext : 0 ≤ counter + 1 := by grind
      have htrip : Int8.ofNat n < counter + 1 ↔ n ≤ counter.toNatClampNeg := by
        rw [Int8.lt_iff_toInt_lt, Int8.toInt_ofNat_of_lt (by omega),
          SignedIndex.toInt_eq_toNatClampNeg hnext, hsucc]
        omega
      rw [trips, Period.ticks]
      by_cases hreached : n ≤ counter.toNatClampNeg
      · have hmin : min counter.toNatClampNeg n = n := Nat.min_eq_right hreached
        have hzero : Regular n 0 := ⟨hn, by decide, by decide⟩
        rw [if_pos (htrip.mpr hreached), ih hzero, hmin, Period.tick, if_pos rfl]
        simp [htrip, hreached]
      · have hmin : min counter.toNatClampNeg n = counter.toNatClampNeg :=
          Nat.min_eq_left (by omega)
        have hmin' : min (counter + 1).toNatClampNeg n = counter.toNatClampNeg + 1 := by
          rw [hsucc]
          exact Nat.min_eq_left (by omega)
        have hregular : Regular n (counter + 1) := by
          refine ⟨hn, hnext, ?_⟩
          rw [Int8.lt_iff_toInt_lt, SignedIndex.toInt_eq_toNatClampNeg hnext, hsucc]
          change _ < (127 : ℤ)
          omega
        have hother : counter.toNatClampNeg ≠ n := by omega
        rw [if_neg (mt htrip.mp hreached), ih hregular, hmin, hmin', Period.tick,
          if_neg (mt Nat.succ.inj hother)]
        simp [htrip, hreached, hother]

theorem trips_periodic_iff {n : ℕ} (hn : n < 128) (counter : Int8) (passes : ℕ) :
    Period.Periodic (n + 1) (trips (Int8.ofNat n) counter passes) ↔
      Regular n counter ∨ passes ≤ n := by
  by_cases hregular : Regular n counter
  · refine iff_of_true ?_ (.inl hregular)
    rw [trips_eq_ticks hregular]
    exact Period.ticks_periodic (by omega) passes
  · rw [or_iff_right hregular]
    have hsilent := trips_silent hn hregular passes
    constructor
    · intro hperiodic
      by_contra hlong
      refine Period.not_periodic ?_ hsilent hperiodic
      rw [trips_length]
      omega
    · intro hshort
      apply Period.periodic_of_silent
      · rw [trips_length]
        omega
      · intro place hplace
        refine hsilent place hplace ?_
        rw [trips_length] at hplace
        omega

/-- The log that a pass leaves has its sample recorded, if it takes one. -/
def Logged (visit : Sketch × PassInput) : Prop :=
  (step visit.1 visit.2).log = (loop visit.1 visit.2).sampled.elim visit.1.log
    fun value => visit.1.log.record (visit.1.params 2) value

theorem logged (visit : Sketch × PassInput) : Logged visit := by
  obtain ⟨s, input⟩ := visit
  unfold Logged
  dsimp only
  rcases detect_cases input with ⟨cause, hdetect⟩ | ⟨typeS, dsNum, hdetect⟩
  · rw [step, loop_early hdetect]
    rfl
  · have hsampled : (loop s input).sampled = Control.sample (reading typeS input) s := by
      rw [loop_full hdetect]
      rfl
    rw [step_log hdetect, hsampled, Control.nextLog_of_sample]
    cases Control.sample (reading typeS input) s with
    | none => rfl
    | some value => rfl

/-- With the threshold held at `n`, every `n + 1`-th completed pass writes a
sample exactly when `n` is below 127 and the counter starts between 0 and 126,
or when the run is too short for a sample. What is written is in the log. -/
theorem sampling_periodic_iff (n : ℕ) (hn : n < 128) (s : Sketch) (inputs : List PassInput)
    (held : Held n s inputs) :
    (Period.Periodic (n + 1) (writes s inputs) ↔
      (n ≤ 126 ∧ 0 ≤ s.timeLogCounter ∧ s.timeLogCounter < 127) ∨
        (writes s inputs).length ≤ n) ∧
      ∀ visit ∈ Run.visits step s inputs, Logged visit := by
  have hiff := trips_periodic_iff hn s.timeLogCounter (writes s inputs).length
  rw [← writes_eq_trips held] at hiff
  exact ⟨hiff, fun visit _ => logged visit⟩

/-! Undisturbed passes on the bench. -/

theorem quiet_detected : detect (benchPass []) = .ok (0, 1) := by decide +kernel

/-- Without a key every pass meets the settings that `setup` loaded. -/
def Quiet (n : ℕ) (s : Sketch) : Prop :=
  s.irrecv = none ∧ s.params 12 = Int8.ofNat n ∧ s.params 2 = 1

theorem quiet_step {n : ℕ} {s : Sketch} (h : Quiet n s) : Quiet n (step s (benchPass [])) := by
  obtain ⟨aab, hstep⟩ := step_keyless quiet_detected (show receive [] s.irrecv = none from h.1)
  rw [hstep]
  refine ⟨rfl, ?_, ?_⟩
  · exact (polled_params_other _ _ _ _ (by decide)).trans h.2.1
  · exact (polled_params_other _ _ _ _ (by decide)).trans h.2.2

theorem quiet_held {n : ℕ} (passes : ℕ) {s : Sketch} (h : Quiet n s) :
    Held n s (List.replicate passes (benchPass [])) := by
  unfold Held
  induction passes generalizing s with
  | zero => simp
  | succ passes ih =>
      rw [List.replicate_succ, Run.visits_cons, List.forall_mem_cons]
      exact ⟨⟨h.2.1, .inl h.2.2⟩, ih (quiet_step h)⟩

theorem quiet_writes_length (passes : ℕ) (s : Sketch) :
    (writes s (List.replicate passes (benchPass []))).length = passes := by
  induction passes generalizing s with
  | zero => rfl
  | succ passes ih =>
      rw [List.replicate_succ, writes_cons_full _ quiet_detected, List.length_cons, ih]

theorem quiet_boot (n : ℕ) :
    Quiet n (boot benchBoard (Function.update declaredImage 12 (Int8.ofNat n).toUInt8)) := by
  refine ⟨boot_irrecv _ _, ?_, ?_⟩
  · rw [boot_params _ _ (by decide), Function.update_self]
    rfl
  · rw [boot_params _ _ (by decide), Function.update_of_ne (by decide)]
    decide

theorem sampling_periodic_iff_declared :
    (Period.Periodic 6 (writes (boot benchBoard (Function.update declaredImage 12 5))
        (List.replicate 20 (benchPass []))) ↔
      (5 ≤ 126 ∧ 0 ≤ (boot benchBoard (Function.update declaredImage 12 5)).timeLogCounter ∧
        (boot benchBoard (Function.update declaredImage 12 5)).timeLogCounter < 127) ∨
      (writes (boot benchBoard (Function.update declaredImage 12 5))
        (List.replicate 20 (benchPass []))).length ≤ 5) ∧
    ∀ visit ∈ Run.visits step (boot benchBoard (Function.update declaredImage 12 5))
      (List.replicate 20 (benchPass [])), Logged visit :=
  sampling_periodic_iff 5 (by decide) _ _ (quiet_held 20 (quiet_boot 5))

/-- With the threshold at 127 the first 128 passes write nothing. -/
theorem highest_threshold_never_samples :
    ¬ (Held 127 (boot benchBoard (Function.update declaredImage 12 127))
          (List.replicate 128 (benchPass [])) →
        Period.Periodic 128 (writes (boot benchBoard (Function.update declaredImage 12 127))
          (List.replicate 128 (benchPass [])))) := by
  intro periodic
  have held : Held 127 (boot benchBoard (Function.update declaredImage 12 127))
      (List.replicate 128 (benchPass [])) := quiet_held 128 (quiet_boot 127)
  have hperiodic := periodic held
  rw [writes_eq_trips held, quiet_writes_length, trips_periodic_iff (by decide)] at hperiodic
  rcases hperiodic with hregular | hshort
  · exact absurd hregular.1 (by decide)
  · exact absurd hshort (by decide)

end OledDs18b20.Thermostat.Sampling
