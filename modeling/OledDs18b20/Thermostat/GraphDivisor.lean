import OledDs18b20.Thermostat.Loop

/-! The scale of graph type 3, which divides by the difference of the limits in
`Params[4]` and `Params[5]`, over runs of keys. -/
namespace OledDs18b20.Thermostat.GraphDivisor
open Lib Loop Keys

/-- What the picture divides by is not zero, if it divides. -/
def Apart (shown graphType high low : Int8) : Prop :=
  shown = 0 → graphType = 3 → high ≠ low

def LimitsApart (s : Sketch) : Prop :=
  Apart (s.params 0) (s.params 2) (s.params 4) (s.params 5)

/-- No page of the picture ends in the division by zero. -/
def Drawn (s : Sketch) (input : PassInput) : Prop :=
  ∀ page ∈ (loop s input).frame, page.fault ≠ some .divisionByZero

/-- The key does not bring the limits together on the main screen, and does not
open the main screen on equal limits. -/
def KeepsApart (key : Key) (s : Sketch) : Prop :=
  match key with
  | .maxDown => s.params 0 = 0 → s.params 2 = 3 → s.params 4 ≠ s.params 5 + 1
  | .maxUp => s.params 0 = 0 → s.params 2 = 3 → s.params 4 + 1 ≠ s.params 5
  | .minDown => s.params 0 = 0 → s.params 2 = 3 → s.params 4 + 1 ≠ s.params 5
  | .minUp => s.params 0 = 0 → s.params 2 = 3 → s.params 4 ≠ s.params 5 + 1
  | .menu => 1 ≤ s.params 0 → s.params 2 = 3 → s.params 4 ≠ s.params 5
  | .next => s.params 0 = -1 → s.params 2 = 3 → s.params 4 ≠ s.params 5
  | .save => s.params 2 = 3 → s.params 4 ≠ s.params 5
  | _ => True

def KeyKeepsApart (s : Sketch) (input : PassInput) : Prop :=
  ∀ chip value, detect input = .ok chip → receive input.early s.irrecv = some value →
    KeepsApart (Key.ofValue value) s

theorem page_drawn_iff (ypos : Int8) (s : Sketch) :
    (Draw.page ypos s).fault ≠ some .divisionByZero ↔ LimitsApart s := by
  unfold Draw.page LimitsApart Apart
  by_cases hmain : s.params 0 = 0
  · rw [if_pos hmain, Draw.mainScreen_fault]
    by_cases hequal : s.params 2 = 3 ∧ s.params 4 = s.params 5
    · simp [hmain, hequal]
    · rw [if_neg hequal]
      simpa [hmain] using hequal
  · rw [if_neg hmain]
    refine iff_of_true ?_ (fun h => absurd h hmain)
    split_ifs
    · exact Draw.menuScreen_never_divides s
    · simp

theorem handle_apart (value : UInt32) {s : Sketch} (h : LimitsApart s) :
    LimitsApart (handle value s) ↔ KeepsApart (Key.ofValue value) s := by
  unfold LimitsApart Apart at h ⊢
  rw [handle_index]
  by_cases hload : Key.ofValue value = .switchHeater
  · obtain ⟨load, hswitch⟩ := switchHeater_eq { s with results := value }
    rw [handle, hload, press, hswitch]
    exact iff_of_true h trivial
  · have hparam : ∀ index, 1 < index → index < 128 → (handle value s).params index =
        s.params index + delta (Key.ofValue value) (s.params 0) index :=
      fun index => handle_params s hload
    rw [hparam 2 (by decide) (by decide), hparam 4 (by decide) (by decide),
      hparam 5 (by decide) (by decide)]
    generalize Key.ofValue value = key
    cases key with
    | maxDown | maxUp | minDown | minUp | menu | next | previous | increase | decrease =>
        simp only [KeepsApart, indexAfter, delta]
        grind
    | save => simp [KeepsApart, indexAfter, delta]
    | _ => simpa [KeepsApart, indexAfter, delta] using h

theorem polled_apart {s : Sketch} (h : LimitsApart s) (typeS : UInt8) (dsNum : Fin 4)
    (input : PassInput) : LimitsApart (polled typeS dsNum s input) := by
  unfold LimitsApart
  simp only [polled_params_other _ _ _ _ (show 0 ≠ 9 by decide),
    polled_params_other _ _ _ _ (show 2 ≠ 9 by decide),
    polled_params_other _ _ _ _ (show 4 ≠ 9 by decide),
    polled_params_other _ _ _ _ (show 5 ≠ 9 by decide)]
  exact h

theorem keepsApart_polled (key : Key) (s : Sketch) (typeS : UInt8) (dsNum : Fin 4)
    (input : PassInput) : KeepsApart key (polled typeS dsNum s input) ↔ KeepsApart key s := by
  unfold KeepsApart
  simp only [polled_params_other _ _ _ _ (show 0 ≠ 9 by decide),
    polled_params_other _ _ _ _ (show 2 ≠ 9 by decide),
    polled_params_other _ _ _ _ (show 4 ≠ 9 by decide),
    polled_params_other _ _ _ _ (show 5 ≠ 9 by decide)]

/-- From limits apart, a step keeps them apart exactly when its key does. -/
theorem step_apart_iff {s : Sketch} (h : LimitsApart s) (input : PassInput) :
    LimitsApart (step s input) ↔ KeyKeepsApart s input := by
  cases outcome s input with
  | early cause dsNum irrecv detected handled left =>
      refine iff_of_true ?_ ?_
      · rw [left]
        exact h
      · intro chip value hdetect
        rw [detected] at hdetect
        cases hdetect
  | keyless typeS dsNum irrecv aab detected handled left =>
      rw [handled_full detected] at handled
      refine iff_of_true ?_ ?_
      · rw [left]
        exact polled_apart h typeS dsNum input
      · intro chip value _ hsome
        rw [handled] at hsome
        cases hsome
  | keyed typeS dsNum value irrecv aab detected handled left =>
      rw [handled_full detected] at handled
      rw [left]
      have hkey := handle_apart value (polled_apart h typeS dsNum input)
      rw [keepsApart_polled] at hkey
      refine Iff.trans hkey ?_
      constructor
      · intro keeps chip pressed _ hpressed
        obtain rfl := Option.some.inj (handled.symm.trans hpressed)
        exact keeps
      · intro keeps
        exact keeps _ value detected handled

theorem drawn_iff {s : Sketch} (h : LimitsApart s) (input : PassInput) :
    Drawn s input ↔ KeyKeepsApart s input := by
  unfold Drawn
  rcases detect_cases input with ⟨cause, hdetect⟩ | ⟨typeS, dsNum, hdetect⟩
  · rw [frame_early hdetect]
    refine iff_of_true (by simp) ?_
    intro chip value hfull
    rw [hdetect] at hfull
    cases hfull
  · rw [← step_apart_iff h, frame_full hdetect]
    constructor
    · intro drawn
      exact (page_drawn_iff input.ypos _).mp (drawn _ (by simp))
    · intro apart page hpage
      obtain ⟨ypos, _, rfl⟩ := List.mem_map.mp hpage
      exact (page_drawn_iff ypos _).mpr apart

/-- From an upper limit above the lower one, the graph never divides by zero
exactly when no key brings the limits together for a picture. -/
theorem graph_never_divides_iff (s : Sketch) (start : s.params 5 < s.params 4)
    (inputs : List PassInput) :
    (∀ visit ∈ Run.visits step s inputs, Drawn visit.1 visit.2) ↔
      ∀ visit ∈ Run.visits step s inputs, KeyKeepsApart visit.1 visit.2 := by
  have agree : ∀ (t : Sketch) (input : PassInput), LimitsApart t →
      (Drawn t input ↔ KeyKeepsApart t input) := fun t input h => drawn_iff h input
  have keeps : ∀ (t : Sketch) (input : PassInput), LimitsApart t → Drawn t input →
      LimitsApart (step t input) := by
    intro t input h drawn
    exact (step_apart_iff h input).mpr ((drawn_iff h input).mp drawn)
  have apart : LimitsApart s := by
    intro _ _ hequal
    rw [hequal] at start
    exact absurd start Int8.lt_irrefl
  exact Run.forall_visits_iff inputs agree keeps apart

theorem graph_never_divides_iff_booted :
    (∀ visit ∈ Run.visits step (boot benchBoard declaredImage) [benchPass [0xFFA25D]],
        Drawn visit.1 visit.2) ↔
      ∀ visit ∈ Run.visits step (boot benchBoard declaredImage) [benchPass [0xFFA25D]],
        KeyKeepsApart visit.1 visit.2 := by
  apply graph_never_divides_iff
  rw [boot_params _ _ (by decide), boot_params _ _ (by decide)]
  decide

/-- The declared limits 30 and 20 with graph type 3, and the upper one lowered
ten times. -/
theorem ten_presses_divide :
    (boot benchBoard (Function.update declaredImage 2 3)).params 5 <
        (boot benchBoard (Function.update declaredImage 2 3)).params 4 ∧
      ¬ ∀ visit ∈ Run.visits step (boot benchBoard (Function.update declaredImage 2 3))
          (List.replicate 10 (benchPass [0xFFA25D])), Drawn visit.1 visit.2 := by
  constructor
  · rw [boot_params _ _ (by decide), boot_params _ _ (by decide)]
    decide
  · intro drawn
    have hlast : List.replicate 10 (benchPass [0xFFA25D]) =
        List.replicate 9 (benchPass [0xFFA25D]) ++ benchPass [0xFFA25D] :: [] := rfl
    have hpages := drawn _ (Run.mem_visits hlast)
    have hdetect : detect (benchPass [0xFFA25D]) = .ok (0, 1) := by decide +kernel
    unfold Drawn at hpages
    rw [frame_full hdetect] at hpages
    have hpage := (page_drawn_iff 0 _).mp (hpages _ List.mem_cons_self)
    refine hpage ?_ ?_ ?_ <;> decide +kernel

end OledDs18b20.Thermostat.GraphDivisor
