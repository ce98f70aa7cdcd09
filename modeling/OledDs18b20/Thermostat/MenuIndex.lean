import OledDs18b20.Thermostat.Loop

/-! The menu index in `Params[0]`: which accesses it selects, and which key
takes it past the end of the parameters. -/
namespace OledDs18b20.Thermostat.MenuIndex
open Lib Loop Keys

def InRange (s : Sketch) : Prop :=
  0 ≤ s.params 0 ∧ s.params 0 < Int8.ofNat paramCount

def Edits (value : UInt32) : Prop :=
  Key.ofValue value = .increase ∨ Key.ofValue value = .decrease

/-- The key handled in state `s` accesses only the parameters through the menu
index, and changes no other memory; saving also writes the image. -/
structure KeySafe (value : UInt32) (s : Sketch) : Prop where
  edited : Edits value → s.params 0 > 1 → s.menuIndex < paramCount
  index : Edits value → (handle value s).params 0 = s.params 0
  behind : ∀ index ≥ paramCount, (handle value s).params index = s.params index
  others : ∃ params eeprom address, handle value s =
    { s with params := params, eeprom := eeprom, address := address, results := value } ∧
      (Key.ofValue value ≠ .save → eeprom = s.eeprom ∧ address = s.address)

structure Safe (s : Sketch) (input : PassInput) : Prop where
  index : InRange (step s input)
  pages : ∀ page ∈ (loop s input).frame,
    page.fault ≠ some .outsideParams ∧ page.fault ≠ some .outsideMenuNames
  keys : ∀ value, (loop s input).handled = some value → KeySafe value (atKeys s input)

/-- The pass handles the key for the next parameter on the last one. -/
def StepsPastEnd (s : Sketch) (input : PassInput) : Prop :=
  ∃ chip value, detect input = .ok chip ∧ receive input.early s.irrecv = some value ∧
    Key.ofValue value = .next ∧ s.params 0 = 14

/-- Only the key for the next parameter leaves the range, and only from its end. -/
theorem indexAfter_inRange (key : Key) {shown : Int8}
    (h : 0 ≤ shown ∧ shown < Int8.ofNat paramCount) :
    (0 ≤ indexAfter key shown ∧ indexAfter key shown < Int8.ofNat paramCount) ↔
      ¬ (key = .next ∧ shown = 14) := by
  have hcount : Int8.ofNat paramCount = 15 := rfl
  rw [hcount] at h ⊢
  cases key with
  | menu => simp only [indexAfter]; grind
  | next => simp only [indexAfter]; grind
  | previous => simp only [indexAfter]; grind
  | save => simp [indexAfter]
  | _ => simpa [indexAfter] using h

theorem menuIndex_lt {s : Sketch} (h : InRange s) : s.menuIndex < paramCount :=
  (SignedIndex.toNatClampNeg_lt_iff h.1 (by decide)).mpr h.2

theorem setParam_behind (s : Sketch) {cell : ℕ} (value : Int8) (hcell : cell < paramCount)
    {index : ℕ} (h : paramCount ≤ index) : (s.setParam cell value).params index = s.params index :=
  Sketch.setParam_other s value (by omega)

theorem press_behind (key : Key) {s : Sketch} (hrange : InRange s) {index : ℕ}
    (h : paramCount ≤ index) : (press key s).params index = s.params index := by
  by_cases hsave : key = .save
  · rw [hsave, press, save_eq]
    exact setParam_behind s 0 (by decide) h
  · obtain ⟨cell, value, hpress, hcell⟩ := press_eq_setParam s hsave
    rw [hpress]
    rcases hcell with hlt | hmenu
    · exact setParam_behind s value hlt h
    · rw [hmenu]
      exact setParam_behind s value (menuIndex_lt hrange) h

theorem keySafe (value : UInt32) {s : Sketch} (h : InRange s) : KeySafe value s where
  edited _ _ := menuIndex_lt h
  index := by
    rintro (hup | hdown)
    · rw [handle_index, hup]
      rfl
    · rw [handle_index, hdown]
      rfl
  behind index hindex := press_behind (s := { s with results := value }) _ h hindex
  others := handle_eq value s

theorem page_safe {s : Sketch} (h : InRange s) (ypos : Int8) :
    (Draw.page ypos s).fault ≠ some .outsideParams ∧
      (Draw.page ypos s).fault ≠ some .outsideMenuNames := by
  unfold Draw.page
  split_ifs
  · rw [Draw.mainScreen_fault]
    split_ifs <;> simp
  · rw [Draw.menuScreen_fault (menuIndex_lt h)]
    simp
  · simp

theorem polled_inRange {s : Sketch} (h : InRange s) (typeS : UInt8) (dsNum : Fin 4)
    (input : PassInput) : InRange (polled typeS dsNum s input) := by
  unfold InRange
  rw [polled_params_other _ _ _ _ (by decide)]
  exact h

/-- A step from inside the range leaves it exactly past the last parameter. -/
theorem step_inRange_iff {s : Sketch} (h : InRange s) (input : PassInput) :
    InRange (step s input) ↔ ¬ StepsPastEnd s input := by
  cases outcome s input with
  | early cause dsNum irrecv detected handled left =>
      refine iff_of_true ?_ ?_
      · rw [left]
        exact h
      · rintro ⟨chip, _, hdetect, _⟩
        rw [detected] at hdetect
        cases hdetect
  | keyless typeS dsNum irrecv aab detected handled left =>
      refine iff_of_true ?_ ?_
      · rw [left]
        exact polled_inRange h typeS dsNum input
      · rintro ⟨chip, value, _, hsome, _⟩
        rw [handled_full detected, hsome] at handled
        cases handled
  | keyed typeS dsNum value irrecv aab detected handled left =>
      rw [handled_full detected] at handled
      unfold InRange
      rw [left]
      dsimp only
      rw [handle_index, polled_params_other _ _ _ _ (by decide), indexAfter_inRange _ h]
      apply not_congr
      constructor
      · rintro ⟨hnext, hlast⟩
        exact ⟨_, value, detected, handled, hnext, hlast⟩
      · rintro ⟨chip, pressed, _, hpressed, hnext, hlast⟩
        obtain rfl := Option.some.inj (handled.symm.trans hpressed)
        exact ⟨hnext, hlast⟩

theorem frame_safe {s : Sketch} {input : PassInput} (h : InRange (step s input)) :
    ∀ page ∈ (loop s input).frame,
      page.fault ≠ some .outsideParams ∧ page.fault ≠ some .outsideMenuNames := by
  intro page hpage
  rcases detect_cases input with ⟨cause, hdetect⟩ | ⟨typeS, dsNum, hdetect⟩
  · rw [frame_early hdetect] at hpage
    cases hpage
  · rw [frame_full hdetect] at hpage
    obtain ⟨ypos, _, rfl⟩ := List.mem_map.mp hpage
    exact page_safe h ypos

theorem atKeys_inRange {s : Sketch} (h : InRange s) (input : PassInput) :
    InRange (atKeys s input) := by
  unfold atKeys
  split
  · exact h
  · exact polled_inRange h _ _ input

theorem safe_iff {s : Sketch} (h : InRange s) (input : PassInput) :
    Safe s input ↔ ¬ StepsPastEnd s input := by
  constructor
  · intro safe
    exact (step_inRange_iff h input).mp safe.index
  · intro hpast
    have hindex := (step_inRange_iff h input).mpr hpast
    exact ⟨hindex, frame_safe hindex, fun value _ => keySafe value (atKeys_inRange h input)⟩

/-- From an index in range, a run is safe exactly when no pass handles the key
for the next parameter on the last one. -/
theorem menu_index_safe_iff (s : Sketch) (start : InRange s) (inputs : List PassInput) :
    (∀ visit ∈ Run.visits step s inputs, Safe visit.1 visit.2) ↔
      ∀ visit ∈ Run.visits step s inputs, ¬ StepsPastEnd visit.1 visit.2 := by
  have agree : ∀ (t : Sketch) (input : PassInput), InRange t →
      (Safe t input ↔ ¬ StepsPastEnd t input) := fun t input h => safe_iff h input
  have keeps : ∀ (t : Sketch) (input : PassInput), InRange t → Safe t input →
      InRange (step t input) := fun t input _ safe => safe.index
  exact Run.forall_visits_iff inputs agree keeps start

theorem booted_inRange : InRange (boot benchBoard declaredImage) := by
  unfold InRange
  rw [boot_params _ _ (by decide)]
  decide

theorem menu_index_safe_iff_booted :
    (∀ visit ∈ Run.visits step (boot benchBoard declaredImage)
        [benchPass [0xFF52AD], benchPass [0xFF5AA5]], Safe visit.1 visit.2) ↔
      ∀ visit ∈ Run.visits step (boot benchBoard declaredImage)
        [benchPass [0xFF52AD], benchPass [0xFF5AA5]], ¬ StepsPastEnd visit.1 visit.2 :=
  menu_index_safe_iff _ booted_inRange [benchPass [0xFF52AD], benchPass [0xFF5AA5]]

/-- The menu key and fourteen times the key for the next parameter. -/
theorem fourteen_steps_unsafe :
    ¬ ∀ visit ∈ Run.visits step (boot benchBoard declaredImage)
        (benchPass [0xFF52AD] :: List.replicate 14 (benchPass [0xFF5AA5])),
      Safe visit.1 visit.2 := by
  intro safe
  have hlast : benchPass [0xFF52AD] :: List.replicate 14 (benchPass [0xFF5AA5]) =
      (benchPass [0xFF52AD] :: List.replicate 13 (benchPass [0xFF5AA5])) ++
        benchPass [0xFF5AA5] :: [] := rfl
  have hindex := (safe _ (Run.mem_visits hlast)).index
  have hpast : (step (Run.final step (boot benchBoard declaredImage)
      (benchPass [0xFF52AD] :: List.replicate 13 (benchPass [0xFF5AA5])))
      (benchPass [0xFF5AA5])).params 0 = 15 := by decide +kernel
  exact absurd (hpast ▸ hindex.2) (by decide)

end OledDs18b20.Thermostat.MenuIndex
