import OledDs18b20.Thermostat.Sketch

/-! The keys of the remote control, and the settings image in the EEPROM that
the save key writes and `setup` reads. -/
namespace OledDs18b20.Thermostat.Keys

/-- The loop of `EESave`, for the given `NumOfChar`. -/
def eeSave : ℕ → Sketch → Sketch
  | 0, s => { s with address := 0 }
  | count + 1, s =>
      let s := eeSave count s
      { s with
        eeprom := Function.update s.eeprom count (s.params count).toUInt8
        address := Int16.ofNat (count + 1) }

/-- The loop of `EELoad`, for the given `NumOfChar`. -/
def eeLoad : ℕ → Sketch → Sketch
  | 0, s => { s with address := 0 }
  | count + 1, s =>
      let s := eeLoad count s
      { s.setParam count (s.eeprom count).toInt8 with address := Int16.ofNat (count + 1) }

inductive Key where
  | ringGraph | lineGraph | limitsGraph
  | maxDown | maxUp | minDown | minUp
  | switchHeater
  | menu | next | previous | increase | decrease
  | save
  | other
deriving DecidableEq

/-- The case labels of the switch on `results.value`. -/
def Key.ofValue (value : UInt32) : Key :=
  if value = 0xFFC23D then .ringGraph
  else if value = 0xFF02FD then .lineGraph
  else if value = 0xFF22DD then .limitsGraph
  else if value = 0xFFA25D then .maxDown
  else if value = 0xFF629D then .maxUp
  else if value = 0xFFE01F then .minDown
  else if value = 0xFFA857 then .minUp
  else if value = 0xFFE21D then .switchHeater
  else if value = 0xFF52AD then .menu
  else if value = 0xFF5AA5 then .next
  else if value = 0xFF10EF then .previous
  else if value = 0xFF18E7 then .increase
  else if value = 0xFF4AB5 then .decrease
  else if value = 0xFF38C7 then .save
  else .other

def switchHeater (s : Sketch) : Sketch :=
  if s.params 9 = 0 then s.setParam 9 1
  else if s.params 9 = 1 then s.setParam 9 0
  else s

def menu (s : Sketch) : Sketch :=
  if s.params 0 = 0 then s.setParam 0 1
  else if s.params 0 ≥ 1 then s.setParam 0 0
  else s

/-- The guard compares with 15, not with `paramCount - 1`. -/
def next (s : Sketch) : Sketch :=
  if s.params 0 < 15 then s.setParam 0 (s.params 0 + 1) else s

def previous (s : Sketch) : Sketch :=
  if s.params 0 > 1 then s.setParam 0 (s.params 0 - 1) else s

/-- The parameter on which the menu stands is changed by `delta`. -/
def edit (delta : Int8) (s : Sketch) : Sketch :=
  if s.params 0 > 1 then s.setParam s.menuIndex (s.params s.menuIndex + delta) else s

def increase (s : Sketch) : Sketch := edit 1 s
def decrease (s : Sketch) : Sketch := edit (-1) s

def save (s : Sketch) : Sketch :=
  eeSave paramCount (s.setParam 0 0)

def press : Key → Sketch → Sketch
  | .ringGraph, s | .lineGraph, s | .limitsGraph, s => s
  | .maxDown, s => s.setParam 4 (s.params 4 - 1)
  | .maxUp, s => s.setParam 4 (s.params 4 + 1)
  | .minDown, s => s.setParam 5 (s.params 5 - 1)
  | .minUp, s => s.setParam 5 (s.params 5 + 1)
  | .switchHeater, s => switchHeater s
  | .menu, s => menu s
  | .next, s => next s
  | .previous, s => previous s
  | .increase, s => increase s
  | .decrease, s => decrease s
  | .save, s => save s
  | .other, s => s

/-- The body of the `if (irrecv.decode(&results))` branch before the receiver
is resumed. -/
def handle (value : UInt32) (s : Sketch) : Sketch :=
  press (Key.ofValue value) { s with results := value }

/-! The two loops in closed form. -/

theorem update_filled {υ : Type*} (count : ℕ) (filled rest : ℕ → υ) :
    Function.update (fun index => if index < count then filled index else rest index) count
        (filled count) =
      fun index => if index < count + 1 then filled index else rest index := by
  funext index
  by_cases hlast : index = count
  · simp [hlast]
  · have hiff : index < count + 1 ↔ index < count := by omega
    simp [hlast, hiff]

theorem eeSave_eq (count : ℕ) (s : Sketch) :
    eeSave count s = { s with
      eeprom := fun index =>
        if index < count then (s.params index).toUInt8 else s.eeprom index
      address := Int16.ofNat count } := by
  induction count with
  | zero => simp [eeSave]
  | succ count ih =>
      rw [eeSave, ih]
      dsimp only
      rw [update_filled count fun index => (s.params index).toUInt8]

theorem eeLoad_eq (count : ℕ) (s : Sketch) :
    eeLoad count s = { s with
      params := fun index =>
        if index < count then (s.eeprom index).toInt8 else s.params index
      address := Int16.ofNat count } := by
  induction count with
  | zero => simp [eeLoad]
  | succ count ih =>
      rw [eeLoad, ih]
      simp only [Sketch.setParam]
      rw [update_filled count fun index => (s.eeprom index).toInt8]

theorem save_eq (s : Sketch) :
    save s = { s with
      params := Function.update s.params 0 0
      eeprom := fun index =>
        if index < paramCount then (Function.update s.params 0 0 index).toUInt8
        else s.eeprom index
      address := Int16.ofNat paramCount } :=
  eeSave_eq paramCount (s.setParam 0 0)

/-! The cell that a key changes, if it changes one. -/

theorem setParam_self (s : Sketch) (index : ℕ) : s.setParam index (s.params index) = s := by
  simp [Sketch.setParam]

theorem switchHeater_eq (s : Sketch) : ∃ load, switchHeater s = s.setParam 9 load := by
  unfold switchHeater
  split_ifs
  · exact ⟨_, rfl⟩
  · exact ⟨_, rfl⟩
  · exact ⟨_, (setParam_self s 9).symm⟩

theorem menu_eq (s : Sketch) : ∃ shown, menu s = s.setParam 0 shown := by
  unfold menu
  split_ifs
  · exact ⟨_, rfl⟩
  · exact ⟨_, rfl⟩
  · exact ⟨_, (setParam_self s 0).symm⟩

theorem next_eq (s : Sketch) : ∃ shown, next s = s.setParam 0 shown := by
  unfold next
  split_ifs
  · exact ⟨_, rfl⟩
  · exact ⟨_, (setParam_self s 0).symm⟩

theorem previous_eq (s : Sketch) : ∃ shown, previous s = s.setParam 0 shown := by
  unfold previous
  split_ifs
  · exact ⟨_, rfl⟩
  · exact ⟨_, (setParam_self s 0).symm⟩

theorem edit_eq (delta : Int8) (s : Sketch) :
    ∃ value, edit delta s = s.setParam s.menuIndex value := by
  unfold edit
  split_ifs
  · exact ⟨_, rfl⟩
  · exact ⟨_, (setParam_self s _).symm⟩

/-- Every key but the save key changes at most one cell: a parameter of its own
or the one on which the menu stands. -/
theorem press_eq_setParam {key : Key} (s : Sketch) (h : key ≠ .save) :
    ∃ cell value, press key s = s.setParam cell value ∧
      (cell < paramCount ∨ cell = s.menuIndex) := by
  cases key with
  | save => exact absurd rfl h
  | ringGraph | lineGraph | limitsGraph | other =>
      exact ⟨0, _, (setParam_self s 0).symm, .inl (by decide)⟩
  | maxDown | maxUp => exact ⟨4, _, rfl, .inl (by decide)⟩
  | minDown | minUp => exact ⟨5, _, rfl, .inl (by decide)⟩
  | switchHeater =>
      obtain ⟨load, hswitch⟩ := switchHeater_eq s
      exact ⟨9, load, hswitch, .inl (by decide)⟩
  | menu =>
      obtain ⟨shown, hmenu⟩ := menu_eq s
      exact ⟨0, shown, hmenu, .inl (by decide)⟩
  | next =>
      obtain ⟨shown, hnext⟩ := next_eq s
      exact ⟨0, shown, hnext, .inl (by decide)⟩
  | previous =>
      obtain ⟨shown, hprevious⟩ := previous_eq s
      exact ⟨0, shown, hprevious, .inl (by decide)⟩
  | increase =>
      obtain ⟨value, hedit⟩ := edit_eq 1 s
      exact ⟨_, value, hedit, .inr rfl⟩
  | decrease =>
      obtain ⟨value, hedit⟩ := edit_eq (-1) s
      exact ⟨_, value, hedit, .inr rfl⟩

/-! The edits of the parameter on which the menu stands. -/

theorem menuIndex_eq_iff {s : Sketch} {index : ℕ} (h : 0 ≤ s.params 0) (hlt : index < 128) :
    s.menuIndex = index ↔ s.params 0 = Int8.ofNat index := by
  unfold Sketch.menuIndex
  rw [← Int8.toInt_inj, Int8.toInt_ofNat_of_lt hlt,
    Lib.SignedIndex.toInt_eq_toNatClampNeg h, Int.ofNat_inj]

theorem edit_params (delta : Int8) (s : Sketch) {index : ℕ} (hpos : 1 < index)
    (hlt : index < 128) :
    (edit delta s).params index =
      if s.params 0 = Int8.ofNat index then s.params index + delta else s.params index := by
  have hguard : s.params 0 = Int8.ofNat index → s.params 0 > 1 := by
    intro hindex
    rw [hindex, gt_iff_lt, Int8.lt_iff_toInt_lt, Int8.toInt_ofNat_of_lt hlt]
    exact Int.ofNat_lt.mpr hpos
  unfold edit
  by_cases hopen : s.params 0 > 1
  · have hstands := menuIndex_eq_iff (s := s) (by grind) hlt
    rw [if_pos hopen]
    by_cases hindex : s.params 0 = Int8.ofNat index
    · rw [if_pos hindex, hstands.mpr hindex, Sketch.setParam_same]
    · rw [if_neg hindex, Sketch.setParam_other _ _ (Ne.symm (mt hstands.mp hindex))]
  · rw [if_neg hopen, if_neg (mt hguard hopen)]

/-- The menu index itself is never edited: the menu is open only above 1. -/
theorem edit_params_zero (delta : Int8) (s : Sketch) :
    (edit delta s).params 0 = s.params 0 := by
  unfold edit
  by_cases hopen : s.params 0 > 1
  · rw [if_pos hopen]
    apply Sketch.setParam_other
    intro hindex
    have hzero := (menuIndex_eq_iff (by grind) (by decide)).mp hindex.symm
    rw [hzero] at hopen
    exact absurd hopen (by decide)
  · rw [if_neg hopen]

/-- The menu index after a key. -/
def indexAfter (key : Key) (shown : Int8) : Int8 :=
  match key with
  | .menu => if shown = 0 then 1 else if shown ≥ 1 then 0 else shown
  | .next => if shown < 15 then shown + 1 else shown
  | .previous => if shown > 1 then shown - 1 else shown
  | .save => 0
  | _ => shown

theorem press_index (key : Key) (s : Sketch) :
    (press key s).params 0 = indexAfter key (s.params 0) := by
  cases key with
  | ringGraph | lineGraph | limitsGraph | other => rfl
  | maxDown | maxUp | minDown | minUp => exact Sketch.setParam_other s _ (by decide)
  | switchHeater =>
      obtain ⟨load, hload⟩ := switchHeater_eq s
      rw [press, hload]
      exact Sketch.setParam_other s load (by decide)
  | menu =>
      simp only [press, menu, indexAfter]
      split_ifs
      · exact Sketch.setParam_same s 0 1
      · exact Sketch.setParam_same s 0 0
      · rfl
  | next =>
      simp only [press, next, indexAfter]
      split_ifs
      · exact Sketch.setParam_same s 0 _
      · rfl
  | previous =>
      simp only [press, previous, indexAfter]
      split_ifs
      · exact Sketch.setParam_same s 0 _
      · rfl
  | increase => exact edit_params_zero 1 s
  | decrease => exact edit_params_zero (-1) s
  | save =>
      rw [press, save_eq]
      rfl

theorem handle_index (value : UInt32) (s : Sketch) :
    (handle value s).params 0 = indexAfter (Key.ofValue value) (s.params 0) :=
  press_index (Key.ofValue value) { s with results := value }

/-- What a key adds to a parameter, with the menu on parameter `shown`. -/
def delta (key : Key) (shown : Int8) (index : ℕ) : Int8 :=
  match key with
  | .maxDown => if index = 4 then -1 else 0
  | .maxUp => if index = 4 then 1 else 0
  | .minDown => if index = 5 then -1 else 0
  | .minUp => if index = 5 then 1 else 0
  | .increase => if shown = Int8.ofNat index then 1 else 0
  | .decrease => if shown = Int8.ofNat index then -1 else 0
  | _ => 0

theorem setParam_delta (s : Sketch) (cell : ℕ) (value change : Int8) {index : ℕ}
    (h : value = s.params cell + change) :
    (s.setParam cell value).params index =
      s.params index + if index = cell then change else 0 := by
  by_cases hcell : index = cell
  · rw [if_pos hcell, hcell, Sketch.setParam_same, h]
  · rw [if_neg hcell, Sketch.setParam_other _ _ hcell, Int8.add_zero]

theorem edit_delta (change : Int8) (s : Sketch) {index : ℕ} (hpos : 1 < index)
    (hlt : index < 128) :
    (edit change s).params index =
      s.params index + if s.params 0 = Int8.ofNat index then change else 0 := by
  rw [edit_params change s hpos hlt]
  split_ifs
  · rfl
  · rw [Int8.add_zero]

/-- All parameters but the menu index move by additions; the load key excepted. -/
theorem press_params {key : Key} (s : Sketch) (hkey : key ≠ .switchHeater) {index : ℕ}
    (hpos : 1 < index) (hlt : index < 128) :
    (press key s).params index = s.params index + delta key (s.params 0) index := by
  have hkeep : s.params index = s.params index + 0 := (Int8.add_zero _).symm
  have hmove : ∀ shown, (s.setParam 0 shown).params index = s.params index + 0 :=
    fun shown => (Sketch.setParam_other s shown (by omega)).trans hkeep
  cases key with
  | switchHeater => exact absurd rfl hkey
  | ringGraph | lineGraph | limitsGraph | other => exact hkeep
  | maxDown => exact setParam_delta s 4 _ _ (Int8.sub_eq_add_neg _ _)
  | minDown => exact setParam_delta s 5 _ _ (Int8.sub_eq_add_neg _ _)
  | maxUp => exact setParam_delta s 4 _ _ rfl
  | minUp => exact setParam_delta s 5 _ _ rfl
  | menu =>
      obtain ⟨shown, hmenu⟩ := menu_eq s
      rw [press, hmenu]
      exact hmove shown
  | next =>
      obtain ⟨shown, hnext⟩ := next_eq s
      rw [press, hnext]
      exact hmove shown
  | previous =>
      obtain ⟨shown, hprevious⟩ := previous_eq s
      rw [press, hprevious]
      exact hmove shown
  | increase => exact edit_delta 1 s hpos hlt
  | decrease => exact edit_delta (-1) s hpos hlt
  | save =>
      rw [press, save_eq]
      exact hmove 0

theorem handle_params {value : UInt32} (s : Sketch) (h : Key.ofValue value ≠ .switchHeater)
    {index : ℕ} (hpos : 1 < index) (hlt : index < 128) :
    (handle value s).params index =
      s.params index + delta (Key.ofValue value) (s.params 0) index :=
  press_params { s with results := value } h hpos hlt

/-- A handled code changes no variable but the parameters, `results` and, with
the save key, the image and `address`. -/
theorem handle_eq (value : UInt32) (s : Sketch) :
    ∃ params eeprom address, handle value s =
      { s with
        params := params
        eeprom := eeprom
        address := address
        results := value } ∧
      (Key.ofValue value ≠ .save → eeprom = s.eeprom ∧ address = s.address) := by
  unfold handle
  by_cases hsave : Key.ofValue value = .save
  · rw [hsave, press, save_eq]
    exact ⟨_, _, _, rfl, fun h => absurd rfl h⟩
  · obtain ⟨cell, cellValue, hpress, _⟩ := press_eq_setParam { s with results := value } hsave
    rw [hpress]
    exact ⟨_, s.eeprom, s.address, rfl, fun _ => ⟨rfl, rfl⟩⟩

end OledDs18b20.Thermostat.Keys
