import OledDs18b20.Nokia.Averaging

/-! The texts of the screen against the buffer they are written to. -/
namespace OledDs18b20.Nokia.Texts
open Lib Dashboard Screen Loop Averaging

def text? : Command → Option String
  | .drawStr _ _ text => some text
  | _ => none

/-- The decimal rendering of a voltage with one digit after the point. -/
def RendersVolts (text : String) (volts : ℚ) : Prop :=
  ∃ whole tenth : ℕ, tenth < 10 ∧ volts = whole + (tenth : ℚ) / 10 ∧
    text = Nat.repr whole ++ "." ++ Nat.repr tenth ++ "V"

/-- The texts that a call of `draw` draws are the ones written into the buffer. -/
theorem draw_texts (d : Dashboard) (input : PageInput) :
    (draw d input).filterMap text? = texts d input := by
  have hturn : (turnSig input).filterMap text? = [] := by
    unfold turnSig
    cases input.lTurn <;> cases input.rTurn <;> rfl
  unfold draw u8g1screen
  simp only [List.filterMap_append, hturn]
  rfl

theorem toString_eq {value : ℤ} (h : 0 ≤ value) : toString value = Nat.repr value.toNat := by
  obtain ⟨n, rfl⟩ := Int.eq_ofNat_of_zero_le h
  rfl

theorem length_toString {value : ℤ} {digits : ℕ} (hdigits : 0 < digits) (h : 0 ≤ value)
    (hlt : value.toNat < 10 ^ digits) : (toString value).length ≤ digits := by
  rw [toString_eq h]
  exact (Nat.length_repr_le_iff hdigits).mpr hlt

theorem length_toString_signed {value : ℤ} {digits : ℕ} (hdigits : 0 < digits)
    (hlt : value.natAbs < 10 ^ digits) : (toString value).length ≤ digits + 1 := by
  rcases lt_or_ge value 0 with hneg | hpos
  · obtain ⟨n, rfl⟩ := Int.eq_negSucc_of_lt_zero hneg
    have hlength : (Nat.repr (n + 1)).length ≤ digits :=
      (Nat.length_repr_le_iff hdigits).mpr hlt
    change ("-" ++ Nat.repr (n + 1)).length ≤ digits + 1
    rw [String.length_append, Nat.add_comm]
    exact Nat.add_le_add_right hlength 1
  · exact (length_toString hdigits hpos (by omega)).trans (Nat.le_succ digits)

/-- Four digits fill the buffer exactly. -/
theorem rawFuelText_fits {d : Dashboard} (h : Ranges d) : written (rawFuelText d) ≤ bufSize := by
  have hsensor := h.sensorValue
  have hdigits : (toString d.sensorValue.toInt).length ≤ 4 :=
    length_toString (by decide) hsensor.1 (by omega)
  have hlabel : "a0=".length = 3 := rfl
  rw [written, rawFuelText, String.length_append, bufSize]
  omega

theorem percentText_fits {d : Dashboard} (h : Ranges d) : written (percentText d) ≤ bufSize := by
  have hfuel := h.fuelLVLProcent
  have hdigits : (toString d.fuelLVLProcent.toInt).length ≤ 3 + 1 :=
    length_toString_signed (by decide) (by omega)
  have hsign : "%".length = 1 := rfl
  rw [written, percentText, String.length_append, bufSize]
  omega

theorem voltage_parts {d : Dashboard} (h : Ranges d) :
    (d.voltValue / 10).toInt = d.voltValue.toInt / 10 ∧
      (d.voltValue % 10).toInt = d.voltValue.toInt % 10 := by
  have hvolt := h.voltValue
  have hten : (10 : Int16).toInt = 10 := rfl
  constructor
  · rw [Int16.toInt_div, hten, Int.tdiv_eq_ediv_of_nonneg hvolt.1]
    exact Int.bmod_eq_of_le (by omega) (by omega)
  · rw [Int16.toInt_mod, hten, Int.tmod_eq_emod_of_nonneg hvolt.1]

theorem voltageText_fits {d : Dashboard} (h : Ranges d) : written (voltageText d) ≤ bufSize := by
  have hvolt := h.voltValue
  obtain ⟨hwhole, htenth⟩ := voltage_parts h
  have hwholeDigits : (toString (d.voltValue / 10).toInt).length ≤ 2 :=
    length_toString (by decide) (by omega) (by omega)
  have htenthDigits : (toString (d.voltValue % 10).toInt).length ≤ 1 :=
    length_toString (by decide) (by omega) (by omega)
  have hpoint : ".".length = 1 := rfl
  have hunit : "V".length = 1 := rfl
  rw [written, voltageText, String.length_append, String.length_append, String.length_append,
    bufSize]
  omega

theorem voltageText_renders {d : Dashboard} (h : Ranges d) :
    RendersVolts (voltageText d) ((d.voltValue.toInt : ℚ) / 10) := by
  have hvolt := h.voltValue
  obtain ⟨hwhole, htenth⟩ := voltage_parts h
  refine ⟨(d.voltValue / 10).toInt.toNat, (d.voltValue % 10).toInt.toNat, by omega, ?_, ?_⟩
  · have hsplit : d.voltValue.toInt =
        10 * ((d.voltValue / 10).toInt.toNat : ℤ) + ((d.voltValue % 10).toInt.toNat : ℤ) := by
      omega
    have hrational : (d.voltValue.toInt : ℚ) =
        10 * ((d.voltValue / 10).toInt.toNat : ℚ) + ((d.voltValue % 10).toInt.toNat : ℚ) := by
      exact_mod_cast hsplit
    rw [hrational]
    ring
  · rw [voltageText, toString_eq (by omega), toString_eq (by omega)]

theorem rawVoltageText_fits (volt : Adc) : written (rawVoltageText volt) ≤ bufSize := by
  have hvolt : volt.val < 1024 := volt.isLt
  have hanalog := toInt_analog volt
  have hdigits : (toString (analog volt).toInt).length ≤ 4 :=
    length_toString (by decide) (by omega) (by omega)
  have hlabel : "v=".length = 2 := rfl
  rw [written, rawVoltageText, String.length_append, bufSize]
  omega

/-- In every call of `draw` of every run the four texts fit into the buffer, and
the voltage is rendered as it is. -/
theorem texts_fit (inputs : List PassInput) :
    ∀ visit ∈ Run.visits step powerOn inputs, ∀ page ∈ visit.2.draws,
      (draw visit.1 page).filterMap text? = texts visit.1 page ∧
      (∀ text ∈ texts visit.1 page, written text ≤ bufSize) ∧
      RendersVolts (voltageText visit.1) ((visit.1.voltValue.toInt : ℚ) / 10) := by
  intro visit hvisit page _
  obtain ⟨earlier, _, _, hstate⟩ := Run.mem_visits_iff.mp hvisit
  have hranges : Ranges visit.1 := by
    rw [hstate]
    exact run_ranges earlier
  refine ⟨draw_texts visit.1 page, ?_, voltageText_renders hranges⟩
  intro text htext
  simp only [texts, List.mem_cons, List.not_mem_nil, or_false] at htext
  rcases htext with rfl | rfl | rfl | rfl
  · exact rawFuelText_fits hranges
  · exact percentText_fits hranges
  · exact voltageText_fits hranges
  · exact rawVoltageText_fits page.volt

/-- A pass on the road, with a full tank. -/
def driving : PassInput :=
  ⟨⟨false, false, ⟨570, by decide⟩⟩, [],
    ⟨⟨1023, by decide⟩, ⟨500, by decide⟩, ⟨570, by decide⟩⟩⟩

/-- The state after the first publication. -/
def driven : Dashboard := Run.final step powerOn (List.replicate 11 driving)

/-- The highest reading fills the buffer. -/
theorem published_page_fits : rawFuelText driven = "a0=1023" ∧ voltageText driven = "13.9V" ∧
    ∀ text ∈ texts driven driving.page, written text ≤ bufSize := by
  have hvisit : (driven, driving) ∈
      Run.visits step powerOn (List.replicate 11 driving ++ [driving]) := by
    rw [Run.mem_visits_iff]
    exact ⟨List.replicate 11 driving, [], by dsimp only, by rw [driven]⟩
  have hfits := texts_fit _ _ hvisit driving.page List.mem_cons_self
  dsimp only at hfits
  exact ⟨by decide +kernel, by decide +kernel, hfits.2.1⟩

end OledDs18b20.Nokia.Texts
