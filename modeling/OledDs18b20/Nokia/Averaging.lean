import OledDs18b20.Lib.Batch
import OledDs18b20.Nokia.Loop

/-! What the counter, the sums and the published values stand for: the readings
taken since the last publication, and the batch of readings that it showed. -/
namespace OledDs18b20.Nokia.Averaging
open Lib Batch Dashboard Loop

def total (channel : Reading → Adc) (readings : List Reading) : ℤ :=
  (readings.map fun reading => ((channel reading).val : ℤ)).sum

def floorMean (channel : Reading → Adc) (readings : List Reading) : ℤ :=
  ⌊(total channel readings : ℚ) / latcount⌋

/-- The five published values. -/
structure Display where
  sensorValue : ℤ
  powerValue : ℤ
  voltValue : ℤ
  fuelLVLProcent : ℤ
  drawH : ℤ
deriving DecidableEq

def displayed (d : Dashboard) : Display where
  sensorValue := d.sensorValue.toInt
  powerValue := d.powerValue.toInt
  voltValue := d.voltValue.toInt
  fuelLVLProcent := d.fuelLVLProcent.toInt
  drawH := d.drawH.toInt

/-- What a batch of readings is to be shown as. -/
def image (readings : List Reading) : Display where
  sensorValue := floorMean Reading.sensor readings
  powerValue := floorMean Reading.power readings
  voltValue := Truncation.rescale (floorMean Reading.volt readings) 0 1024 0 251
  fuelLVLProcent := Truncation.rescale (total Reading.sensor readings) 700 9500 0 100
  drawH := Truncation.rescale (total Reading.sensor readings) 700 9500 1 47

/-- Before the first publication the values are zero. -/
def blank : Display := ⟨0, 0, 0, 0, 0⟩

/-- The sketch holds what the collector holds, and shows what it shows. -/
structure Represents (d : Dashboard) (collector : Collector Reading latcount) : Prop where
  latency : d.latency.toInt = collector.held.length
  sensorLat : d.sensorLat.toInt = total Reading.sensor collector.held
  powerLat : d.powerLat.toInt = total Reading.power collector.held
  voltLat : d.voltLat.toInt = total Reading.volt collector.held
  shown : displayed d =
    (collector.shown.map fun batch => image batch.val).getD blank

theorem total_concat (channel : Reading → Adc) (readings : List Reading)
    (reading : Reading) :
    total channel (readings ++ [reading]) = total channel readings + (channel reading).val := by
  simp [total]

theorem total_bounds (channel : Reading → Adc) (readings : List Reading) :
    0 ≤ total channel readings ∧ total channel readings ≤ 1023 * readings.length := by
  induction readings with
  | nil => simp [total]
  | cons reading rest ih =>
      have hreading : (channel reading).val ≤ 1023 := Nat.le_of_lt_succ (channel reading).isLt
      unfold total at ih ⊢
      rw [List.map_cons, List.sum_cons, List.length_cons]
      push_cast
      omega

theorem toInt_analog (reading : Adc) : (analog reading).toInt = reading.val := by
  have hreading : reading.val < 1024 := reading.isLt
  exact Int16.toInt_ofNat_of_lt (by omega)

/-- Sums of up to `Latcount` readings fit in an `int`. -/
theorem toInt_add_analog {sum : Int16} {channel : Reading → Adc} {held : List Reading}
    (h : sum.toInt = total channel held) (hheld : held.length < latcount)
    (reading : Reading) :
    (sum + analog (channel reading)).toInt = total channel (held ++ [reading]) := by
  have hbounds := total_bounds channel held
  have hreading : (channel reading).val < 1024 := (channel reading).isLt
  simp only [latcount] at hheld
  rw [Int16.toInt_add, toInt_analog, h, total_concat]
  exact Int.bmod_eq_of_le (by omega) (by omega)

theorem toInt_mean {sum : Int16} {channel : Reading → Adc} {held : List Reading}
    (h : sum.toInt = total channel held) (hheld : held.length ≤ latcount) :
    (sum / Int16.ofNat latcount).toInt = floorMean channel held := by
  have hbounds := total_bounds channel held
  have hcount : (Int16.ofNat latcount).toInt = 10 := rfl
  simp only [latcount] at hheld
  have hfloor : floorMean channel held = total channel held / 10 := by
    unfold floorMean
    exact Rat.floor_intCast_div_natCast (total channel held) latcount
  rw [Int16.toInt_div, h, hcount, Int.tdiv_eq_ediv_of_nonneg hbounds.1, hfloor]
  exact Int.bmod_eq_of_le (by omega) (by omega)

/-! The ranges that the mapping leaves for a batch. The two fuel values leave the
scale at both ends, since the calibration points lie inside the range of the ADC. -/

theorem floorMean_bounds (channel : Reading → Adc) {held : List Reading}
    (h : held.length ≤ latcount) :
    0 ≤ floorMean channel held ∧ floorMean channel held ≤ 1023 := by
  have hbounds := total_bounds channel held
  simp only [latcount] at h
  have hfloor : floorMean channel held = total channel held / 10 := by
    unfold floorMean
    exact Rat.floor_intCast_div_natCast (total channel held) latcount
  omega

theorem total_le (channel : Reading → Adc) {held : List Reading}
    (h : held.length ≤ latcount) : total channel held ≤ 10230 := by
  have hbounds := total_bounds channel held
  simp only [latcount] at h
  omega

theorem voltValue_bounds {held : List Reading} (h : held.length ≤ latcount) :
    0 ≤ (image held).voltValue ∧ (image held).voltValue ≤ 250 := by
  have hmean := floorMean_bounds Reading.volt h
  have hin : (0 : ℤ) < 1024 := by decide
  constructor
  · exact (Truncation.le_rescale_iff hin (by decide)).mpr (by omega)
  · exact (Truncation.rescale_le_iff hin (by decide)).mpr (by omega)

theorem percent_bounds {sum : ℤ} (hlow : 0 ≤ sum) (hhigh : sum ≤ 10230) :
    -7 ≤ Truncation.rescale sum 700 9500 0 100 ∧
      Truncation.rescale sum 700 9500 0 100 ≤ 108 := by
  have hin : (700 : ℤ) < 9500 := by decide
  constructor
  · exact (Truncation.le_rescale_iff hin (by decide)).mpr (by omega)
  · exact (Truncation.rescale_le_iff hin (by decide)).mpr (by omega)

theorem height_bounds {sum : ℤ} (hlow : 0 ≤ sum) (hhigh : sum ≤ 10230) :
    -2 ≤ Truncation.rescale sum 700 9500 1 47 ∧
      Truncation.rescale sum 700 9500 1 47 ≤ 50 := by
  have hin : (700 : ℤ) < 9500 := by decide
  constructor
  · exact (Truncation.le_rescale_iff hin (by decide)).mpr (by omega)
  · exact (Truncation.rescale_le_iff hin (by decide)).mpr (by omega)

theorem powerOn_represents : Represents powerOn Collector.empty :=
  ⟨rfl, rfl, rfl, rfl, rfl⟩

theorem latency_lt_iff {d : Dashboard} {collector : Collector Reading latcount}
    (h : Represents d collector) :
    d.latency < Int8.ofNat latcount ↔ collector.held.length < latcount := by
  rw [Int8.lt_iff_toInt_lt, h.latency]
  exact Int.ofNat_lt

theorem accumulate_represents {d : Dashboard} {collector : Collector Reading latcount}
    (h : Represents d collector) (hheld : collector.held.length < latcount)
    (reading : Reading) :
    Represents (accumulate reading d) (Collector.step collector reading) := by
  obtain ⟨hnext, hshown⟩ := Collector.step_take reading hheld
  constructor
  · have hlatency := h.latency
    simp only [latcount] at hheld
    dsimp only [accumulate]
    rw [hnext, List.length_append, List.length_singleton, Int8.toInt_add, hlatency]
    push_cast
    exact Int.bmod_eq_of_le (by omega) (by omega)
  · rw [hnext]
    exact toInt_add_analog h.sensorLat hheld reading
  · rw [hnext]
    exact toInt_add_analog h.powerLat hheld reading
  · rw [hnext]
    exact toInt_add_analog h.voltLat hheld reading
  · rw [hshown]
    exact h.shown

theorem toInt_map_fuel {sum : Int16} (h : 0 ≤ sum.toInt) {outMin outMax : Int32}
    (hout : outMin.toInt ≤ outMax.toInt) (hmin : |outMin.toInt| ≤ 2 ^ 9)
    (hmax : |outMax.toInt| ≤ 2 ^ 9) :
    (map sum.toInt32 (fuelStart * Int16.ofNat latcount).toInt32
        (fuelEnd * Int16.ofNat latcount).toInt32 outMin outMax).toInt =
      Truncation.rescale sum.toInt 700 9500 outMin.toInt outMax.toInt := by
  have hlow : (fuelStart * Int16.ofNat latcount).toInt32.toInt = 700 := rfl
  have hhigh : (fuelEnd * Int16.ofNat latcount).toInt32.toInt = 9500 := rfl
  have hsum := sum.toInt_lt
  rw [toInt_map, hlow, hhigh, Int16.toInt_toInt32]
  · rw [hlow, hhigh]
    decide
  · exact hout
  · rw [hlow]
    decide
  · rw [hhigh]
    decide
  · rw [Int16.toInt_toInt32, abs_of_nonneg h]
    omega
  · exact hmin
  · exact hmax

theorem toInt_map_volt {mean : Int16} (h : 0 ≤ mean.toInt) :
    (map mean.toInt32 0 1024 0 251).toInt = Truncation.rescale mean.toInt 0 1024 0 251 := by
  have hmean := mean.toInt_lt
  rw [toInt_map, Int16.toInt_toInt32]
  · rfl
  · decide
  · decide
  · decide
  · decide
  · rw [Int16.toInt_toInt32, abs_of_nonneg h]
    omega
  · decide
  · decide

/-- The two fuel values survive the conversions to `char` and `int`. -/
theorem publish_fuel {d : Dashboard} (hlow : 0 ≤ d.sensorLat.toInt)
    (hhigh : d.sensorLat.toInt ≤ 10230) :
    (publish d).fuelLVLProcent.toInt =
        Truncation.rescale d.sensorLat.toInt 700 9500 0 100 ∧
      (publish d).drawH.toInt = Truncation.rescale d.sensorLat.toInt 700 9500 1 47 := by
  have hpercent := percent_bounds hlow hhigh
  have hheight := height_bounds hlow hhigh
  have hmapPercent : (map d.sensorLat.toInt32 (fuelStart * Int16.ofNat latcount).toInt32
      (fuelEnd * Int16.ofNat latcount).toInt32 0 100).toInt =
      Truncation.rescale d.sensorLat.toInt 700 9500 0 100 :=
    toInt_map_fuel hlow (by decide) (by decide) (by decide)
  have hmapHeight : (map d.sensorLat.toInt32 (fuelStart * Int16.ofNat latcount).toInt32
      (fuelEnd * Int16.ofNat latcount).toInt32 1 47).toInt =
      Truncation.rescale d.sensorLat.toInt 700 9500 1 47 :=
    toInt_map_fuel hlow (by decide) (by decide) (by decide)
  dsimp only [publish]
  rw [Int32.toInt_toInt8, hmapPercent, Int32.toInt_toInt16, hmapHeight]
  exact ⟨Int.bmod_eq_of_le (by omega) (by omega), Int.bmod_eq_of_le (by omega) (by omega)⟩

theorem publish_volt {d : Dashboard} {held : List Reading}
    (h : d.voltLat.toInt = total Reading.volt held) (hheld : held.length ≤ latcount) :
    (publish d).voltValue.toInt = (image held).voltValue := by
  have hvoltage := voltValue_bounds hheld
  have hmean := toInt_mean h hheld
  have hnonneg : 0 ≤ (d.voltLat / Int16.ofNat latcount).toInt := by
    rw [hmean]
    exact (floorMean_bounds Reading.volt hheld).1
  have hmap : (map (d.voltLat / Int16.ofNat latcount).toInt32 0 1024 0 251).toInt =
      (image held).voltValue := by
    rw [toInt_map_volt hnonneg, hmean]
    rfl
  dsimp only [publish]
  rw [Int32.toInt_toInt16, hmap]
  exact Int.bmod_eq_of_le (by omega) (by omega)

theorem publish_displays {d : Dashboard} {held : List Reading}
    (hsensor : d.sensorLat.toInt = total Reading.sensor held)
    (hpower : d.powerLat.toInt = total Reading.power held)
    (hvolt : d.voltLat.toInt = total Reading.volt held) (hheld : held.length ≤ latcount) :
    displayed (publish d) = image held := by
  have hlow := (total_bounds Reading.sensor held).1
  have hhigh := total_le Reading.sensor hheld
  rw [← hsensor] at hlow hhigh
  obtain ⟨hpercent, hheight⟩ := publish_fuel hlow hhigh
  have hsensorValue : (publish d).sensorValue.toInt = floorMean Reading.sensor held :=
    toInt_mean hsensor hheld
  have hpowerValue : (publish d).powerValue.toInt = floorMean Reading.power held :=
    toInt_mean hpower hheld
  rw [displayed, hsensorValue, hpowerValue, publish_volt hvolt hheld, hpercent, hheight, hsensor]
  rfl

theorem publish_represents {d : Dashboard} {collector : Collector Reading latcount}
    (h : Represents d collector) (hheld : ¬ collector.held.length < latcount)
    (reading : Reading) :
    Represents (publish d) (Collector.step collector reading) := by
  obtain ⟨hnext, hshown⟩ := Collector.step_emit reading hheld
  obtain ⟨batch, hbatch, hemitted, _⟩ := Collector.batches_emit reading [] hheld
  constructor
  · rw [hnext]
    rfl
  · rw [hnext]
    rfl
  · rw [hnext]
    rfl
  · rw [hnext]
    rfl
  · rw [hshown, hemitted, Option.map_some, Option.getD_some, hbatch]
    exact publish_displays h.sensorLat h.powerLat h.voltLat collector.held_le

/-- The other assignments of a pass touch nothing that the averaging uses. -/
theorem update_represents {d : Dashboard} {collector : Collector Reading latcount}
    (h : Represents d collector) (reading : Reading) :
    Represents (update reading d) (Collector.step collector reading) := by
  have hleft : Represents { d with drawState := 6 } collector :=
    ⟨h.latency, h.sensorLat, h.powerLat, h.voltLat, h.shown⟩
  have haverage : Represents (average reading { d with drawState := 6 })
      (Collector.step collector reading) := by
    unfold average
    by_cases hheld : collector.held.length < latcount
    · rw [if_pos ((latency_lt_iff hleft).mpr hheld)]
      exact accumulate_represents hleft hheld reading
    · rw [if_neg (mt (latency_lt_iff hleft).mp hheld)]
      exact publish_represents hleft hheld reading
  unfold update leftBar
  split
  · exact ⟨haverage.latency, haverage.sensorLat, haverage.powerLat, haverage.voltLat,
      haverage.shown⟩
  · exact ⟨haverage.latency, haverage.sensorLat, haverage.powerLat, haverage.voltLat,
      haverage.shown⟩

/-! Runs of passes against runs of the collector. -/

def readings (inputs : List PassInput) : List Reading := inputs.map PassInput.reading

/-- The collector that the sketch represents after a run from power-up. -/
def collected (inputs : List PassInput) : Collector Reading latcount :=
  Run.final Collector.step Collector.empty (readings inputs)

/-- The blocks of readings that a run from power-up publishes. -/
def blocks (inputs : List PassInput) : List (FullBatch Reading latcount) :=
  Collector.batches Collector.empty (readings inputs)

theorem readings_match (inputs : List PassInput) :
    List.Forall₂ (fun (input : PassInput) reading => input.reading = reading)
      inputs (readings inputs) := by
  rw [readings, List.forall₂_map_right_iff, List.forall₂_same]
  exact fun _ _ => rfl

theorem step_represents (d : Dashboard) (collector : Collector Reading latcount)
    (input : PassInput) (reading : Reading) (h : Represents d collector)
    (hreading : input.reading = reading) :
    Represents (step d input) (Collector.step collector reading) := by
  rw [← hreading]
  exact update_represents h input.reading

theorem run_represents (inputs : List PassInput) {d : Dashboard}
    {collector : Collector Reading latcount} (h : Represents d collector) :
    Represents (Run.final step d inputs)
      (Run.final Collector.step collector (readings inputs)) :=
  Run.simulation step_represents h (readings_match inputs)

theorem allTaken_eq (inputs : List PassInput) {d : Dashboard}
    {collector : Collector Reading latcount} (h : Represents d collector) :
    allTaken d inputs = Collector.allTaken collector (readings inputs) := by
  refine Run.simulation_observed step_represents ?_ h (readings_match inputs)
  intro d collector input reading represents hreading
  rw [← hreading]
  simp only [loop, taken, Collector.taken, latency_lt_iff represents]

theorem allPublished_eq (inputs : List PassInput) {d : Dashboard}
    {collector : Collector Reading latcount} (h : Represents d collector) :
    (allPublished d inputs).map displayed =
      (Collector.batches collector (readings inputs)).map fun batch => image batch.val := by
  unfold allPublished Collector.batches
  rw [List.map_filterMap, List.map_filterMap]
  refine Run.simulation_observed step_represents ?_ h (readings_match inputs)
  intro d collector input reading represents hreading
  have hnext := update_represents represents input.reading
  dsimp only [loop, published]
  by_cases hheld : collector.held.length < latcount
  · rw [if_pos ((latency_lt_iff represents).mpr hheld), Collector.emitted, dif_pos hheld]
    rfl
  · obtain ⟨batch, hbatch, hemitted, _⟩ := Collector.batches_emit input.reading [] hheld
    have hshown := hnext.shown
    rw [(Collector.step_emit input.reading hheld).2, hemitted] at hshown
    rw [if_neg (mt (latency_lt_iff represents).mp hheld), hemitted, Option.map_some,
      Option.map_some, hshown]
    rfl

/-- The ranges of the published values that the screen relies on. -/
structure Ranges (d : Dashboard) : Prop where
  sensorValue : 0 ≤ d.sensorValue.toInt ∧ d.sensorValue.toInt ≤ 1023
  voltValue : 0 ≤ d.voltValue.toInt ∧ d.voltValue.toInt ≤ 250
  fuelLVLProcent : -7 ≤ d.fuelLVLProcent.toInt ∧ d.fuelLVLProcent.toInt ≤ 108

theorem ranges_of_represents {d : Dashboard} {collector : Collector Reading latcount}
    (h : Represents d collector) : Ranges d := by
  have hshown := h.shown
  cases hbatch : collector.shown with
  | none =>
      rw [hbatch] at hshown
      have hsensor : d.sensorValue.toInt = 0 := congrArg Display.sensorValue hshown
      have hvolt : d.voltValue.toInt = 0 := congrArg Display.voltValue hshown
      have hfuel : d.fuelLVLProcent.toInt = 0 := congrArg Display.fuelLVLProcent hshown
      exact ⟨by omega, by omega, by omega⟩
  | some batch =>
      rw [hbatch] at hshown
      have hsensor : d.sensorValue.toInt = (image batch.val).sensorValue :=
        congrArg Display.sensorValue hshown
      have hvolt : d.voltValue.toInt = (image batch.val).voltValue :=
        congrArg Display.voltValue hshown
      have hfuel : d.fuelLVLProcent.toInt = (image batch.val).fuelLVLProcent :=
        congrArg Display.fuelLVLProcent hshown
      have hlength : batch.val.length ≤ latcount := batch.property.le
      have hpercent : -7 ≤ (image batch.val).fuelLVLProcent ∧
          (image batch.val).fuelLVLProcent ≤ 108 :=
        percent_bounds (total_bounds Reading.sensor batch.val).1
          (total_le Reading.sensor hlength)
      have hmean : 0 ≤ (image batch.val).sensorValue ∧ (image batch.val).sensorValue ≤ 1023 :=
        floorMean_bounds Reading.sensor hlength
      have hvoltage := voltValue_bounds hlength
      rw [← hsensor] at hmean
      rw [← hvolt] at hvoltage
      rw [← hfuel] at hpercent
      exact ⟨hmean, hvoltage, hpercent⟩

theorem run_ranges (inputs : List PassInput) : Ranges (Run.final step powerOn inputs) :=
  ranges_of_represents (run_represents inputs powerOn_represents)

/-- The readings of a run fall into the published blocks and the ones that are
pending; the sums are those of the pending readings, and each publication shows
its block. -/
theorem averaging_exact (inputs : List PassInput) :
    ∃ (blocks : List (FullBatch Reading latcount)) (pending : List Reading),
      let last := Run.final step powerOn inputs
      allTaken powerOn inputs = (blocks.map Subtype.val).flatten ++ pending ∧
      last.latency.toInt = pending.length ∧ pending.length ≤ latcount ∧
      last.sensorLat.toInt = total Reading.sensor pending ∧
      last.powerLat.toInt = total Reading.power pending ∧
      last.voltLat.toInt = total Reading.volt pending ∧
      (allPublished powerOn inputs).map displayed = blocks.map fun block => image block.val := by
  have hlast : Represents (Run.final step powerOn inputs) (collected inputs) :=
    run_represents inputs powerOn_represents
  have hheld := Collector.held_append_allTaken (readings inputs)
    (Collector.empty : Collector Reading latcount)
  refine ⟨blocks inputs, (collected inputs).held, ?_, hlast.latency, (collected inputs).held_le,
    hlast.sensorLat, hlast.powerLat, hlast.voltLat, allPublished_eq inputs powerOn_represents⟩
  rw [allTaken_eq inputs powerOn_represents]
  exact hheld

end OledDs18b20.Nokia.Averaging
