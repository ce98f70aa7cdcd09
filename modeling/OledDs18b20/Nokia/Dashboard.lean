import Mathlib
import OledDs18b20.Lib.Truncation

/-! The variables of the dashboard sketch and the part of `loop` that averages
the ADC readings, with the integer widths of the target. -/
namespace OledDs18b20.Nokia
open Lib

def latcount : ℕ := 10

abbrev Adc := Fin 1024

/-- The calls of `analogRead` for `sensorPin`, `PowerPin` and `VoltPin`. -/
structure Reading where
  sensor : Adc
  power : Adc
  volt : Adc
deriving DecidableEq

structure Dashboard where
  sensorValue : Int16
  sensorLat : Int16
  powerValue : Int16
  powerLat : Int16
  voltValue : Int16
  voltLat : Int16
  latency : Int8
  drawH : Int16
  fuelLVLProcent : Int8
  lbarH : Int8
  drawState : UInt8
deriving DecidableEq

namespace Dashboard

def powerOn : Dashboard where
  sensorValue := 0
  sensorLat := 0
  powerValue := 0
  powerLat := 0
  voltValue := 0
  voltLat := 0
  latency := 0
  drawH := 0
  fuelLVLProcent := 0
  lbarH := 0
  drawState := 0

/-- The variables `FuelStart` and `FuelEnd`, which nothing writes. -/
def fuelStart : Int16 := 70
def fuelEnd : Int16 := 950

def analog (reading : Adc) : Int16 := Int16.ofNat reading.val

/-- `map` of the Arduino core, in its `long` arithmetic. -/
def map (x inMin inMax outMin outMax : Int32) : Int32 :=
  (x - inMin) * (outMax - outMin) / (inMax - inMin) + outMin

def accumulate (reading : Reading) (d : Dashboard) : Dashboard :=
  { d with
    latency := d.latency + 1
    sensorLat := d.sensorLat + analog reading.sensor
    powerLat := d.powerLat + analog reading.power
    voltLat := d.voltLat + analog reading.volt }

/-- The other branch. The first assignment of `VoltValue` is overwritten at once. -/
def publish (d : Dashboard) : Dashboard :=
  let count := Int16.ofNat latcount
  let low := (fuelStart * count).toInt32
  let high := (fuelEnd * count).toInt32
  { d with
    latency := 0
    drawH := (map d.sensorLat.toInt32 low high 1 47).toInt16
    fuelLVLProcent := (map d.sensorLat.toInt32 low high 0 100).toInt8
    sensorValue := d.sensorLat / count
    sensorLat := 0
    powerValue := d.powerLat / count
    powerLat := 0
    voltValue := (map (d.voltLat / count).toInt32 0 1024 0 251).toInt16
    voltLat := 0 }

def average (reading : Reading) (d : Dashboard) : Dashboard :=
  if d.latency < Int8.ofNat latcount then accumulate reading d else publish d

def leftBar (d : Dashboard) : Dashboard :=
  if d.lbarH < 48 then { d with lbarH := d.lbarH + 1 } else { d with lbarH := 0 }

def update (reading : Reading) (d : Dashboard) : Dashboard :=
  leftBar (average reading { d with drawState := 6 })

/-- The reading that a pass takes, if it takes one. -/
def taken (d : Dashboard) (reading : Reading) : Option Reading :=
  if d.latency < Int8.ofNat latcount then some reading else none

/-- The values a pass publishes, if it publishes them: the state it leaves. -/
def published (d : Dashboard) (reading : Reading) : Option Dashboard :=
  if d.latency < Int8.ofNat latcount then none else some (update reading d)

theorem toInt_sub_exact {x y : Int32} (hlow : -2 ^ 31 ≤ x.toInt - y.toInt)
    (hhigh : x.toInt - y.toInt < 2 ^ 31) : (x - y).toInt = x.toInt - y.toInt := by
  rw [Int32.toInt_sub]
  exact Int.bmod_eq_of_le (by omega) (by omega)

theorem toInt_map {x inMin inMax outMin outMax : Int32}
    (hin : inMin.toInt < inMax.toInt) (hout : outMin.toInt ≤ outMax.toInt)
    (hlow : |inMin.toInt| ≤ 2 ^ 15) (hhigh : |inMax.toInt| ≤ 2 ^ 15)
    (hx : |x.toInt| ≤ 2 ^ 15) (hmin : |outMin.toInt| ≤ 2 ^ 9) (hmax : |outMax.toInt| ≤ 2 ^ 9) :
    (map x inMin inMax outMin outMax).toInt =
      Truncation.rescale x.toInt inMin.toInt inMax.toInt outMin.toInt outMax.toInt := by
  rw [abs_le] at hlow hhigh hx hmin hmax
  have hbounds : |(x.toInt - inMin.toInt) * (outMax.toInt - outMin.toInt)| ≤ 2 ^ 26 ∧
      |((x.toInt - inMin.toInt) * (outMax.toInt - outMin.toInt)).tdiv
        (inMax.toInt - inMin.toInt)| ≤ 2 ^ 26 :=
    Truncation.rescale_bounds hout (abs_le.mpr (by omega)) (by omega)
  rw [abs_le, abs_le] at hbounds
  have hoffset : (x - inMin).toInt = x.toInt - inMin.toInt :=
    toInt_sub_exact (by omega) (by omega)
  have hspan : (outMax - outMin).toInt = outMax.toInt - outMin.toInt :=
    toInt_sub_exact (by omega) (by omega)
  have hrange : (inMax - inMin).toInt = inMax.toInt - inMin.toInt :=
    toInt_sub_exact (by omega) (by omega)
  have hmul : ((x - inMin) * (outMax - outMin)).toInt =
      (x.toInt - inMin.toInt) * (outMax.toInt - outMin.toInt) := by
    rw [Int32.toInt_mul, hoffset, hspan]
    exact Int.bmod_eq_of_le (by omega) (by omega)
  have hdiv : ((x - inMin) * (outMax - outMin) / (inMax - inMin)).toInt =
      ((x.toInt - inMin.toInt) * (outMax.toInt - outMin.toInt)).tdiv
        (inMax.toInt - inMin.toInt) := by
    rw [Int32.toInt_div, hmul, hrange]
    exact Int.bmod_eq_of_le (by omega) (by omega)
  rw [map, Int32.toInt_add, hdiv]
  exact Int.bmod_eq_of_le (by omega) (by omega)

end Dashboard

end OledDs18b20.Nokia
