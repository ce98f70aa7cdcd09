import OledDs18b20.Lib.Binary32

/-! From the bytes of the bus to a temperature, in the 16-bit arithmetic of the
target: an operand that mixes with the unsigned `0xFFF0` is unsigned. -/
namespace OledDs18b20.Thermostat.Decode
open Lib

/-- The switch on the family code: `type_s` and `DSNum` of a known chip. -/
def chip (family : UInt8) : Option (UInt8 × Fin 4) :=
  if family = 0x10 then some (1, 0)
  else if family = 0x28 then some (0, 1)
  else if family = 0x22 then some (0, 2)
  else none

def raw (typeS : UInt8) (data : Vector UInt8 9) : Int16 :=
  let raw := (data[1].toUInt16 <<< 8 ||| data[0].toUInt16).toInt16
  if typeS ≠ 0 then
    let raw := raw <<< 3
    if data[7] = 0x10 then
      let whole : UInt16 := raw.toUInt16 &&& 0xFFF0
      let remain : UInt16 := data[6].toUInt16
      (whole + (12 : UInt16) - remain).toInt16
    else raw
  else
    let cfg := data[4] &&& 0x60
    if cfg = 0x00 then raw &&& ~~~(7 : Int16)
    else if cfg = 0x20 then raw &&& ~~~(3 : Int16)
    else if cfg = 0x40 then raw &&& ~~~(1 : Int16)
    else raw

def celsius (raw : Int16) : ℚ :=
  Binary32.round (Binary32.round raw.toInt / 16)

def tenths (celsius : ℚ) : Int16 :=
  Int16.ofInt (Binary32.truncate (Binary32.round (celsius * 10)))

/-- The division loses nothing: a temperature is an exact multiple of 1/16. -/
theorem celsius_eq (raw : Int16) : celsius raw = raw.toInt / 16 := by
  have hlow := raw.le_toInt
  have hhigh := raw.toInt_lt
  have hsmall : |raw.toInt| < 2 ^ Binary32.precision :=
    abs_lt.mpr ⟨by rw [Binary32.precision]; omega, by rw [Binary32.precision]; omega⟩
  have hscaled : ((raw.toInt : ℚ) / 16) = raw.toInt * 2 ^ (-4 : ℤ) := by
    norm_num [div_eq_mul_inv]
  unfold celsius
  rw [Binary32.round_intCast _ hsmall, hscaled,
    Binary32.round_eq_self _ _ hsmall (by decide)]

end OledDs18b20.Thermostat.Decode
