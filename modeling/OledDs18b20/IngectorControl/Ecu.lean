import Mathlib
import OledDs18b20.Lib.Run

/-! The injector controller: the registers that `main` and the interrupt
routines touch, and the converter behind them. -/
namespace OledDs18b20.IngectorControl

/-- `converting` lists the channels of the conversions that were started and
whose result the interrupt has not received yet. -/
structure Ecu where
  ddrb : UInt8
  ddrc : UInt8
  ddrd : UInt8
  admux : UInt8
  adcsra : UInt8
  adch : UInt8
  sei : Bool
  converting : List UInt8
  adch0 : UInt8
  adch1 : UInt8
deriving DecidableEq

namespace Ecu

def bv (bit : UInt8) : UInt8 := 1 <<< bit

def ing0PinNum : UInt8 := 3
def ing1PinNum : UInt8 := 5
def potDrocelPinNum : UInt8 := 0
def pot0PinNum : UInt8 := 1
def igiPinNum : UInt8 := 2

def aden : UInt8 := 7
def adsc : UInt8 := 6
def adie : UInt8 := 3

/-- The multiplexer bits of `ADMUX`. -/
def channel (admux : UInt8) : UInt8 := admux &&& 0x0F

/-- A write of `ADCSRA`: with `ADSC` set in an enabled converter it starts a
conversion of the channel selected at this moment. -/
def writeAdcsra (value : UInt8) (ecu : Ecu) : Ecu :=
  { ecu with
    adcsra := value
    converting :=
      if value &&& bv aden ≠ 0 ∧ value &&& bv adsc ≠ 0 then
        ecu.converting ++ [channel ecu.admux]
      else ecu.converting }

def startConversion (ecu : Ecu) : Ecu :=
  writeAdcsra (ecu.adcsra ||| bv adsc) ecu

def adcVect (ecu : Ecu) : Ecu :=
  startConversion
    (if ecu.admux = 0b01100000 then
      { ecu with adch0 := ecu.adch, admux := 0b01100001 }
    else { ecu with adch1 := ecu.adch, admux := 0b01100000 })

def timer2OvfVect (ecu : Ecu) : Ecu := ecu

def adcSetup (ecu : Ecu) : Ecu :=
  startConversion (writeAdcsra 0b10001110 { ecu with admux := 0b01100000 })

/-! The five direction statements of `main`. -/

def ing0Out (ecu : Ecu) : Ecu := { ecu with ddrb := bv ing0PinNum }
def ing1Out (ecu : Ecu) : Ecu := { ecu with ddrb := bv ing1PinNum }
def igiIn (ecu : Ecu) : Ecu := { ecu with ddrd := ~~~ bv igiPinNum }
def potDrocelIn (ecu : Ecu) : Ecu := { ecu with ddrc := ~~~ bv potDrocelPinNum }
def pot0In (ecu : Ecu) : Ecu := { ecu with ddrc := ~~~ bv pot0PinNum }

def main (ecu : Ecu) : Ecu :=
  let ecu := pot0In (potDrocelIn (igiIn (ing1Out (ing0Out ecu))))
  { adcSetup ecu with sei := true }

inductive Interrupt where
  | timer2Ovf
  | adc (result : UInt8)
deriving DecidableEq

/-- The oldest conversion ends: the converter clears `ADSC` and stores the
result, and the interrupt routine runs if it is enabled. -/
def complete (result : UInt8) (ecu : Ecu) : Ecu :=
  match ecu.converting with
  | [] => ecu
  | _ :: rest =>
      let ecu := { ecu with
        adch := result
        adcsra := ecu.adcsra &&& ~~~ bv adsc
        converting := rest }
      if ecu.sei ∧ ecu.adcsra &&& bv adie ≠ 0 then adcVect ecu else ecu

def interrupt (ecu : Ecu) : Interrupt → Ecu
  | .timer2Ovf => timer2OvfVect ecu
  | .adc result => complete result ecu

/-- The registers as `main` finds them, with no conversion under way. -/
def powerOn (ddrb ddrc ddrd admux adcsra adch : UInt8) : Ecu where
  ddrb := ddrb
  ddrc := ddrc
  ddrd := ddrd
  admux := admux
  adcsra := adcsra
  adch := adch
  sei := false
  converting := []
  adch0 := 0xFF
  adch1 := 0xFF

/-! What `main` and one delivered result leave. -/

theorem channel_zero : channel 0b01100000 = 0 := by decide

theorem channel_one : channel 0b01100001 = 1 := by decide

theorem startConversion_eq {ecu : Ecu} (h : ecu.adcsra = 0b10001110) :
    startConversion ecu = { ecu with
      adcsra := 0b11001110
      converting := ecu.converting ++ [channel ecu.admux] } := by
  unfold startConversion writeAdcsra
  rw [h]
  rfl

theorem main_eq (ecu : Ecu) :
    main ecu = { ecu with
      ddrb := bv ing1PinNum
      ddrc := ~~~ bv pot0PinNum
      ddrd := ~~~ bv igiPinNum
      admux := 0b01100000
      adcsra := 0b11001110
      sei := true
      converting := ecu.converting ++ [0] } := by
  have hidle (target : Ecu) :
      writeAdcsra 0b10001110 target = { target with adcsra := 0b10001110 } := rfl
  dsimp only [main, adcSetup]
  rw [hidle, startConversion_eq]
  · dsimp only
    rw [channel_zero]
    rfl
  · rfl

section Delivered
variable {ecu : Ecu} {started : UInt8} {rest : List UInt8}

/-- With the interrupt enabled a delivered result goes to the routine. -/
theorem complete_eq (result : UInt8) (hconverting : ecu.converting = started :: rest)
    (hadcsra : ecu.adcsra = 0b11001110) (hsei : ecu.sei = true) :
    complete result ecu = adcVect { ecu with
      adch := result
      adcsra := 0b10001110
      converting := rest } := by
  unfold complete
  rw [hconverting]
  simp only [hadcsra, hsei]
  rfl

theorem complete_zero (result : UInt8) (hconverting : ecu.converting = started :: rest)
    (hadcsra : ecu.adcsra = 0b11001110) (hsei : ecu.sei = true)
    (hadmux : ecu.admux = 0b01100000) :
    complete result ecu = { ecu with
      adch := result
      adch0 := result
      admux := 0b01100001
      adcsra := 0b11001110
      converting := rest ++ [1] } := by
  rw [complete_eq result hconverting hadcsra hsei, adcVect, if_pos hadmux, startConversion_eq]
  · dsimp only
    rw [channel_one]
  · rfl

theorem complete_one (result : UInt8) (hconverting : ecu.converting = started :: rest)
    (hadcsra : ecu.adcsra = 0b11001110) (hsei : ecu.sei = true)
    (hadmux : ecu.admux = 0b01100001) :
    complete result ecu = { ecu with
      adch := result
      adch1 := result
      admux := 0b01100000
      adcsra := 0b11001110
      converting := rest ++ [0] } := by
  have hother : ¬ ecu.admux = 0b01100000 := by
    rw [hadmux]
    decide
  rw [complete_eq result hconverting hadcsra hsei, adcVect, if_neg hother, startConversion_eq]
  · dsimp only
    rw [channel_zero]
  · rfl

end Delivered

end Ecu

end OledDs18b20.IngectorControl
