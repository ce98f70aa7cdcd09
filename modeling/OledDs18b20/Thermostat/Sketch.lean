import Mathlib
import OledDs18b20.Thermostat.Log

/-! The variables of the thermostat sketch and the outputs it drives. A `char`
is a signed byte on the AVR target; the other integer variables have the width
the target gives them. -/
namespace OledDs18b20.Thermostat

def paramCount : ℕ := 15

inductive Level where
  | low
  | high
deriving DecidableEq

structure Pins where
  heaterPin : Level
  loadShowPin : Level
  loadRelaxPin : Level
deriving DecidableEq

/-- The heater is switched on by a low level, the relay by a high one. -/
def Pins.on : Pins := ⟨.low, .low, .high⟩
def Pins.off : Pins := ⟨.high, .high, .low⟩

structure TmElements where
  hour : UInt8
  minute : UInt8
  second : UInt8
deriving DecidableEq

/-- `params` is the memory from the start of `Params`: the cells below
`paramCount` are the array, the ones above it are whatever lies behind it. -/
structure Sketch where
  params : ℕ → Int8
  eeprom : ℕ → UInt8
  address : Int16
  pins : Pins
  celsius : ℚ
  timeLogCounter : Int8
  log : ValidLog
  dsNum : Fin 4
  rtcNum : Int8
  tm : TmElements
  startXGraph : Int8
  aab : Int8
  irrecv : Option UInt32
  results : UInt32
  rot180 : Bool
  fontAscent : Int8

def Sketch.setParam (s : Sketch) (index : ℕ) (value : Int8) : Sketch :=
  { s with params := Function.update s.params index value }

@[simp] theorem Sketch.setParam_same (s : Sketch) (index : ℕ) (value : Int8) :
    (s.setParam index value).params index = value := by
  simp [setParam]

@[simp] theorem Sketch.setParam_other (s : Sketch) {index other : ℕ} (value : Int8)
    (h : other ≠ index) : (s.setParam index value).params other = s.params other := by
  simp [setParam, h]

/-- The index `Params[0]` of the parameter the menu shows. -/
def Sketch.menuIndex (s : Sketch) : ℕ := (s.params 0).toNatClampNeg

/-- The declared initial value of `Params`. -/
def declaredParams : Vector Int8 paramCount :=
  #v[0, 0, 1, 10, 30, 20, 31, 29, 1, 0, 1, 1, 5, 1, Int8.ofNat paramCount]

/-- What the sources leave to the build: the memory behind `Params` at power-up
and the ascent of the font, whose data is not part of the repository. -/
structure Board where
  behind : ℕ → Int8
  fontAscent : Int8

/-- The variables as the C startup code leaves them. -/
def powerOn (board : Board) (eeprom : ℕ → UInt8) : Sketch where
  params := fun index =>
    if h : index < paramCount then declaredParams[index] else board.behind index
  eeprom := eeprom
  address := 0
  pins := ⟨.low, .low, .low⟩
  celsius := 0
  timeLogCounter := 0
  log := ValidLog.zeroed
  dsNum := Fin.last 3
  rtcNum := 3
  tm := ⟨0, 0, 0⟩
  startXGraph := 0
  aab := 0
  irrecv := none
  results := 0
  rot180 := false
  fontAscent := board.fontAscent

end OledDs18b20.Thermostat
