import Mathlib

/-! The 1-Wire bus: one line that the master and the devices pull low, and the devices as
the search and read functions of the master presuppose them. A slot is the same for all:
the line is high if nobody pulls it low, and every device sees what it is. -/
namespace OledDs18b20.OneWire

/-- The bits of a byte in the order in which they travel, lowest first. -/
def byteBits (byte : UInt8) : List Bool := (List.range 8).map byte.toBitVec.getLsbD

def wireBits (bytes : List UInt8) : List Bool := bytes.flatMap byteBits

/-- What a device is doing. In a search it sends a bit of its ROM code and the complement
of that bit, and then listens for the direction that the master takes. -/
inductive Phase where
  | idle
  | romCommand (received : List Bool)
  | searchBit (place : ℕ)
  | searchComplement (place : ℕ)
  | searchDirection (place : ℕ)
  | matchRom (place : ℕ)
  | functionCommand (received : List Bool)
  | sendScratchpad (place : ℕ)
deriving DecidableEq

structure Device where
  rom : Vector UInt8 8
  scratchpad : Vector UInt8 9
  phase : Phase
deriving DecidableEq

namespace Device

def word (device : Device) : List Bool := wireBits device.rom.toList

def sent (device : Device) : List Bool := wireBits device.scratchpad.toList

/-- Whether the device lets the line be high in this slot. -/
def lets (device : Device) : Bool :=
  match device.phase with
  | .searchBit place => device.word.getD place true
  | .searchComplement place => !device.word.getD place true
  | .sendScratchpad place => device.sent.getD place true
  | _ => true

def romCommand (received : List Bool) : Phase :=
  if received.length < 8 then .romCommand received
  else if received = byteBits 0xF0 then .searchBit 0
  else if received = byteBits 0x55 then .matchRom 0
  else if received = byteBits 0xCC then .functionCommand []
  else .idle

def functionCommand (received : List Bool) : Phase :=
  if received.length < 8 then .functionCommand received
  else if received = byteBits 0xBE then .sendScratchpad 0
  else .idle

/-- A device that does not have the bit drops out until the next reset; one that has all
of them is selected. -/
def compared (device : Device) (place : ℕ) (level : Bool) (next : ℕ → Phase) : Phase :=
  if device.word.getD place true = level then
    if place + 1 < device.word.length then next (place + 1) else .functionCommand []
  else .idle

def observe (device : Device) (level : Bool) : Device :=
  { device with
    phase :=
      match device.phase with
      | .idle => .idle
      | .romCommand received => romCommand (received ++ [level])
      | .searchBit place => .searchComplement place
      | .searchComplement place => .searchDirection place
      | .searchDirection place => device.compared place level .searchBit
      | .matchRom place => device.compared place level .matchRom
      | .functionCommand received => functionCommand (received ++ [level])
      | .sendScratchpad place => .sendScratchpad (place + 1) }

end Device

/-- The devices, and how often the line is still found low before a reset. -/
structure Bus where
  devices : List Device
  lowReads : ℕ
deriving DecidableEq

namespace Bus

def level (master : Bool) (bus : Bus) : Bool := master && bus.devices.all Device.lets

def slot (master : Bool) (bus : Bus) : Bus :=
  { bus with devices := bus.devices.map fun device => device.observe (bus.level master) }

/-- The loop that waits for the line to be high. -/
def waitHigh : ℕ → ℕ → Bool
  | 0, _ => false
  | 1, _ => false
  | _ + 2, 0 => true
  | retries + 2, low + 1 => waitHigh (retries + 1) low

/-- `OneWire::reset`, and whether a device is present. -/
def reset (bus : Bus) : Bool × Bus :=
  if waitHigh 125 bus.lowReads then
    (!bus.devices.isEmpty,
      { bus with
        devices := bus.devices.map fun device => { device with phase := .romCommand [] } })
  else (false, bus)

def writeBit (v : Bool) (bus : Bus) : Bus := bus.slot v

def readBit (bus : Bus) : Bool × Bus := (bus.level true, bus.slot true)

/-- The values of `bitMask` in the loops of `write` and `read`. -/
def bitMasks : List UInt8 := [0x01, 0x02, 0x04, 0x08, 0x10, 0x20, 0x40, 0x80]

def write (v : UInt8) (bus : Bus) : Bus :=
  bitMasks.foldl (fun bus bitMask => bus.writeBit (bitMask &&& v ≠ 0)) bus

def read (bus : Bus) : UInt8 × Bus :=
  bitMasks.foldl (fun (r, bus) bitMask =>
    let (bit, bus) := bus.readBit
    (if bit then r ||| bitMask else r, bus)) (0, bus)

def select (rom : Vector UInt8 8) (bus : Bus) : Bus :=
  rom.toList.foldl (fun bus byte => bus.write byte) (bus.write 0x55)

def skip (bus : Bus) : Bus := bus.write 0xCC

end Bus

end OledDs18b20.OneWire
