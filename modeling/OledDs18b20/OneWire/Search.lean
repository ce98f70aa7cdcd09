import OledDs18b20.Lib.BitSearch
import OledDs18b20.OneWire.Transaction

/-! `OneWire::search`: each call finds one device, by the place at which the last call took
a zero against a one. -/
namespace OledDs18b20.OneWire
open Lib

structure Search where
  romNo : Vector UInt8 8
  lastDiscrepancy : UInt8
  lastFamilyDiscrepancy : UInt8
  lastDeviceFlag : Bool
deriving DecidableEq

namespace Search

def resetSearch (_ : Search) : Search where
  romNo := Vector.replicate 8 0
  lastDiscrepancy := 0
  lastFamilyDiscrepancy := 0
  lastDeviceFlag := false

def targetSearch (familyCode : UInt8) (_ : Search) : Search where
  romNo := (Vector.replicate 8 0).setIfInBounds 0 familyCode
  lastDiscrepancy := 64
  lastFamilyDiscrepancy := 0
  lastDeviceFlag := false

structure Walk where
  bus : Bus
  romNo : Vector UInt8 8
  idBitNumber : UInt8
  lastZero : UInt8
  romByteNumber : UInt8
  romByteMask : UInt8
  lastFamilyDiscrepancy : UInt8

namespace Walk

def romByte (walk : Walk) : UInt8 := walk.romNo.toList.getD walk.romByteNumber.toNat 0

def choose (lastDiscrepancy : UInt8) (walk : Walk) : Bool :=
  if walk.idBitNumber < lastDiscrepancy then
    walk.romByte &&& walk.romByteMask > 0
  else walk.idBitNumber = lastDiscrepancy

def noteZero (walk : Walk) : Walk :=
  { walk with
    lastZero := walk.idBitNumber
    lastFamilyDiscrepancy :=
      if walk.idBitNumber < 9 then walk.idBitNumber else walk.lastFamilyDiscrepancy }

def turn (searchDirection : Bool) (walk : Walk) : Walk :=
  let byte := if searchDirection then walk.romByte ||| walk.romByteMask
    else walk.romByte &&& ~~~walk.romByteMask
  let mask := walk.romByteMask <<< 1
  { walk with
    romNo := walk.romNo.setIfInBounds walk.romByteNumber.toNat byte
    bus := walk.bus.writeBit searchDirection
    idBitNumber := walk.idBitNumber + 1
    romByteNumber := if mask = 0 then walk.romByteNumber + 1 else walk.romByteNumber
    romByteMask := if mask = 0 then 1 else mask }

/-- The body of the loop; `none` at its `break`. -/
def pass (lastDiscrepancy : UInt8) (walk : Walk) : Option Walk :=
  let (idBit, bus) := walk.bus.readBit
  let (cmpIdBit, bus) := bus.readBit
  let walk := { walk with bus := bus }
  if idBit = true ∧ cmpIdBit = true then none
  else if idBit ≠ cmpIdBit then some (walk.turn idBit)
  else
    let searchDirection := walk.choose lastDiscrepancy
    let walk := if searchDirection then walk else walk.noteZero
    some (walk.turn searchDirection)

def loop (lastDiscrepancy : UInt8) : ℕ → Walk → Walk
  | 0, walk => walk
  | fuel + 1, walk =>
      match walk.pass lastDiscrepancy with
      | none => { walk with bus := walk.bus.readBit.2.readBit.2 }
      | some walk => if walk.romByteNumber < 8 then loop lastDiscrepancy fuel walk else walk

end Walk

def walk (search : Search) (bus : Bus) : Walk :=
  Walk.loop search.lastDiscrepancy 64
    { bus := bus
      romNo := search.romNo
      idBitNumber := 1
      lastZero := 0
      romByteNumber := 0
      romByteMask := 1
      lastFamilyDiscrepancy := search.lastFamilyDiscrepancy }

def found (search : Search) (walk : Walk) : Search × Bool :=
  if walk.idBitNumber < 65 then
    ({ search with
      romNo := walk.romNo
      lastFamilyDiscrepancy := walk.lastFamilyDiscrepancy }, false)
  else
    ({ romNo := walk.romNo
       lastDiscrepancy := walk.lastZero
       lastFamilyDiscrepancy := walk.lastFamilyDiscrepancy
       lastDeviceFlag := walk.lastZero = 0 }, true)

/-- The last part of `search`, which starts over if nothing was found. -/
def finish (searchResult : Bool) (search : Search) : Search × Bool :=
  if searchResult = false ∨ search.romNo.toList.getD 0 0 = 0 then
    ({ search with
      lastDiscrepancy := 0
      lastDeviceFlag := false
      lastFamilyDiscrepancy := 0 }, false)
  else (search, true)

/-- `OneWire::search`. The result is `newAddr` if a device was found. -/
def search (state : Search) (bus : Bus) : Option (Vector UInt8 8) × Search × Bus :=
  if state.lastDeviceFlag then
    let state := (state.finish false).1
    (none, state, bus)
  else
    let (present, bus) := bus.reset
    if present = false then
      (none, { state with
        lastDiscrepancy := 0
        lastDeviceFlag := false
        lastFamilyDiscrepancy := 0 }, bus)
    else
      let walk := state.walk (bus.write 0xF0)
      let (state, searchResult) := state.found walk
      let (state, searchResult) := state.finish searchResult
      (if searchResult then some state.romNo else none, state, walk.bus)

end Search

end OledDs18b20.OneWire
