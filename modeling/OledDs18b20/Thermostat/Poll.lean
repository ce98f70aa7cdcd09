import OledDs18b20.OneWire.Enumeration
import OledDs18b20.Thermostat.Loop

/-! The passes of `loop` on a bus: which device each of them reads. -/
namespace OledDs18b20.Thermostat.Poll
open Lib Loop OledDs18b20.OneWire

/-- What one pass meets: the bus when it calls `ds.search`, the scratchpad that each device
has when it is read, and the rest of the hardware. -/
structure Surroundings where
  bus : Bus
  measured : Rom → Vector UInt8 9
  others : PassInput

def converted (around : Surroundings) (bus : Bus) : Bus :=
  bus.each fun device => { device with scratchpad := around.measured device.rom }

/-- What a pass gets from `ds`, which is left in the state it returns. -/
def sense (ds : Search) (around : Surroundings) : Search × PassInput :=
  match ds.search around.bus with
  | (none, ds, _) => (ds.resetSearch, { around.others with search := none })
  | (some addr, ds, bus) =>
      let input := { around.others with search := some addr }
      match detect input with
      | .error _ => (ds, input)
      | .ok _ =>
          let bus := converted around (bus.command addr 0x44)
          (ds, { input with data := (bus.command addr 0xBE).readData })

structure System where
  ds : Search
  sketch : Sketch

def pass (system : System) (around : Surroundings) : Pass :=
  loop system.sketch (sense system.ds around).2

def next (system : System) (around : Surroundings) : System where
  ds := (sense system.ds around).1
  sketch := (pass system around).state

/-! The same passes, with the devices polled in a given order. -/

/-- The input of a pass that polls a device, if any. -/
def polling (device : Option Rom) (around : Surroundings) : PassInput :=
  { around.others with
    search := device
    data := (device.map around.measured).getD around.others.data }

/-- The passes that poll the devices in turn and find none before the first one comes again. -/
def inTurn (order : List Rom) : ℕ → Sketch → List Surroundings → List Pass
  | _, _, [] => []
  | place, s, around :: later =>
      let pass := loop s (polling order[place % (order.length + 1)]? around)
      pass :: inTurn order (place + 1) pass.state later

def passes (system : System) (arounds : List Surroundings) : List Pass :=
  (Run.visits next system arounds).map fun visit => pass visit.1 visit.2

section Step
variable {roms : List Rom} {around : Surroundings}

theorem readData_each (hdistinct : roms.Nodup) {bus : Bus} (hbus : Search.Holds roms bus)
    {f : Device → Device} (hrom : ∀ device, (f device).rom = device.rom) {device : Device}
    (hdevice : device ∈ bus.devices) :
    ((bus.each f).command device.rom 0xBE).readData = (f device).scratchpad := by
  have hunique : ∀ other ∈ (bus.each f).devices, other.rom = (f device).rom →
      other = f device := by
    intro other hother hsame
    obtain ⟨before, hbefore, rfl⟩ := List.mem_map.mp hother
    rw [hrom, hrom] at hsame
    rw [← hbus.roms] at hdistinct
    rw [List.inj_on_of_nodup_map hdistinct hbefore hdevice hsame]
  have hworks : (bus.each f).Works := hbus.works
  have hread := Bus.readData_eq hworks (List.mem_map_of_mem hdevice) hunique
  rwa [hrom] at hread

theorem readData_converted (hdistinct : roms.Nodup) {bus : Bus} (hbus : Search.Holds roms bus)
    {addr : Rom} (haddr : addr ∈ roms) :
    ((converted around (bus.command addr 0x44)).command addr 0xBE).readData =
      around.measured addr := by
  rw [← hbus.roms] at haddr
  obtain ⟨device, hdevice, rfl⟩ := List.mem_map.mp haddr
  rw [Bus.command_eq hbus.works, converted, Bus.each_each]
  refine (readData_each hdistinct hbus ?_ hdevice).trans rfl
  exact fun _ => rfl

/-- What a pass does after a search that found `addr` and left the bus as it is. -/
theorem sense_found (hdistinct : roms.Nodup) {ds ds' : Search} {bus : Bus} {addr : Rom}
    (hbus : Search.Holds roms bus) (haddr : addr ∈ roms)
    (hsearch : ds.search around.bus = (some addr, ds', bus)) (s : Sketch) :
    (sense ds around).1 = ds' ∧
      loop s (sense ds around).2 = loop s (polling (some addr) around) := by
  have hsame : detect (polling (some addr) around) =
      detect { around.others with search := some addr } := rfl
  rw [sense, hsearch]
  dsimp only
  cases hdetect : detect { around.others with search := some addr } with
  | error cause =>
      refine ⟨rfl, ?_⟩
      rw [loop_early hdetect, loop_early (hsame.trans hdetect)]
      rfl
  | ok chip =>
      refine ⟨rfl, ?_⟩
      dsimp only
      rw [readData_converted hdistinct hbus haddr]
      rfl

/-- A pass is the pass that polls the next device of the round. -/
theorem pass_place (hdistinct : roms.Nodup) (hfamily : ∀ rom ∈ roms, rom.toList.getD 0 0 ≠ 0)
    (hbus : Search.Holds roms around.bus) {place : ℕ} {system : System}
    (h : Search.AtPlace roms place system.ds) :
    pass system around =
        loop system.sketch (polling (rota roms)[place % ((rota roms).length + 1)]? around) ∧
      Search.AtPlace roms (place + 1) (next system around).ds := by
  obtain ⟨hfound, hnext, hafter⟩ := Search.search_standing hfamily hbus h
  rw [Search.head_place] at hfound
  rcases hsearch : system.ds.search around.bus with ⟨found, ds, bus⟩
  rw [hsearch] at hfound hnext hafter
  have hplace : Search.AtPlace roms (place + 1) ds := Search.AtPlace.next hnext
  dsimp only at hfound
  rw [← hfound]
  cases found with
  | none =>
      have hend : (rota roms).drop (place % ((rota roms).length + 1)) = [] := by
        rw [List.drop_eq_nil_iff]
        exact List.getElem?_eq_none_iff.mp hfound.symm
      have hstart : Search.AtPlace roms (place + 1) ds.resetSearch := by
        apply Search.AtPlace.next
        rw [hend, if_pos rfl]
        exact Search.standing_start roms (Search.resumes_resetSearch ds)
      have hsense : sense system.ds around =
          (ds.resetSearch, { around.others with search := none }) := by
        rw [sense, hsearch]
      rw [pass, next, hsense]
      exact ⟨rfl, hstart⟩
  | some addr =>
      have haddr : addr ∈ roms := mem_rota.mp (List.mem_of_getElem? hfound.symm)
      obtain ⟨hds, hloop⟩ := sense_found hdistinct hafter haddr hsearch system.sketch
      rw [next, hds]
      exact ⟨hloop, hplace⟩

end Step

section Runs
variable {roms : List Rom} {arounds : List Surroundings} {place : ℕ} {system : System}

theorem final_place (hdistinct : roms.Nodup) (hfamily : ∀ rom ∈ roms, rom.toList.getD 0 0 ≠ 0)
    (hbuses : ∀ around ∈ arounds, Search.Holds roms around.bus)
    (h : Search.AtPlace roms place system.ds) :
    Search.AtPlace roms (place + arounds.length) (Run.final next system arounds).ds := by
  induction arounds generalizing place system with
  | nil => exact h
  | cons around later ih =>
      rw [List.forall_mem_cons] at hbuses
      have hlater := ih hbuses.2 (pass_place hdistinct hfamily hbuses.1 h).2
      rw [Nat.add_assoc, Nat.add_comm 1] at hlater
      exact hlater

theorem passes_eq (hdistinct : roms.Nodup) (hfamily : ∀ rom ∈ roms, rom.toList.getD 0 0 ≠ 0)
    (hbuses : ∀ around ∈ arounds, Search.Holds roms around.bus)
    (h : Search.AtPlace roms place system.ds) :
    passes system arounds = inTurn (rota roms) place system.sketch arounds := by
  induction arounds generalizing place system with
  | nil => rfl
  | cons around later ih =>
      rw [List.forall_mem_cons] at hbuses
      obtain ⟨hpass, hnext⟩ := pass_place hdistinct hfamily hbuses.1 h
      have hlater := ih hbuses.2 hnext
      rw [passes, Run.visits_cons, List.map_cons, ← passes, hlater, inTurn, next, hpass]

/-- The passes poll the devices of the bus in turn, in the order of their ROM codes, from
whatever place the search is at. -/
theorem passes_in_turn (hdistinct : roms.Nodup)
    (hfamily : ∀ rom ∈ roms, rom.toList.getD 0 0 ≠ 0)
    (hbuses : ∀ around ∈ arounds, Search.Holds roms around.bus) (system : System) :
    ∃ order : List Rom, order.Pairwise Before ∧ (∀ rom, rom ∈ order ↔ rom ∈ roms) ∧
      ∃ place, passes system arounds = inTurn order place system.sketch arounds := by
  obtain ⟨place, hplace⟩ := Search.exists_place roms system.ds
  exact ⟨rota roms, rota_sorted roms, fun rom => mem_rota, place,
    passes_eq hdistinct hfamily hbuses hplace⟩

/-- A pass on a bus with a DS18S20 and a DS18B20, both at 20 degrees. -/
def benchAround : Surroundings where
  bus := Search.benchBus Search.benchRoms
  measured := fun _ => benchData
  others := benchPass []

def benchSystem : System := ⟨Search.benchState, boot benchBoard declaredImage⟩

theorem benchAround_holds (count : ℕ) :
    ∀ around ∈ List.replicate count benchAround, Search.Holds Search.benchRoms around.bus := by
  intro around haround
  rw [List.eq_of_mem_replicate haround]
  exact Search.benchBus_holds Search.benchRoms

theorem passes_in_turn_bench : ∃ order : List Rom, order.Pairwise Before ∧
    (∀ rom, rom ∈ order ↔ rom ∈ Search.benchRoms) ∧ ∃ place,
      passes benchSystem (List.replicate 5 benchAround) =
        inTurn order place benchSystem.sketch (List.replicate 5 benchAround) :=
  passes_in_turn (by decide) Search.benchRoms_family (benchAround_holds 5) benchSystem

theorem detect_polling {rom : Rom} (hcrc : OneWire.crc8 (rom.toList.take 7) = rom.get 7)
    {chip : UInt8 × Fin 4} (hchip : Decode.chip (rom.get 0) = some chip)
    (around : Surroundings) : detect (polling (some rom) around) = .ok chip := by
  have hlast : OneWire.crc8 (rom.toList.take 7) = rom[7] := hcrc
  have hfirst : Decode.chip rom[0] = some chip := hchip
  simp only [detect, polling]
  rw [if_neg (not_not.mpr hlast)]
  simp only [hfirst]

theorem exists_turn (place : ℕ) {count index : ℕ} (h : index < count) :
    ∃ call < count + 1, (place + call) % (count + 1) = index := by
  have hlt : place % (count + 1) < count + 1 := Nat.mod_lt place (Nat.succ_pos count)
  rcases Nat.lt_or_ge index (place % (count + 1)) with hpassed | hahead
  · refine ⟨index + (count + 1) - place % (count + 1), by omega, ?_⟩
    have hsum : place % (count + 1) + (index + (count + 1) - place % (count + 1)) =
        index + (count + 1) := by omega
    rw [← Nat.mod_add_mod, hsum, Nat.add_mod_right, Nat.mod_eq_of_lt (by omega)]
  · refine ⟨index - place % (count + 1), by omega, ?_⟩
    have hsum : place % (count + 1) + (index - place % (count + 1)) = index := by omega
    rw [← Nat.mod_add_mod, hsum, Nat.mod_eq_of_lt (by omega)]

/-- No sensor starves: in a round of passes, from any state, each one of a known family is
read once, and what it measures becomes `celsius` and decides the load. -/
theorem every_sensor_read (hdistinct : roms.Nodup)
    (hfamily : ∀ rom ∈ roms, rom.toList.getD 0 0 ≠ 0)
    (hbuses : ∀ around ∈ arounds, Search.Holds roms around.bus)
    (hround : arounds.length = roms.length + 1) (system : System) {rom : Rom}
    (hrom : rom ∈ roms) (hcrc : OneWire.crc8 (rom.toList.take 7) = rom.get 7)
    {typeS : UInt8} {dsNum : Fin 4} (hchip : Decode.chip (rom.get 0) = some (typeS, dsNum)) :
    ∃ earlier around later, arounds = earlier ++ around :: later ∧
      let before := Run.final next system earlier
      let after := (next before around).sketch
      let measured := Decode.celsius (Decode.raw typeS (around.measured rom))
      (pass before around).returned = none ∧ after.celsius = measured ∧
        after.pins = Control.outputs (Control.command measured before.sketch)
          before.sketch.pins := by
  obtain ⟨place, hplace⟩ := Search.exists_place roms system.ds
  obtain ⟨index, hindex, hat⟩ := List.mem_iff_getElem.mp (mem_rota.mpr hrom)
  have hcount := (rota_perm hdistinct).length_eq
  obtain ⟨call, hcall, hturn⟩ := exists_turn place hindex
  have hlt : call < arounds.length := by omega
  refine ⟨arounds.take call, arounds[call], arounds.drop (call + 1), ?_, ?_⟩
  · rw [← List.drop_eq_getElem_cons, List.take_append_drop]
  · have hearlier : ∀ around ∈ arounds.take call, Search.Holds roms around.bus :=
      fun around haround => hbuses around (List.mem_of_mem_take haround)
    have hat' := final_place hdistinct hfamily hearlier hplace
    obtain ⟨hpass, _⟩ := pass_place hdistinct hfamily (hbuses _ (List.getElem_mem hlt)) hat'
    rw [List.length_take_of_le hlt.le, hturn, List.getElem?_eq_getElem hindex, hat] at hpass
    have hdetect := detect_polling hcrc hchip arounds[call]
    dsimp only
    rw [next, hpass]
    refine ⟨?_, step_celsius hdetect, step_pins hdetect⟩
    rw [loop_full hdetect]
    rfl

theorem every_sensor_read_bench :
    ∃ earlier around later, List.replicate 3 benchAround = earlier ++ around :: later ∧
      let before := Run.final next benchSystem earlier
      let after := (next before around).sketch
      let measured := Decode.celsius (Decode.raw 0 (around.measured benchRom))
      (pass before around).returned = none ∧ after.celsius = measured ∧
        after.pins = Control.outputs (Control.command measured before.sketch)
          before.sketch.pins :=
  every_sensor_read (by decide) Search.benchRoms_family (benchAround_holds 3) rfl benchSystem
    (by decide) (by decide +kernel) rfl

end Runs

/-! A bus on which no device answers the reset. -/

theorem sense_silent {around : Surroundings} (h : around.bus.reset.1 = false) (ds : Search) :
    (sense ds around).2 = polling none around := by
  have hnone : (ds.search around.bus).1 = none := by
    rw [Search.search]
    split_ifs
    · rfl
    · dsimp only
      rw [if_pos h]
  rcases hsearch : ds.search around.bus with ⟨found, ds', bus⟩
  rw [hsearch] at hnone
  dsimp only at hnone
  rw [sense, hsearch, hnone]
  rfl

/-- With a silent bus every pass returns early, and the load stays as the last reading left
it, for as long as the bus is silent; only the receiver still takes codes. -/
theorem silent_bus_holds_load (system : System) (arounds : List Surroundings)
    (hsilent : ∀ around ∈ arounds, around.bus.reset.1 = false) :
    (∀ pass ∈ passes system arounds, pass.returned = some .noDevice ∧ pass.handled = none) ∧
      ∃ irrecv, (Run.final next system arounds).sketch =
        { system.sketch with irrecv := irrecv } := by
  induction arounds generalizing system with
  | nil => exact ⟨by simp [passes], system.sketch.irrecv, rfl⟩
  | cons around later ih =>
      rw [List.forall_mem_cons] at hsilent
      have hpass : pass system around =
          earlyPass .noDevice system.sketch (polling none around) := by
        rw [pass, sense_silent hsilent.1]
        exact loop_early rfl
      obtain ⟨hlater, irrecv, hfinal⟩ := ih (next system around) hsilent.2
      constructor
      · rw [passes, Run.visits_cons, List.map_cons, List.forall_mem_cons, hpass]
        exact ⟨⟨rfl, rfl⟩, hlater⟩
      · refine ⟨irrecv, ?_⟩
        rw [Run.final_cons, hfinal, next, hpass]
        rfl

theorem silent_bus_holds_load_bench :
    (∀ pass ∈ passes benchSystem (List.replicate 2 { benchAround with bus := ⟨[], 0⟩ }),
        pass.returned = some .noDevice ∧ pass.handled = none) ∧
      ∃ irrecv, (Run.final next benchSystem
          (List.replicate 2 { benchAround with bus := ⟨[], 0⟩ })).sketch =
        { benchSystem.sketch with irrecv := irrecv } := by
  apply silent_bus_holds_load
  intro around haround
  rw [List.eq_of_mem_replicate haround]
  rfl

/-! A ROM code that comes out wrong. -/

theorem rom_split (rom : Rom) : rom.toList = rom.toList.take 7 ++ [rom.get 7] := by
  have hlast : rom.toList.drop 7 = [rom.get 7] := by
    rw [List.drop_eq_getElem_cons (by simp), Vector.getElem_toList]
    simp [Vector.get_eq_getElem]
  rw [← hlast, List.take_append_drop]

/-- A pass does not take a ROM code that is slightly misread: it returns early and changes
nothing but what the receiver holds. -/
theorem misread_rom_rejected {sent read : Rom}
    (hsent : OneWire.crc8 (sent.toList.take 7) = sent.get 7) (hne : read ≠ sent)
    (hslight : Slight (Register.difference (wireBits sent.toList) (wireBits read.toList)))
    (s : Sketch) {input : PassInput} (hread : input.search = some read) :
    (loop s input).returned = some .badRomCrc ∧
      ∃ irrecv, (loop s input).state = { s with irrecv := irrecv } := by
  have hcrc : OneWire.crc8 (read.toList.take 7) ≠ read.get 7 := by
    apply crc8_notices hsent (by simp) (by simp)
    · rw [← rom_split, ← rom_split]
      exact fun hsame => hne (Vector.toList_inj.mp hsame.symm)
    · rwa [← rom_split, ← rom_split]
  have hdetect : detect input = .error .badRomCrc := by
    have hlast : OneWire.crc8 (read.toList.take 7) ≠ read[7] := hcrc
    simp only [detect, hread]
    rw [if_pos hlast]
  rw [loop_early hdetect]
  exact ⟨rfl, _, rfl⟩

def misreadRom : Rom := Bus.bytesOf 8 [0x29, 0, 0, 0, 0, 0, 0, 30]

theorem misread_rom_rejected_bench :
    (loop (boot benchBoard declaredImage)
        { benchPass [] with search := some misreadRom }).returned = some .badRomCrc ∧
      ∃ irrecv, (loop (boot benchBoard declaredImage)
        { benchPass [] with search := some misreadRom }).state =
          { boot benchBoard declaredImage with irrecv := irrecv } :=
  misread_rom_rejected (show OneWire.crc8 (benchRom.toList.take 7) = benchRom.get 7 by decide)
    (by decide) (.inl (by decide +kernel)) _ rfl

end OledDs18b20.Thermostat.Poll
