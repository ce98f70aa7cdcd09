import OledDs18b20.OneWire.Transfer

/-! A reset, the ROM code of a device and a command for it; and what is read from the bus
after that. -/
namespace OledDs18b20.OneWire

@[simp] theorem Device.length_word (device : Device) : device.word.length = 64 := by
  rw [Device.word, length_wireBits, Vector.length_toList]

@[simp] theorem Device.length_sent (device : Device) : device.sent.length = 72 := by
  rw [Device.sent, length_wireBits, Vector.length_toList]

theorem wireBits_injective : Function.Injective wireBits := by
  intro first second h
  induction first generalizing second with
  | nil =>
      have hlength := congrArg List.length h
      rw [length_wireBits, length_wireBits] at hlength
      exact (List.length_eq_zero_iff.mp (by simp at hlength ⊢; omega)).symm
  | cons byte first ih =>
      cases second with
      | nil => simpa using congrArg List.length h
      | cons byte' second =>
          rw [wireBits_cons, wireBits_cons] at h
          obtain ⟨hbyte, hrest⟩ := List.append_inj h (by simp)
          rw [byteBits_injective hbyte, ih hrest]

theorem Device.word_eq_iff (device : Device) (rom : Vector UInt8 8) :
    device.word = wireBits rom.toList ↔ device.rom = rom :=
  ⟨fun h => Vector.toList_inj.mp (wireBits_injective h), fun h => by rw [word, h]⟩

namespace Bus

/-- The wire comes high in time for a reset. -/
def Works (bus : Bus) : Prop := waitHigh 125 bus.lowReads = true

theorem reset_eq {bus : Bus} (h : bus.Works) :
    bus.reset = (!bus.devices.isEmpty,
      bus.each fun device => { device with phase := .romCommand [] }) :=
  if_pos h

/-- The command `v` for the device with the given ROM code. -/
def command (rom : Vector UInt8 8) (v : UInt8) (bus : Bus) : Bus :=
  (bus.reset.2.select rom).write v

theorem write_rom (v : UInt8) (bus : Bus) :
    (bus.each fun device => { device with phase := .romCommand [] }).write v =
      bus.each fun device => { device with phase := Device.romCommand (byteBits v) } := by
  rw [write_eq_tell, tell_eq, each_each]
  · exact each_congr fun device _ => (Device.hear_romCommand v device).1
  · intro device hdevice
    obtain ⟨before, _, rfl⟩ := List.mem_map.mp hdevice
    exact (Device.hear_romCommand v before).2

/-- Only the device with the ROM code is left listening. -/
theorem select_eq (rom : Vector UInt8 8) (bus : Bus) :
    (bus.each fun device => { device with phase := .romCommand [] }).select rom =
      bus.each fun device => { device with
        phase := if device.rom = rom then .functionCommand [] else .idle } := by
  have hstart : Device.romCommand (byteBits 0x55) = .matchRom 0 := by decide
  have hopen : (bus.each fun device => { device with phase := .matchRom 0 }) =
      bus.each fun device => { device with phase := device.along [] .matchRom } :=
    each_congr fun device _ => by simp [Device.along]
  have hbits : (wireBits rom.toList).length = 64 := by
    rw [length_wireBits, Vector.length_toList]
  have hheard : ∀ device : Device,
      Device.hear (wireBits rom.toList) { device with phase := device.along [] .matchRom } =
          { device with phase := device.along (wireBits rom.toList) .matchRom } ∧
        Device.Listens (wireBits rom.toList)
          { device with phase := device.along [] .matchRom } :=
    fun device => Device.hear_matchRom _ device [] (by simp [hbits])
  rw [select, tell_wireBits, write_rom, hstart, hopen, tell_eq, each_each]
  · apply each_congr
    intro device _
    have hall : device.word.take 64 = device.word := List.take_of_length_le (by simp)
    rw [Function.comp_apply, (hheard device).1, Device.along, hbits, hall]
    simp only [Device.word_eq_iff, Device.length_word, lt_irrefl, if_false]
  · intro device hdevice
    obtain ⟨before, _, rfl⟩ := List.mem_map.mp hdevice
    exact (hheard before).2

/-- After the command, the addressed device is where the command takes it. -/
theorem command_eq {bus : Bus} (h : bus.Works) (rom : Vector UInt8 8) (v : UInt8) :
    bus.command rom v = bus.each fun device => { device with
      phase := if device.rom = rom then Device.functionCommand (byteBits v) else .idle } := by
  have hheard : ∀ device : Device,
      Device.hear (byteBits v) { device with
          phase := if device.rom = rom then .functionCommand [] else .idle } =
        { device with
          phase := if device.rom = rom then Device.functionCommand (byteBits v) else .idle } ∧
      Device.Listens (byteBits v) { device with
          phase := if device.rom = rom then .functionCommand [] else .idle } := by
    intro device
    split_ifs with hrom
    · exact Device.hear_functionCommand v device
    · exact Device.hear_idle _ rfl
  rw [command, reset_eq h, select_eq, write_eq_tell, tell_eq, each_each]
  · exact each_congr fun device _ => (hheard device).1
  · intro device hdevice
    obtain ⟨before, _, rfl⟩ := List.mem_map.mp hdevice
    exact (hheard before).2

/-! Reading, while the addressed devices send their scratchpads. -/

/-- The addressed devices are about to send the bit at `place`. -/
def sending (rom : Vector UInt8 8) (place : ℕ) (bus : Bus) : Bus :=
  bus.each fun device => { device with
    phase := if device.rom = rom then .sendScratchpad place else .idle }

/-- The bit that all addressed devices together put on the line. -/
def common (rom : Vector UInt8 8) (place : ℕ) (bus : Bus) : Bool :=
  bus.devices.all fun device => device.rom ≠ rom || device.sent.getD place true

theorem command_read {bus : Bus} (h : bus.Works) (rom : Vector UInt8 8) :
    bus.command rom 0xBE = bus.sending rom 0 := by
  have hstart : Device.functionCommand (byteBits 0xBE) = .sendScratchpad 0 := by decide
  rw [command_eq h, hstart]
  rfl

theorem readBit_sending (rom : Vector UInt8 8) (place : ℕ) (bus : Bus) :
    (bus.sending rom place).readBit = (bus.common rom place, bus.sending rom (place + 1)) := by
  have hlevel : (bus.sending rom place).level true = bus.common rom place := by
    unfold level common sending each
    rw [Bool.true_and, List.all_map]
    congr 1
    funext device
    by_cases hrom : device.rom = rom
    · simp [hrom, Device.lets, Device.sent]
    · simp [hrom, Device.lets]
  have hnext : (bus.sending rom place).slot true = bus.sending rom (place + 1) := by
    change (bus.sending rom place).each _ = _
    rw [sending, each_each]
    apply each_congr
    intro device _
    by_cases hrom : device.rom = rom
    · simp [hrom, Device.observe]
    · simp [hrom, Device.observe]
  rw [readBit, hlevel, hnext]

theorem read_sending (rom : Vector UInt8 8) (place : ℕ) (bus : Bus) :
    (bus.sending rom place).read =
      (pack ((List.range 8).map fun index => bus.common rom (place + index)),
        bus.sending rom (place + 8)) := by
  simp only [read, bitMasks, List.foldl_cons, List.foldl_nil, readBit_sending]
  rfl

def reads : ℕ → Bus → List UInt8 × Bus
  | 0, bus => ([], bus)
  | count + 1, bus =>
      let (byte, bus) := bus.read
      let (bytes, bus) := reads count bus
      (byte :: bytes, bus)

theorem reads_sending (rom : Vector UInt8 8) (count place : ℕ) (bus : Bus) :
    (reads count (bus.sending rom place)).1 =
      (List.range count).map fun number =>
        pack ((List.range 8).map fun index => bus.common rom (place + 8 * number + index)) := by
  induction count generalizing place with
  | zero => rfl
  | succ count ih =>
      rw [reads, read_sending, List.range_succ_eq_map (n := count), List.map_cons, List.map_map]
      simp only [ih]
      congr 1
      apply List.map_congr_left
      intro number _
      have hplace : place + 8 + 8 * number = place + 8 * (number + 1) := by ring
      rw [hplace]
      rfl

/-- What the sketch reads into `data`. -/
def readData (bus : Bus) : Vector UInt8 9 :=
  Vector.ofFn fun number => (reads 9 bus).1.getD number.val 0

theorem byteBits_eq_range (byte : UInt8) (bytes : List UInt8) {number : ℕ}
    (h : bytes[number]? = some byte) :
    (List.range 8).map (fun index => (wireBits bytes).getD (8 * number + index) true) =
      byteBits byte := by
  induction bytes generalizing number with
  | nil => simp at h
  | cons head bytes ih =>
      cases number with
      | zero =>
          obtain rfl : head = byte := by simpa using h
          apply List.ext_getElem (by simp)
          intro index hindex _
          simp at hindex
          simp [wireBits_cons, List.getD_eq_getElem?_getD, List.getElem?_append_left, hindex]
      | succ number =>
          rw [← ih (by simpa using h)]
          apply List.map_congr_left
          intro index _
          have hplace : 8 * (number + 1) + index =
              (byteBits head).length + (8 * number + index) := by
            rw [length_byteBits]
            ring
          rw [wireBits_cons, hplace, List.getD_eq_getElem?_getD, List.getD_eq_getElem?_getD,
            List.getElem?_append_right (Nat.le_add_right _ _), Nat.add_sub_cancel_left]

/-- The bus brings the scratchpad of the addressed device, whatever the others hold. -/
theorem readData_eq {bus : Bus} (h : bus.Works) {device : Device}
    (hmem : device ∈ bus.devices)
    (hunique : ∀ other ∈ bus.devices, other.rom = device.rom → other = device) :
    readData (bus.command device.rom 0xBE) = device.scratchpad := by
  have hcommon : ∀ place, bus.common device.rom place = device.sent.getD place true := by
    intro place
    unfold common
    rw [Bool.eq_iff_iff, List.all_eq_true]
    constructor
    · intro hall
      simpa using hall device hmem
    · intro hbit other hother
      by_cases hrom : other.rom = device.rom
      · rw [hunique other hother hrom, hbit, Bool.or_true]
      · simp [hrom]
  apply Vector.ext
  intro number hnumber
  have hbyte : device.scratchpad.toList[number]? = some device.scratchpad[number] := by
    rw [Vector.getElem?_toList, Vector.getElem?_eq_getElem hnumber]
  rw [readData, Vector.getElem_ofFn, command_read h, reads_sending]
  simp only [hcommon, Nat.zero_add]
  rw [List.getD_eq_getElem _ _ (by simpa using hnumber), List.getElem_map, List.getElem_range]
  rw [Device.sent, byteBits_eq_range _ _ hbyte, pack_byteBits]

/-- Without the addressed device the bus stays high. -/
theorem readData_absent {bus : Bus} (h : bus.Works) {rom : Vector UInt8 8}
    (habsent : ∀ device ∈ bus.devices, device.rom ≠ rom) :
    readData (bus.command rom 0xBE) = Vector.replicate 9 0xFF := by
  have hcommon : ∀ place, bus.common rom place = true := by
    intro place
    unfold common
    rw [List.all_eq_true]
    intro device hdevice
    simp [habsent device hdevice]
  have hbyte : pack (List.replicate 8 true) = 0xFF := by decide
  apply Vector.ext
  intro number hnumber
  rw [readData, Vector.getElem_ofFn, command_read h, reads_sending, Vector.getElem_replicate]
  simp only [hcommon, List.map_const', List.length_range, hbyte]
  rw [List.getD_eq_getElem _ _ (by simpa using hnumber), List.getElem_replicate]

/-- The nine bytes that the master reads after it has addressed a device: its scratchpad,
bit for bit, or only ones if there is no such device. -/
theorem scratchpad_delivered {bus : Bus} (h : bus.Works)
    (hdistinct : (bus.devices.map Device.rom).Nodup) (rom : Vector UInt8 8) :
    readData (bus.command rom 0xBE) =
      ((bus.devices.find? fun device => device.rom = rom).map Device.scratchpad).getD
        (Vector.replicate 9 0xFF) := by
  cases hfind : bus.devices.find? fun device => device.rom = rom with
  | none =>
      rw [List.find?_eq_none] at hfind
      exact readData_absent h fun device hdevice hrom => hfind device hdevice (by simpa using hrom)
  | some device =>
      have hmem := List.mem_of_find?_eq_some hfind
      obtain rfl : device.rom = rom := by simpa using List.find?_some hfind
      exact readData_eq h hmem fun other hother hrom =>
        List.inj_on_of_nodup_map hdistinct hother hmem hrom

/-- The bytes of a code or a scratchpad, filled up with zeros. -/
def bytesOf (count : ℕ) (bytes : List UInt8) : Vector UInt8 count :=
  Vector.ofFn fun place => bytes.getD place.val 0

def benchScratchpad : Vector UInt8 9 :=
  bytesOf 9 [0x50, 0x05, 0x4B, 0x46, 0x7F, 0xFF, 0x0C, 0x10, 0x1C]

def benchBus : Bus where
  devices := [⟨bytesOf 8 [0x22], bytesOf 9 [], .idle⟩, ⟨bytesOf 8 [0x28], benchScratchpad, .idle⟩]
  lowReads := 3

theorem benchBus_works : benchBus.Works := rfl

theorem scratchpad_delivered_bench :
    readData (benchBus.command (bytesOf 8 [0x28]) 0xBE) = benchScratchpad := by
  rw [scratchpad_delivered benchBus_works (by decide)]
  rfl

end Bus

end OledDs18b20.OneWire
