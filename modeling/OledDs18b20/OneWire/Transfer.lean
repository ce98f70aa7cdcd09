import OledDs18b20.OneWire.Bus

/-! Whole bytes on the bus. While no device sends, every device hears what the master
writes; the devices then go their ways independently of each other. -/
namespace OledDs18b20.OneWire

@[simp] theorem length_byteBits (byte : UInt8) : (byteBits byte).length = 8 := by
  rw [byteBits, List.length_map, List.length_range]

@[simp] theorem wireBits_nil : wireBits [] = [] := rfl

@[simp] theorem wireBits_cons (byte : UInt8) (bytes : List UInt8) :
    wireBits (byte :: bytes) = byteBits byte ++ wireBits bytes := rfl

theorem length_wireBits (bytes : List UInt8) : (wireBits bytes).length = 8 * bytes.length := by
  induction bytes with
  | nil => rfl
  | cons byte bytes ih =>
      rw [wireBits_cons, List.length_append, length_byteBits, ih, List.length_cons]
      ring

theorem bitMasks_eq (byte : UInt8) :
    Bus.bitMasks.map (fun bitMask => decide (bitMask &&& byte ≠ 0)) = byteBits byte := by
  obtain ⟨⟨byte⟩⟩ := byte
  revert byte
  decide +kernel

def pack (bits : List Bool) : UInt8 :=
  (Bus.bitMasks.zip bits).foldl (fun r place => if place.2 then r ||| place.1 else r) 0

theorem pack_byteBits (byte : UInt8) : pack (byteBits byte) = byte := by
  obtain ⟨⟨byte⟩⟩ := byte
  revert byte
  decide +kernel

theorem byteBits_injective : Function.Injective byteBits := by
  intro first second h
  rw [← pack_byteBits first, h, pack_byteBits]

/-! What a device makes of bits that it hears. -/

namespace Device

def hear (bits : List Bool) (device : Device) : Device := bits.foldl observe device

/-- The device lets the line be high before each of the bits. -/
def Listens : List Bool → Device → Prop
  | [], _ => True
  | bit :: bits, device => device.lets = true ∧ Listens bits (device.observe bit)

@[simp] theorem hear_nil (device : Device) : device.hear [] = device := rfl

@[simp] theorem hear_cons (bit : Bool) (bits : List Bool) (device : Device) :
    device.hear (bit :: bits) = (device.observe bit).hear bits := rfl

theorem hear_idle (bits : List Bool) {device : Device} (h : device.phase = .idle) :
    device.hear bits = device ∧ Listens bits device := by
  induction bits with
  | nil => exact ⟨rfl, trivial⟩
  | cons bit bits ih =>
      have hstill : device.observe bit = device := by
        cases device
        cases h
        rfl
      rw [hear_cons, Listens, hstill]
      exact ⟨ih.1, by simp [lets, h], ih.2⟩

theorem hear_romCommand (byte : UInt8) (device : Device) :
    hear (byteBits byte) { device with phase := .romCommand [] } =
        { device with phase := Device.romCommand (byteBits byte) } ∧
      Listens (byteBits byte) { device with phase := .romCommand [] } :=
  ⟨rfl, rfl, rfl, rfl, rfl, rfl, rfl, rfl, rfl, trivial⟩

theorem hear_functionCommand (byte : UInt8) (device : Device) :
    hear (byteBits byte) { device with phase := .functionCommand [] } =
        { device with phase := Device.functionCommand (byteBits byte) } ∧
      Listens (byteBits byte) { device with phase := .functionCommand [] } :=
  ⟨rfl, rfl, rfl, rfl, rfl, rfl, rfl, rfl, rfl, trivial⟩

/-- How far a comparison with the ROM code has come after the bits of `path`. -/
def along (path : List Bool) (next : ℕ → Phase) (device : Device) : Phase :=
  if device.word.take path.length = path then
    if path.length < device.word.length then next path.length else .functionCommand []
  else .idle

theorem along_concat {path : List Bool} {next : ℕ → Phase} {device : Device}
    (h : path.length < device.word.length) (bit : Bool) :
    device.along (path ++ [bit]) next =
      if device.word.take path.length = path then device.compared path.length bit next
      else .idle := by
  have htake : device.word.take (path.length + 1) =
      device.word.take path.length ++ [device.word.getD path.length true] := by
    rw [List.take_add_one, List.getElem?_eq_getElem h, List.getD_eq_getElem _ _ h]
    rfl
  unfold along compared
  rw [List.length_append, List.length_singleton, htake]
  by_cases hpath : device.word.take path.length = path
  · simp [hpath]
  · have hdiffer : device.word.take path.length ++ [device.word.getD path.length true] ≠
        path ++ [bit] := by
      intro hsame
      exact hpath (List.append_inj_left' hsame rfl)
    rw [if_neg hdiffer, if_neg hpath]

theorem hear_matchRom (bits : List Bool) (device : Device) (path : List Bool)
    (h : path.length + bits.length ≤ device.word.length) :
    hear bits { device with phase := device.along path .matchRom } =
        { device with phase := device.along (path ++ bits) .matchRom } ∧
      Listens bits { device with phase := device.along path .matchRom } := by
  induction bits generalizing path with
  | nil => simp [Listens]
  | cons bit bits ih =>
      rw [List.length_cons] at h
      have hopen : path.length < device.word.length := by omega
      have hstep : observe { device with phase := device.along path .matchRom } bit =
          { device with phase := device.along (path ++ [bit]) .matchRom } := by
        rw [along_concat hopen]
        unfold along
        split_ifs with hpath
        · rfl
        · rfl
      have hlets : lets { device with phase := device.along path .matchRom } = true := by
        unfold along
        split_ifs <;> rfl
      have hlater := ih (path ++ [bit]) (by simp; omega)
      rw [List.append_assoc, List.singleton_append] at hlater
      rw [hear_cons, Listens, hstep]
      exact ⟨hlater.1, hlets, hlater.2⟩

end Device

/-! The same for a bus. -/

namespace Bus

def tell (bits : List Bool) (bus : Bus) : Bus :=
  bits.foldl (fun bus bit => bus.writeBit bit) bus

/-- What the bus is if every device goes its own way. -/
def each (f : Device → Device) (bus : Bus) : Bus :=
  { bus with devices := bus.devices.map f }

@[simp] theorem each_each (f g : Device → Device) (bus : Bus) :
    (bus.each f).each g = bus.each (g ∘ f) := by
  simp [each]

theorem each_congr {f g : Device → Device} {bus : Bus}
    (h : ∀ device ∈ bus.devices, f device = g device) : bus.each f = bus.each g := by
  rw [each, List.map_congr_left h, each]

theorem tell_append (first second : List Bool) (bus : Bus) :
    bus.tell (first ++ second) = (bus.tell first).tell second :=
  List.foldl_append

theorem write_eq_tell (v : UInt8) (bus : Bus) : bus.write v = bus.tell (byteBits v) := by
  rw [write, tell, ← bitMasks_eq, List.foldl_map]

/-- While every device listens, all of them hear what the master writes. -/
theorem tell_eq (bits : List Bool) (bus : Bus)
    (h : ∀ device ∈ bus.devices, device.Listens bits) :
    bus.tell bits = bus.each (Device.hear bits) := by
  induction bits generalizing bus with
  | nil =>
      have hsame : bus.devices.map (Device.hear []) = bus.devices := List.map_id _
      rw [each, hsame]
      rfl
  | cons bit bits ih =>
      have hlevel : bus.level bit = bit := by
        have hfree : bus.devices.all Device.lets = true :=
          List.all_eq_true.mpr fun device hdevice => (h device hdevice).1
        rw [level, hfree, Bool.and_true]
      have hslot : bus.writeBit bit = bus.each fun device => device.observe bit := by
        rw [writeBit, slot, hlevel]
        rfl
      have hlater : ∀ device ∈ (bus.writeBit bit).devices, device.Listens bits := by
        intro device hdevice
        rw [hslot] at hdevice
        obtain ⟨before, hbefore, rfl⟩ := List.mem_map.mp hdevice
        exact (h before hbefore).2
      change (bus.writeBit bit).tell bits = _
      rw [ih _ hlater, hslot, each_each]
      rfl

theorem tell_wireBits (bytes : List UInt8) (bus : Bus) :
    bytes.foldl (fun bus byte => bus.write byte) bus = bus.tell (wireBits bytes) := by
  induction bytes generalizing bus with
  | nil => rfl
  | cons byte bytes ih =>
      rw [List.foldl_cons, ih, write_eq_tell, wireBits_cons, tell_append]

end Bus

end OledDs18b20.OneWire
