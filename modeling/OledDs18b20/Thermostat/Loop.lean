import OledDs18b20.Lib.Mailbox
import OledDs18b20.OneWire.Crc
import OledDs18b20.Thermostat.Control
import OledDs18b20.Thermostat.Draw
import OledDs18b20.Thermostat.Keys

/-! `setup`, one pass of `loop`, and the runs they make up. Everything the
hardware decides is an input of the pass. -/
namespace OledDs18b20.Thermostat.Loop
open Lib

/-- What `RTC.read` answers: whether the clock runs, whether the chip is there,
and the time it stored in `tm`, if it stored one. -/
structure Rtc where
  running : Bool
  present : Bool
  tm : Option TmElements

/-- What the hardware does during one pass. `search` is the ROM code of the
device found, `data` the nine bytes of the scratchpad. The codes of the remote
control arrive before the receiver is polled, from there until it is resumed,
and after that. `ypos` and `pages` are the leftovers on the stack that the calls
of `draw` find in their local `Ypos`. -/
structure PassInput where
  search : Option (Vector UInt8 8)
  rtc : Rtc
  data : Vector UInt8 9
  early : List UInt32
  during : List UInt32
  late : List UInt32
  ypos : Int8
  pages : List Int8

/-- The three early returns of `loop`. -/
inductive EarlyReturn where
  | noDevice
  | badRomCrc
  | unknownChip
deriving DecidableEq

structure Pass where
  state : Sketch
  returned : Option EarlyReturn
  sampled : Option Int16
  handled : Option UInt32
  events : List (Mailbox.Event UInt32)
  frame : List Draw.Page

/-- `type_s` and `DSNum` of the device the pass reads, or the early return. -/
def detect (input : PassInput) : Except EarlyReturn (UInt8 × Fin 4) :=
  match input.search with
  | none => .error .noDevice
  | some addr =>
      if OneWire.crc8 (addr.toList.take 7) ≠ addr[7] then .error .badRomCrc
      else match Decode.chip addr[0] with
        | none => .error .unknownChip
        | some chip => .ok chip

def readClock (rtc : Rtc) (s : Sketch) : Sketch :=
  { s with
    tm := rtc.tm.getD s.tm
    rtcNum := if rtc.running then 0 else if rtc.present then 1 else 2 }

def receive (arrived : List UInt32) (held : Option UInt32) : Option UInt32 :=
  Run.final Mailbox.step held (Mailbox.arrivals arrived)

/-- A pass that returns early polls no receiver and draws no picture. -/
def earlyPass (cause : EarlyReturn) (s : Sketch) (input : PassInput) : Pass where
  state := { s with
    dsNum := if cause = .unknownChip then Fin.last 3 else s.dsNum
    irrecv := receive (input.early ++ input.during ++ input.late) s.irrecv }
  returned := some cause
  sampled := none
  handled := none
  events := Mailbox.arrivals (input.early ++ input.during ++ input.late)
  frame := []

/-- The state in which the pass polls the receiver. -/
def polled (typeS : UInt8) (dsNum : Fin 4) (s : Sketch) (input : PassInput) : Sketch :=
  let s := readClock input.rtc { s with dsNum := dsNum }
  let s := Control.control (Decode.celsius (Decode.raw typeS input.data)) s
  { s with irrecv := receive input.early s.irrecv }

/-- The `if (irrecv.decode(&results))` branch. The code stays in the receiver
until `irrecv.resume()`. -/
def irKeys (s : Sketch) (input : PassInput) : Sketch :=
  match s.irrecv with
  | none => { s with irrecv := receive (input.during ++ input.late) none }
  | some value => { Keys.handle value s with irrecv := receive input.late none }

def irEvents (held : Option UInt32) (input : PassInput) : List (Mailbox.Event UInt32) :=
  match held with
  | none => Mailbox.arrivals (input.during ++ input.late)
  | some _ => Mailbox.arrivals input.during ++ .take :: Mailbox.arrivals input.late

def fullPass (typeS : UInt8) (dsNum : Fin 4) (s : Sketch) (input : PassInput) : Pass :=
  let ready := polled typeS dsNum s input
  let drawn := Draw.pictureLoop input.ypos input.pages (irKeys ready input)
  { state := drawn.2
    returned := none
    sampled := Control.sample (Decode.celsius (Decode.raw typeS input.data)) s
    handled := ready.irrecv
    events := Mailbox.arrivals input.early ++ irEvents ready.irrecv input
    frame := drawn.1 }

def loop (s : Sketch) (input : PassInput) : Pass :=
  match detect input with
  | .error cause => earlyPass cause s input
  | .ok (typeS, dsNum) => fullPass typeS dsNum s input

def setup (board : Board) (s : Sketch) : Sketch :=
  let s := { s with pins := .on }
  let s := Keys.eeLoad paramCount s
  let s := { s with fontAscent := board.fontAscent }
  let s := if s.params 13 = 1 then { s with rot180 := true }
    else if s.params 13 = 0 then { s with rot180 := false }
    else s
  { s with
    startXGraph := Int8.ofInt (Draw.width - logsize - 2)
    irrecv := none }

/-- Power-up or reset: only the EEPROM survives. -/
def boot (board : Board) (eeprom : ℕ → UInt8) : Sketch :=
  setup board (powerOn board eeprom)

def step (s : Sketch) (input : PassInput) : Sketch := (loop s input).state

/-- The state in which a pass polls the receiver; `s` if it never does. -/
def atKeys (s : Sketch) (input : PassInput) : Sketch :=
  match detect input with
  | .error _ => s
  | .ok (typeS, dsNum) => polled typeS dsNum s input

/-! A bench set-up for concrete runs: a DS18B20 at 20 degrees, a stopped clock
and an EEPROM that holds the declared settings. -/

def benchBoard : Board := ⟨fun _ => 0, 7⟩

def declaredImage : ℕ → UInt8 := fun index =>
  if h : index < paramCount then declaredParams[index].toUInt8 else 255

def benchRom : Vector UInt8 8 := #v[0x28, 0, 0, 0, 0, 0, 0, 30]

def benchData : Vector UInt8 9 := #v[0x40, 0x01, 0x4B, 0x46, 0x7F, 0xFF, 0x10, 0x10, 29]

/-- A pass that finds the sensor; the codes arrive before the receiver is polled. -/
def benchPass (codes : List UInt32) : PassInput where
  search := some benchRom
  rtc := ⟨false, false, none⟩
  data := benchData
  early := codes
  during := []
  late := []
  ypos := 0
  pages := []

/-- The same pass when the search finds no device. -/
def lostPass (codes : List UInt32) : PassInput :=
  { benchPass codes with search := none }

/-! What `setup` leaves. -/

theorem boot_eq (board : Board) (eeprom : ℕ → UInt8) :
    ∃ rot180, boot board eeprom = { powerOn board eeprom with
      params := fun index =>
        if index < paramCount then (eeprom index).toInt8 else board.behind index
      address := Int16.ofNat paramCount
      pins := .on
      startXGraph := Int8.ofInt (Draw.width - logsize - 2)
      rot180 := rot180 } := by
  have hparams : (fun index => if index < paramCount then (eeprom index).toInt8
      else (powerOn board eeprom).params index) = fun index =>
      if index < paramCount then (eeprom index).toInt8 else board.behind index := by
    funext index
    by_cases hindex : index < paramCount
    · simp only [hindex, if_true]
    · simp only [hindex, if_false, powerOn, dite_false]
  simp only [boot, setup, Keys.eeLoad_eq]
  rw [← hparams]
  split_ifs <;> exact ⟨_, rfl⟩

theorem boot_params (board : Board) (eeprom : ℕ → UInt8) {index : ℕ}
    (h : index < paramCount) : (boot board eeprom).params index = (eeprom index).toInt8 := by
  obtain ⟨_, hboot⟩ := boot_eq board eeprom
  rw [hboot]
  exact if_pos h

@[simp] theorem boot_eeprom (board : Board) (eeprom : ℕ → UInt8) :
    (boot board eeprom).eeprom = eeprom := by
  obtain ⟨_, hboot⟩ := boot_eq board eeprom
  rw [hboot]
  rfl

@[simp] theorem boot_pins (board : Board) (eeprom : ℕ → UInt8) :
    (boot board eeprom).pins = .on := by
  obtain ⟨_, hboot⟩ := boot_eq board eeprom
  rw [hboot]

@[simp] theorem boot_irrecv (board : Board) (eeprom : ℕ → UInt8) :
    (boot board eeprom).irrecv = none := by
  obtain ⟨_, hboot⟩ := boot_eq board eeprom
  rw [hboot]
  rfl

/-! One pass in closed form. -/

theorem detect_cases (input : PassInput) :
    (∃ cause, detect input = .error cause) ∨
      ∃ typeS dsNum, detect input = .ok (typeS, dsNum) := by
  cases h : detect input with
  | error cause => exact .inl ⟨cause, rfl⟩
  | ok chip => exact .inr ⟨chip.1, chip.2, rfl⟩

/-- The temperature that a pass which detects a chip of type `typeS` reads. -/
def reading (typeS : UInt8) (input : PassInput) : ℚ :=
  Decode.celsius (Decode.raw typeS input.data)

theorem polled_eq (typeS : UInt8) (dsNum : Fin 4) (s : Sketch) (input : PassInput) :
    polled typeS dsNum s input = { s with
      params := Function.update s.params 9 (Control.command (reading typeS input) s)
      pins := Control.outputs (Control.command (reading typeS input) s) s.pins
      celsius := reading typeS input
      timeLogCounter := Control.nextCounter s
      log := Control.nextLog (reading typeS input) s
      dsNum := dsNum
      rtcNum := if input.rtc.running then 0 else if input.rtc.present then 1 else 2
      tm := input.rtc.tm.getD s.tm
      irrecv := receive input.early s.irrecv } := by
  dsimp only [polled]
  rw [Control.control_eq]
  rfl

section PolledFields
variable (typeS : UInt8) (dsNum : Fin 4) (s : Sketch) (input : PassInput)

@[simp] theorem polled_params_nine :
    (polled typeS dsNum s input).params 9 = Control.command (reading typeS input) s := by
  simp only [polled_eq, Function.update_self]

@[simp] theorem polled_params_other {index : ℕ} (h : index ≠ 9) :
    (polled typeS dsNum s input).params index = s.params index := by
  simp only [polled_eq, Function.update_of_ne h]

@[simp] theorem polled_pins : (polled typeS dsNum s input).pins =
    Control.outputs (Control.command (reading typeS input) s) s.pins := by
  rw [polled_eq]

@[simp] theorem polled_celsius :
    (polled typeS dsNum s input).celsius = reading typeS input := by
  rw [polled_eq]

@[simp] theorem polled_log :
    (polled typeS dsNum s input).log = Control.nextLog (reading typeS input) s := by
  rw [polled_eq]

@[simp] theorem polled_timeLogCounter :
    (polled typeS dsNum s input).timeLogCounter = Control.nextCounter s := by
  rw [polled_eq]

@[simp] theorem polled_eeprom : (polled typeS dsNum s input).eeprom = s.eeprom := by
  rw [polled_eq]

@[simp] theorem polled_irrecv :
    (polled typeS dsNum s input).irrecv = receive input.early s.irrecv := by
  rw [polled_eq]

end PolledFields

attribute [irreducible] polled

theorem irKeys_none {s : Sketch} (input : PassInput) (h : s.irrecv = none) :
    irKeys s input = { s with irrecv := receive (input.during ++ input.late) none } := by
  simp [irKeys, h]

theorem irKeys_some {s : Sketch} (input : PassInput) {value : UInt32}
    (h : s.irrecv = some value) :
    irKeys s input = { Keys.handle value s with irrecv := receive input.late none } := by
  simp [irKeys, h]

theorem loop_early {s : Sketch} {input : PassInput} {cause : EarlyReturn}
    (h : detect input = .error cause) : loop s input = earlyPass cause s input := by
  simp [loop, h]

theorem loop_full {s : Sketch} {input : PassInput} {typeS : UInt8} {dsNum : Fin 4}
    (h : detect input = .ok (typeS, dsNum)) :
    loop s input = fullPass typeS dsNum s input := by
  simp [loop, h]

theorem handled_early {s : Sketch} {input : PassInput} {cause : EarlyReturn}
    (h : detect input = .error cause) : (loop s input).handled = none := by
  rw [loop_early h]
  rfl

theorem handled_full {s : Sketch} {input : PassInput} {typeS : UInt8} {dsNum : Fin 4}
    (h : detect input = .ok (typeS, dsNum)) :
    (loop s input).handled = receive input.early s.irrecv := by
  rw [← polled_irrecv typeS dsNum s input, loop_full h]
  rfl

theorem step_drawn {s : Sketch} {input : PassInput} {typeS : UInt8} {dsNum : Fin 4}
    (h : detect input = .ok (typeS, dsNum)) :
    ∃ aab, step s input = { irKeys (polled typeS dsNum s input) input with aab := aab } := by
  rw [step, loop_full h]
  exact Draw.pictureLoop_state input.ypos input.pages _

theorem step_keyless {s : Sketch} {input : PassInput} {typeS : UInt8} {dsNum : Fin 4}
    (h : detect input = .ok (typeS, dsNum)) (hkey : receive input.early s.irrecv = none) :
    ∃ aab, step s input = { polled typeS dsNum s input with
      irrecv := receive (input.during ++ input.late) none
      aab := aab } := by
  obtain ⟨aab, hstep⟩ := step_drawn (s := s) h
  have hheld := (polled_irrecv typeS dsNum s input).trans hkey
  rw [irKeys_none input hheld] at hstep
  exact ⟨aab, hstep⟩

theorem step_keyed {s : Sketch} {input : PassInput} {typeS : UInt8} {dsNum : Fin 4}
    {value : UInt32} (h : detect input = .ok (typeS, dsNum))
    (hkey : receive input.early s.irrecv = some value) :
    ∃ aab, step s input = { Keys.handle value (polled typeS dsNum s input) with
      irrecv := receive input.late none
      aab := aab } := by
  obtain ⟨aab, hstep⟩ := step_drawn (s := s) h
  have hheld := (polled_irrecv typeS dsNum s input).trans hkey
  rw [irKeys_some input hheld] at hstep
  exact ⟨aab, hstep⟩

/-- The three ways a pass can go, with the state it leaves. -/
inductive Outcome (s : Sketch) (input : PassInput) : Prop where
  | early (cause : EarlyReturn) (dsNum : Fin 4) (irrecv : Option UInt32)
      (detected : detect input = .error cause)
      (handled : (loop s input).handled = none)
      (left : step s input = { s with dsNum := dsNum, irrecv := irrecv })
  | keyless (typeS : UInt8) (dsNum : Fin 4) (irrecv : Option UInt32) (aab : Int8)
      (detected : detect input = .ok (typeS, dsNum))
      (handled : (loop s input).handled = none)
      (left : step s input =
        { polled typeS dsNum s input with irrecv := irrecv, aab := aab })
  | keyed (typeS : UInt8) (dsNum : Fin 4) (value : UInt32) (irrecv : Option UInt32)
      (aab : Int8)
      (detected : detect input = .ok (typeS, dsNum))
      (handled : (loop s input).handled = some value)
      (left : step s input =
        { Keys.handle value (polled typeS dsNum s input) with
          irrecv := irrecv
          aab := aab })

theorem outcome (s : Sketch) (input : PassInput) : Outcome s input := by
  rcases detect_cases input with ⟨cause, hdetect⟩ | ⟨typeS, dsNum, hdetect⟩
  · exact .early cause _ _ hdetect (handled_early hdetect)
      (by rw [step, loop_early hdetect]; rfl)
  · have hhandled := handled_full (s := s) hdetect
    cases hkey : receive input.early s.irrecv with
    | none =>
        obtain ⟨aab, hleft⟩ := step_keyless hdetect hkey
        exact .keyless typeS dsNum _ aab hdetect (hhandled.trans hkey) hleft
    | some value =>
        obtain ⟨aab, hleft⟩ := step_keyed hdetect hkey
        exact .keyed typeS dsNum value _ aab hdetect (hhandled.trans hkey) hleft

/-- Keys change none of the variables that the control part of a pass sets. -/
theorem step_full {s : Sketch} {input : PassInput} {typeS : UInt8} {dsNum : Fin 4}
    (h : detect input = .ok (typeS, dsNum)) :
    ∃ params eeprom address results irrecv aab, step s input =
      { polled typeS dsNum s input with
        params := params
        eeprom := eeprom
        address := address
        results := results
        irrecv := irrecv
        aab := aab } := by
  cases hkey : receive input.early s.irrecv with
  | none =>
      obtain ⟨aab, hstep⟩ := step_keyless h hkey
      exact ⟨_, _, _, _, _, aab, hstep⟩
  | some value =>
      obtain ⟨aab, hstep⟩ := step_keyed h hkey
      obtain ⟨params, eeprom, address, hhandle, _⟩ :=
        Keys.handle_eq value (polled typeS dsNum s input)
      rw [hhandle] at hstep
      exact ⟨params, eeprom, address, value, _, aab, hstep⟩

section Detected
variable {s : Sketch} {input : PassInput} {typeS : UInt8} {dsNum : Fin 4}

theorem step_celsius (detected : detect input = .ok (typeS, dsNum)) :
    (step s input).celsius = reading typeS input := by
  obtain ⟨params, eeprom, address, results, irrecv, aab, hstep⟩ := step_full (s := s) detected
  rw [hstep]
  exact polled_celsius typeS dsNum s input

theorem step_log (detected : detect input = .ok (typeS, dsNum)) :
    (step s input).log = Control.nextLog (reading typeS input) s := by
  obtain ⟨params, eeprom, address, results, irrecv, aab, hstep⟩ := step_full (s := s) detected
  rw [hstep]
  exact polled_log typeS dsNum s input

theorem step_pins (detected : detect input = .ok (typeS, dsNum)) :
    (step s input).pins =
      Control.outputs (Control.command (reading typeS input) s) s.pins := by
  obtain ⟨params, eeprom, address, results, irrecv, aab, hstep⟩ := step_full (s := s) detected
  rw [hstep]
  exact polled_pins typeS dsNum s input

theorem atKeys_eq (detected : detect input = .ok (typeS, dsNum)) :
    atKeys s input = polled typeS dsNum s input := by
  rw [atKeys, detected]

theorem atKeys_load (detected : detect input = .ok (typeS, dsNum)) :
    (atKeys s input).params 9 = Control.command (reading typeS input) s := by
  rw [atKeys_eq detected, polled_params_nine]

theorem step_timeLogCounter (detected : detect input = .ok (typeS, dsNum)) :
    (step s input).timeLogCounter = Control.nextCounter s := by
  obtain ⟨params, eeprom, address, results, irrecv, aab, hstep⟩ := step_full (s := s) detected
  rw [hstep]
  exact polled_timeLogCounter typeS dsNum s input

end Detected

/-- All pages of a frame show the state that the pass leaves. -/
theorem frame_full {s : Sketch} {input : PassInput} {typeS : UInt8} {dsNum : Fin 4}
    (h : detect input = .ok (typeS, dsNum)) :
    (loop s input).frame =
      (input.ypos :: input.pages).map fun left => Draw.page left (step s input) := by
  obtain ⟨aab, hstep⟩ := step_drawn (s := s) h
  rw [hstep, loop_full h]
  simp only [Draw.page_aab]
  exact Draw.pictureLoop_pages input.ypos input.pages _

theorem frame_early {s : Sketch} {input : PassInput} {cause : EarlyReturn}
    (h : detect input = .error cause) : (loop s input).frame = [] := by
  rw [loop_early h]
  rfl

end OledDs18b20.Thermostat.Loop
