import OledDs18b20.Lib.Run
import OledDs18b20.Nokia.Dashboard
import OledDs18b20.TahoTest.Gauge

/-! One pass of the tachometer's `loop`: a number from the serial port changes the
variable whose range it falls into, and every page draws four gauges. -/
namespace OledDs18b20.TahoTest.Loop
open Lib

structure Taho where
  alpha : Int16
  bl : UInt8
  f : UInt8
  contrast : UInt8
  bytes : Int8
  c : UInt16
  d : UInt16
  e : UInt16
  adc1 : UInt16
deriving DecidableEq

def powerOn : Taho where
  alpha := 22
  bl := 25
  f := 0
  contrast := 150
  bytes := 0
  c := 0
  d := 0
  e := 0
  adc1 := 0

/-- What a pass reads: `Serial.available`, `Serial.parseInt` and `analogRead`; and the
number of further pages that `nextPage` asks for. -/
structure PassInput where
  available : Int16
  parsed : Int32
  analog : Nokia.Adc
  pages : ℕ

def turnAlpha (t : Taho) : Taho :=
  let alpha := t.alpha + 1
  { t with alpha := if alpha > 360 then 0 else alpha }

/-- The number of bytes is narrowed to a `char`, the parsed number to an `unsigned int`. -/
def readSerial (input : PassInput) (t : Taho) : Taho :=
  let bytes := input.available.toInt8
  { t with
    bytes := bytes
    c := if bytes ≠ 0 then input.parsed.toUInt32.toUInt16 else t.c }

/-- The six ranges of `c`, each with a variable of its own. -/
def serve (t : Taho) : Taho :=
  { t with
    bl := if 0 < t.c ∧ t.c < 255 then t.c.toUInt8 else t.bl
    d := if 1000 < t.c ∧ t.c < 2000 then t.c - 1000 else t.d
    e := if 2000 < t.c ∧ t.c < 2999 then t.c - 2000 else t.e
    f := if 2999 < t.c ∧ t.c < 3255 then (t.c - 3000).toUInt8 else t.f
    contrast := if 3999 < t.c ∧ t.c < 4255 then (t.c - 4000).toUInt8 else t.contrast
    alpha := if 4999 < t.c ∧ t.c < 5181 then (t.c - 5000).toInt16 else t.alpha }

def dimLed (t : Taho) : Taho := { t with f := if t.f > 254 then 0 else t.f }

def sampleAdc (input : PassInput) (t : Taho) : Taho :=
  { t with adc1 := UInt16.ofNat input.analog.val }

/-- The gauges that `draw` shows. -/
def gauges (t : Taho) : List Gauge :=
  let angle := Nokia.Dashboard.map t.adc1.toUInt32.toInt32 0 1025 0 180
  [⟨12, 12, 12, t.alpha, 1, 2, 5, 3⟩, ⟨41, 12, 12, t.alpha, 4, 2, 5, 3⟩,
    ⟨70, 12, 12, t.alpha, 2, 2, 5, 3⟩, ⟨48, 47, 18, angle.toInt16, 1, 2, 5, 3⟩]

def draw (trig : Trig) (fuel : ℕ) (t : Taho) : Option (List Command) := do
  let drawn ← (gauges t).mapM (drawRoundScale trig fuel)
  pure (drawn.flatten ++ [.setPrintPos 0 7])

structure Pass where
  state : Taho
  setContrast : UInt8
  backlight : UInt8
  led : UInt8
  frame : List (Option (List Command))

/-- The picture loop calls `draw` once for each page; it changes no variable that a later
pass reads. -/
def loop (trig : Trig) (fuel : ℕ) (t : Taho) (input : PassInput) : Pass :=
  let served := serve (readSerial input (turnAlpha t))
  let sampled := sampleAdc input (dimLed served)
  { state := sampled
    setContrast := served.contrast
    backlight := served.bl
    led := sampled.f
    frame := List.replicate (input.pages + 1) (draw trig fuel sampled) }

def step (t : Taho) (input : PassInput) : Taho :=
  sampleAdc input (dimLed (serve (readSerial input (turnAlpha t))))

theorem loop_state (trig : Trig) (fuel : ℕ) (t : Taho) (input : PassInput) :
    (loop trig fuel t input).state = step t input := rfl

/-- The gauge angle stays on the circle. -/
def OnCircle (t : Taho) : Prop := 0 ≤ t.alpha.toInt ∧ t.alpha.toInt ≤ 360

theorem turnAlpha_alpha {t : Taho} (h : OnCircle t) :
    (turnAlpha t).alpha.toInt = (t.alpha.toInt + 1) % 361 := by
  obtain ⟨hlow, hhigh⟩ := h
  have hnext : (t.alpha + 1).toInt = t.alpha.toInt + 1 := by
    rw [Int16.toInt_add, Int16.toInt_one]
    exact Int.bmod_eq_of_le (by omega) (by omega)
  have hturn : Int16.toInt 360 = 360 := rfl
  have hzero : Int16.toInt 0 = 0 := rfl
  unfold turnAlpha
  dsimp only
  split_ifs with hwrap
  · rw [gt_iff_lt, Int16.lt_iff_toInt_lt, hnext, hturn] at hwrap
    rw [hzero]
    omega
  · rw [gt_iff_lt, Int16.lt_iff_toInt_lt, hnext, hturn] at hwrap
    rw [hnext]
    omega

theorem turnAlpha_onCircle {t : Taho} (h : OnCircle t) : OnCircle (turnAlpha t) := by
  unfold OnCircle
  rw [turnAlpha_alpha h]
  omega

/-- An angle from the serial port lies on the upper half of the circle. -/
theorem served_halfCircle {c : UInt16} (hlow : 4999 < c) (hhigh : c < 5181) :
    0 ≤ (c - 5000).toInt16.toInt ∧ (c - 5000).toInt16.toInt ≤ 180 := by
  rw [UInt16.lt_iff_toNat_lt] at hlow hhigh
  change 4999 < c.toNat at hlow
  change c.toNat < 5181 at hhigh
  have hword : c.toInt16.toInt = c.toNat := by
    have hhalf : 2 * c.toBitVec.toNat < 2 ^ 16 := by
      rw [UInt16.toNat_toBitVec]
      omega
    rw [← Int16.toInt_toBitVec, UInt16.toBitVec_toInt16]
    exact BitVec.toInt_eq_toNat_of_lt hhalf
  have hfirst : Int16.toInt 5000 = 5000 := rfl
  have hangle : (c - 5000).toInt16.toInt = c.toNat - 5000 := by
    rw [UInt16.toInt16_sub, UInt16.toInt16_ofNat, Int16.toInt_sub, hword, hfirst]
    exact Int.bmod_eq_of_le (by omega) (by omega)
  rw [hangle]
  omega

theorem serve_onCircle {t : Taho} (h : OnCircle t) : OnCircle (serve t) := by
  unfold serve OnCircle
  dsimp only
  split_ifs with hangle
  · obtain ⟨hlow, hhigh⟩ := served_halfCircle hangle.1 hangle.2
    omega
  · exact h

theorem step_onCircle {t : Taho} (h : OnCircle t) (input : PassInput) :
    OnCircle (step t input) :=
  serve_onCircle (t := readSerial input (turnAlpha t)) (turnAlpha_onCircle h)

theorem run_onCircle (inputs : List PassInput) : OnCircle (Run.final step powerOn inputs) :=
  Run.invariant_always inputs (fun _ input h => step_onCircle h input) ⟨by decide, by decide⟩

/-! Nothing on the serial port: the angle turns by one degree in each pass. -/

/-- No bytes are waiting, as far as a `char` can tell. -/
def PassInput.Quiet (input : PassInput) : Prop := input.available.toInt8 = 0

theorem step_quiet {t : Taho} {input : PassInput} (hquiet : input.Quiet) (hc : t.c = 0) :
    (step t input).c = 0 ∧ (step t input).alpha = (turnAlpha t).alpha := by
  have hread : (readSerial input (turnAlpha t)).c = 0 := by
    have hbytes : ¬input.available.toInt8 ≠ 0 := not_not.mpr hquiet
    unfold readSerial
    dsimp only
    rw [if_neg hbytes]
    exact hc
  refine ⟨hread, ?_⟩
  change (serve (readSerial input (turnAlpha t))).alpha = _
  unfold serve
  dsimp only
  rw [hread]
  exact if_neg (by decide)

theorem quiet_run (inputs : List PassInput) (hquiet : ∀ input ∈ inputs, input.Quiet) :
    (Run.final step powerOn inputs).c = 0 ∧
      (Run.final step powerOn inputs).alpha.toInt = (22 + inputs.length) % 361 := by
  induction inputs using List.reverseRecOn with
  | nil => exact ⟨rfl, rfl⟩
  | append_singleton earlier input ih =>
      obtain ⟨hc, hangle⟩ := ih fun input hinput => hquiet input (List.mem_append_left _ hinput)
      have hlast : input.Quiet := hquiet input (by simp)
      obtain ⟨hc', hturned⟩ := step_quiet hlast hc
      rw [Run.final_concat]
      refine ⟨hc', ?_⟩
      rw [hturned, turnAlpha_alpha (run_onCircle earlier), hangle, List.length_append,
        List.length_singleton]
      omega

/-- A pass of a single page with a quiet serial port. -/
def idle (analog : Nokia.Adc) : PassInput := ⟨0, 0, analog, 0⟩

theorem idle_run (analog : Nokia.Adc) (passes : ℕ) :
    (Run.final step powerOn (List.replicate passes (idle analog))).alpha.toInt =
      (22 + passes) % 361 := by
  have hquiet : ∀ input ∈ List.replicate passes (idle analog), input.Quiet := by
    intro input hinput
    rw [List.eq_of_mem_replicate hinput]
    rfl
  rw [(quiet_run _ hquiet).2, List.length_replicate]

/-- The angles that runs reach are those of the circle, both ends included. -/
theorem exists_run_alpha_iff (angle : ℤ) :
    (∃ inputs, (Run.final step powerOn inputs).alpha.toInt = angle) ↔
      0 ≤ angle ∧ angle ≤ 360 := by
  constructor
  · rintro ⟨inputs, rfl⟩
    exact run_onCircle inputs
  · rintro ⟨hlow, hhigh⟩
    refine ⟨List.replicate (339 + angle).toNat (idle 0), ?_⟩
    rw [idle_run]
    omega

end OledDs18b20.TahoTest.Loop
