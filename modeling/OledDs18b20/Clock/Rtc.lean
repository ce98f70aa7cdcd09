import OledDs18b20.Clock.Calendar
import OledDs18b20.Thermostat.Loop

/-! The clock chip behind `DS1307RTC`: seven registers in binary coded decimals, which stand still
here unless they are written. -/
namespace OledDs18b20.Clock
open Lib.Blocks

structure Chip where
  answers : Bool
  available : ℕ
  registers : ℕ → UInt8

/-- `DS1307RTC`, whose flag `exists` is what `chipPresent` returns. -/
structure Rtc where
  chip : Chip
  chipPresent : Bool

def dec2bcd (num : UInt8) : UInt8 := num / 10 * 16 + num % 10

def bcd2dec (num : UInt8) : UInt8 := num / 16 * 10 + num % 16

def secsYr2000 : UInt32 := 946684800

namespace Rtc

/-- `DS1307RTC::read`, with what it returns. A clock that is halted is read, too. -/
def read (rtc : Rtc) (tm : TmElements) : Bool × Rtc × TmElements :=
  if rtc.chip.answers = false then (false, { rtc with chipPresent := false }, tm)
  else if rtc.chip.available < 7 then (false, { rtc with chipPresent := true }, tm)
  else
    let sec := rtc.chip.registers 0
    (decide (sec &&& 0x80 = 0), { rtc with chipPresent := true },
      { second := bcd2dec (sec &&& 0x7f)
        minute := bcd2dec (rtc.chip.registers 1)
        hour := bcd2dec (rtc.chip.registers 2 &&& 0x3f)
        wday := bcd2dec (rtc.chip.registers 3)
        day := bcd2dec (rtc.chip.registers 4)
        month := bcd2dec (rtc.chip.registers 5)
        year := bcd2dec (rtc.chip.registers 6) + 30 })

def write (rtc : Rtc) (tm : TmElements) : Bool × Rtc :=
  if rtc.chip.answers = false then (false, { rtc with chipPresent := false })
  else
    let sent := [dec2bcd tm.second, dec2bcd tm.minute, dec2bcd tm.hour, dec2bcd tm.wday,
      dec2bcd tm.day, dec2bcd tm.month, dec2bcd (tm.year - 30)]
    let registers := fun place => sent[place]?.getD (rtc.chip.registers place)
    (true, { chip := { rtc.chip with registers := registers }, chipPresent := true })

/-- `DS1307RTC::get`, with what it finds on the stack for `tm`. -/
def get (rtc : Rtc) (tm : TmElements) : Option UInt32 :=
  let answer := rtc.read tm
  if answer.1 = false then some 0 else makeTime answer.2.2

/-- `DS1307RTC::set`: the clock after the first write, which is to stop it, and after the second. -/
def set (rtc : Rtc) (t : UInt32) : Option (Rtc × Rtc) := do
  let tm ← breakTime t
  let tm := { tm with second := tm.second ||| 0x80 }
  let stopped := (rtc.write tm).2
  let tm := { tm with second := tm.second &&& 0x7f }
  return (stopped, (stopped.write tm).2)

/-- Bit 7 of the first register halts the clock. -/
def Halted (rtc : Rtc) : Prop := rtc.chip.registers 0 &&& 0x80 ≠ 0

end Rtc

theorem bcd2dec_dec2bcd {num : UInt8} (h : num < 160) : bcd2dec (dec2bcd num) = num := by
  obtain ⟨⟨num⟩⟩ := num
  revert num
  decide +kernel

/-- The bit is set before the conversion, and lost from 32 seconds on. -/
theorem halted_iff {second : UInt8} (h : second < 60) :
    dec2bcd (second ||| 0x80) &&& 0x80 ≠ 0 ↔ second < 32 := by
  obtain ⟨⟨second⟩⟩ := second
  revert second
  decide +kernel

theorem second_read {second : UInt8} (h : second < 60) :
    dec2bcd ((second ||| 0x80) &&& 0x7f) &&& 0x80 = 0 ∧
      bcd2dec (dec2bcd ((second ||| 0x80) &&& 0x7f) &&& 0x7f) = second := by
  obtain ⟨⟨second⟩⟩ := second
  revert second
  decide +kernel

theorem hour_read {hour : UInt8} (h : hour < 24) : bcd2dec (dec2bcd hour &&& 0x3f) = hour := by
  obtain ⟨⟨hour⟩⟩ := hour
  revert hour
  decide +kernel

/-- Two digits hold the years from 2000 on; earlier ones come back 96 years later. -/
theorem year_read {year : UInt8} (h : year < 137) :
    bcd2dec (dec2bcd (year - 30)) + 30 = if year < 30 then year + 96 else year := by
  obtain ⟨⟨year⟩⟩ := year
  revert year
  decide +kernel

def reread (tm : TmElements) : TmElements :=
  { tm with year := if tm.year < 30 then tm.year + 96 else tm.year }

theorem leapYear_add (year : ℕ) (h : year < 30) : leapYear (year + 96) = leapYear year := by
  revert year
  decide

namespace TmElements
variable {tm : TmElements}

theorem Exists.year_lt (h : tm.Exists) (hmoment : tm.moment < 2 ^ 32) : tm.year.toNat < 137 := by
  apply h.locates_year.block_lt
  have hyears := mul_le_start yearDays_ge 137
  unfold moment at hmoment
  omega

theorem Exists.days_le (h : tm.Exists) :
    monthLength tm.year.toNat (tm.month.toNat - 1) ≤ 31 :=
  monthLength_le _ (by have hmonth := h.month; omega)

theorem Exists.moment_lt_iff (h : tm.Exists) :
    tm.moment < secsYr2000.toNat ↔ tm.year.toNat < 30 := by
  have hdays : start yearDays 30 = 10957 := by decide
  have hseconds : secsYr2000.toNat = 10957 * 86400 := rfl
  have hminute : tm.minute.toNat < 60 := UInt8.lt_iff_toNat_lt.mp h.minute
  have hhour : tm.hour.toNat < 24 := UInt8.lt_iff_toNat_lt.mp h.hour
  have hsecond : tm.second.toNat < 60 := UInt8.lt_iff_toNat_lt.mp h.second
  unfold moment
  constructor
  · intro hearly
    apply h.locates_year.block_lt
    omega
  · intro hyear
    have hlast := h.locates_year.lt_start
    have hstart := start_mono yearDays (Nat.succ_le_of_lt hyear)
    simp only [Nat.succ_eq_add_one] at hstart
    omega

theorem reread_eq (h : 30 ≤ tm.year.toNat) : reread tm = tm := by
  have hyear : ¬ tm.year < 30 := by
    rw [UInt8.lt_iff_toNat_lt]
    exact Nat.not_lt_of_le h
  unfold reread
  rw [if_neg hyear]

theorem Exists.moment_reread (h : tm.Exists) (hyear : tm.year.toNat < 30) :
    tm.moment < (reread tm).moment ∧ (reread tm).moment < 2 ^ 32 := by
  have hbyte : tm.year < 30 := UInt8.lt_iff_toNat_lt.mpr hyear
  have hninety : UInt8.toNat 96 = 96 := rfl
  have hlater : (reread tm).year.toNat = tm.year.toNat + 96 := by
    unfold reread
    simp only [hbyte, if_true, UInt8.toNat_add, hninety]
    omega
  have hmonths : monthLength (tm.year.toNat + 96) = monthLength tm.year.toNat := by
    funext month
    unfold monthLength
    rw [leapYear_add _ hyear]
  have hdays : yearDays (tm.year.toNat + 96) = yearDays tm.year.toNat := by
    unfold yearDays
    rw [leapYear_add _ hyear]
  have hnumber : (reread tm).dayNumber = start yearDays (tm.year.toNat + 96) + tm.yearDay := by
    unfold dayNumber yearDay
    rw [hlater, hmonths, Nat.add_assoc]
    rfl
  have hinside := h.locates_year.inside
  have hlast := h.locates_year.lt_start
  have hnext := start_mono yearDays (by omega : tm.year.toNat + 1 ≤ tm.year.toNat + 96)
  have hend := start_mono yearDays (by omega : tm.year.toNat + 96 + 1 ≤ 126)
  have hbound : start yearDays 126 = 46021 := by decide +kernel
  rw [start_succ, hdays] at hend
  have hminute : tm.minute.toNat < 60 := UInt8.lt_iff_toNat_lt.mp h.minute
  have hhour : tm.hour.toNat < 24 := UInt8.lt_iff_toNat_lt.mp h.hour
  have hsecond : tm.second.toNat < 60 := UInt8.lt_iff_toNat_lt.mp h.second
  have htime : (reread tm).hour = tm.hour ∧ (reread tm).minute = tm.minute ∧
      (reread tm).second = tm.second := ⟨rfl, rfl, rfl⟩
  unfold moment
  rw [hnumber, htime.1, htime.2.1, htime.2.2]
  omega

end TmElements

namespace Rtc

/-- The registers hold a time, each field as two digits, and bit 7 of the seconds is clear. -/
structure Holds (rtc : Rtc) (tm : TmElements) : Prop where
  second : rtc.chip.registers 0 = dec2bcd ((tm.second ||| 0x80) &&& 0x7f)
  minute : rtc.chip.registers 1 = dec2bcd tm.minute
  hour : rtc.chip.registers 2 = dec2bcd tm.hour
  wday : rtc.chip.registers 3 = dec2bcd tm.wday
  day : rtc.chip.registers 4 = dec2bcd tm.day
  month : rtc.chip.registers 5 = dec2bcd tm.month
  year : rtc.chip.registers 6 = dec2bcd (tm.year - 30)

theorem Holds.read_eq {rtc : Rtc} {tm : TmElements} (h : rtc.Holds tm) (hexists : tm.Exists)
    (hyear : tm.year < 137) (hanswers : rtc.chip.answers = true)
    (havailable : 7 ≤ rtc.chip.available) (hpresent : rtc.chipPresent = true)
    (leftover : TmElements) : rtc.read leftover = (true, rtc, reread tm) := by
  have hdays := hexists.days_le
  have hsmall {field : UInt8} (hfield : field.toNat < 160) : bcd2dec (dec2bcd field) = field :=
    bcd2dec_dec2bcd (UInt8.lt_iff_toNat_lt.mpr hfield)
  have hminute : tm.minute.toNat < 60 := UInt8.lt_iff_toNat_lt.mp hexists.minute
  have hsecond := second_read hexists.second
  have hanswered : ¬ rtc.chip.answers = false := by simp [hanswers]
  have hdelivered : ¬ rtc.chip.available < 7 := Nat.not_lt_of_le havailable
  have hsame : ({ rtc with chipPresent := true } : Rtc) = rtc := by
    rw [← hpresent]
  rw [read, if_neg hanswered, if_neg hdelivered, hsame, h.second, h.minute, h.hour, h.wday, h.day,
    h.month, h.year]
  dsimp only
  rw [hsecond.2, hsecond.1, hsmall (by omega : tm.minute.toNat < 160), hour_read hexists.hour,
    hsmall (by have hwday := hexists.wday; omega : tm.wday.toNat < 160),
    hsmall (by have hday := hexists.day; omega : tm.day.toNat < 160),
    hsmall (by have hmonth := hexists.month; omega : tm.month.toNat < 160), year_read hyear]
  rfl

theorem set_eq {rtc : Rtc} (hanswers : rtc.chip.answers = true)
    (havailable : 7 ≤ rtc.chip.available) (t : UInt32) : ∃ tm stopped running,
      tm.Exists ∧ tm.moment = t.toNat ∧ rtc.set t = some (stopped, running) ∧
      (stopped.Halted ↔ tm.second < 32) ∧ ¬ running.Halted ∧
      (∀ leftover, running.read leftover = (true, running, reread tm)) ∧
      running.chip.answers = true ∧ running.chip.available = rtc.chip.available := by
  obtain ⟨tm, hbreak, hexists, hmoment⟩ := breakTime_exists t
  let stopped := (rtc.write { tm with second := tm.second ||| 0x80 }).2
  let running := (stopped.write { tm with second := (tm.second ||| 0x80) &&& 0x7f }).2
  have hset : rtc.set t = some (stopped, running) := by
    unfold set
    rw [hbreak]
    rfl
  have hstopped : stopped.chip.answers = true ∧
      stopped.chip.registers 0 = dec2bcd (tm.second ||| 0x80) := by
    simp [stopped, write, hanswers]
  have hrunning : running.chip.answers = true ∧ running.chip.available = rtc.chip.available ∧
      running.chipPresent = true := by
    simp [running, stopped, write, hanswers]
  have hholds : running.Holds tm := by
    constructor <;> simp [running, write, hstopped.1]
  have hyear : tm.year < 137 := by
    rw [UInt8.lt_iff_toNat_lt]
    exact hexists.year_lt (hmoment ▸ t.toNat_lt)
  refine ⟨tm, stopped, running, hexists, hmoment, hset, ?_, ?_, ?_, hrunning.1, hrunning.2.1⟩
  · rw [Halted, hstopped.2, halted_iff hexists.second]
  · rw [Halted, hholds.second, (second_read hexists.second).1]
    exact not_not.mpr rfl
  · exact hholds.read_eq hexists hyear hrunning.1 (hrunning.2.1 ▸ havailable) hrunning.2.2

/-- `set` and `get` are inverse from 2000 on, and only then. The clock stands still between the
two writes of `set` only if the seconds are below 32. -/
theorem get_set {rtc : Rtc} (hanswers : rtc.chip.answers = true)
    (havailable : 7 ≤ rtc.chip.available) (t : UInt32) : ∃ stopped running,
      rtc.set t = some (stopped, running) ∧
      (stopped.Halted ↔ t.toNat % 60 < 32) ∧ ¬ running.Halted ∧
      ∀ leftover, running.get leftover = some t ↔ secsYr2000 ≤ t := by
  obtain ⟨tm, stopped, running, hexists, hmoment, hset, hstopped, hrunning, hread, -⟩ :=
    set_eq hanswers havailable t
  refine ⟨stopped, running, hset, ?_, hrunning, ?_⟩
  · have hsecond : tm.second.toNat < 60 := UInt8.lt_iff_toNat_lt.mp hexists.second
    have hbound : UInt8.toNat 32 = 32 := rfl
    unfold TmElements.moment at hmoment
    rw [hstopped, UInt8.lt_iff_toNat_lt, hbound]
    omega
  intro leftover
  have hget : running.get leftover = some (UInt32.ofNat (reread tm).moment) := by
    rw [get, hread]
    exact makeTime_eq hexists.month.2 hexists.day.1
  rw [hget, UInt32.le_iff_toNat_le, ← hmoment, ← Nat.not_lt, hexists.moment_lt_iff]
  by_cases hyear : tm.year.toNat < 30
  · obtain ⟨hlater, hsmall⟩ := hexists.moment_reread hyear
    have hother : UInt32.ofNat (reread tm).moment ≠ t := by
      intro hsame
      have hvalue := congrArg UInt32.toNat hsame
      rw [UInt32.toNat_ofNat', Nat.mod_eq_of_lt hsmall] at hvalue
      omega
    simp [hother, hyear]
  · rw [TmElements.reread_eq (Nat.le_of_not_lt hyear), hmoment, UInt32.ofNat_toNat]
    simp [hyear]

def bench : Rtc := ⟨⟨true, 7, fun _ => 0x80⟩, false⟩

theorem get_set_bench : ∃ stopped running,
    bench.set 1443657630 = some (stopped, running) ∧
    (stopped.Halted ↔ 1443657630 % 60 < 32) ∧ ¬ running.Halted ∧
    ∀ leftover, running.get leftover = some 1443657630 ↔ secsYr2000 ≤ 1443657630 :=
  get_set rfl (le_refl 7) 1443657630

/-- What `loop` learns from `RTC.read(tm)` and `RTC.chipPresent()`. -/
def asked (rtc : Rtc) (tm : TmElements) : Thermostat.Loop.Rtc :=
  let answer := rtc.read tm
  { running := answer.1
    present := answer.2.1.chipPresent
    tm := if rtc.chip.answers && decide (7 ≤ rtc.chip.available) then
      some ⟨answer.2.2.hour, answer.2.2.minute, answer.2.2.second⟩ else none }

theorem clock_drawn {s : Thermostat.Sketch} (hmain : s.params 0 = 0) (left : Int8) :
    Thermostat.Draw.clock s <:+: (Thermostat.Draw.page left s).commands := by
  have hpage : Thermostat.Draw.page left s = Thermostat.Draw.mainScreen left s := if_pos hmain
  rw [hpage]
  unfold Thermostat.Draw.mainScreen
  rw [Thermostat.Draw.Page.of_append_commands, Thermostat.Draw.Page.of_append_commands,
    List.append_assoc, ← List.append_assoc (Thermostat.Draw.icons s)]
  exact List.infix_append _ _ _

/-- Whatever the year, a pass that reads the clock after `set` leaves the time of the day that was
set, and the status line of the main screen prints it. -/
theorem shown_after_set {rtc : Rtc} (hanswers : rtc.chip.answers = true)
    (havailable : 7 ≤ rtc.chip.available) (t : UInt32) : ∃ stopped running,
      rtc.set t = some (stopped, running) ∧ ∀ leftover s input typeS dsNum,
        Thermostat.Loop.detect input = .ok (typeS, dsNum) →
        input.rtc = running.asked leftover →
        let shown := Thermostat.Loop.step s input
        shown.rtcNum = 0 ∧ shown.tm.hour.toNat = t.toNat / 3600 % 24 ∧
          shown.tm.minute.toNat = t.toNat / 60 % 60 ∧ shown.tm.second.toNat = t.toNat % 60 ∧
          (shown.params 0 = 0 → ∀ page ∈ (Thermostat.Loop.loop s input).frame,
            Thermostat.Draw.clock shown <:+: page.commands) := by
  obtain ⟨tm, stopped, running, hexists, hmoment, hset, -, -, hread, hchip⟩ :=
    set_eq hanswers havailable t
  refine ⟨stopped, running, hset, ?_⟩
  intro leftover s input typeS dsNum hdetect hclock shown
  have hasked : running.asked leftover =
      ⟨true, running.chipPresent, some ⟨tm.hour, tm.minute, tm.second⟩⟩ := by
    unfold asked
    simp [hread, hchip, reread, havailable]
  have hfields : shown.rtcNum = 0 ∧ shown.tm = ⟨tm.hour, tm.minute, tm.second⟩ := by
    obtain ⟨params, eeprom, address, results, irrecv, aab, hstep⟩ :=
      Thermostat.Loop.step_full (s := s) hdetect
    change (Thermostat.Loop.step s input).rtcNum = 0 ∧ (Thermostat.Loop.step s input).tm = _
    rw [hstep, Thermostat.Loop.polled_eq, hclock, hasked]
    exact ⟨rfl, rfl⟩
  have hminute : tm.minute.toNat < 60 := UInt8.lt_iff_toNat_lt.mp hexists.minute
  have hhour : tm.hour.toNat < 24 := UInt8.lt_iff_toNat_lt.mp hexists.hour
  have hsecond : tm.second.toNat < 60 := UInt8.lt_iff_toNat_lt.mp hexists.second
  unfold TmElements.moment at hmoment
  rw [hfields.2]
  refine ⟨hfields.1, ?_, ?_, ?_, ?_⟩
  · change tm.hour.toNat = _
    omega
  · change tm.minute.toNat = _
    omega
  · change tm.second.toNat = _
    omega
  · intro hmain page hpage
    rw [Thermostat.Loop.frame_full hdetect] at hpage
    obtain ⟨left, -, rfl⟩ := List.mem_map.mp hpage
    exact clock_drawn hmain left

theorem shown_after_set_bench : ∃ stopped running,
    bench.set 1443702956 = some (stopped, running) ∧
      let shown := Thermostat.Loop.step
        (Thermostat.Loop.boot Thermostat.Loop.benchBoard Thermostat.Loop.declaredImage)
        { Thermostat.Loop.benchPass [] with rtc := running.asked ⟨0, 0, 0, 0, 0, 0, 0⟩ }
      shown.rtcNum = 0 ∧ shown.tm.hour.toNat = 12 ∧ shown.tm.minute.toNat = 35 ∧
        shown.tm.second.toNat = 56 := by
  obtain ⟨stopped, running, hset, hshown⟩ := @shown_after_set bench rfl (le_refl 7)
    1443702956
  have hdetect : Thermostat.Loop.detect (Thermostat.Loop.benchPass []) = .ok (0, 1) := by
    decide +kernel
  refine ⟨stopped, running, hset, ?_⟩
  obtain ⟨hclock, hhour, hminute, hsecond, -⟩ := hshown ⟨0, 0, 0, 0, 0, 0, 0⟩
    (Thermostat.Loop.boot Thermostat.Loop.benchBoard Thermostat.Loop.declaredImage)
    { Thermostat.Loop.benchPass [] with rtc := running.asked ⟨0, 0, 0, 0, 0, 0, 0⟩ } 0 1
    hdetect rfl
  exact ⟨hclock, hhour, hminute, hsecond⟩

end Rtc

end OledDs18b20.Clock
