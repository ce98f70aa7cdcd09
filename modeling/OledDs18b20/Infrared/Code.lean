import OledDs18b20.Infrared.Nec

/-! The codes of the remote control on the line, from the times that are sent to the value that
is decoded, and back. -/
namespace OledDs18b20.Infrared
open Lib

inductive Code where
  | data (value : UInt32)
  | held

namespace Code

def times : Code → List ℕ
  | .data value => sendNEC value
  | .held => necRepeat

/-- The times that the decoder looks at. -/
def checked : Code → List ℕ
  | .data value => necHdrMark :: necHdrSpace :: sendBits value necBits
  | .held => necRepeat

def results : Code → DecodeResults
  | .data value => { decodeType := .nec, value := value, bits := necBits }
  | .held => { decodeType := .nec, value := repeatValue, bits := 0 }

def parts : List ℕ := [necHdrMark, necHdrSpace, necRptSpace, necOneSpace, necBitMark]

theorem mem_sendBits {data : UInt32} {count time : ℕ} (h : time ∈ sendBits data count) :
    time ∈ parts.drop 1 := by
  induction count with
  | zero => simp [sendBits] at h
  | succ count ih =>
      rw [sendBits, List.mem_cons, List.mem_cons] at h
      rcases h with rfl | rfl | h
      · decide
      · cases data.toNat.testBit count <;> decide
      · exact ih h

theorem times_eq_cons (code : Code) : ∃ rest, code.times = necHdrMark :: rest ∧
    (∀ time ∈ rest, time ∈ parts.drop 1) ∧ (rest.length = 66 ∨ rest.length = 2) := by
  cases code with
  | data value =>
      refine ⟨necHdrSpace :: (sendBits value necBits ++ [necBitMark]), rfl, ?_, .inl ?_⟩
      · intro time htime
        rw [List.mem_cons, List.mem_append, List.mem_singleton] at htime
        rcases htime with rfl | htime | rfl
        · decide
        · exact mem_sendBits htime
        · decide
      · simp [Irparams.length_sendBits, necBits]
  | held => exact ⟨[necRptSpace, necBitMark], rfl, by decide, .inr rfl⟩

theorem mem_times {code : Code} {time : ℕ} (h : time ∈ code.times) : time ∈ parts := by
  obtain ⟨rest, heq, hrest, -⟩ := code.times_eq_cons
  rw [heq, List.mem_cons] at h
  rcases h with rfl | h
  · decide
  · exact List.mem_of_mem_drop (hrest time h)

theorem times_eq_append (code : Code) : ∃ more, code.times = code.checked ++ more := by
  cases code with
  | data value => exact ⟨[necBitMark], rfl⟩
  | held => exact ⟨[], rfl⟩

end Code

/-! The detector makes marks longer and spaces shorter, and the ticks are 50 microseconds
apart. -/

/-- A time that is sent, against the ticks that are counted: the detector changes it by at most
250 microseconds, and the ticks may miss one. -/
def Seen : Level → ℕ → ℕ → Prop
  | .mark, time, run => time < 50 * run + 50 ∧ 50 * run < time + 300
  | .space, time, run => time < 50 * run + 300 ∧ 50 * run < time + 50

instance (level : Level) (time run : ℕ) : Decidable (Seen level time run) :=
  match level with
  | .mark => inferInstanceAs (Decidable (_ ∧ _))
  | .space => inferInstanceAs (Decidable (_ ∧ _))

def Matches : Level → ℕ → UInt16 → Prop
  | .mark => MarkMatches
  | .space => SpaceMatches

def excess : Level → ℤ
  | .mark => markExcess
  | .space => -markExcess

theorem matches_iff (level : Level) (time : ℕ) (measured : UInt16) :
    Matches level time measured ↔ inTicks measured (time + excess level) = true := by
  cases level <;> rfl

/-- The tolerance leaves room for all of that. -/
structure Window (level : Level) (time : ℕ) : Prop where
  nonneg : 0 ≤ ticksLow (time + excess level)
  small : ticksHigh (time + excess level) < 32768
  low : ∀ run, Seen level time run → ticksLow (time + excess level) ≤ run
  high : ∀ run, Seen level time run → (run : ℤ) ≤ ticksHigh (time + excess level)

theorem window_of_mem {time : ℕ} (h : time ∈ Code.parts) (level : Level) : Window level time := by
  cases level with
  | mark =>
      have hbounds : ∀ time ∈ Code.parts, 0 ≤ ticksLow (time + excess .mark) ∧
          ticksHigh (time + excess .mark) < 32768 ∧ 50 * ticksLow (time + excess .mark) ≤ time ∧
          time + 300 ≤ 50 * ticksHigh (time + excess .mark) + 50 := by decide +kernel
      obtain ⟨hnonneg, hsmall, hlow, hhigh⟩ := hbounds time h
      refine ⟨hnonneg, hsmall, fun run hrun => ?_, fun run hrun => ?_⟩
      · have hless := hrun.1
        omega
      · have hmore := hrun.2
        omega
  | space =>
      have hbounds : ∀ time ∈ Code.parts, 0 ≤ ticksLow (time + excess .space) ∧
          ticksHigh (time + excess .space) < 32768 ∧
          50 * ticksLow (time + excess .space) + 250 ≤ time ∧
          time + 50 ≤ 50 * ticksHigh (time + excess .space) + 50 := by decide +kernel
      obtain ⟨hnonneg, hsmall, hlow, hhigh⟩ := hbounds time h
      refine ⟨hnonneg, hsmall, fun run hrun => ?_, fun run hrun => ?_⟩
      · have hless := hrun.1
        omega
      · have hmore := hrun.2
        omega

theorem Seen.matches {time run : ℕ} {level : Level} (h : Seen level time run)
    (hmem : time ∈ Code.parts) : Matches level time (UInt16.ofNat run) := by
  have hwindow := window_of_mem hmem level
  have hlow := hwindow.low run h
  have hhigh := hwindow.high run h
  have hsmall := hwindow.small
  rw [matches_iff, inTicks_iff rfl rfl hwindow.nonneg hsmall, UInt16.toNat_ofNat',
    Nat.mod_eq_of_lt (by omega)]
  exact ⟨hlow, hhigh⟩

/-- Such a transmission is recorded run for run. -/
structure Recordable (runs : List ℕ) : Prop where
  last : levelAt runs.length = .space
  count : runs.length + 1 < rawbufSize
  positive : ∀ run ∈ runs, 0 < run
  short : Short 98 runs

theorem levelAt_seen (number : ℕ) :
    Waveform.levelAt (Seen .mark) (Seen .space) number = Seen (levelAt number) :=
  Waveform.levelAt_map Seen .mark .space number

namespace Code
variable {code : Code} {runs : List ℕ}

theorem recordable (h : Waveform.Alternating (Seen .mark) (Seen .space) code.times runs) :
    Recordable runs := by
  obtain ⟨rest, htimes, hrest, hcount⟩ := code.times_eq_cons
  have hlength : runs.length = rest.length + 1 := by
    rw [h.length_eq, htimes, List.length_cons]
  refine ⟨?_, ?_, ?_, ?_⟩
  · rw [hlength]
    rcases hcount with hcount | hcount <;> rw [hcount] <;> decide
  · rw [hlength]
    rcases hcount with hcount | hcount <;> rw [hcount] <;> decide
  · intro run hrun
    obtain ⟨number, hnumber⟩ := List.mem_iff_getElem?.mp hrun
    obtain ⟨time, htime, hseen⟩ := h.exists_getElem? hnumber
    have hlong : ∀ time ∈ parts, 560 ≤ time := by decide
    have htime' := hlong time (mem_times (List.mem_of_getElem? htime))
    rw [levelAt_seen] at hseen
    cases hlevel : levelAt number <;> rw [hlevel] at hseen
    · have hless := hseen.1
      omega
    · have hless := hseen.1
      omega
  · intro number run hrun hspace
    obtain ⟨time, htime, hseen⟩ := h.exists_getElem? hrun
    rw [levelAt_seen, hspace] at hseen
    have hshort : ∀ time ∈ parts.drop 1, time ≤ 4500 := by decide
    -- Only the header's mark is longer, and it is not a space.
    cases number with
    | zero => exact absurd hspace (by decide)
    | succ number =>
        rw [htimes, List.getElem?_cons_succ] at htime
        have htime' := hshort time (hrest time (List.mem_of_getElem? htime))
        have hless := hseen.2
        omega

theorem agrees {s : Irparams} (hentries : s.entries.drop 1 = runs.map UInt16.ofNat)
    (h : Waveform.Alternating (Seen .mark) (Seen .space) code.times runs) :
    s.Agrees code.checked := by
  obtain ⟨more, hmore⟩ := code.times_eq_append
  have hmatches : Waveform.Alternating MarkMatches SpaceMatches code.times
      (runs.map UInt16.ofNat) := by
    refine (Waveform.alternating_map_iff UInt16.ofNat).mpr (h.mono ?_ ?_)
    · intro time htime run hseen
      exact (show Seen .mark time run from hseen).matches (mem_times htime)
    · intro time htime run hseen
      exact (show Seen .space time run from hseen).matches (mem_times htime)
  rw [hmore] at hmatches
  rw [Irparams.Agrees, hentries]
  exact hmatches.take

theorem decodeNEC {s : Irparams} (hlength : s.rawlen = runs.length + 1)
    (hentries : s.entries.drop 1 = runs.map UInt16.ofNat)
    (h : Waveform.Alternating (Seen .mark) (Seen .space) code.times runs) :
    s.decodeNEC = some code.results := by
  have hagrees := agrees hentries h
  have hcount := h.length_eq
  cases code with
  | data value =>
      have htimes : (Code.data value).times.length = 67 := by
        simp [times, sendNEC, Irparams.length_sendBits, necBits]
      exact (s.decodeNEC_iff value).mpr ⟨by omega, hagrees⟩
  | held =>
      have htimes : Code.held.times.length = 3 := rfl
      exact s.decodeNEC_repeat_iff.mpr ⟨by omega, hagrees⟩

theorem exists_of_decodeNEC {s : Irparams} {results : DecodeResults}
    (h : s.decodeNEC = some results) :
    ∃ code : Code, results = code.results ∧ s.Agrees code.checked := by
  rcases s.decodeNEC_cases h with heq | heq <;> rw [heq] at h
  · exact ⟨.held, heq, (s.decodeNEC_repeat_iff.mp h).2⟩
  · exact ⟨.data results.value, heq, ((s.decodeNEC_iff results.value).mp h).2⟩

end Code

/-- The decoder invents nothing: whatever was on the line and however often the program
resumed, a decoded code was there, after a gap and before one, with every time that the
decoder looks at within its tolerance. -/
theorem decoded_was_sent {events : List Event}
    (hallowed : ∀ visit ∈ Run.visits step .enableIRIn events, Allowed visit.1 visit.2)
    (hstop : (Run.final step .enableIRIn events).rcvstate = .stop) {results : DecodeResults}
    (hdecoded : (Run.final step .enableIRIn events).decodeNEC = some results) :
    ∃ code : Code, results = code.results ∧ ∃ before runs after,
      heard events = before ++ Waveform.signal Level.mark .space runs ++ after ∧
      List.replicate 99 Level.space <:+ before ∧ List.replicate 102 Level.space <+: after ∧
      Waveform.Alternating (fun time run => Matches .mark time (UInt16.ofNat run))
        (fun time run => Matches .space time (UInt16.ofNat run))
        code.checked (runs.take code.checked.length) := by
  obtain ⟨before, runs, after, hline, hbefore, hafter, -, -, hentries⟩ :=
    recorded_exactly hallowed hstop
  obtain ⟨code, hresults, hagrees⟩ := Code.exists_of_decodeNEC hdecoded
  refine ⟨code, hresults, before, runs, after, hline, hbefore, hafter, ?_⟩
  rw [Irparams.Agrees, hentries, ← List.map_take] at hagrees
  exact (Waveform.alternating_map_iff UInt16.ofNat).mp hagrees

def heldEvents : List Event :=
  let line : List Level := List.replicate 100 Level.space ++
    Waveform.signal Level.mark .space [182, 43, 13] ++ List.replicate 102 Level.space
  line.map Event.tick

theorem decoded_was_sent_held :
    ∃ code : Code, Code.held.results = code.results ∧ ∃ before runs after,
      heard heldEvents = before ++ Waveform.signal Level.mark .space runs ++ after ∧
      List.replicate 99 Level.space <:+ before ∧ List.replicate 102 Level.space <+: after ∧
      Waveform.Alternating (fun time run => Matches .mark time (UInt16.ofNat run))
        (fun time run => Matches .space time (UInt16.ofNat run))
        code.checked (runs.take code.checked.length) :=
  decoded_was_sent (by decide +kernel) (by decide +kernel) (by decide +kernel)

/-! From microseconds to ticks. -/

/-- What the detector makes of a time that is sent. -/
def Detected : Level → ℕ → ℕ → Prop
  | .mark, time, duration => time ≤ duration ∧ duration ≤ time + 250
  | .space, time, duration => duration ≤ time ∧ time ≤ duration + 250

instance (level : Level) (time duration : ℕ) : Decidable (Detected level time duration) :=
  match level with
  | .mark => inferInstanceAs (Decidable (_ ∧ _))
  | .space => inferInstanceAs (Decidable (_ ∧ _))

theorem Detected.seen {level : Level} {time duration run : ℕ} (h : Detected level time duration)
    (hsampled : Waveform.Sampled 50 duration run) : Seen level time run := by
  obtain ⟨hless, hmore⟩ := hsampled
  cases level with
  | mark =>
      obtain ⟨hlow, hhigh⟩ := h
      exact ⟨by omega, by omega⟩
  | space =>
      obtain ⟨hlow, hhigh⟩ := h
      exact ⟨by omega, by omega⟩

/-- The receiver has stopped and keeps a transmission until the program resumes. -/
structure Holding (runs : List ℕ) (s : Irparams) : Prop where
  rcvstate : s.rcvstate = .stop
  rawlen : s.rawlen = runs.length + 1
  entries : s.entries.drop 1 = runs.map UInt16.ofNat

theorem Received.holding {gap : UInt16} {runs : List ℕ} {s : Irparams} (h : Received gap runs s) :
    Holding runs s :=
  ⟨h.rcvstate, h.rawlen, by rw [h.entries]; rfl⟩

namespace Holding
variable {runs : List ℕ} {s : Irparams}

theorem tick (h : Holding runs s) (hcount : runs.length + 1 < rawbufSize) (irdata : Level) :
    Holding runs (s.tick irdata) := by
  have hroom : s.rawlen < rawbufSize := by
    rw [h.rawlen]
    exact hcount
  rw [Irparams.tick_stop h.rcvstate hroom]
  split_ifs <;> exact ⟨h.rcvstate, h.rawlen, h.entries⟩

theorem ticks (h : Holding runs s) (hcount : runs.length + 1 < rawbufSize) (line : List Level) :
    Holding runs (ticks line s) := by
  induction line generalizing s with
  | nil => exact h
  | cons irdata line ih => exact ih (h.tick hcount irdata)

end Holding

/-- What is sent is decoded: from the times of `sendNEC`, through the detector and the ticks at
any phase, to the value. The line was quiet for 5 milliseconds, and the timer has not begun
again in that time. -/
theorem sent_is_decoded {code : Code} {durations : List ℕ}
    (hdetected : Waveform.Alternating (Detected .mark) (Detected .space) code.times durations)
    {s : Irparams} (hidle : s.rcvstate = .idle) (hrawlen : s.rawlen = 0)
    {phase before after : ℕ} (hphase : phase < 50) (hbefore : 5000 ≤ before)
    (hlong : 50 * s.timer.toNat + before ≤ 3276700) (hafter : 5100 ≤ after) :
    let line := List.replicate before Level.space ++
      Waveform.signal Level.mark .space durations ++ List.replicate after Level.space
    (ticks (Waveform.sample 50 phase line) s).rcvstate = .stop ∧
      (ticks (Waveform.sample 50 phase line) s).decodeNEC = some code.results := by
  intro line
  obtain ⟨gap, phase₁, hphase₁, hgap, hsample₁⟩ := Waveform.sample_replicate hphase before
    Level.space (Waveform.signal Level.mark .space durations ++ List.replicate after Level.space)
  obtain ⟨runs, phase₂, hphase₂, hruns, hsample₂⟩ := Waveform.sample_signal hphase₁ Level.mark
    .space durations (List.replicate after Level.space)
  obtain ⟨quiet, phase₃, hphase₃, hquiet, hsample₃⟩ := Waveform.sample_replicate hphase₂ after
    Level.space []
  have hseen : Waveform.Alternating (Seen .mark) (Seen .space) code.times runs := by
    refine hdetected.trans ?_ ?_ hruns
    · exact fun time duration run h hsampled => h.seen hsampled
    · exact fun time duration run h hsampled => h.seen hsampled
  have hrecordable := Code.recordable hseen
  have hquiet' : List.replicate quiet Level.space =
      List.replicate 102 Level.space ++ List.replicate (quiet - 102) Level.space := by
    rw [List.replicate_append_replicate]
    congr 1
    omega
  have hline : ticks (Waveform.sample 50 phase line) s =
      ticks (List.replicate (quiet - 102) Level.space)
        (ticks (Waveform.signal Level.mark .space runs ++ List.replicate 102 Level.space)
          (ticks (List.replicate gap Level.space) s)) := by
    have hnil : Waveform.sample 50 phase₃ ([] : List Level) = [] := by
      cases phase₃ <;> rfl
    rw [List.append_nil, hnil, List.append_nil] at hsample₃
    rw [← ticks_append, ← ticks_append, List.append_assoc, ← hquiet', ← hsample₃, ← hsample₂,
      ← hsample₁, ← List.append_assoc]
  have hwaiting : Waiting (s.timer + UInt16.ofNat gap)
      (ticks (List.replicate gap Level.space) s) := Waiting.spaces ⟨hidle, hrawlen, rfl⟩ gap
  have hstart : ¬ s.timer + UInt16.ofNat gap + 1 < gapTicks := by
    have hone : UInt16.toNat 1 = 1 := rfl
    have hticks : gapTicks.toNat = 100 := rfl
    rw [UInt16.lt_iff_toNat_lt, UInt16.toNat_add, UInt16.toNat_add, UInt16.toNat_ofNat', hone,
      hticks]
    omega
  have hreceived := hwaiting.received hstart hrecordable.last hrecordable.count
    hrecordable.positive fun number run hrun hspace =>
      (hrecordable.short number run hrun hspace).trans (by decide)
  have hholding := hreceived.holding.ticks hrecordable.count
    (List.replicate (quiet - 102) Level.space)
  rw [← hline] at hholding
  exact ⟨hholding.rcvstate, Code.decodeNEC hholding.rawlen hholding.entries hseen⟩

/-- The code of a key, by a detector that is late by 100 microseconds. -/
theorem sent_is_decoded_key :
    let durations := (Code.data 0xFFC23D).times.mapIdx fun number time =>
      if levelAt number = .mark then time + 100 else time - 100
    let line := List.replicate 40000 Level.space ++
      Waveform.signal Level.mark .space durations ++ List.replicate 40000 Level.space
    (ticks (Waveform.sample 50 17 line) .enableIRIn).rcvstate = .stop ∧
      (ticks (Waveform.sample 50 17 line) .enableIRIn).decodeNEC =
        some (Code.data 0xFFC23D).results :=
  sent_is_decoded (by decide +kernel) rfl rfl (by decide) (by decide) (by decide) (by decide)

end OledDs18b20.Infrared
