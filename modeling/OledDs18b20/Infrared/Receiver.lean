import OledDs18b20.Lib.Run
import OledDs18b20.Lib.Waveform

/-! The interrupt routine of the infrared receiver. It runs once in 50 microseconds, whatever
the program is doing, and measures how long the line stays at its levels. -/
namespace OledDs18b20.Infrared
open Lib

/-- What the detector puts on the line: `mark` is low. -/
inductive Level where
  | mark
  | space
deriving DecidableEq

inductive RcvState where
  | idle
  | mark
  | space
  | stop
  | overflow
deriving DecidableEq

def rawbufSize : ℕ := 101

def gapTicks : UInt16 := 100

structure Irparams where
  rcvstate : RcvState
  rawlen : ℕ
  timer : UInt16
  rawbuf : Vector UInt16 rawbufSize
  overflow : Bool
deriving DecidableEq

namespace Irparams

/-- The next entry of `rawbuf` is the time since the last one. -/
def record (rcvstate : RcvState) (irparams : Irparams) : Irparams :=
  { irparams with
    rawbuf := irparams.rawbuf.setIfInBounds irparams.rawlen irparams.timer
    rawlen := irparams.rawlen + 1
    timer := 0
    rcvstate := rcvstate }

def dispatch (irdata : Level) (irparams : Irparams) : Irparams :=
  match irparams.rcvstate with
  | .idle =>
      if irdata = .mark then
        if irparams.timer < gapTicks then { irparams with timer := 0 }
        else { irparams with overflow := false, rawlen := 0 }.record .mark
      else irparams
  | .mark => if irdata = .space then irparams.record .space else irparams
  | .space =>
      if irdata = .mark then irparams.record .mark
      else if irparams.timer > gapTicks then { irparams with rcvstate := .stop }
      else irparams
  | .stop => if irdata = .mark then { irparams with timer := 0 } else irparams
  | .overflow => { irparams with overflow := true, rcvstate := .stop }

def tick (irdata : Level) (irparams : Irparams) : Irparams :=
  let irparams := { irparams with timer := irparams.timer + 1 }
  let irparams := if irparams.rawlen ≥ rawbufSize then { irparams with rcvstate := .overflow }
    else irparams
  irparams.dispatch irdata

/-- The two stores are one step here. In the source the interrupt routine may run between them:
interrupts stay enabled, and both variables are volatile. -/
def resume (irparams : Irparams) : Irparams :=
  { irparams with rcvstate := .idle, rawlen := 0 }

/-- `enableIRIn` on memory that is still zero. -/
def enableIRIn : Irparams where
  rcvstate := .idle
  rawlen := 0
  timer := 0
  rawbuf := Vector.replicate rawbufSize 0
  overflow := false

def entries (irparams : Irparams) : List UInt16 :=
  irparams.rawbuf.toList.take irparams.rawlen

theorem entries_record (rcvstate : RcvState) {s : Irparams} (h : s.rawlen < rawbufSize) :
    (s.record rcvstate).entries = s.entries ++ [s.timer] := by
  have hlength : s.rawlen < s.rawbuf.toList.length := by simpa using h
  have hset : (s.record rcvstate).rawbuf.toList = s.rawbuf.toList.set s.rawlen s.timer := by
    simp [record]
  rw [entries, hset]
  change List.take (s.rawlen + 1) _ = _
  rw [List.take_succ_eq_append_getElem (by simpa using hlength), List.take_set_of_le le_rfl,
    List.getElem_set_self]
  rfl

section Dispatch
variable {s : Irparams} (irdata : Level)

theorem dispatch_mark (h : s.rcvstate = .mark) :
    s.dispatch irdata = if irdata = .space then s.record .space else s := by
  rw [dispatch, h]

theorem dispatch_space (h : s.rcvstate = .space) :
    s.dispatch irdata =
      if irdata = .mark then s.record .mark
      else if s.timer > gapTicks then { s with rcvstate := .stop }
      else s := by
  rw [dispatch, h]

end Dispatch

theorem tick_eq {s : Irparams} (h : s.rawlen < rawbufSize) (irdata : Level) :
    s.tick irdata = { s with timer := s.timer + 1 }.dispatch irdata := by
  rw [tick]
  dsimp only
  rw [if_neg (Nat.not_le.mpr h)]

theorem tick_idle {s : Irparams} (h : s.rcvstate = .idle) (hroom : s.rawlen < rawbufSize)
    (irdata : Level) :
    s.tick irdata =
      if irdata = .mark then
        if s.timer + 1 < gapTicks then { s with timer := 0 }
        else { s with timer := s.timer + 1, overflow := false, rawlen := 0 }.record .mark
      else { s with timer := s.timer + 1 } := by
  rw [tick_eq hroom, dispatch]
  simp only [h]

theorem tick_stop {s : Irparams} (h : s.rcvstate = .stop) (hroom : s.rawlen < rawbufSize)
    (irdata : Level) :
    s.tick irdata =
      if irdata = .mark then { s with timer := 0 } else { s with timer := s.timer + 1 } := by
  rw [tick_eq hroom, dispatch]
  simp only [h]

end Irparams

/-! While a transmission is recorded: the runs that have ended are in `rawbuf`, and the timer
measures the one that has not. -/

def Level.other : Level → Level
  | .mark => .space
  | .space => .mark

/-- The level of the run with the given number, in a signal that begins with a mark. -/
def levelAt (number : ℕ) : Level := Waveform.levelAt .mark .space number

@[simp] theorem levelAt_zero : levelAt 0 = .mark := rfl

@[simp] theorem levelAt_succ (number : ℕ) : levelAt (number + 1) = (levelAt number).other := by
  have hboth : ∀ number, Waveform.levelAt Level.mark .space (number + 1) =
        (Waveform.levelAt Level.mark .space number).other ∧
      Waveform.levelAt Level.space .mark (number + 1) =
        (Waveform.levelAt Level.space .mark number).other := by
    intro number
    induction number with
    | zero => exact ⟨rfl, rfl⟩
    | succ number ih => exact ⟨ih.2, ih.1⟩
  exact (hboth number).1

def Level.measuring : Level → RcvState
  | .mark => .mark
  | .space => .space

theorem Level.measuring_ne_stop (level : Level) : level.measuring ≠ .stop := by
  cases level <;> decide

structure Recording (entries : List UInt16) (number run : ℕ) (s : Irparams) : Prop where
  rcvstate : s.rcvstate = (levelAt number).measuring
  rawlen : s.rawlen = number + 1
  entries : s.entries = entries
  timer : s.timer + 1 = UInt16.ofNat run

namespace Recording
variable {entries : List UInt16} {number run : ℕ} {s : Irparams}

theorem room (h : Recording entries number run s) (hroom : number + 1 < rawbufSize) :
    s.rawlen < rawbufSize := by
  rw [h.rawlen]
  exact hroom

theorem longer (h : Recording entries number run s) :
    Recording entries number (run + 1) { s with timer := s.timer + 1 } where
  rcvstate := h.rcvstate
  rawlen := h.rawlen
  entries := h.entries
  timer := by
    rw [UInt16.ofNat_add, ← h.timer]
    rfl

/-- After a gap the first mark begins a recording. -/
theorem start {s : Irparams} (hidle : s.rcvstate = .idle) (hroom : s.rawlen < rawbufSize)
    (hgap : ¬ s.timer + 1 < gapTicks) : Recording [s.timer + 1] 0 1 (s.tick .mark) := by
  rw [Irparams.tick_idle hidle hroom, if_pos rfl, if_neg hgap]
  refine ⟨rfl, rfl, ?_, rfl⟩
  rw [Irparams.entries_record .mark (show 0 < rawbufSize by decide)]
  rfl

/-- The same level: the run goes on. A space may not become too long for that. -/
theorem same (h : Recording entries number run s) (hroom : number + 1 < rawbufSize)
    (hshort : levelAt number = .space → run ≤ 100) :
    Recording entries number (run + 1) (s.tick (levelAt number)) := by
  rw [Irparams.tick_eq (h.room hroom)]
  have hstate : { s with timer := s.timer + 1 }.rcvstate = (levelAt number).measuring :=
    h.rcvstate
  cases hlevel : levelAt number with
  | mark =>
      rw [hlevel] at hstate
      rw [Irparams.dispatch_mark _ hstate, if_neg (by decide)]
      exact h.longer
  | space =>
      rw [hlevel] at hstate
      have hquiet : ¬ s.timer + 1 > gapTicks := by
        have hrun := hshort hlevel
        have hsize : run < UInt16.size := lt_of_le_of_lt hrun (by decide)
        rw [h.timer, gt_iff_lt, UInt16.lt_iff_toNat_lt, UInt16.toNat_ofNat_of_lt' hsize]
        exact Nat.not_lt.mpr hrun
      rw [Irparams.dispatch_space _ hstate, if_neg (by decide), if_neg hquiet]
      exact h.longer

/-- The other level: the run is recorded, and the next one begins. -/
theorem turn (h : Recording entries number run s) (hroom : number + 1 < rawbufSize) :
    Recording (entries ++ [UInt16.ofNat run]) (number + 1) 1
      (s.tick (levelAt (number + 1))) := by
  have hlonger := h.longer
  have hrecorded : Recording (entries ++ [UInt16.ofNat run]) (number + 1) 1
      ({ s with timer := s.timer + 1 }.record (levelAt (number + 1)).measuring) := by
    refine ⟨rfl, congrArg (· + 1) h.rawlen, ?_, rfl⟩
    rw [Irparams.entries_record _ (hlonger.room hroom), hlonger.entries, ← h.timer]
  rw [Irparams.tick_eq (h.room hroom)]
  have hstate := hlonger.rcvstate
  rw [levelAt_succ] at hrecorded ⊢
  cases hlevel : levelAt number with
  | mark =>
      rw [hlevel] at hstate hrecorded
      rw [Irparams.dispatch_mark _ hstate, Level.other, if_pos rfl]
      exact hrecorded
  | space =>
      rw [hlevel] at hstate hrecorded
      rw [Irparams.dispatch_space _ hstate, Level.other, if_pos rfl]
      exact hrecorded

/-- A space that is too long ends the transmission. -/
theorem stop (h : Recording entries number 101 s) (hroom : number + 1 < rawbufSize)
    (hlevel : levelAt number = .space) :
    s.tick .space = { s with timer := 101, rcvstate := .stop } := by
  have hstate := h.longer.rcvstate
  have htimer : s.timer + 1 = 101 := h.timer
  rw [hlevel] at hstate
  rw [Irparams.tick_eq (h.room hroom), Irparams.dispatch_space _ hstate, if_neg (by decide),
    htimer]
  rfl

end Recording

end OledDs18b20.Infrared
