import OledDs18b20.Lib.SignedIndex
import OledDs18b20.Lib.Window

/-! The temperature log, with every access checked against the array: `none`
stands for an access outside `TempLog`. -/
namespace OledDs18b20.Thermostat
open Lib

def logsize : ℕ := 50

abbrev TempLog := Vector Int16 logsize

structure Log where
  tempLog : TempLog
  tempLogIndex : Int8
  timeLogPosition : Int8
deriving DecidableEq

namespace Log

def load? (tempLog : TempLog) (index : Int8) : Option Int16 :=
  if h : 0 ≤ index ∧ index.toNatClampNeg < logsize then
    some (tempLog.get ⟨index.toNatClampNeg, h.2⟩)
  else none

def store? (tempLog : TempLog) (index : Int8) (value : Int16) : Option TempLog :=
  if h : 0 ≤ index ∧ index.toNatClampNeg < logsize then
    some (tempLog.set index.toNatClampNeg value h.2)
  else none

/-- `TempLogIndex++` with the wrap at the end of the array. -/
def nextIndex (index : Int8) : Int8 :=
  let index := index + 1
  if index > Int8.ofNat (logsize - 1) then 0 else index

def recordRing (value : Int16) (log : Log) : Option Log := do
  let index := nextIndex log.tempLogIndex
  let tempLog ← store? log.tempLog index value
  pure { log with tempLog, tempLogIndex := index }

/-- The passes of the shift loop for `TimeLogPosition` below the given bound. -/
def shiftLoop (tempLog : TempLog) : ℕ → Option TempLog
  | 0 => some tempLog
  | position + 1 => do
      let tempLog ← shiftLoop tempLog position
      let next ← load? tempLog (Int8.ofNat position + 1)
      store? tempLog (Int8.ofNat position) next

def recordShift (value : Int16) (log : Log) : Option Log := do
  let tempLog ← shiftLoop log.tempLog (logsize - 1)
  let tempLog ← store? tempLog (Int8.ofNat (logsize - 1)) value
  pure { log with tempLog, timeLogPosition := Int8.ofNat (logsize - 1) }

/-- The three branches on `Params[2]` that record one sample. -/
def record (graphType : Int8) (value : Int16) (log : Log) : Option Log := do
  let log ← if graphType = 1 then recordRing value log else pure log
  let log ← if graphType = 2 then recordShift value log else pure log
  if graphType = 3 then recordShift value log else pure log

/-- The index is inside the array; `TempLogIndex` starts at zero. -/
def InBounds (log : Log) : Prop :=
  0 ≤ log.tempLogIndex ∧ log.tempLogIndex < Int8.ofNat logsize

theorem nextIndex_bounds {index : Int8}
    (h : 0 ≤ index ∧ index < Int8.ofNat logsize) :
    0 ≤ nextIndex index ∧ nextIndex index < Int8.ofNat logsize := by
  simp only [nextIndex, logsize] at h ⊢
  grind

theorem nextIndex_toNatClampNeg {index : Int8}
    (h : 0 ≤ index ∧ index < Int8.ofNat logsize) :
    (nextIndex index).toNatClampNeg = (index.toNatClampNeg + 1) % logsize := by
  have hlt : index.toNatClampNeg < logsize :=
    (SignedIndex.toNatClampNeg_lt_iff h.1 (by decide)).mpr h.2
  have hnext := SignedIndex.toNatClampNeg_add_one h.1
    (by simp only [logsize] at h; grind)
  have hlast : Int8.ofNat (logsize - 1) < index + 1 ↔
      ¬ (index + 1).toNatClampNeg < logsize := by
    rw [SignedIndex.toNatClampNeg_lt_iff (by simp only [logsize] at h; grind) (by decide)]
    simp only [logsize]
    grind
  unfold nextIndex
  simp only [gt_iff_lt, hlast, hnext]
  split
  · have hwrap : index.toNatClampNeg + 1 = logsize := by omega
    rw [hwrap, Nat.mod_self]
    rfl
  · rw [hnext, Nat.mod_eq_of_lt (by omega)]

theorem load?_eq {tempLog : TempLog} {index : Int8} {cell : ℕ} (h : 0 ≤ index)
    (hcell : index.toNatClampNeg = cell) (hlt : cell < logsize) :
    load? tempLog index = some tempLog[cell] := by
  subst hcell
  exact dif_pos ⟨h, hlt⟩

theorem store?_eq {tempLog : TempLog} {index : Int8} {cell : ℕ} (value : Int16)
    (h : 0 ≤ index) (hcell : index.toNatClampNeg = cell) (hlt : cell < logsize) :
    store? tempLog index value = some (tempLog.set cell value hlt) := by
  subst hcell
  exact dif_pos ⟨h, hlt⟩

/-- No pass of the shift loop leaves the array. -/
theorem shiftLoop_eq (tempLog : TempLog) (moved : ℕ) (h : moved < logsize) :
    shiftLoop tempLog moved = some (Window.shiftDown tempLog moved h) := by
  induction moved with
  | zero => rfl
  | succ moved ih =>
      have hsmall : moved < 127 := by
        simp only [logsize] at h
        omega
      have hnonneg := SignedIndex.ofNat_nonneg (show moved < 128 by omega)
      have hread := SignedIndex.ofNat_nonneg (show moved + 1 < 128 by omega)
      have hsucc : Int8.ofNat moved + 1 = Int8.ofNat (moved + 1) :=
        (Int8.ofNat_add moved 1).symm
      rw [shiftLoop, ih (Nat.lt_of_succ_lt h), hsucc]
      simp only [Option.bind_eq_bind, Option.bind_some]
      rw [load?_eq hread (Int8.toNatClampNeg_ofNat_of_lt (by omega)) h, Option.bind_some]
      exact store?_eq _ hnonneg (Int8.toNatClampNeg_ofNat_of_lt (by omega))
        (Nat.lt_of_succ_lt h)

theorem recordRing_eq {log : Log} (value : Int16) (h : log.InBounds) :
    ∃ hlt, recordRing value log = some
      { log with
        tempLog := log.tempLog.set ((log.tempLogIndex.toNatClampNeg + 1) % logsize) value hlt
        tempLogIndex := nextIndex log.tempLogIndex } := by
  have hlt : (log.tempLogIndex.toNatClampNeg + 1) % logsize < logsize :=
    Nat.mod_lt _ (by decide)
  refine ⟨hlt, ?_⟩
  dsimp only [recordRing]
  rw [store?_eq value (nextIndex_bounds h).1 (nextIndex_toNatClampNeg h) hlt]
  rfl

theorem recordShift_eq (value : Int16) (log : Log) :
    recordShift value log = some
      { log with
        tempLog := (Window.shiftDown log.tempLog (logsize - 1) (by decide)).set
          (logsize - 1) value (by decide)
        timeLogPosition := Int8.ofNat (logsize - 1) } := by
  unfold recordShift
  rw [shiftLoop_eq log.tempLog (logsize - 1) (by decide)]
  simp only [Option.bind_eq_bind, Option.bind_some]
  rw [store?_eq value (by decide) (by decide) (show logsize - 1 < logsize by decide)]
  rfl

theorem recordRing_inBounds {log : Log} (value : Int16) (h : log.InBounds) :
    ∃ recorded, recordRing value log = some recorded ∧ recorded.InBounds := by
  obtain ⟨_, hring⟩ := recordRing_eq value h
  exact ⟨_, hring, nextIndex_bounds h⟩

theorem recordShift_inBounds {log : Log} (value : Int16) (h : log.InBounds) :
    ∃ recorded, recordShift value log = some recorded ∧ recorded.InBounds :=
  ⟨_, recordShift_eq value log, h.1, h.2⟩

theorem record_ring (value : Int16) (log : Log) :
    record 1 value log = recordRing value log := by
  cases h : recordRing value log <;> simp [record, h]

theorem record_shift {graphType : Int8} (value : Int16) (log : Log)
    (h : graphType = 2 ∨ graphType = 3) :
    record graphType value log = recordShift value log := by
  rcases h with rfl | rfl <;> cases h : recordShift value log <;> simp [record, h]

theorem record_other {graphType : Int8} (value : Int16) (log : Log)
    (h : graphType ≠ 1 ∧ graphType ≠ 2 ∧ graphType ≠ 3) :
    record graphType value log = some log := by
  simp [record, h]

/-- Recording from an index in the array accesses only the array and leaves the
index in it. -/
theorem record_inBounds {log : Log} (graphType : Int8) (value : Int16)
    (h : log.InBounds) :
    ∃ recorded, record graphType value log = some recorded ∧ recorded.InBounds := by
  by_cases hloop : graphType = 1
  · rw [hloop, record_ring]
    exact recordRing_inBounds value h
  · by_cases hshift : graphType = 2 ∨ graphType = 3
    · rw [record_shift value log hshift]
      exact recordShift_inBounds value h
    · rw [not_or] at hshift
      exact ⟨log, record_other value log ⟨hloop, hshift⟩, h⟩

end Log

/-- A log whose index is inside the array: the only kind a run can hold. -/
abbrev ValidLog := {log : Log // log.InBounds}

namespace ValidLog

def zeroed : ValidLog := ⟨⟨Vector.replicate logsize 0, 0, 0⟩, by decide, by decide⟩

def record (graphType : Int8) (value : Int16) (log : ValidLog) : ValidLog :=
  ⟨(Log.record graphType value log.val).get (by
      obtain ⟨_, h, _⟩ := Log.record_inBounds graphType value log.property
      exact Option.isSome_of_eq_some h), by
    obtain ⟨_, h, hin⟩ := Log.record_inBounds graphType value log.property
    simpa [h] using hin⟩

theorem record_val (graphType : Int8) (value : Int16) (log : ValidLog) :
    Log.record graphType value log.val = some (record graphType value log).val :=
  (Option.some_get _).symm

theorem record_other {graphType : Int8} (value : Int16) (log : ValidLog)
    (h : graphType ≠ 1 ∧ graphType ≠ 2 ∧ graphType ≠ 3) : record graphType value log = log := by
  have hrecord := record_val graphType value log
  rw [Log.record_other value log.val h] at hrecord
  exact (Subtype.ext (Option.some.inj hrecord)).symm

end ValidLog

end OledDs18b20.Thermostat
