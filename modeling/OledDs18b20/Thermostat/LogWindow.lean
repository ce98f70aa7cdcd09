import OledDs18b20.Thermostat.Log

/-! Runs of recorded samples: the ring and the shifted array both hold the
window of the last `logsize` samples. -/
namespace OledDs18b20.Thermostat.LogWindow
open Lib Log

/-- The samples with the value of `Params[2]` they are recorded under. -/
def recordAll (samples : List (Int8 × Int16)) (log : Log) : Option Log :=
  samples.foldlM (fun log sample => record sample.1 sample.2 log) log

/-- The samples of the ring from the oldest to the newest. -/
def ringWindow (log : Log) : List Int16 :=
  Window.ringView log.tempLog log.tempLogIndex.toNatClampNeg

/-- What both logs hold after `samples`. -/
def lastSamples (samples : List Int16) : List Int16 :=
  (List.replicate logsize 0 ++ samples).drop samples.length

theorem recordAll_cons (graphType : Int8) (value : Int16) (rest : List (Int8 × Int16))
    {log recorded : Log} (h : record graphType value log = some recorded) :
    recordAll ((graphType, value) :: rest) log = recordAll rest recorded := by
  unfold recordAll
  rw [List.foldlM_cons, h]
  rfl

theorem recordRing_window {log : Log} (value : Int16) (h : log.InBounds) :
    ∃ recorded, recordRing value log = some recorded ∧ recorded.InBounds ∧
      ringWindow recorded = Window.push (ringWindow log) value := by
  obtain ⟨hlt, hring⟩ := recordRing_eq value h
  refine ⟨_, hring, nextIndex_bounds h, ?_⟩
  unfold ringWindow
  dsimp only
  rw [nextIndex_toNatClampNeg h]
  exact Window.ringView_set log.tempLog log.tempLogIndex.toNatClampNeg value hlt

theorem recordShift_window {log : Log} (value : Int16) (h : log.InBounds) :
    ∃ recorded, recordShift value log = some recorded ∧ recorded.InBounds ∧
      recorded.tempLog.toList = Window.push log.tempLog.toList value := by
  refine ⟨_, recordShift_eq value log, ⟨h.1, h.2⟩, ?_⟩
  dsimp only
  exact Window.toList_shiftDown_set log.tempLog value

theorem recordAll_ring (samples : List Int16) {log : Log} (h : log.InBounds) :
    ∃ ring, recordAll (samples.map fun value => (1, value)) log = some ring ∧
      ring.InBounds ∧ ringWindow ring = samples.foldl Window.push (ringWindow log) := by
  induction samples generalizing log with
  | nil => exact ⟨log, rfl, h, rfl⟩
  | cons value rest ih =>
      obtain ⟨recorded, hrecord, hin, hwindow⟩ := recordRing_window value h
      obtain ⟨ring, hrest, hbounds, hrun⟩ := ih hin
      rw [← record_ring] at hrecord
      refine ⟨ring, ?_, hbounds, ?_⟩
      · rw [List.map_cons, recordAll_cons _ _ _ hrecord]
        exact hrest
      · rw [hrun, hwindow, List.foldl_cons]

theorem recordAll_shift (samples : List (Int8 × Int16)) {log : Log} (h : log.InBounds)
    (hshift : ∀ sample ∈ samples, sample.1 = 2 ∨ sample.1 = 3) :
    ∃ shift, recordAll samples log = some shift ∧ shift.InBounds ∧
      shift.tempLog.toList =
        (samples.map Prod.snd).foldl Window.push log.tempLog.toList := by
  induction samples generalizing log with
  | nil => exact ⟨log, rfl, h, rfl⟩
  | cons sample rest ih =>
      rw [List.forall_mem_cons] at hshift
      obtain ⟨recorded, hrecord, hin, hwindow⟩ := recordShift_window sample.2 h
      obtain ⟨shift, hrest, hbounds, hrun⟩ := ih hin hshift.2
      rw [← record_shift sample.2 log hshift.1] at hrecord
      refine ⟨shift, ?_, hbounds, ?_⟩
      · rw [recordAll_cons _ _ _ hrecord]
        exact hrest
      · rw [hrun, hwindow, List.map_cons, List.foldl_cons]

theorem ringWindow_zeroed :
    ringWindow ValidLog.zeroed.val = List.replicate logsize 0 :=
  Window.ringView_replicate 0 0

theorem getElem_ringWindow (log : Log) (k : ℕ) (hk : k < (ringWindow log).length) :
    (ringWindow log)[k] = log.tempLog.get
      ⟨(log.tempLogIndex.toNatClampNeg + 1 + k) % logsize, Nat.mod_lt _ (by decide)⟩ :=
  Window.getElem_ringView log.tempLog log.tempLogIndex.toNatClampNeg k hk _

/-- The same samples recorded in the ring and, under graph types 2 and 3, in the
shifted array. Neither run accesses a cell outside `TempLog`. -/
theorem ring_shift_same_window (samples : List (Int8 × Int16))
    (hshift : ∀ sample ∈ samples, sample.1 = 2 ∨ sample.1 = 3) :
    ∃ ring shift : Log,
      recordAll (samples.map fun sample => (1, sample.2)) ValidLog.zeroed.val = some ring ∧
      recordAll samples ValidLog.zeroed.val = some shift ∧
      ring.InBounds ∧ shift.InBounds ∧
      (∀ k : Fin logsize, shift.tempLog.get k = ring.tempLog.get
        ⟨(ring.tempLogIndex.toNatClampNeg + 1 + k.val) % logsize,
          Nat.mod_lt _ (by decide)⟩) ∧
      ringWindow ring = lastSamples (samples.map Prod.snd) ∧
      shift.tempLog.toList = lastSamples (samples.map Prod.snd) := by
  have hzeroed := ValidLog.zeroed.property
  obtain ⟨ring, hring, hringIn, hringRun⟩ :=
    recordAll_ring (samples.map Prod.snd) hzeroed
  obtain ⟨shift, hshiftRun, hshiftIn, hshiftWindow⟩ :=
    recordAll_shift samples hzeroed hshift
  rw [ringWindow_zeroed, Window.foldl_push] at hringRun
  rw [Window.foldl_push] at hshiftWindow
  rw [List.map_map] at hring
  refine ⟨ring, shift, hring, hshiftRun, hringIn, hshiftIn, ?_, hringRun, hshiftWindow⟩
  intro k
  have hsame : shift.tempLog.toList = ringWindow ring := hshiftWindow.trans hringRun.symm
  have hk : k.val < (ringWindow ring).length := by
    rw [← hsame, Vector.length_toList]
    exact k.isLt
  rw [← getElem_ringWindow ring k.val hk]
  simp only [← hsame, Vector.getElem_toList]
  rfl

theorem ring_shift_two_samples :
    ∃ ring shift : Log,
      recordAll [(1, 5), (1, 7)] ValidLog.zeroed.val = some ring ∧
      recordAll [(2, 5), (3, 7)] ValidLog.zeroed.val = some shift ∧
      shift.tempLog.toList = List.replicate 48 0 ++ [5, 7] ∧
      ringWindow ring = List.replicate 48 0 ++ [5, 7] := by
  obtain ⟨ring, shift, hring, hshift, _, _, _, hwindow, hcells⟩ :=
    ring_shift_same_window [(2, 5), (3, 7)] (by simp)
  exact ⟨ring, shift, hring, hshift, hcells, hwindow⟩

end OledDs18b20.Thermostat.LogWindow
