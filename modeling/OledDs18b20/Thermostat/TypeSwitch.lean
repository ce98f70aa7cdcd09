import OledDs18b20.Lib.Eviction
import OledDs18b20.Lib.Run
import OledDs18b20.Thermostat.LogWindow

/-! Samples recorded while `Params[2]` changes between them. The ring and the shift share
`TempLog`, and only the ring moves `TempLogIndex`. -/
namespace OledDs18b20.Thermostat.TypeSwitch
open Lib Log LogWindow

def Records (graphType : Int8) : Prop := graphType = 1 ∨ graphType = 2 ∨ graphType = 3

instance : DecidablePred Records := fun _ => inferInstanceAs (Decidable (_ ∨ _))

/-- The log with the samples recorded so far. -/
structure Traced where
  log : ValidLog
  recorded : List Int16

namespace Traced

def zeroed : Traced := ⟨ValidLog.zeroed, []⟩

def record (traced : Traced) (sample : Int8 × Int16) : Traced where
  log := traced.log.record sample.1 sample.2
  recorded :=
    if Records sample.1 then traced.recorded ++ [sample.2] else traced.recorded

def cells (traced : Traced) : List Int16 := traced.log.val.tempLog.toList

/-- The last `logsize` samples are all in `TempLog`, each as often as it was recorded. -/
def HoldsRecent (traced : Traced) : Prop :=
  (Eviction.recent logsize traced.recorded).Subperm traced.cells

instance : DecidablePred HoldsRecent := fun traced =>
  inferInstanceAs (Decidable (List.Subperm _ traced.cells))

end Traced

/-- What the next sample is recorded over: the ring writes the cell after `TempLogIndex`,
the shift drops the first cell. -/
def overwritten (graphType : Int8) (log : Log) : Option Int16 :=
  if graphType = 1 then load? log.tempLog (nextIndex log.tempLogIndex)
  else load? log.tempLog 0

/-- If a sample is recorded, it is recorded over the one recorded `logsize` samples before
it, or over a zero while there is none. -/
def OverOldest (traced : Traced) (sample : Int8 × Int16) : Prop :=
  Records sample.1 →
    overwritten sample.1 traced.log.val = (lastSamples traced.recorded).head?

/-- If a sample is recorded, no recent one is lost. -/
def KeepsRecent (traced : Traced) (sample : Int8 × Int16) : Prop :=
  Records sample.1 → (traced.record sample).HoldsRecent

instance (traced : Traced) : DecidablePred (KeepsRecent traced) := fun _ =>
  inferInstanceAs (Decidable (_ → _))

theorem load?_zero (tempLog : TempLog) : load? tempLog 0 = tempLog.toList.head? := by
  have hlt : 0 < tempLog.toList.length := by
    rw [Vector.length_toList]
    decide
  rw [List.head?_eq_getElem?, List.getElem?_eq_getElem hlt, Vector.getElem_toList]
  exact @load?_eq tempLog 0 0 (by decide) rfl (by decide)

theorem load?_nextIndex {log : Log} (h : log.InBounds) :
    load? log.tempLog (nextIndex log.tempLogIndex) = (ringWindow log).head? := by
  have hlt : (log.tempLogIndex.toNatClampNeg + 1) % logsize < logsize :=
    Nat.mod_lt _ (by decide)
  have hlength : 0 < (ringWindow log).length := by
    rw [ringWindow, Window.ringView_length]
    decide
  rw [List.head?_eq_getElem?, List.getElem?_eq_getElem hlength, getElem_ringWindow]
  exact load?_eq (nextIndex_bounds h).1 (nextIndex_toNatClampNeg h) hlt

theorem ring_replaces (value : Int16) {log recorded : Log} (h : log.InBounds)
    (hrecord : recordRing value log = some recorded) :
    ∃ evicted, load? log.tempLog (nextIndex log.tempLogIndex) = some evicted ∧
      (evicted :: recorded.tempLog.toList).Perm (value :: log.tempLog.toList) := by
  obtain ⟨hlt, hring⟩ := recordRing_eq value h
  obtain rfl := Option.some.inj (hring.symm.trans hrecord)
  refine ⟨_, load?_eq (nextIndex_bounds h).1 (nextIndex_toNatClampNeg h) hlt, ?_⟩
  have hreplaced := List.getD_set_perm_cons log.tempLog.toList
    ((log.tempLogIndex.toNatClampNeg + 1) % logsize) value
  rw [Vector.toList_set]
  simpa [hlt] using hreplaced

theorem shift_replaces (value : Int16) {log recorded : Log} (h : log.InBounds)
    (hrecord : recordShift value log = some recorded) :
    ∃ evicted, load? log.tempLog 0 = some evicted ∧
      (evicted :: recorded.tempLog.toList).Perm (value :: log.tempLog.toList) := by
  obtain ⟨shifted, hshift, -, hwindow⟩ := recordShift_window value h
  obtain rfl := Option.some.inj (hshift.symm.trans hrecord)
  have hlength : 0 < log.tempLog.toList.length := by
    rw [Vector.length_toList]
    decide
  obtain ⟨first, rest, hcells⟩ := List.exists_cons_of_length_pos hlength
  refine ⟨first, ?_, ?_⟩
  · rw [load?_zero, hcells, List.head?_cons]
  · rw [hwindow, hcells, Window.push, List.cons_append, List.tail_cons]
    exact ((List.perm_append_singleton value rest).cons first).trans
      (List.Perm.swap value first rest)

theorem record_replaces {graphType : Int8} (value : Int16) (log : ValidLog)
    (h : Records graphType) :
    ∃ evicted, overwritten graphType log.val = some evicted ∧
      (evicted :: (log.record graphType value).val.tempLog.toList).Perm
        (value :: log.val.tempLog.toList) := by
  have hrecord := ValidLog.record_val graphType value log
  unfold overwritten
  rcases h with rfl | hshift
  · rw [record_ring] at hrecord
    exact ring_replaces value log.property hrecord
  · rw [record_shift value log.val hshift] at hrecord
    rw [if_neg (by rcases hshift with rfl | rfl <;> decide)]
    exact shift_replaces value log.property hrecord

/-- In some order, the cells are the window of the recorded samples. -/
def HoldsWindow (traced : Traced) : Prop := traced.cells.Perm (lastSamples traced.recorded)

theorem keepsRecent_iff {traced : Traced} (sample : Int8 × Int16)
    (hheld : HoldsWindow traced) : KeepsRecent traced sample ↔ OverOldest traced sample := by
  refine forall_congr' fun h => ?_
  obtain ⟨evicted, hover, hreplaced⟩ := record_replaces sample.2 traced.log h
  rw [Traced.HoldsRecent, hover, eq_comm, Traced.record, if_pos h]
  exact Eviction.recent_subperm_iff (by decide) hheld hreplaced

theorem holdsWindow_record {traced : Traced} {sample : Int8 × Int16}
    (hheld : HoldsWindow traced) (hover : OverOldest traced sample) :
    HoldsWindow (traced.record sample) := by
  by_cases h : Records sample.1
  · obtain ⟨evicted, hevicted, hreplaced⟩ := record_replaces sample.2 traced.log h
    have holdest := (hover h).symm.trans hevicted
    rw [HoldsWindow, Traced.record, if_pos h]
    exact Eviction.perm_window_concat hheld hreplaced holdest
  · have hother : sample.1 ≠ 1 ∧ sample.1 ≠ 2 ∧ sample.1 ≠ 3 := by
      simpa only [Records, not_or] using h
    rw [Traced.record, if_neg h, ValidLog.record_other sample.2 traced.log hother]
    exact hheld

theorem run_keepsRecent_iff {traced : Traced} (samples : List (Int8 × Int16))
    (hheld : HoldsWindow traced) :
    (∀ visit ∈ Run.visits Traced.record traced samples, KeepsRecent visit.1 visit.2) ↔
      ∀ visit ∈ Run.visits Traced.record traced samples, OverOldest visit.1 visit.2 := by
  refine Run.forall_visits_iff samples (fun _ sample => keepsRecent_iff sample) ?_ hheld
  intro traced sample hheld hkept
  exact holdsWindow_record hheld ((keepsRecent_iff sample hheld).mp hkept)

theorem zeroed_holdsWindow : HoldsWindow Traced.zeroed := List.Perm.refl _

/-- In every run from the zeroed log the recent samples are in `TempLog` after each
recording exactly when each recording is made over the oldest sample. -/
theorem no_sample_lost_iff (samples : List (Int8 × Int16)) :
    (∀ visit ∈ Run.visits Traced.record Traced.zeroed samples, KeepsRecent visit.1 visit.2) ↔
      ∀ visit ∈ Run.visits Traced.record Traced.zeroed samples, OverOldest visit.1 visit.2 :=
  run_keepsRecent_iff samples zeroed_holdsWindow

/-- One sample in the ring, then two in the shifted array: the second shift drops the
first of the three. -/
theorem shift_drops_ring_sample :
    ¬ ∀ visit ∈ Run.visits Traced.record Traced.zeroed [(1, 231), (2, 232), (2, 233)],
      KeepsRecent visit.1 visit.2 := by
  decide +kernel

/-! A schedule that loses nothing: ring and shift take turns only while the newest sample
of the ring is in the last cell. -/

/-- The cells from the oldest to the newest, as the graph type keeps them. -/
def view (graphType : Int8) (log : Log) : List Int16 :=
  if graphType = 1 then ringWindow log else log.tempLog.toList

/-- After a sample of the given type, the samples stay on its side or change sides there. -/
def SwitchesAtEnd : Int8 → Traced → List (Int8 × Int16) → Prop
  | _, _, [] => True
  | graphType, traced, sample :: rest =>
      ((graphType = 1 ↔ sample.1 = 1) ∨
        traced.log.val.tempLogIndex = Int8.ofNat (logsize - 1)) ∧
      SwitchesAtEnd sample.1 (traced.record sample) rest

theorem overwritten_eq_head (graphType : Int8) {log : Log} (h : log.InBounds) :
    overwritten graphType log = (view graphType log).head? := by
  unfold overwritten view
  split
  · exact load?_nextIndex h
  · exact load?_zero log.tempLog

theorem view_record {graphType : Int8} (value : Int16) (log : ValidLog)
    (h : Records graphType) :
    view graphType (log.record graphType value).val =
      Window.push (view graphType log.val) value := by
  have hrecord := ValidLog.record_val graphType value log
  unfold view
  rcases h with rfl | hshift
  · rw [record_ring] at hrecord
    obtain ⟨recorded, hring, -, hwindow⟩ := recordRing_window value log.property
    obtain rfl := Option.some.inj (hring.symm.trans hrecord)
    exact hwindow
  · rw [record_shift value log.val hshift] at hrecord
    have hother : graphType ≠ 1 := by rcases hshift with rfl | rfl <;> decide
    obtain ⟨recorded, hrun, -, hwindow⟩ := recordShift_window value log.property
    obtain rfl := Option.some.inj (hrun.symm.trans hrecord)
    rw [if_neg hother, if_neg hother]
    exact hwindow

/-- With the newest sample in the last cell the ring is in the order of the cells. -/
theorem view_at_end (graphType : Int8) {log : Log}
    (h : log.tempLogIndex = Int8.ofNat (logsize - 1)) :
    view graphType log = log.tempLog.toList := by
  unfold view
  split
  · apply List.ext_getElem
    · rw [ringWindow, Window.ringView_length, Vector.length_toList]
    · intro k hk _
      have hlast : log.tempLogIndex.toNatClampNeg = logsize - 1 := by
        rw [h]
        rfl
      have hcell : (log.tempLogIndex.toNatClampNeg + 1 + k) % logsize = k := by
        rw [ringWindow, Window.ringView_length] at hk
        rw [hlast, Nat.sub_add_cancel (by decide), Nat.add_mod_left, Nat.mod_eq_of_lt hk]
      rw [getElem_ringWindow, Vector.getElem_toList]
      simp only [hcell]
      rfl
  · rfl

theorem switchesAtEnd_overOldest {graphType : Int8} {traced : Traced}
    {samples : List (Int8 × Int16)} (hrecords : ∀ sample ∈ samples, Records sample.1)
    (hview : view graphType traced.log.val = lastSamples traced.recorded)
    (h : SwitchesAtEnd graphType traced samples) :
    ∀ visit ∈ Run.visits Traced.record traced samples, OverOldest visit.1 visit.2 := by
  induction samples generalizing graphType traced with
  | nil => simp
  | cons sample rest ih =>
      rw [List.forall_mem_cons] at hrecords
      have hsample : view sample.1 traced.log.val = lastSamples traced.recorded := by
        rcases h.1 with hsame | hend
        · simp only [view, ← hsame]
          exact hview
        · rw [view_at_end _ hend, ← view_at_end graphType hend]
          exact hview
      have hnext : view sample.1 (traced.record sample).log.val =
          lastSamples (traced.record sample).recorded := by
        rw [Traced.record, if_pos hrecords.1, view_record sample.2 traced.log hrecords.1, hsample]
        exact (Eviction.window_concat _ _ _ _).symm
      rw [Run.visits_cons, List.forall_mem_cons]
      refine ⟨fun _ => ?_, ih hrecords.2 hnext h.2⟩
      rw [overwritten_eq_head sample.1 traced.log.property, hsample]

/-- Runs from the zeroed log that change sides only there keep every recent sample. -/
theorem switchesAtEnd_keepsRecent (graphType : Int8) (samples : List (Int8 × Int16))
    (hrecords : ∀ sample ∈ samples, Records sample.1)
    (h : SwitchesAtEnd graphType Traced.zeroed samples) :
    ∀ visit ∈ Run.visits Traced.record Traced.zeroed samples, KeepsRecent visit.1 visit.2 := by
  have hstart : view graphType Traced.zeroed.log.val = lastSamples Traced.zeroed.recorded := by
    unfold view
    split
    · exact ringWindow_zeroed
    · rfl
  exact (run_keepsRecent_iff samples zeroed_holdsWindow).mpr
    (switchesAtEnd_overOldest hrecords hstart h)

end OledDs18b20.Thermostat.TypeSwitch
