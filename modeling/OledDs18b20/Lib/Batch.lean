import Mathlib
import OledDs18b20.Lib.Run

/-! A collector of batches: it takes items until it holds `size` of them, and
with the next step shows what it holds and starts again. The item offered in
that step is not taken. -/
namespace OledDs18b20.Lib.Batch

variable {α : Type*} {size : ℕ}

abbrev FullBatch (α : Type*) (size : ℕ) := {items : List α // items.length = size}

structure Collector (α : Type*) (size : ℕ) where
  held : List α
  held_le : held.length ≤ size
  shown : Option (FullBatch α size)

namespace Collector

def empty : Collector α size := ⟨[], Nat.zero_le size, none⟩

def step (collector : Collector α size) (item : α) : Collector α size :=
  if h : collector.held.length < size then
    { collector with
      held := collector.held ++ [item]
      held_le := by rw [List.length_append]; exact h }
  else
    { held := []
      held_le := Nat.zero_le size
      shown := some ⟨collector.held, Nat.le_antisymm collector.held_le (Nat.le_of_not_lt h)⟩ }

def taken (collector : Collector α size) (item : α) : Option α :=
  if collector.held.length < size then some item else none

def emitted (collector : Collector α size) : Option (FullBatch α size) :=
  if h : collector.held.length < size then none
  else some ⟨collector.held, Nat.le_antisymm collector.held_le (Nat.le_of_not_lt h)⟩

def allTaken (collector : Collector α size) (items : List α) : List α :=
  (Run.visits step collector items).filterMap fun visit => taken visit.1 visit.2

def batches (collector : Collector α size) (items : List α) : List (FullBatch α size) :=
  (Run.visits step collector items).filterMap fun visit => emitted visit.1

section Step
variable {collector : Collector α size}

theorem step_take (item : α) (h : collector.held.length < size) :
    (step collector item).held = collector.held ++ [item] ∧
      (step collector item).shown = collector.shown := by
  unfold step
  rw [dif_pos h]
  exact ⟨rfl, rfl⟩

theorem step_emit (item : α) (h : ¬ collector.held.length < size) :
    (step collector item).held = [] ∧
      (step collector item).shown = collector.emitted := by
  unfold step emitted
  rw [dif_neg h, dif_neg h]
  exact ⟨rfl, rfl⟩

theorem allTaken_take (item : α) (rest : List α) (h : collector.held.length < size) :
    allTaken collector (item :: rest) = item :: allTaken (step collector item) rest := by
  unfold allTaken
  rw [Run.visits_cons, List.filterMap_cons, taken, if_pos h]

theorem allTaken_emit (item : α) (rest : List α) (h : ¬ collector.held.length < size) :
    allTaken collector (item :: rest) = allTaken (step collector item) rest := by
  unfold allTaken
  rw [Run.visits_cons, List.filterMap_cons, taken, if_neg h]

theorem batches_take (item : α) (rest : List α) (h : collector.held.length < size) :
    batches collector (item :: rest) = batches (step collector item) rest := by
  unfold batches
  rw [Run.visits_cons, List.filterMap_cons, emitted, dif_pos h]

theorem batches_emit (item : α) (rest : List α) (h : ¬ collector.held.length < size) :
    ∃ batch : FullBatch α size, batch.val = collector.held ∧
      collector.emitted = some batch ∧
      batches collector (item :: rest) = batch :: batches (step collector item) rest := by
  have hemitted : collector.emitted =
      some ⟨collector.held, Nat.le_antisymm collector.held_le (Nat.le_of_not_lt h)⟩ :=
    dif_neg h
  refine ⟨_, rfl, hemitted, ?_⟩
  unfold batches
  rw [Run.visits_cons, List.filterMap_cons, hemitted]

end Step

/-- Every item taken is in exactly one batch or still held, in order. -/
theorem held_append_allTaken (items : List α) (collector : Collector α size) :
    collector.held ++ allTaken collector items =
      ((batches collector items).map Subtype.val).flatten ++
        (Run.final step collector items).held := by
  induction items generalizing collector with
  | nil => simp [allTaken, batches]
  | cons item rest ih =>
      rw [Run.final_cons]
      by_cases h : collector.held.length < size
      · have hstep := ih (step collector item)
        rw [(step_take item h).1, List.append_assoc] at hstep
        rw [allTaken_take item rest h, batches_take item rest h, ← hstep]
        rfl
      · obtain ⟨batch, hval, _, hbatches⟩ := batches_emit item rest h
        have hstep := ih (step collector item)
        rw [(step_emit item h).1, List.nil_append] at hstep
        rw [allTaken_emit item rest h, hbatches, List.map_cons, List.flatten_cons,
          List.append_assoc, ← hstep, hval]

end Collector

end OledDs18b20.Lib.Batch
