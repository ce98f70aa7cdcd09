import Mathlib
import OledDs18b20.Lib.Run

/-! A two-point controller with memory: a reading below `low` switches on, then
a reading above `high` switches off, and a toggle inverts the command. -/
namespace OledDs18b20.Lib.Hysteresis

inductive Event (α : Type*) where
  | reading (value : α)
  | toggle

section LinearOrder
variable {α : Type*} [LinearOrder α]

def regulate (low high : α) (command : Bool) (value : α) : Bool :=
  let command := if value < low then true else command
  if high < value then false else command

def step (low high : α) (command : Bool) : Event α → Bool
  | .reading value => regulate low high command value
  | .toggle => !command

/-- A toggle, or a reading outside the band. -/
def Decisive (low high : α) : Event α → Prop
  | .reading value => value < low ∨ high < value
  | .toggle => True

variable {low high : α} {command : Bool} {value : α}

theorem regulate_below (ordered : low ≤ high) (h : value < low) :
    regulate low high command value = true := by
  unfold regulate
  rw [if_pos h, if_neg (not_lt_of_gt (lt_of_lt_of_le h ordered))]

theorem regulate_above (h : high < value) :
    regulate low high command value = false := by
  unfold regulate
  rw [if_pos h]

theorem regulate_inside (hlow : low ≤ value) (hhigh : value ≤ high) :
    regulate low high command value = command := by
  unfold regulate
  rw [if_neg (not_lt_of_ge hlow), if_neg (not_lt_of_ge hhigh)]

/-- With crossed limits nothing is remembered: the second comparison decides. -/
theorem regulate_crossed (crossed : high < low) :
    regulate low high command value = true ↔ value ≤ high := by
  constructor
  · intro hon
    apply le_of_not_gt
    intro habove
    rw [regulate_above habove] at hon
    exact Bool.false_ne_true hon
  · intro hle
    unfold regulate
    rw [if_pos (lt_of_le_of_lt hle crossed), if_neg (not_lt_of_ge hle)]

theorem step_quiet {event : Event α} (h : ¬ Decisive low high event) :
    step low high command event = command := by
  cases event with
  | toggle => exact absurd trivial h
  | reading value =>
      rw [Decisive, not_or, not_lt, not_lt] at h
      exact regulate_inside h.1 h.2

theorem final_quiet {events : List (Event α)}
    (h : ∀ event ∈ events, ¬ Decisive low high event) :
    Run.final (step low high) command events = command := by
  induction events with
  | nil => rfl
  | cons event rest ih =>
      rw [List.forall_mem_cons] at h
      rw [Run.final_cons, step_quiet h.1]
      exact ih h.2

/-- The last event before a quiet stretch decides. -/
theorem final_cons_quiet {quiet : List (Event α)} (event : Event α)
    (h : ∀ later ∈ quiet, ¬ Decisive low high later) :
    Run.final (step low high) command (event :: quiet) = step low high command event := by
  rw [Run.final_cons]
  exact final_quiet h

theorem above_of_switched_off (h : regulate low high true value = false) :
    high < value := by
  apply lt_of_not_ge
  intro hle
  unfold regulate at h
  rw [if_neg (not_lt_of_ge hle), ite_self] at h
  exact Bool.false_ne_true h.symm

theorem below_of_switched_on (h : regulate low high false value = true) :
    value < low := by
  apply lt_of_not_ge
  intro hle
  unfold regulate at h
  rw [if_neg (not_lt_of_ge hle), ite_self] at h
  exact Bool.false_ne_true h

/-- Two successive switchings come from opposite sides of the band. -/
theorem opposite_sides {first second : α}
    (hfirst : regulate low high command first ≠ command)
    (hsecond : regulate low high (regulate low high command first) second ≠
      regulate low high command first) :
    (first < low ∧ high < second) ∨ (high < first ∧ second < low) := by
  cases command with
  | false =>
      have hon : regulate low high false first = true := eq_true_of_ne_false hfirst
      rw [hon] at hsecond
      exact .inl ⟨below_of_switched_on hon,
        above_of_switched_off (eq_false_of_ne_true hsecond)⟩
  | true =>
      have hoff : regulate low high true first = false := eq_false_of_ne_true hfirst
      rw [hoff] at hsecond
      exact .inr ⟨above_of_switched_off hoff,
        below_of_switched_on (eq_true_of_ne_false hsecond)⟩

end LinearOrder

end OledDs18b20.Lib.Hysteresis
