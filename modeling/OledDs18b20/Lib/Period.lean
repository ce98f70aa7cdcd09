import Mathlib

/-! Sequences of passes of which one in every `period` is marked, and the
counter that marks them. -/
namespace OledDs18b20.Lib.Period

/-- The first mark is among the first `period` passes, and from there on marks
are exactly `period` passes apart. -/
def Periodic (period : ℕ) (marks : List Bool) : Prop :=
  ∃ first < period, ∀ (place : ℕ) (h : place < marks.length),
    marks[place] = true ↔ place % period = first

/-- The counter counts up to `period - 1` and starts again. -/
def tick (period count : ℕ) : ℕ := if count + 1 = period then 0 else count + 1

def ticks (period : ℕ) : ℕ → ℕ → List Bool
  | _, 0 => []
  | count, passes + 1 => decide (count + 1 = period) :: ticks period (tick period count) passes

variable {period count : ℕ}

theorem tick_lt (h : count < period) : tick period count < period := by
  unfold tick
  split_ifs
  · exact Nat.zero_lt_of_lt h
  · omega

theorem tick_eq_mod (h : count < period) : tick period count = (count + 1) % period := by
  unfold tick
  split_ifs with hlast
  · rw [hlast, Nat.mod_self]
  · rw [Nat.mod_eq_of_lt (by omega)]

theorem getElem_ticks (h : count < period) (passes place : ℕ)
    (hplace : place < (ticks period count passes).length) :
    (ticks period count passes)[place] = true ↔ (count + place + 1) % period = 0 := by
  induction passes generalizing count place with
  | zero => exact absurd hplace (Nat.not_lt_zero place)
  | succ passes ih =>
      cases place with
      | zero =>
          simp only [ticks, List.getElem_cons_zero, decide_eq_true_eq, Nat.add_zero]
          constructor
          · intro hlast
            rw [hlast, Nat.mod_self]
          · intro hzero
            by_contra hne
            rw [Nat.mod_eq_of_lt (by omega)] at hzero
            omega
      | succ place =>
          simp only [ticks, List.getElem_cons_succ]
          have hsum : count + 1 + (place + 1) = count + (place + 1) + 1 := by omega
          rw [ih (tick_lt h), tick_eq_mod h, Nat.add_assoc, Nat.mod_add_mod, hsum]

theorem add_mod_eq_zero_iff (h : count < period) (place : ℕ) :
    (count + place + 1) % period = 0 ↔ place % period = period - 1 - count := by
  have hlt : place % period < period := Nat.mod_lt _ (by omega)
  have hmod : (count + place + 1) % period = (count + 1 + place % period) % period := by
    rw [Nat.add_mod_mod, Nat.add_right_comm]
  rw [hmod]
  generalize place % period = rest at hlt
  by_cases hbelow : count + 1 + rest < period
  · rw [Nat.mod_eq_of_lt hbelow]
    omega
  · rw [Nat.mod_eq_sub_mod (by omega), Nat.mod_eq_of_lt (by omega)]
    omega

theorem ticks_periodic (h : count < period) (passes : ℕ) :
    Periodic period (ticks period count passes) := by
  refine ⟨period - 1 - count, by omega, ?_⟩
  intro place hplace
  rw [getElem_ticks h, add_mod_eq_zero_iff h]

/-- Without a mark among the first `period` passes nothing is periodic. -/
theorem not_periodic {marks : List Bool} (hlong : period ≤ marks.length)
    (hsilent : ∀ (place : ℕ) (h : place < marks.length), place < period → marks[place] = false) :
    ¬ Periodic period marks := by
  rintro ⟨first, hfirst, hmarks⟩
  have hplace : first < marks.length := by omega
  have hmarked := (hmarks first hplace).mpr (Nat.mod_eq_of_lt hfirst)
  rw [hsilent first hplace hfirst] at hmarked
  exact Bool.false_ne_true hmarked

/-- Passes without a mark are periodic while they are fewer than `period`. -/
theorem periodic_of_silent {marks : List Bool} (hshort : marks.length < period)
    (hsilent : ∀ (place : ℕ) (h : place < marks.length), marks[place] = false) :
    Periodic period marks := by
  refine ⟨period - 1, by omega, ?_⟩
  intro place hplace
  rw [hsilent place hplace, Nat.mod_eq_of_lt (by omega)]
  exact iff_of_false Bool.false_ne_true (by omega)

end OledDs18b20.Lib.Period
