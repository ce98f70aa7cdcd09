import Mathlib

/-! Straight lines in integers: the major coordinate goes up by one each time, the minor one when
the error gets negative. -/
namespace OledDs18b20.Lib.Bresenham

/-- One turn: whether the minor coordinate moves, and the error after it. -/
def advance (dx dy err : ℤ) : Bool × ℤ :=
  if err - dy < 0 then (true, err - dy + dx) else (false, err - dy)

/-- The minor coordinate after some turns: the rounded quotient, where a half is rounded down. -/
def rise (dx dy turns : ℕ) : ℕ := (turns * dy + (dx - 1) / 2) / dx

/-- The error after some turns. -/
def error (dx dy turns : ℕ) : ℤ := (dx / 2 : ℕ) - turns * dy + rise dx dy turns * dx

variable {dx dy : ℕ}

theorem rise_zero (hdx : 0 < dx) : rise dx dy 0 = 0 := by
  unfold rise
  rw [Nat.zero_mul, Nat.zero_add]
  apply Nat.div_eq_of_lt
  omega

theorem error_zero (hdx : 0 < dx) : error dx dy 0 = (dx / 2 : ℕ) := by
  unfold error
  rw [rise_zero hdx]
  simp

theorem rise_last (hdx : 0 < dx) : rise dx dy dx = dy := by
  unfold rise
  rw [Nat.mul_add_div hdx]
  have hsmall : (dx - 1) / 2 / dx = 0 := Nat.div_eq_of_lt (by omega)
  rw [hsmall, Nat.add_zero]

theorem rise_mono (dx dy : ℕ) : Monotone (rise dx dy) := fun _ _ h =>
  Nat.div_le_div_right (Nat.add_le_add_right (Nat.mul_le_mul_right dy h) _)

/-- The error is what the remainder leaves of the divisor. -/
theorem error_eq (hdx : 0 < dx) (turns : ℕ) :
    error dx dy turns = dx - 1 - ((turns * dy + (dx - 1) / 2) % dx : ℕ) := by
  have hdiv : (dx : ℤ) * rise dx dy turns + ((turns * dy + (dx - 1) / 2) % dx : ℕ) =
      turns * dy + ((dx - 1) / 2 : ℕ) := by
    exact_mod_cast Nat.div_add_mod (turns * dy + (dx - 1) / 2) dx
  have hhalves : ((dx / 2 : ℕ) : ℤ) + ((dx - 1) / 2 : ℕ) = dx - 1 := by omega
  unfold error
  linarith

theorem error_nonneg (hdx : 0 < dx) (turns : ℕ) : 0 ≤ error dx dy turns := by
  have hmod := Nat.mod_lt (turns * dy + (dx - 1) / 2) hdx
  rw [error_eq hdx]
  omega

theorem error_lt (hdx : 0 < dx) (turns : ℕ) : error dx dy turns < dx := by
  rw [error_eq hdx]
  omega

theorem rise_succ (hdx : 0 < dx) (hdy : dy ≤ dx) (turns : ℕ) :
    rise dx dy (turns + 1) = rise dx dy turns + if error dx dy turns - dy < 0 then 1 else 0 := by
  have hmod := Nat.mod_lt (turns * dy + (dx - 1) / 2) hdx
  have hdiv := Nat.div_add_mod (turns * dy + (dx - 1) / 2) dx
  have hnext : (turns + 1) * dy + (dx - 1) / 2 =
      (turns * dy + (dx - 1) / 2) % dx + dy + dx * rise dx dy turns := by
    rw [rise, Nat.add_mul, Nat.one_mul]
    omega
  have hstep : rise dx dy (turns + 1) =
      ((turns * dy + (dx - 1) / 2) % dx + dy) / dx + rise dx dy turns := by
    conv_lhs => rw [rise, hnext, Nat.add_mul_div_left _ _ hdx]
  rw [hstep, error_eq hdx, Nat.add_comm]
  congr 1
  split_ifs with hover
  · apply Nat.div_eq_of_lt_le <;> omega
  · apply Nat.div_eq_of_lt
    omega

/-- A turn finds the next minor coordinate and the next error. -/
theorem advance_error (hdx : 0 < dx) (hdy : dy ≤ dx) (turns : ℕ) :
    advance dx dy (error dx dy turns) =
      (decide (error dx dy turns - dy < 0), error dx dy (turns + 1)) := by
  have hnext : error dx dy (turns + 1) = error dx dy turns - dy +
      if error dx dy turns - dy < 0 then (dx : ℤ) else 0 := by
    conv_lhs => rw [error, rise_succ hdx hdy]
    unfold error
    split_ifs <;> push_cast <;> ring
  rw [hnext, advance]
  split_ifs with hover <;> simp [hover]

/-- A dot is nowhere more than half a place off the line. -/
theorem rise_near (hdx : 0 < dx) (turns : ℕ) :
    |2 * ((rise dx dy turns : ℤ) * dx - turns * dy)| ≤ dx := by
  have hlow : 0 ≤ error dx dy turns := error_nonneg hdx turns
  have hhigh : error dx dy turns < dx := error_lt hdx turns
  unfold error at hlow hhigh
  rw [abs_le]
  omega

/-! What a line is, as dots of the plane. -/

/-- The greater of the distances along the axes. -/
def reach (a b : ℤ × ℤ) : ℤ := max |b.1 - a.1| |b.2 - a.2|

/-- Twice the area of a triangle, which tells how far a place is off the line. -/
def cross (a b place : ℤ × ℤ) : ℤ :=
  (place.1 - a.1) * (b.2 - a.2) - (place.2 - a.2) * (b.1 - a.1)

/-- A line without gaps from one place to another, and nowhere more than half a place off. -/
structure Straight (a b : ℤ × ℤ) (dots : List (ℤ × ℤ)) : Prop where
  length : (dots.length : ℤ) = reach a b + 1
  head : dots.head? = some a
  last : dots.getLast? = some b
  near : ∀ place ∈ dots, |2 * cross a b place| ≤ reach a b
  adjacent : dots.IsChain fun place next => reach place next = 1

theorem reach_swap (a b : ℤ × ℤ) : reach a.swap b.swap = reach a b := max_comm _ _

theorem Straight.swap {a b : ℤ × ℤ} {dots : List (ℤ × ℤ)} (h : Straight a b dots) :
    Straight a.swap b.swap (dots.map Prod.swap) where
  length := by rw [List.length_map, reach_swap, h.length]
  head := by rw [List.head?_map, h.head]; rfl
  last := by rw [List.getLast?_map, h.last]; rfl
  near := by
    intro place hplace
    obtain ⟨other, hother, rfl⟩ := List.mem_map.mp hplace
    have hcross : cross a.swap b.swap other.swap = -cross a b other := by
      simp only [cross, Prod.fst_swap, Prod.snd_swap]
      ring
    rw [hcross, reach_swap, mul_neg, abs_neg]
    exact h.near other hother
  adjacent := by
    rw [List.isChain_map]
    exact h.adjacent.imp fun place next hnext => (reach_swap place next).trans hnext

/-- The dots of a line to the right. -/
def rightward (dx dy : ℕ) (slope x y : ℤ) : List (ℤ × ℤ) :=
  (List.range (dx + 1)).map fun turns : ℕ => (x + turns, y + slope * rise dx dy turns)

theorem reach_right (hdy : dy ≤ dx) {slope : ℤ} (hslope : |slope| = 1) (x y : ℤ) :
    reach (x, y) (x + dx, y + slope * dy) = dx := by
  simp only [reach, add_sub_cancel_left, abs_mul, hslope, one_mul, Nat.abs_cast]
  omega

theorem straight_rightward (hdx : 0 < dx) (hdy : dy ≤ dx) {slope : ℤ} (hslope : |slope| = 1)
    (x y : ℤ) :
    Straight (x, y) (x + dx, y + slope * dy) (rightward dx dy slope x y) where
  length := by
    rw [reach_right hdy hslope, rightward, List.length_map, List.length_range]
    push_cast
    rfl
  head := by
    rw [rightward, List.range_succ_eq_map, List.map_cons, List.head?_cons, rise_zero hdx]
    simp
  last := by
    rw [rightward, List.range_succ, List.map_append, List.map_singleton, List.getLast?_concat,
      rise_last hdx]
  near := by
    intro place hplace
    obtain ⟨turns, -, rfl⟩ := List.mem_map.mp hplace
    have hcross : cross (x, y) (x + dx, y + slope * dy) (x + turns, y + slope * rise dx dy turns) =
        slope * -((rise dx dy turns : ℤ) * dx - turns * dy) := by
      simp only [cross]
      ring
    rw [reach_right hdy hslope, hcross, mul_left_comm, abs_mul, hslope, one_mul, mul_neg, abs_neg]
    exact rise_near hdx turns
  adjacent := by
    rw [rightward, List.isChain_map, List.isChain_range_succ]
    intro turns _
    have hminor : rise dx dy turns.succ = rise dx dy turns ∨
        rise dx dy turns.succ = rise dx dy turns + 1 := by
      rw [rise_succ hdx hdy]
      split_ifs <;> simp
    rcases hminor with hsame | hmoved
    · simp [reach, hsame]
    · simp [reach, hmoved, mul_add, hslope]

end OledDs18b20.Lib.Bresenham
