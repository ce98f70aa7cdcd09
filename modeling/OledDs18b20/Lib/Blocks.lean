import Mathlib

/-! Blocks of different lengths in a row, such as years in days. Every place is in one block. -/
namespace OledDs18b20.Lib.Blocks

/-- The first place of a block. -/
def start (length : ℕ → ℕ) (block : ℕ) : ℕ := ∑ index ∈ Finset.range block, length index

/-- A place as a block and an offset into it. -/
structure Locates (length : ℕ → ℕ) (place block offset : ℕ) : Prop where
  place_eq : place = start length block + offset
  inside : offset < length block

variable {length : ℕ → ℕ}

@[simp] theorem start_zero : start length 0 = 0 := rfl

theorem start_succ (block : ℕ) : start length (block + 1) = start length block + length block :=
  Finset.sum_range_succ ..

theorem start_mono (length : ℕ → ℕ) : Monotone (start length) :=
  monotone_nat_of_le_succ fun block => by simp [start_succ]

theorem mul_le_start {least : ℕ} (h : ∀ index, least ≤ length index) (block : ℕ) :
    least * block ≤ start length block := by
  induction block with
  | zero => simp
  | succ block ih =>
      rw [start_succ, Nat.mul_succ]
      exact Nat.add_le_add ih (h block)

namespace Locates
variable {place block offset block' offset' : ℕ}

theorem lt_start (h : Locates length place block offset) :
    place < start length (block + 1) := by
  rw [h.place_eq, start_succ]
  exact Nat.add_lt_add_left h.inside _

theorem block_lt (h : Locates length place block offset) {bound : ℕ}
    (hbound : place < start length bound) : block < bound := by
  by_contra hlarge
  have hstart := start_mono length (Nat.le_of_not_lt hlarge)
  have hplace := h.place_eq
  omega

/-- No place is in two blocks. -/
theorem unique (h : Locates length place block offset)
    (h' : Locates length place block' offset') : block = block' ∧ offset = offset' := by
  have hle := Nat.le_of_lt_succ (h.block_lt h'.lt_start)
  have hge := Nat.le_of_lt_succ (h'.block_lt h.lt_start)
  obtain rfl := Nat.le_antisymm hle hge
  have hplace := h.place_eq
  have hplace' := h'.place_eq
  exact ⟨rfl, by omega⟩

end Locates

end OledDs18b20.Lib.Blocks
