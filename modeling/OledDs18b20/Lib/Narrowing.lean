import Mathlib

/-! Integers narrowed to a signed word of `2 * half` values. A falling sequence that is
narrowed and then clamped keeps falling exactly while it stays on one turn of the word. -/
namespace OledDs18b20.Lib.Narrowing

variable {half : ℕ} {value step low high first last : ℤ}

/-- How often the word has turned over at the value. -/
def turn (half : ℕ) (value : ℤ) : ℤ := (value + half) / (2 * half)

theorem turn_eq_iff (hhalf : 0 < half) {count : ℤ} :
    turn half value = count ↔
      -half ≤ value - 2 * half * count ∧ value - 2 * half * count < half := by
  have hwidth : (0 : ℤ) < 2 * half := by omega
  have hnext : (count + 1) * (2 * half) = 2 * half * count + 2 * half := by ring
  rw [turn, le_antisymm_iff, ← Int.lt_add_one_iff, Int.ediv_lt_iff_lt_mul hwidth,
    Int.le_ediv_iff_mul_le hwidth, hnext, mul_comm count]
  constructor
  · rintro ⟨hlt, hle⟩
    constructor <;> linarith
  · rintro ⟨hle, hlt⟩
    constructor <;> linarith

theorem turn_bounds (hhalf : 0 < half) (value : ℤ) :
    -half ≤ value - 2 * half * turn half value ∧ value - 2 * half * turn half value < half :=
  (turn_eq_iff hhalf).mp rfl

theorem turn_mono (hhalf : 0 < half) : Monotone (turn half) := by
  intro low high hle
  exact Int.ediv_le_ediv (by omega) (by omega)

theorem bmod_eq (hhalf : 0 < half) (value : ℤ) :
    value.bmod (2 * half) = value - 2 * half * turn half value := by
  obtain ⟨hlow, hhigh⟩ := turn_bounds hhalf value
  have hturns : (2 * half : ℤ) ∣ value - 2 * half * turn half value - value :=
    ⟨-turn half value, by ring⟩
  rw [Int.bmod_eq_iff (by omega)]
  push_cast
  exact ⟨by omega, by omega, hturns⟩

/-- Where the word turns over, a falling value goes from the low end to the high end. -/
theorem bmod_across (hhalf : 0 < half) (hstep : 0 ≤ step) (hsmall : step ≤ half)
    (hturn : turn half value ≠ turn half (value - step)) :
    value.bmod (2 * half) < -half + step ∧ half - step ≤ (value - step).bmod (2 * half) := by
  obtain ⟨hlow, hhigh⟩ := turn_bounds hhalf value
  have hbelow : value.bmod (2 * half) < -half + step := by
    rw [bmod_eq hhalf]
    by_contra hstay
    refine hturn (Eq.symm ((turn_eq_iff hhalf).mpr ⟨?_, ?_⟩))
    all_goals linarith
  refine ⟨hbelow, ?_⟩
  rw [bmod_eq hhalf] at hbelow
  have hone : 2 * half * (turn half value - 1) = 2 * half * turn half value - 2 * half := by
    ring
  have hprevious : turn half (value - step) = turn half value - 1 := by
    rw [turn_eq_iff hhalf, hone]
    constructor <;> linarith
  rw [bmod_eq hhalf, hprevious, hone]
  linarith

/-- A sequence with different ends changes somewhere on the way. -/
theorem exists_change {β : Type*} {f : ℤ → β} (h : first ≤ last) (hne : f first ≠ f last) :
    ∃ place, first ≤ place ∧ place < last ∧ f place ≠ f (place + 1) := by
  by_contra hsame
  push Not at hsame
  have hconstant (place : ℤ) (hfirst : first ≤ place) : place ≤ last → f first = f place := by
    induction place, hfirst using Int.leInduction with
    | base => exact fun _ => rfl
    | succ place hfirst ih =>
        intro hlast
        exact (ih (by omega)).trans (hsame place hfirst (by omega))
  exact hne (hconstant last h le_rfl)

section Falling
variable {f : ℤ → ℤ}

theorem falling_of_turn_eq (hhalf : 0 < half) (hfalls : Antitone f) {earlier later : ℤ}
    (hturn : turn half (f first) = turn half (f last)) (hfirst : first ≤ earlier)
    (hle : earlier ≤ later) (hlast : later ≤ last) :
    (f later).bmod (2 * half) ≤ (f earlier).bmod (2 * half) := by
  have hsame : turn half (f later) = turn half (f earlier) := by
    apply le_antisymm
    · exact turn_mono hhalf (hfalls hle)
    · calc
        turn half (f earlier) ≤ turn half (f first) := turn_mono hhalf (hfalls hfirst)
        _ = turn half (f last) := hturn
        _ ≤ turn half (f later) := turn_mono hhalf (hfalls hlast)
  rw [bmod_eq hhalf, bmod_eq hhalf, hsame]
  exact sub_le_sub_right (hfalls hle) _

theorem falling_clamp_iff (hhalf : 0 < half) (h : first ≤ last) (hclamp : low < high)
    (hstep : ∀ place, 0 ≤ f place - f (place + 1) ∧ f place - f (place + 1) ≤ step)
    (hlow : -half + step ≤ low) (hhigh : high ≤ half - step) :
    (∀ earlier later, first ≤ earlier → earlier ≤ later → later ≤ last →
      max low (min high ((f later).bmod (2 * half))) ≤
        max low (min high ((f earlier).bmod (2 * half)))) ↔
    turn half (f first) = turn half (f last) := by
  constructor
  · intro hclamped
    by_contra hne
    obtain ⟨place, hfirst, hlast, hturn⟩ :=
      exists_change (f := fun place => turn half (f place)) h hne
    obtain ⟨hfall, hsmall⟩ := hstep place
    have hnext : f (place + 1) = f place - (f place - f (place + 1)) := by ring
    rw [hnext] at hturn
    obtain ⟨hbelow, habove⟩ := bmod_across hhalf hfall (by omega) hturn
    have hfalls := hclamped place (place + 1) hfirst (by omega) (by omega)
    rw [← hnext] at habove
    omega
  · intro hturn earlier later hfirst hle hlast
    have hfalls : Antitone f :=
      antitone_int_of_succ_le fun place => sub_nonneg.mp (hstep place).1
    gcongr
    exact falling_of_turn_eq hhalf hfalls hturn hfirst hle hlast

end Falling

end OledDs18b20.Lib.Narrowing
