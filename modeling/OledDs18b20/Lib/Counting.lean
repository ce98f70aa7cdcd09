import Mathlib

/-! Loops that count up in a machine word to a bound of any width. The loop ends exactly
when the word can hold the bound: a greater one is never reached, however long it counts. -/
namespace OledDs18b20.Lib.Counting

/-- A word that counts up by one as long as it is below its greatest value. -/
structure Counter (γ : Type*) where
  val : γ → ℤ
  next : γ → γ
  top : ℤ
  val_le : ∀ count, val count ≤ top
  val_next : ∀ count, val count < top → val (next count) = val count + 1

variable {γ β : Type*}

/-- What the passes from `count` on draw, if the bound is reached within `fuel` tests of it. -/
def loop (counter : Counter γ) (bound : ℤ) (body : γ → Option (List β)) :
    ℕ → γ → Option (List β)
  | 0, _ => none
  | fuel + 1, count =>
      if counter.val count < bound then do
        let drawn ← body count
        let rest ← loop counter bound body fuel (counter.next count)
        pure (drawn ++ rest)
      else some []

section Loop
variable {counter : Counter γ} {bound : ℤ} {body body' : γ → Option (List β)}
  {fuel fuel' : ℕ} {count : γ}

theorem loop_done (body : γ → Option (List β)) (fuel : ℕ) (h : bound ≤ counter.val count) :
    loop counter bound body (fuel + 1) count = some [] :=
  if_neg (not_lt.mpr h)

theorem loop_pass (body : γ → Option (List β)) (fuel : ℕ) (h : counter.val count < bound) :
    loop counter bound body (fuel + 1) count = (do
      let drawn ← body count
      let rest ← loop counter bound body fuel (counter.next count)
      pure (drawn ++ rest)) :=
  if_pos h

theorem loop_isSome (hbound : bound ≤ counter.top) (hbody : ∀ count, (body count).isSome)
    (hfuel : bound - counter.val count < fuel) (hpos : 0 < fuel) :
    (loop counter bound body fuel count).isSome := by
  induction fuel generalizing count with
  | zero => exact absurd hpos (Nat.lt_irrefl 0)
  | succ fuel ih =>
      rcases le_or_gt bound (counter.val count) with hdone | hpass
      · rw [loop_done body fuel hdone]
        rfl
      · have hnext := counter.val_next count (hpass.trans_le hbound)
        have hlater : (loop counter bound body fuel (counter.next count)).isSome :=
          ih (by omega) (by omega)
        obtain ⟨drawn, hdrawn⟩ := Option.isSome_iff_exists.mp (hbody count)
        obtain ⟨rest, hrest⟩ := Option.isSome_iff_exists.mp hlater
        rw [loop_pass body fuel hpass, hdrawn, hrest]
        rfl

/-- A bound above the greatest value leaves every test true. -/
theorem loop_eq_none (hbound : counter.top < bound) (body : γ → Option (List β)) (fuel : ℕ)
    (count : γ) : loop counter bound body fuel count = none := by
  induction fuel generalizing count with
  | zero => rfl
  | succ fuel ih =>
      rw [loop_pass body fuel ((counter.val_le count).trans_lt hbound), ih]
      cases body count <;> rfl

/-- A loop that ends does the same with more fuel. -/
theorem loop_stable (hbody : ∀ count drawn, body count = some drawn → body' count = some drawn)
    (hfuel : fuel ≤ fuel') {drawn : List β}
    (h : loop counter bound body fuel count = some drawn) :
    loop counter bound body' fuel' count = some drawn := by
  induction fuel generalizing fuel' count drawn with
  | zero => cases h
  | succ fuel ih =>
      obtain ⟨more, rfl⟩ : ∃ more, fuel' = more + 1 := ⟨fuel' - 1, by omega⟩
      rcases le_or_gt bound (counter.val count) with hdone | hpass
      · rw [loop_done body fuel hdone] at h
        rw [loop_done body' more hdone]
        exact h
      · rw [loop_pass body fuel hpass] at h
        obtain ⟨first, hfirst, hrest⟩ := Option.bind_eq_some_iff.mp h
        obtain ⟨rest, hrest, hdrawn⟩ := Option.bind_eq_some_iff.mp hrest
        rw [loop_pass body' more hpass, hbody count first hfirst, ih (by omega) hrest]
        exact hdrawn

end Loop

/-! The two counters of a `char` and of an `unsigned char`. -/

def int8 : Counter Int8 where
  val := Int8.toInt
  next count := count + 1
  top := 127
  val_le count := Int.le_of_lt_add_one count.toInt_lt
  val_next count h := by
    have hlow := count.le_toInt
    rw [Int8.toInt_add, Int8.toInt_one]
    exact Int.bmod_eq_of_le (by omega) (by omega)

def uint8 : Counter UInt8 where
  val count := count.toNat
  next count := count + 1
  top := 255
  val_le count := by
    have hlt := count.toNat_lt
    omega
  val_next count h := by
    rw [UInt8.toNat_add, UInt8.toNat_one, Nat.mod_eq_of_lt (by omega)]
    rfl

end OledDs18b20.Lib.Counting
