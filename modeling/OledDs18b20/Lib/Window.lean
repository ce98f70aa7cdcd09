import Mathlib

/-! A window over a stream of samples: the newest sample enters at the end and
the oldest one leaves. A ring with a moving index and an array shifted in place
both hold such a window. -/
namespace OledDs18b20.Lib.Window

variable {α : Type*} {n : ℕ}

def push (window : List α) (sample : α) : List α :=
  (window ++ [sample]).tail

@[simp] theorem push_length (window : List α) (sample : α) :
    (push window sample).length = window.length := by
  simp [push]

theorem getElem_push (window : List α) (sample : α) (k : ℕ)
    (hk : k < (push window sample).length) :
    (push window sample)[k] =
      if h : k + 1 < window.length then window[k + 1] else sample := by
  simp only [push, List.getElem_tail]
  split
  · rename_i h
    exact List.getElem_append_left h
  · rename_i h
    rw [push_length] at hk
    have hlast : k + 1 = window.length := by omega
    simp [hlast]

/-- A run of samples leaves the last ones of the old window and the samples. -/
theorem foldl_push (window samples : List α) :
    samples.foldl push window = (window ++ samples).drop samples.length := by
  induction samples generalizing window with
  | nil => simp
  | cons sample rest ih =>
      have hne : window ++ [sample] ≠ [] := by simp
      calc
        (sample :: rest).foldl push window
            = (push window sample ++ rest).drop rest.length := ih _
        _ = (window ++ [sample] ++ rest).tail.drop rest.length := by
            rw [push, List.tail_append_of_ne_nil hne]
        _ = (window ++ sample :: rest).drop (sample :: rest).length := by
            rw [← List.drop_one, List.drop_drop, List.length_cons, List.append_assoc,
              Nat.add_comm]
            rfl

/-- A push that changes nothing pushes what the window is full of. -/
theorem push_eq_self_iff (window : List α) (sample : α) :
    push window sample = window ↔ ∀ held ∈ window, held = sample := by
  induction window with
  | nil => simp [push]
  | cons first rest ih =>
      cases rest with
      | nil => simp [push, eq_comm]
      | cons second rest =>
          rw [push, List.cons_append, List.tail_cons] at ih ⊢
          rw [List.cons_append, List.cons.injEq, List.forall_mem_cons]
          constructor
          · rintro ⟨rfl, hrest⟩
            have hall := ih.mp hrest
            exact ⟨hall _ List.mem_cons_self, hall⟩
          · rintro ⟨rfl, hall⟩
            exact ⟨hall _ List.mem_cons_self, ih.mpr hall⟩

/-! The ring: `newest` is the cell written last, so the oldest sample is in the
cell after it. -/

def ringView (cells : Vector α n) (newest : ℕ) : List α :=
  List.ofFn fun k : Fin n =>
    have h : (newest + 1 + k.val) % n < n := Nat.mod_lt _ k.pos
    cells[(newest + 1 + k.val) % n]

@[simp] theorem ringView_length (cells : Vector α n) (newest : ℕ) :
    (ringView cells newest).length = n := by
  simp [ringView]

theorem getElem_ringView (cells : Vector α n) (newest k : ℕ)
    (hk : k < (ringView cells newest).length) (h : (newest + 1 + k) % n < n) :
    (ringView cells newest)[k] = cells[(newest + 1 + k) % n] := by
  simp [ringView]

@[simp] theorem ringView_replicate (value : α) (newest : ℕ) :
    ringView (Vector.replicate n value) newest = List.replicate n value := by
  apply List.ext_getElem
  · simp
  · intro k hk _
    simp [ringView]

theorem advance_mod_eq_iff (newest k : ℕ) (hk : k < n) :
    ((newest + 1) % n + 1 + k) % n = (newest + 1) % n ↔ k + 1 = n := by
  have hlt : (newest + 1) % n < n := Nat.mod_lt _ (by omega)
  generalize (newest + 1) % n = place at hlt
  constructor
  · intro heq
    by_contra hne
    by_cases hwrap : place + 1 + k < n
    · rw [Nat.mod_eq_of_lt hwrap] at heq
      omega
    · rw [Nat.mod_eq_sub_mod (by omega), Nat.mod_eq_of_lt (by omega)] at heq
      omega
  · intro heq
    have hsum : place + 1 + k = place + n := by omega
    rw [hsum, Nat.add_mod_right, Nat.mod_eq_of_lt hlt]

/-- Writing the cell after the newest one pushes the sample into the window. -/
theorem ringView_set (cells : Vector α n) (newest : ℕ) (sample : α)
    (h : (newest + 1) % n < n) :
    ringView (cells.set ((newest + 1) % n) sample h) ((newest + 1) % n) =
      push (ringView cells newest) sample := by
  apply List.ext_getElem
  · simp
  · intro k hk _
    rw [ringView_length] at hk
    have hpos : 0 < n := by omega
    rw [getElem_ringView _ _ _ _ (Nat.mod_lt _ hpos), getElem_push, Vector.getElem_set]
    simp only [ringView_length]
    have hnext : ((newest + 1) % n + 1 + k) % n = (newest + 1 + (k + 1)) % n := by
      rw [Nat.add_assoc, Nat.mod_add_mod, Nat.add_comm 1 k]
    by_cases hlast : k + 1 = n
    · rw [if_pos ((advance_mod_eq_iff newest k hk).mpr hlast).symm, dif_neg (by omega)]
    · have hother := mt (advance_mod_eq_iff newest k hk).mp hlast
      rw [if_neg (Ne.symm hother), dif_pos (by omega),
        getElem_ringView _ _ _ _ (Nat.mod_lt _ hpos)]
      simp only [hnext]

/-! The shift: the cells move down by one place, one after the other, each read
before it is overwritten. -/

def shiftDown (cells : Vector α n) : (moved : ℕ) → moved < n → Vector α n
  | 0, _ => cells
  | moved + 1, h =>
      let earlier := shiftDown cells moved (Nat.lt_of_succ_lt h)
      earlier.set moved earlier[moved + 1] (Nat.lt_of_succ_lt h)

theorem getElem_shiftDown (cells : Vector α n) (moved : ℕ) (h : moved < n) (k : ℕ)
    (hk : k < n) :
    (shiftDown cells moved h)[k] =
      if hlow : k < moved then cells[k + 1] else cells[k] := by
  induction moved generalizing k with
  | zero => simp [shiftDown]
  | succ moved ih =>
      simp only [shiftDown, Vector.getElem_set]
      by_cases heq : moved = k
      · subst heq
        rw [if_pos rfl, ih (Nat.lt_of_succ_lt h) (moved + 1) h, dif_neg (by omega),
          dif_pos (by omega)]
      · rw [if_neg heq, ih (Nat.lt_of_succ_lt h) k hk]
        by_cases hlow : k < moved
        · rw [dif_pos hlow, dif_pos (by omega)]
        · rw [dif_neg hlow, dif_neg (by omega)]

/-- Shifting all cells and writing the last one pushes the sample. -/
theorem toList_shiftDown_set (cells : Vector α (n + 1)) (sample : α) :
    ((shiftDown cells n n.lt_succ_self).set n sample).toList =
      push cells.toList sample := by
  apply List.ext_getElem
  · simp
  · intro k hk _
    rw [Vector.length_toList] at hk
    rw [getElem_push, Vector.getElem_toList, Vector.getElem_set]
    by_cases hlast : n = k
    · rw [if_pos hlast, dif_neg (by simp; omega)]
    · rw [if_neg hlast, getElem_shiftDown, dif_pos (by omega), dif_pos (by simp; omega),
        Vector.getElem_toList]

end OledDs18b20.Lib.Window
