import Mathlib

/-! A shift register with feedback that is fed a word bit by bit. What it does is linear for
exclusive or: an error in a word changes the register by what it makes of the error alone. -/
namespace OledDs18b20.Lib.Register

def gated {w : ℕ} (mask : BitVec w) (bit : Bool) : BitVec w := if bit then mask else 0#w

@[simp] theorem gated_false {w : ℕ} (mask : BitVec w) : gated mask false = 0#w := rfl

@[simp] theorem gated_true {w : ℕ} (mask : BitVec w) : gated mask true = mask := rfl

theorem gated_xor {w : ℕ} (mask : BitVec w) (first second : Bool) :
    gated mask (first ^^ second) = gated mask first ^^^ gated mask second := by
  cases first <;> cases second <;> simp

section Shifts
variable {w : ℕ} (taps : BitVec w)

/-- One shift; the bit that falls out is fed back. -/
def shift (state : BitVec w) : BitVec w := (state >>> 1) ^^^ gated taps (state.getLsbD 0)

theorem shift_xor (first second : BitVec w) :
    shift taps (first ^^^ second) = shift taps first ^^^ shift taps second := by
  rw [shift, BitVec.getLsbD_xor, BitVec.ushiftRight_xor_distrib, gated_xor, shift, shift]
  ac_rfl

@[simp] theorem shift_zero : shift taps 0#w = 0#w := by simp [shift]

/-- The highest tap keeps the bit that falls out, so nothing is lost. -/
theorem shift_injective (h : taps.msb = true) : Function.Injective (shift taps) := by
  intro first second hsame
  have hzero : shift taps (first ^^^ second) = 0#w := by
    rw [shift_xor, hsame, BitVec.xor_self]
  rw [shift, BitVec.xor_eq_zero_iff] at hzero
  cases hlow : (first ^^^ second).getLsbD 0 with
  | true =>
      have hhigh := congrArg BitVec.msb hzero
      rw [hlow, gated_true, h] at hhigh
      simp [BitVec.msb_ushiftRight] at hhigh
  | false =>
      rw [hlow, gated_false] at hzero
      rw [← BitVec.xor_eq_zero_iff]
      apply BitVec.eq_of_getLsbD_eq
      intro place _
      cases place with
      | zero => rw [hlow, BitVec.getLsbD_zero]
      | succ place =>
          have hbit := congrArg (BitVec.getLsbD · place) hzero
          rw [BitVec.getLsbD_zero]
          simpa [Nat.add_comm] using hbit

theorem shifts_xor (count : ℕ) (first second : BitVec w) :
    (shift taps)^[count] (first ^^^ second) =
      (shift taps)^[count] first ^^^ (shift taps)^[count] second := by
  induction count generalizing first second with
  | zero => rfl
  | succ count ih =>
      rw [Function.iterate_succ_apply, shift_xor, ih]
      rfl

@[simp] theorem shifts_zero (count : ℕ) : (shift taps)^[count] 0#w = 0#w :=
  Function.iterate_fixed (shift_zero taps) count

/-- A single bit moves down to the end of the register. -/
theorem shifts_twoPow {place : ℕ} (h : place < w) :
    (shift taps)^[place] (BitVec.twoPow w place) = BitVec.twoPow w 0 := by
  induction place with
  | zero => rfl
  | succ place ih =>
      have hdown : shift taps (BitVec.twoPow w (place + 1)) = BitVec.twoPow w place := by
        apply BitVec.eq_of_getLsbD_eq
        intro index hindex
        simp [shift, BitVec.getLsbD_twoPow]
        grind
      rw [Function.iterate_succ_apply, hdown, ih (by omega)]

/-- Bits that do not reach the end of the register only move down. -/
theorem shifts_high {state : BitVec w} {count : ℕ}
    (h : ∀ place < count, state.getLsbD place = false) :
    (shift taps)^[count] state = state >>> count := by
  induction count with
  | zero => simp
  | succ count ih =>
      have hlow : (state >>> count).getLsbD 0 = false := by
        simpa using h count (Nat.lt_succ_self count)
      rw [Function.iterate_succ_apply', ih fun place hplace => h place (by omega), shift, hlow,
        gated_false, BitVec.xor_zero, ← BitVec.shiftRight_add]

/-- Only the bits that fall out matter for what is fed back. -/
theorem shifts_split (state : BitVec w) (count : ℕ) :
    (shift taps)^[count] state =
      (shift taps)^[count] ((state.setWidth count).setWidth w) ^^^ (state >>> count) := by
  have hhigh : ∀ place < count,
      (state ^^^ (state.setWidth count).setWidth w).getLsbD place = false := by
    intro place hplace
    by_cases hwidth : place < w
    · simp [hwidth, hplace]
    · exact BitVec.getLsbD_of_ge _ _ (by omega)
  have hmoved : (state ^^^ (state.setWidth count).setWidth w) >>> count = state >>> count := by
    apply BitVec.eq_of_getLsbD_eq
    simp
  have hstate : state = (state.setWidth count).setWidth w ^^^
      (state ^^^ (state.setWidth count).setWidth w) := by
    rw [BitVec.xor_comm state, ← BitVec.xor_assoc, BitVec.xor_self, BitVec.zero_xor]
  calc (shift taps)^[count] state
      = (shift taps)^[count] ((state.setWidth count).setWidth w ^^^
          (state ^^^ (state.setWidth count).setWidth w)) := congrArg _ hstate
    _ = (shift taps)^[count] ((state.setWidth count).setWidth w) ^^^ (state >>> count) := by
        rw [shifts_xor, shifts_high taps hhigh, hmoved]

end Shifts

section Digest
variable {w : ℕ} (taps : BitVec w)

def feed (state : BitVec w) (bit : Bool) : BitVec w :=
  shift taps (state ^^^ gated (BitVec.twoPow w 0) bit)

def digest (state : BitVec w) (bits : List Bool) : BitVec w := bits.foldl (feed taps) state

@[simp] theorem digest_nil (state : BitVec w) : digest taps state [] = state := rfl

@[simp] theorem digest_cons (state : BitVec w) (bit : Bool) (bits : List Bool) :
    digest taps state (bit :: bits) = digest taps (feed taps state bit) bits := rfl

theorem digest_append (state : BitVec w) (first second : List Bool) :
    digest taps state (first ++ second) = digest taps (digest taps state first) second :=
  List.foldl_append

theorem feed_xor (first second : BitVec w) (bit bit' : Bool) :
    feed taps (first ^^^ second) (bit ^^ bit') =
      feed taps first bit ^^^ feed taps second bit' := by
  rw [feed, feed, feed, ← shift_xor, gated_xor]
  congr 1
  ac_rfl

/-- The incoming bit decides with the lowest one whether the taps are fed. -/
theorem feed_eq (hwidth : 0 < w) (state : BitVec w) (bit : Bool) :
    feed taps state bit = (state >>> 1) ^^^ gated taps (state.getLsbD 0 ^^ bit) := by
  have hshift : (state ^^^ gated (BitVec.twoPow w 0) bit) >>> 1 = state >>> 1 := by
    apply BitVec.eq_of_getLsbD_eq
    intro place _
    have hother : 0 ≠ 1 + place := by omega
    cases bit <;> simp [BitVec.getLsbD_twoPow, hother]
  have hlow : (state ^^^ gated (BitVec.twoPow w 0) bit).getLsbD 0 =
      (state.getLsbD 0 ^^ bit) := by
    cases bit <;> simp [hwidth]
  rw [feed, shift, hshift, hlow]

/-- The bits in which two words differ. -/
def difference (first second : List Bool) : List Bool := List.zipWith xor first second

theorem digest_xor (state state' : BitVec w) {first second : List Bool}
    (h : first.length = second.length) :
    digest taps (state ^^^ state') (difference first second) =
      digest taps state first ^^^ digest taps state' second := by
  induction first generalizing state state' second with
  | nil =>
      obtain rfl : second = [] := List.length_eq_zero_iff.mp h.symm
      rfl
  | cons bit first ih =>
      cases second with
      | nil => exact absurd h (by simp)
      | cons bit' second =>
          rw [digest_cons, digest_cons, ← ih _ _ (by simpa using h), ← feed_xor]
          rfl

/-- A difference goes unnoticed exactly if the register makes nothing of it. -/
theorem digest_eq_iff (state : BitVec w) {first second : List Bool}
    (h : first.length = second.length) :
    digest taps state first = digest taps state second ↔
      digest taps 0#w (difference first second) = 0#w := by
  rw [← BitVec.xor_eq_zero_iff, ← digest_xor taps state state h, BitVec.xor_self]

theorem digest_silence (state : BitVec w) (count : ℕ) :
    digest taps state (List.replicate count false) = (shift taps)^[count] state := by
  induction count generalizing state with
  | zero => rfl
  | succ count ih =>
      rw [List.replicate_succ, digest_cons, ih, Function.iterate_succ_apply, feed, gated_false,
        BitVec.xor_zero]

/-- The bits as a number, lowest first. -/
def word (w : ℕ) (bits : List Bool) : BitVec w := (BitVec.ofBoolListLE bits).setWidth w

theorem getLsbD_word {bits : List Bool} {place : ℕ} :
    (word w bits).getLsbD place = (decide (place < w) && bits.getD place false) := by
  rw [word, BitVec.getLsbD_setWidth, BitVec.getLsbD_ofBoolListLE]

theorem word_concat (bits : List Bool) (bit : Bool) :
    word w (bits ++ [bit]) = word w bits ^^^ gated (BitVec.twoPow w bits.length) bit := by
  apply BitVec.eq_of_getLsbD_eq
  intro place hplace
  rw [BitVec.getLsbD_xor, getLsbD_word, getLsbD_word]
  rcases Nat.lt_trichotomy place bits.length with hbefore | rfl | hafter
  · cases bit <;> simp [hplace] <;> grind
  · cases bit <;> simp [hplace]
  · cases bit <;> simp [hplace] <;> grind

/-- Bits no more than the register is wide can be fed to it all at once. -/
theorem digest_eq (state : BitVec w) {bits : List Bool} (h : bits.length ≤ w) :
    digest taps state bits = (shift taps)^[bits.length] (state ^^^ word w bits) := by
  induction bits using List.reverseRecOn with
  | nil =>
      have hnone : word w [] = 0#w := by
        apply BitVec.eq_of_getLsbD_eq
        simp [getLsbD_word]
      simp [hnone]
  | append_singleton bits bit ih =>
      rw [List.length_append, List.length_singleton] at h
      have hbit : (shift taps)^[bits.length] (gated (BitVec.twoPow w bits.length) bit) =
          gated (BitVec.twoPow w 0) bit := by
        cases bit with
        | false => exact shifts_zero taps _
        | true => exact shifts_twoPow taps h
      rw [digest_append, ih (by omega), digest_cons, digest_nil, feed, word_concat,
        List.length_append, List.length_singleton, Function.iterate_succ_apply',
        ← BitVec.xor_assoc, shifts_xor taps _ (state ^^^ word w bits), hbit]

end Digest

/-! Whether the number of ones in a register is odd. With an odd number of taps a shift does
not change that. -/

section Parity
variable {w : ℕ}

def parityBelow (state : BitVec w) : ℕ → Bool
  | 0 => false
  | place + 1 => parityBelow state place ^^ state.getLsbD place

def parity (state : BitVec w) : Bool := parityBelow state w

theorem parity_xor (first second : BitVec w) :
    parity (first ^^^ second) = (parity first ^^ parity second) := by
  have hbelow : ∀ place, parityBelow (first ^^^ second) place =
      (parityBelow first place ^^ parityBelow second place) := by
    intro place
    induction place with
    | zero => rfl
    | succ place ih =>
        rw [parityBelow, parityBelow, parityBelow, ih, BitVec.getLsbD_xor, Bool.xor_assoc,
          Bool.xor_assoc, Bool.xor_left_comm (parityBelow second place)]
  exact hbelow w

@[simp] theorem parity_zero : parity 0#w = false := by
  have hself := parity_xor 0#w 0#w
  rwa [BitVec.xor_self, Bool.xor_self] at hself

theorem parity_gated (mask : BitVec w) (bit : Bool) :
    parity (gated mask bit) = (bit && parity mask) := by
  cases bit <;> simp

theorem parity_ushiftRight (state : BitVec w) :
    parity (state >>> 1) = (parity state ^^ state.getLsbD 0) := by
  have hbelow : ∀ place, parityBelow (state >>> 1) place =
      (parityBelow state (place + 1) ^^ state.getLsbD 0) := by
    intro place
    induction place with
    | zero => simp [parityBelow]
    | succ place ih =>
        have hnext : parityBelow state (place + 1 + 1) =
            (parityBelow state (place + 1) ^^ state.getLsbD (place + 1)) := rfl
        rw [parityBelow, ih, hnext, BitVec.getLsbD_ushiftRight, Nat.add_comm 1]
        grind
  rw [parity, hbelow, parityBelow, BitVec.getLsbD_of_ge state w le_rfl, Bool.xor_false]
  rfl

theorem parity_twoPow_zero (hwidth : 0 < w) : parity (BitVec.twoPow w 0) = true := by
  have hbelow : ∀ place, parityBelow (BitVec.twoPow w 0) (place + 1) = true := by
    intro place
    induction place with
    | zero => simp [parityBelow, hwidth]
    | succ place ih =>
        rw [parityBelow, ih]
        simp [BitVec.getLsbD_twoPow]
  obtain ⟨place, rfl⟩ := Nat.exists_eq_add_of_le' hwidth
  exact hbelow place

theorem parity_shift {taps : BitVec w} (hodd : parity taps = true) (state : BitVec w) :
    parity (shift taps state) = parity state := by
  rw [shift, parity_xor, parity_ushiftRight, parity_gated, hodd, Bool.and_true, Bool.xor_assoc,
    Bool.xor_self, Bool.xor_false]

end Parity

/-! Which errors a register notices. -/

section Errors
variable {w : ℕ} {taps : BitVec w}

theorem digest_leading_silence (count : ℕ) (bits : List Bool) :
    digest taps 0#w (List.replicate count false ++ bits) = digest taps 0#w bits := by
  rw [digest_append, digest_silence, shifts_zero]

/-- What comes after an error cannot make it good. -/
theorem digest_trailing_silence (hhigh : taps.msb = true) {bits : List Bool}
    (h : digest taps 0#w bits ≠ 0#w) (count : ℕ) :
    digest taps 0#w (bits ++ List.replicate count false) ≠ 0#w := by
  rw [digest_append, digest_silence]
  intro hzero
  have hsame := hzero.trans (shifts_zero taps count).symm
  exact h ((shift_injective taps hhigh).iterate count hsame)

/-- Errors within the width of the register are noticed. -/
theorem digest_burst (hhigh : taps.msb = true) {burst : List Bool} (hlength : burst.length ≤ w)
    (herror : true ∈ burst) (before after : ℕ) :
    digest taps 0#w
      (List.replicate before false ++ burst ++ List.replicate after false) ≠ 0#w := by
  apply digest_trailing_silence hhigh
  rw [digest_leading_silence, digest_eq taps _ hlength, BitVec.zero_xor]
  intro hzero
  rw [← shifts_zero taps burst.length] at hzero
  have hword := (shift_injective taps hhigh).iterate burst.length hzero
  obtain ⟨place, hplace, hbit⟩ := List.mem_iff_getElem.mp herror
  have hsame := congrArg (BitVec.getLsbD · place) hword
  simp only [getLsbD_word, BitVec.getLsbD_zero] at hsame
  rw [List.getD_eq_getElem _ _ hplace, hbit] at hsame
  simp at hsame
  omega

theorem split_at_error {bits : List Bool} {errors : ℕ} (h : bits.count true = errors + 1) :
    ∃ count rest, bits = List.replicate count false ++ true :: rest ∧
      rest.count true = errors := by
  induction bits with
  | nil => simp at h
  | cons bit bits ih =>
      cases bit with
      | true =>
          rw [List.count_cons_self, Nat.add_right_cancel_iff] at h
          exact ⟨0, bits, rfl, h⟩
      | false =>
          rw [List.count_cons_of_ne (by decide)] at h
          obtain ⟨count, rest, hbits, hrest⟩ := ih h
          exact ⟨count + 1, rest, by rw [hbits, List.replicate_succ]; rfl, hrest⟩

theorem eq_silence {bits : List Bool} (h : bits.count true = 0) :
    bits = List.replicate bits.length false := by
  rw [List.count_eq_zero] at h
  exact List.eq_replicate_iff.mpr ⟨rfl, fun bit hbit => by
    cases bit with
    | true => exact absurd hbit h
    | false => rfl⟩

/-- Two errors are noticed unless the register returns to one bit from the one to the other. -/
theorem digest_pair (hhigh : taps.msb = true) {bits : List Bool} {period : ℕ}
    (hperiod : ∀ count < period,
      (shift taps)^[count] (BitVec.twoPow w 0) = BitVec.twoPow w 0 → count = 0)
    (hlength : bits.length ≤ period) (herrors : bits.count true = 2) :
    digest taps 0#w bits ≠ 0#w := by
  obtain ⟨before, rest, rfl, hrest⟩ := split_at_error herrors
  obtain ⟨between, last, rfl, hlast⟩ := split_at_error hrest
  rw [eq_silence hlast] at hlength ⊢
  have hsplit : List.replicate before false ++ true ::
      (List.replicate between false ++ true :: List.replicate last.length false) =
      (List.replicate before false ++ (true :: (List.replicate between false ++ [true]))) ++
        List.replicate last.length false := by simp
  rw [hsplit]
  apply digest_trailing_silence hhigh
  rw [digest_leading_silence, digest_cons, digest_append, digest_silence, digest_cons, digest_nil,
    feed, feed, gated_true, BitVec.zero_xor, ← Function.iterate_succ_apply]
  intro hzero
  rw [← shift_zero taps] at hzero
  have hsame := BitVec.xor_eq_zero_iff.mp (shift_injective taps hhigh hzero)
  have hcount := hperiod (between + 1) (by simp at hlength; omega) hsame
  omega

theorem digest_parity (hwidth : 0 < w) (hodd : parity taps = true) (state : BitVec w)
    (bits : List Bool) :
    parity (digest taps state bits) = (parity state ^^ (bits.count true).bodd) := by
  induction bits generalizing state with
  | nil => simp
  | cons bit bits ih =>
      rw [digest_cons, ih, feed, parity_shift hodd, parity_xor, parity_gated,
        parity_twoPow_zero hwidth, Bool.and_true]
      cases bit with
      | true => simp [Nat.bodd_succ]
      | false => simp

theorem digest_odd (hhigh : taps.msb = true) (hodd : parity taps = true) {bits : List Bool}
    (herrors : (bits.count true).bodd = true) : digest taps 0#w bits ≠ 0#w := by
  have hwidth : 0 < w := by
    rcases Nat.eq_zero_or_pos w with rfl | hpos
    · rw [Subsingleton.elim taps 0#0] at hhigh
      exact absurd hhigh (by decide)
    · exact hpos
  intro hdigest
  have hparity := digest_parity hwidth hodd 0#w bits
  rw [hdigest, herrors] at hparity
  simp at hparity

/-- Up to three errors in a word no longer than the period are noticed. -/
theorem digest_few (hhigh : taps.msb = true) (hodd : parity taps = true) {bits : List Bool}
    {period : ℕ}
    (hperiod : ∀ count < period,
      (shift taps)^[count] (BitVec.twoPow w 0) = BitVec.twoPow w 0 → count = 0)
    (hlength : bits.length ≤ period) (hsome : 0 < bits.count true)
    (hfew : bits.count true ≤ 3) : digest taps 0#w bits ≠ 0#w := by
  by_cases htwo : bits.count true = 2
  · exact digest_pair hhigh hperiod hlength htwo
  · refine digest_odd hhigh hodd ?_
    interval_cases hcount : bits.count true
    · rfl
    · exact absurd rfl htwo
    · rfl

/-- All errors lie within `w` places of each other. -/
def Burst (w : ℕ) (bits : List Bool) : Prop :=
  ∃ before burst after, burst.length ≤ w ∧
    bits = List.replicate before false ++ burst ++ List.replicate after false

theorem digest_of_burst (hhigh : taps.msb = true) {bits : List Bool} (herror : true ∈ bits)
    (h : Burst w bits) : digest taps 0#w bits ≠ 0#w := by
  obtain ⟨before, burst, after, hburst, rfl⟩ := h
  refine digest_burst hhigh hburst ?_ before after
  simpa [List.mem_replicate] using herror

theorem mem_difference {first second : List Bool} (h : first.length = second.length)
    (hne : first ≠ second) : true ∈ difference first second := by
  induction first generalizing second with
  | nil => exact absurd (List.length_eq_zero_iff.mp h.symm).symm hne
  | cons bit first ih =>
      cases second with
      | nil => exact absurd h (by simp)
      | cons bit' second =>
          have hrest : difference (bit :: first) (bit' :: second) =
              (bit ^^ bit') :: difference first second := rfl
          rw [hrest, List.mem_cons]
          by_cases hbit : bit = bit'
          · refine .inr (ih (by simpa using h) fun hsame => hne ?_)
            rw [hbit, hsame]
          · cases bit <;> cases bit' <;> simp_all

end Errors

end OledDs18b20.Lib.Register
