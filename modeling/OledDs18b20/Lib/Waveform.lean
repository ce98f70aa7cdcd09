import Mathlib

/-! A signal that alternates between two levels, given by the lengths of its runs. -/
namespace OledDs18b20.Lib.Waveform

variable {α β γ : Type*}

def signal (first second : α) : List ℕ → List α
  | [] => []
  | run :: runs => List.replicate run first ++ signal second first runs

/-- The level of the run with the given number. -/
def levelAt (first second : α) : ℕ → α
  | 0 => first
  | number + 1 => levelAt second first number

theorem levelAt_map (f : α → β) (first second : α) (number : ℕ) :
    levelAt (f first) (f second) number = f (levelAt first second number) := by
  induction number generalizing first second with
  | zero => rfl
  | succ number ih => exact ih second first

theorem signal_concat (first second : α) (runs : List ℕ) (run : ℕ) :
    signal first second (runs ++ [run]) =
      signal first second runs ++ List.replicate run (levelAt first second runs.length) := by
  induction runs generalizing first second with
  | nil => simp [signal, levelAt]
  | cons head runs ih =>
      rw [List.cons_append, signal, ih, signal, List.append_assoc]
      rfl

/-- One more of the same level makes the last run longer. -/
theorem signal_same (first second : α) (runs : List ℕ) (run : ℕ) :
    signal first second (runs ++ [run]) ++ [levelAt first second runs.length] =
      signal first second (runs ++ [run + 1]) := by
  rw [signal_concat, signal_concat, List.append_assoc, List.replicate_succ']

/-- The other level begins a run. -/
theorem signal_turn (first second : α) (runs : List ℕ) (run : ℕ) :
    signal first second (runs ++ [run]) ++ [levelAt first second (runs.length + 1)] =
      signal first second (runs ++ [run] ++ [1]) := by
  rw [signal_concat _ _ (runs ++ [run]), List.length_append, List.length_singleton]
  rfl

/-! The lists of two signals' lengths, related run by run: one relation for each level. -/

def Alternating (first second : β → γ → Prop) : List β → List γ → Prop
  | [], [] => True
  | head :: rest, head' :: rest' => first head head' ∧ Alternating second first rest rest'
  | _, _ => False

instance decidableAlternating (first second : β → γ → Prop)
    [∀ run run', Decidable (first run run')] [∀ run run', Decidable (second run run')] :
    ∀ runs runs', Decidable (Alternating first second runs runs')
  | [], [] => isTrue trivial
  | _ :: rest, _ :: rest' =>
      have := decidableAlternating second first rest rest'
      inferInstanceAs (Decidable (_ ∧ _))
  | [], _ :: _ => isFalse id
  | _ :: _, [] => isFalse id

namespace Alternating
variable {first second : β → γ → Prop} {runs : List β} {runs' : List γ}

theorem length_eq (h : Alternating first second runs runs') : runs'.length = runs.length := by
  induction runs generalizing first second runs' with
  | nil =>
      cases runs' with
      | nil => rfl
      | cons head' rest' => exact h.elim
  | cons head rest ih =>
      cases runs' with
      | nil => exact h.elim
      | cons head' rest' => exact congrArg (· + 1) (ih h.2)

theorem mono {first' second' : β → γ → Prop}
    (hfirst : ∀ run ∈ runs, ∀ run', first run run' → first' run run')
    (hsecond : ∀ run ∈ runs, ∀ run', second run run' → second' run run')
    (h : Alternating first second runs runs') : Alternating first' second' runs runs' := by
  induction runs generalizing first second first' second' runs' with
  | nil =>
      cases runs' with
      | nil => trivial
      | cons head' rest' => exact h.elim
  | cons head rest ih =>
      cases runs' with
      | nil => exact h.elim
      | cons head' rest' =>
          rw [List.forall_mem_cons] at hfirst hsecond
          exact ⟨hfirst.1 head' h.1, ih hsecond.2 hfirst.2 h.2⟩

theorem take {more : List β} (h : Alternating first second (runs ++ more) runs') :
    Alternating first second runs (runs'.take runs.length) := by
  induction runs generalizing first second runs' with
  | nil => trivial
  | cons head rest ih =>
      cases runs' with
      | nil => exact h.elim
      | cons head' rest' => exact ⟨h.1, ih h.2⟩

/-- The relation of one run is that of its level. -/
theorem exists_getElem? (h : Alternating first second runs runs') {number : ℕ} {run' : γ}
    (hrun : runs'[number]? = some run') :
    ∃ run, runs[number]? = some run ∧ levelAt first second number run run' := by
  induction runs generalizing first second runs' number with
  | nil =>
      cases runs' with
      | nil => simp at hrun
      | cons head' rest' => exact h.elim
  | cons head rest ih =>
      cases runs' with
      | nil => exact h.elim
      | cons head' rest' =>
          cases number with
          | zero =>
              obtain rfl : head' = run' := Option.some.inj hrun
              exact ⟨head, rfl, h.1⟩
          | succ number => exact ih h.2 hrun

/-- A run by run relation after another. -/
theorem trans {δ : Type*} {first' second' : γ → δ → Prop} {first'' second'' : β → δ → Prop}
    (hfirst : ∀ b c d, first b c → first' c d → first'' b d)
    (hsecond : ∀ b c d, second b c → second' c d → second'' b d) {runs'' : List δ}
    (h : Alternating first second runs runs') (h' : Alternating first' second' runs' runs'') :
    Alternating first'' second'' runs runs'' := by
  induction runs generalizing first second first' second' first'' second'' runs' runs'' with
  | nil =>
      cases runs' with
      | nil =>
          cases runs'' with
          | nil => trivial
          | cons head'' rest'' => exact h'.elim
      | cons head' rest' => exact h.elim
  | cons head rest ih =>
      cases runs' with
      | nil => exact h.elim
      | cons head' rest' =>
          cases runs'' with
          | nil => exact h'.elim
          | cons head'' rest'' =>
              exact ⟨hfirst _ _ _ h.1 h'.1, ih hsecond hfirst h.2 h'.2⟩

end Alternating

theorem alternating_map_iff {δ : Type*} {first second : β → δ → Prop} (f : γ → δ)
    {runs : List β} {runs' : List γ} :
    Alternating first second runs (runs'.map f) ↔
      Alternating (fun run run' => first run (f run')) (fun run run' => second run (f run'))
        runs runs' := by
  induction runs generalizing first second runs' with
  | nil => cases runs' <;> exact Iff.rfl
  | cons head rest ih =>
      cases runs' with
      | nil => exact Iff.rfl
      | cons head' rest' => exact and_congr_right fun _ => ih

/-! A signal that is looked at once in every `period` places, from place `phase` on. -/

def sample (period : ℕ) : ℕ → List α → List α
  | _, [] => []
  | 0, level :: rest => level :: sample period (period - 1) rest
  | phase + 1, _ :: rest => sample period phase rest

/-- A run is seen to last as many periods as it does, to within one. -/
def Sampled (period duration run : ℕ) : Prop :=
  duration < period * run + period ∧ period * run < duration + period

theorem Sampled.positive {period duration run : ℕ} (h : Sampled period duration run)
    (hlong : period ≤ duration) : 0 < run := by
  obtain ⟨hlow, -⟩ := h
  rcases Nat.eq_zero_or_pos run with rfl | hpositive
  · omega
  · exact hpositive

theorem sample_replicate {period phase : ℕ} (hphase : phase < period) (duration : ℕ)
    (level : α) (rest : List α) :
    ∃ run phase', phase' < period ∧ duration + phase' = phase + period * run ∧
      sample period phase (List.replicate duration level ++ rest) =
        List.replicate run level ++ sample period phase' rest := by
  induction duration generalizing phase with
  | zero => exact ⟨0, phase, hphase, by simp, rfl⟩
  | succ duration ih =>
      cases phase with
      | zero =>
          obtain ⟨run, phase', hphase', hcount, hsample⟩ :=
            ih (Nat.sub_lt hphase Nat.one_pos)
          refine ⟨run + 1, phase', hphase', ?_, ?_⟩
          · rw [Nat.mul_succ]
            omega
          · rw [List.replicate_succ, List.replicate_succ, List.cons_append, List.cons_append,
              sample, hsample]
      | succ phase =>
          obtain ⟨run, phase', hphase', hcount, hsample⟩ := ih (Nat.lt_of_succ_lt hphase)
          refine ⟨run, phase', hphase', by omega, ?_⟩
          rw [List.replicate_succ, List.cons_append, sample, hsample]

/-- The samples of a signal are a signal with the same alternation. -/
theorem sample_signal {period phase : ℕ} (hphase : phase < period) (first second : α)
    (durations : List ℕ) (rest : List α) :
    ∃ runs phase', phase' < period ∧
      Alternating (Sampled period) (Sampled period) durations runs ∧
      sample period phase (signal first second durations ++ rest) =
        signal first second runs ++ sample period phase' rest := by
  induction durations generalizing first second phase with
  | nil => exact ⟨[], phase, hphase, trivial, rfl⟩
  | cons duration durations ih =>
      obtain ⟨run, middle, hmiddle, hcount, hhead⟩ :=
        sample_replicate hphase duration first (signal second first durations ++ rest)
      obtain ⟨runs, phase', hphase', hruns, htail⟩ := ih hmiddle second first
      refine ⟨run :: runs, phase', hphase', ⟨⟨by omega, by omega⟩, hruns⟩, ?_⟩
      rw [signal, signal, List.append_assoc, hhead, htail, List.append_assoc]

end OledDs18b20.Lib.Waveform
