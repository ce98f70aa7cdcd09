import Mathlib

/-! Runs of a deterministic machine that is fed one input per step. `visits`
pairs each input with the state it meets, so a law about every step of a run
is a law about its visits. -/
namespace OledDs18b20.Lib.Run

variable {σ τ ι κ : Type*}

def final (next : σ → ι → σ) (s : σ) (inputs : List ι) : σ :=
  inputs.foldl next s

def visits (next : σ → ι → σ) : σ → List ι → List (σ × ι)
  | _, [] => []
  | s, input :: rest => (s, input) :: visits next (next s input) rest

variable {next : σ → ι → σ} {s : σ}

@[simp] theorem final_nil : final next s [] = s := rfl

@[simp] theorem final_cons (input : ι) (rest : List ι) :
    final next s (input :: rest) = final next (next s input) rest := rfl

theorem final_append (left right : List ι) :
    final next s (left ++ right) = final next (final next s left) right :=
  List.foldl_append

@[simp] theorem visits_nil : visits next s [] = [] := rfl

@[simp] theorem visits_cons (input : ι) (rest : List ι) :
    visits next s (input :: rest) =
      (s, input) :: visits next (next s input) rest := rfl

theorem visits_append (left right : List ι) :
    visits next s (left ++ right) =
      visits next s left ++ visits next (final next s left) right := by
  induction left generalizing s with
  | nil => rfl
  | cons input rest ih => simp [ih]

theorem final_concat (earlier : List ι) (input : ι) :
    final next s (earlier ++ [input]) = next (final next s earlier) input := by
  rw [final_append, final_cons, final_nil]

theorem mem_visits_iff {inputs : List ι} {visit : σ × ι} :
    visit ∈ visits next s inputs ↔
      ∃ earlier later, inputs = earlier ++ visit.2 :: later ∧
        visit.1 = final next s earlier := by
  induction inputs generalizing s with
  | nil => simp
  | cons input rest ih =>
      rw [visits_cons, List.mem_cons, ih]
      constructor
      · rintro (rfl | ⟨earlier, later, hrest, hstate⟩)
        · exact ⟨[], rest, rfl, rfl⟩
        · exact ⟨input :: earlier, later, by rw [hrest, List.cons_append], hstate⟩
      · rintro ⟨earlier, later, hinputs, hstate⟩
        cases earlier with
        | nil =>
            rw [List.nil_append, List.cons.injEq] at hinputs
            exact .inl (Prod.ext hstate hinputs.1.symm)
        | cons head earlier =>
            rw [List.cons_append, List.cons.injEq] at hinputs
            obtain ⟨rfl, hrest⟩ := hinputs
            exact .inr ⟨earlier, later, hrest, hstate⟩

theorem mem_visits {inputs earlier later : List ι} {input : ι}
    (h : inputs = earlier ++ input :: later) :
    (final next s earlier, input) ∈ visits next s inputs :=
  mem_visits_iff.mpr ⟨earlier, later, h, rfl⟩

/-- What a step allowed by `ok` preserves, a run of such steps preserves. -/
theorem invariant {inv : σ → Prop} {ok : σ → ι → Prop} {inputs : List ι}
    (step : ∀ s input, inv s → ok s input → inv (next s input)) (start : inv s)
    (allowed : ∀ visit ∈ visits next s inputs, ok visit.1 visit.2) :
    (∀ visit ∈ visits next s inputs, inv visit.1) ∧ inv (final next s inputs) := by
  induction inputs generalizing s with
  | nil => exact ⟨by simp, start⟩
  | cons input rest ih =>
      rw [visits_cons, List.forall_mem_cons] at allowed
      have after := step s input start allowed.1
      obtain ⟨visited, last⟩ := ih after allowed.2
      exact ⟨List.forall_mem_cons.mpr ⟨start, visited⟩, last⟩

/-- An invariant that no input can break. -/
theorem invariant_always {inv : σ → Prop} (inputs : List ι)
    (step : ∀ s input, inv s → inv (next s input)) (start : inv s) :
    inv (final next s inputs) := by
  induction inputs generalizing s with
  | nil => exact start
  | cons input rest ih => exact ih (step s input start)

/-- A law that holds of a step exactly when `ok` does holds throughout a run
exactly when `ok` does, provided that lawful steps keep the invariant under
which the two agree. -/
theorem forall_visits_iff {inv : σ → Prop} {law ok : σ → ι → Prop} (inputs : List ι)
    (agree : ∀ s input, inv s → (law s input ↔ ok s input))
    (step : ∀ s input, inv s → law s input → inv (next s input)) (start : inv s) :
    (∀ visit ∈ visits next s inputs, law visit.1 visit.2) ↔
      ∀ visit ∈ visits next s inputs, ok visit.1 visit.2 := by
  induction inputs generalizing s with
  | nil => simp
  | cons input rest ih =>
      rw [visits_cons, List.forall_mem_cons, List.forall_mem_cons, agree s input start]
      refine and_congr_right fun allowed => ih (step s input start ?_)
      exact (agree s input start).mpr allowed

/-- Two machines whose steps preserve a relation stay related along a run. -/
theorem simulation {next' : τ → κ → τ} {t : τ} {related : σ → τ → Prop}
    {matched : ι → κ → Prop} {inputs : List ι} {inputs' : List κ}
    (step : ∀ s t input input', related s t → matched input input' →
      related (next s input) (next' t input'))
    (start : related s t) (inputsMatch : List.Forall₂ matched inputs inputs') :
    related (final next s inputs) (final next' t inputs') := by
  induction inputsMatch generalizing s t with
  | nil => exact start
  | cons head _ ih => exact ih (step _ _ _ _ start head)

/-- What is observed of two machines whose steps preserve a relation is the same
list, if related states are observed alike. -/
theorem simulation_observed {next' : τ → κ → τ} {t : τ} {related : σ → τ → Prop}
    {matched : ι → κ → Prop} {ο : Type*} {observe : σ × ι → Option ο}
    {observe' : τ × κ → Option ο} {inputs : List ι} {inputs' : List κ}
    (step : ∀ s t input input', related s t → matched input input' →
      related (next s input) (next' t input'))
    (observed : ∀ s t input input', related s t → matched input input' →
      observe (s, input) = observe' (t, input'))
    (start : related s t) (inputsMatch : List.Forall₂ matched inputs inputs') :
    (visits next s inputs).filterMap observe = (visits next' t inputs').filterMap observe' := by
  induction inputsMatch generalizing s t with
  | nil => rfl
  | cons head _ ih =>
      rw [visits_cons, visits_cons, List.filterMap_cons, List.filterMap_cons,
        observed _ _ _ _ start head, ih (step _ _ _ _ start head)]

end OledDs18b20.Lib.Run
