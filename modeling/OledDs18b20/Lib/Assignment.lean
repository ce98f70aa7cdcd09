import OledDs18b20.Lib.Run

/-! Statements that each assign one register as a whole. What a register holds after them
is what the last statement on it wrote, so of two statements that want different things of
one register at most one gets its way. -/
namespace OledDs18b20.Lib.Assignment

variable {σ ρ υ : Type*} [DecidableEq ρ] (register : σ → ρ) (value : σ → υ)

def assign (store : ρ → υ) (statement : σ) : ρ → υ :=
  Function.update store (register statement) (value statement)

/-- The last of the statements that assign the given register. -/
def lastOn (place : ρ) (statements : List σ) : Option σ :=
  (statements.filter fun statement => register statement = place).getLast?

theorem lastOn_concat (place : ρ) (earlier : List σ) (statement : σ) :
    lastOn register place (earlier ++ [statement]) =
      if register statement = place then some statement
      else lastOn register place earlier := by
  rw [lastOn, List.filter_append, List.filter_singleton]
  by_cases h : register statement = place
  · simp [h]
  · simp [h, lastOn]

theorem final_assign (statements : List σ) (store : ρ → υ) (place : ρ) :
    Run.final (assign register value) store statements place =
      ((lastOn register place statements).map value).getD (store place) := by
  induction statements using List.reverseRecOn with
  | nil => rfl
  | append_singleton earlier statement ih =>
      rw [Run.final_concat, lastOn_concat, assign]
      by_cases h : register statement = place
      · rw [if_pos h, ← h, Function.update_self]
        rfl
      · rw [if_neg h, Function.update_of_ne (Ne.symm h), ih]

theorem exists_lastOn {statement : σ} {statements : List σ} (h : statement ∈ statements) :
    ∃ winner, lastOn register (register statement) statements = some winner ∧
      register winner = register statement := by
  have hmem : statement ∈
      statements.filter fun other => register other = register statement := by
    simpa using h
  have hne := List.ne_nil_of_mem hmem
  refine ⟨_, List.getLast?_eq_some_getLast hne, ?_⟩
  simpa using (List.mem_filter.mp (List.getLast_mem hne)).2

section Wanted
variable {register value} {wants : σ → υ → Prop} {statements : List σ} {store : ρ → υ}

/-- If each statement gets its way by its own value and by no other's, it gets its way
exactly when it is the last one on its register. -/
theorem wants_final_iff {statement : σ} (hown : wants statement (value statement))
    (hothers : ∀ other, register other = register statement →
      wants statement (value other) → other = statement)
    (h : statement ∈ statements) :
    wants statement (Run.final (assign register value) store statements
        (register statement)) ↔
      lastOn register (register statement) statements = some statement := by
  obtain ⟨winner, hlast, hregister⟩ := exists_lastOn register h
  rw [final_assign, hlast, Option.map_some, Option.getD_some, Option.some.injEq]
  constructor
  · exact hothers winner hregister
  · intro hwinner
    rw [hwinner]
    exact hown

end Wanted

end OledDs18b20.Lib.Assignment
