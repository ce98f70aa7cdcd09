import Mathlib

/-! Histories of tagged results: the latest result of one tag, and tags that
come in a fixed turn. -/
namespace OledDs18b20.Lib.Tagged

variable {τ α : Type*}

section Latest
variable [DecidableEq τ]

/-- The last result under `tag`, or `start` before the first one. -/
def latest (tag : τ) (start : α) (history : List (τ × α)) : α :=
  history.foldl (fun held result => if result.1 = tag then result.2 else held) start

@[simp] theorem latest_nil (tag : τ) (start : α) : latest tag start [] = start := rfl

theorem latest_concat_same (tag : τ) (start result : α) (history : List (τ × α)) :
    latest tag start (history ++ [(tag, result)]) = result := by
  rw [latest, List.foldl_append, List.foldl_cons, List.foldl_nil, if_pos rfl]

theorem latest_concat_other {tag other : τ} (h : other ≠ tag) (start result : α)
    (history : List (τ × α)) :
    latest tag start (history ++ [(other, result)]) = latest tag start history := by
  rw [latest, List.foldl_append, List.foldl_cons, List.foldl_nil, if_neg h, latest]

end Latest

/-- The tag of the `k`-th result is `turn k`. -/
def InTurn (turn : ℕ → τ) (history : List (τ × α)) : Prop :=
  history.map Prod.fst = (List.range history.length).map turn

theorem inTurn_nil (turn : ℕ → τ) : InTurn turn ([] : List (τ × α)) := rfl

theorem InTurn.concat {turn : ℕ → τ} {history : List (τ × α)} (h : InTurn turn history)
    (result : α) : InTurn turn (history ++ [(turn history.length, result)]) := by
  unfold InTurn at h ⊢
  rw [List.map_append, h, List.length_append, List.length_singleton, List.range_succ,
    List.map_append]
  rfl

end OledDs18b20.Lib.Tagged
