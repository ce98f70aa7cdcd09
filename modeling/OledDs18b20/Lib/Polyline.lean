import Mathlib

/-! Segments drawn from point to point with both ends clamped, the start again although it
was clamped when it was an end. -/
namespace OledDs18b20.Lib.Polyline

variable {α : Type*} {clamp : α → α}

/-- The pen moves to each clamped point in turn. -/
def carry (clamp : α → α) : α → List α → List (α × α)
  | _, [] => []
  | pen, point :: rest => (clamp pen, clamp point) :: carry clamp (clamp point) rest

/-- Each segment starts where the one before it ends. -/
def Connected (segments : List (α × α)) : Prop :=
  segments.IsChain fun earlier later => later.1 = earlier.2

@[simp] theorem length_carry (clamp : α → α) (pen : α) (points : List α) :
    (carry clamp pen points).length = points.length := by
  induction points generalizing pen with
  | nil => rfl
  | cons point rest ih => simp [carry, ih]

theorem carry_connected (hclamp : ∀ point, clamp (clamp point) = clamp point) (pen : α)
    (points : List α) : Connected (carry clamp pen points) := by
  induction points generalizing pen with
  | nil => exact List.IsChain.nil
  | cons point rest ih =>
      cases rest with
      | nil => exact List.IsChain.singleton _
      | cons next later => exact List.IsChain.cons_cons (hclamp point) (ih (clamp point))

theorem carry_inside {inside : α → Prop} (hclamp : ∀ point, inside (clamp point)) (pen : α)
    (points : List α) :
    ∀ segment ∈ carry clamp pen points, inside segment.1 ∧ inside segment.2 := by
  induction points generalizing pen with
  | nil => simp [carry]
  | cons point rest ih =>
      rw [carry, List.forall_mem_cons]
      exact ⟨⟨hclamp pen, hclamp point⟩, ih (clamp point)⟩

end OledDs18b20.Lib.Polyline
