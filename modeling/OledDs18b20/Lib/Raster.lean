import Mathlib

/-! Pictures as functions from places to colours. Dots are painted one after another, so the
last one at a place is seen. -/
namespace OledDs18b20.Lib.Raster

variable {α β κ : Type*}

structure Dot (α κ : Type*) where
  place : α
  colour : κ
deriving DecidableEq

section Paint
variable [DecidableEq α]

def paint (dots : List (Dot α κ)) (picture : α → κ) : α → κ :=
  dots.foldl (fun picture dot => Function.update picture dot.place dot.colour) picture

@[simp] theorem paint_nil (picture : α → κ) : paint [] picture = picture := rfl

@[simp] theorem paint_cons (dot : Dot α κ) (dots : List (Dot α κ)) (picture : α → κ) :
    paint (dot :: dots) picture =
      paint dots (Function.update picture dot.place dot.colour) := rfl

theorem paint_append (first second : List (Dot α κ)) (picture : α → κ) :
    paint (first ++ second) picture = paint second (paint first picture) :=
  List.foldl_append

/-- What is seen at a place depends on what was there before, and on the dots at the place. -/
theorem paint_congr {place : α} {left right : α → κ} (h : left place = right place)
    (dots : List (Dot α κ)) : paint dots left place = paint dots right place := by
  induction dots generalizing left right with
  | nil => exact h
  | cons dot dots ih =>
      apply ih
      by_cases hplace : place = dot.place
      · simp [hplace]
      · simp [hplace, h]

theorem paint_of_forall_ne {place : α} {dots : List (Dot α κ)}
    (h : ∀ dot ∈ dots, dot.place ≠ place) (picture : α → κ) :
    paint dots picture place = picture place := by
  induction dots generalizing picture with
  | nil => rfl
  | cons dot dots ih =>
      rw [List.forall_mem_cons] at h
      rw [paint_cons, ih h.2, Function.update_of_ne h.1.symm]

/-- Dots of one colour cover their places and no other. -/
theorem paint_figure (places : List α) (colour : κ) (picture : α → κ) (place : α) :
    paint (places.map fun place => ⟨place, colour⟩) picture place =
      if place ∈ places then colour else picture place := by
  induction places generalizing picture with
  | nil => rfl
  | cons first places ih =>
      rw [List.map_cons, paint_cons, ih, Function.update_apply]
      by_cases hrest : place ∈ places
      · rw [if_pos hrest, if_pos (List.mem_cons_of_mem first hrest)]
      · rw [if_neg hrest]
        simp [hrest]

end Paint

def Dot.map (f : α → β) (dot : Dot α κ) : Dot β κ := ⟨f dot.place, dot.colour⟩

/-- Painting moved dots moves the picture. -/
theorem paint_map [DecidableEq α] [DecidableEq β] {f : α → β} (hf : Function.Injective f)
    (dots : List (Dot α κ)) (picture : β → κ) (place : α) :
    paint (dots.map (Dot.map f)) picture (f place) =
      paint dots (fun place => picture (f place)) place := by
  induction dots generalizing picture with
  | nil => rfl
  | cons dot dots ih =>
      rw [List.map_cons, paint_cons, paint_cons, ih]
      exact congrFun (congrArg (paint dots)
        (Function.update_comp_eq_of_injective' picture hf dot.place dot.colour)) place

end OledDs18b20.Lib.Raster
