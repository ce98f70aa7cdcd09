import OledDs18b20.Lib.Run
import OledDs18b20.Nokia.Screen

/-! One pass of the dashboard's `loop`, and the runs of passes. `setup` changes
no variable of the sketch. -/
namespace OledDs18b20.Nokia.Loop
open Lib Dashboard Screen

/-- What the pins deliver in a pass: to the call of `draw` for the first page,
to the calls for the further pages, and to the averaging. -/
structure PassInput where
  page : PageInput
  pages : List PageInput
  reading : Reading

/-- A pass of a single page in which every pin and channel reads zero. -/
def silent : PassInput := ⟨⟨false, false, 0⟩, [], ⟨0, 0, 0⟩⟩

def PassInput.draws (input : PassInput) : List PageInput := input.page :: input.pages

structure Pass where
  state : Dashboard
  taken : Option Reading
  published : Option Dashboard
  frame : List (List Command)

def loop (d : Dashboard) (input : PassInput) : Pass where
  state := update input.reading d
  taken := taken d input.reading
  published := published d input.reading
  frame := input.draws.map (draw d)

def step (d : Dashboard) (input : PassInput) : Dashboard := (loop d input).state

/-- The readings that the averaging takes in a run, in order. -/
def allTaken (d : Dashboard) (inputs : List PassInput) : List Reading :=
  (Run.visits step d inputs).filterMap fun visit => (loop visit.1 visit.2).taken

/-- The states that the publications of a run leave, in order. -/
def allPublished (d : Dashboard) (inputs : List PassInput) : List Dashboard :=
  (Run.visits step d inputs).filterMap fun visit => (loop visit.1 visit.2).published

end OledDs18b20.Nokia.Loop
