import OledDs18b20.IngectorControl.Ecu
import OledDs18b20.Lib.Assignment

/-! The direction registers after the five direction statements, in whatever order they
are executed. Each statement assigns its register as a whole. -/
namespace OledDs18b20.IngectorControl.Directions
open Lib Ecu

inductive Port where
  | b | c | d
deriving DecidableEq

def ddr (ecu : Ecu) : Port → UInt8
  | .b => ecu.ddrb
  | .c => ecu.ddrc
  | .d => ecu.ddrd

inductive Statement where
  | ing0 | ing1 | igi | potDrocel | pot0
deriving DecidableEq

namespace Statement

def run (ecu : Ecu) : Statement → Ecu
  | ing0 => ing0Out ecu
  | ing1 => ing1Out ecu
  | igi => igiIn ecu
  | potDrocel => potDrocelIn ecu
  | pot0 => pot0In ecu

def port : Statement → Port
  | ing0 | ing1 => .b
  | potDrocel | pot0 => .c
  | igi => .d

def pinNum : Statement → UInt8
  | ing0 => ing0PinNum
  | ing1 => ing1PinNum
  | igi => igiPinNum
  | potDrocel => potDrocelPinNum
  | pot0 => pot0PinNum

/-- What the statement's comment says of its pin: `out` or `in`. -/
def isOut : Statement → Bool
  | ing0 | ing1 => true
  | igi | potDrocel | pot0 => false

def value (statement : Statement) : UInt8 :=
  if statement.isOut then bv statement.pinNum else ~~~ bv statement.pinNum

/-- The register has the pin in the direction that the statement is there for. -/
def Directs (statement : Statement) (register : UInt8) : Prop :=
  register &&& bv statement.pinNum ≠ 0 ↔ statement.isOut = true

instance (statement : Statement) : DecidablePred statement.Directs := fun _ =>
  inferInstanceAs (Decidable (_ ↔ _))

/-- A statement directs its own pin, and by its value alone. -/
theorem directs_value_iff {statement other : Statement} (h : other.port = statement.port) :
    statement.Directs other.value ↔ other = statement := by
  cases statement <;> cases other <;> revert h <;> decide

theorem ddr_run (ecu : Ecu) (statement : Statement) :
    ddr (statement.run ecu) = Assignment.assign port value (ddr ecu) statement := by
  funext place
  cases statement <;> cases place <;> rfl

end Statement

/-- The direction statements in the order of `main`. -/
def directions : List Statement := [.ing0, .ing1, .igi, .potDrocel, .pot0]

def start (ecu : Ecu) : Ecu := { adcSetup ecu with sei := true }

theorem main_eq_start (ecu : Ecu) :
    main ecu = start (Run.final Statement.run ecu directions) := rfl

theorem ddr_final (order : List Statement) (ecu : Ecu) :
    ddr (Run.final Statement.run ecu order) =
      Run.final (Assignment.assign Statement.port Statement.value) (ddr ecu) order := by
  induction order generalizing ecu with
  | nil => rfl
  | cons statement rest ih =>
      rw [Run.final_cons, Run.final_cons, ih, Statement.ddr_run]

/-! Nothing after the direction statements writes a direction register. -/

theorem ddr_startConversion (ecu : Ecu) : ddr (startConversion ecu) = ddr ecu := by
  funext place
  cases place <;> rfl

theorem ddr_start (ecu : Ecu) : ddr (start ecu) = ddr ecu := by
  funext place
  cases place <;> rfl

theorem ddr_adcVect (ecu : Ecu) : ddr (adcVect ecu) = ddr ecu := by
  rw [adcVect, ddr_startConversion]
  funext place
  split_ifs
  · cases place <;> rfl
  · cases place <;> rfl

theorem ddr_interrupt (ecu : Ecu) (event : Interrupt) : ddr (interrupt ecu event) = ddr ecu := by
  cases event with
  | timer2Ovf => rfl
  | adc result =>
      rw [interrupt, complete]
      cases ecu.converting with
      | nil => rfl
      | cons started rest =>
          dsimp only
          split_ifs
          · rw [ddr_adcVect]
            rfl
          · rfl

theorem ddr_later (ecu : Ecu) (interrupts : List Interrupt) :
    ddr (Run.final interrupt (start ecu) interrupts) = ddr ecu := by
  have hstep : ∀ (later : Ecu) (event : Interrupt),
      ddr later = ddr ecu → ddr (interrupt later event) = ddr ecu :=
    fun later event h => (ddr_interrupt later event).trans h
  exact Run.invariant_always interrupts hstep (ddr_start ecu)

/-- The directions that the comments of `main` give the five pins. -/
structure Directed (ecu : Ecu) : Prop where
  ing0 : ecu.ddrb &&& bv ing0PinNum ≠ 0
  ing1 : ecu.ddrb &&& bv ing1PinNum ≠ 0
  igi : ecu.ddrd &&& bv igiPinNum = 0
  potDrocel : ecu.ddrc &&& bv potDrocelPinNum = 0
  pot0 : ecu.ddrc &&& bv pot0PinNum = 0

theorem Directed.directs {ecu : Ecu} (h : Directed ecu) (statement : Statement) :
    statement.Directs (ddr ecu statement.port) := by
  cases statement with
  | ing0 => exact iff_of_true h.ing0 rfl
  | ing1 => exact iff_of_true h.ing1 rfl
  | igi => exact iff_of_false (not_not.mpr h.igi) Bool.false_ne_true
  | potDrocel => exact iff_of_false (not_not.mpr h.potDrocel) Bool.false_ne_true
  | pot0 => exact iff_of_false (not_not.mpr h.pot0) Bool.false_ne_true

/-- A pin gets its direction exactly when no other statement on its register follows. -/
theorem directs_final_iff {order : List Statement} (ecu : Ecu) {statement : Statement}
    (h : statement ∈ order) :
    statement.Directs (ddr (Run.final Statement.run ecu order) statement.port) ↔
      Assignment.lastOn Statement.port statement.port order = some statement := by
  rw [ddr_final]
  apply Assignment.wants_final_iff
  · exact (Statement.directs_value_iff rfl).mpr rfl
  · exact fun other hport => (Statement.directs_value_iff hport).mp
  · exact h

theorem not_directed {order : List Statement} (h : order.Perm directions) {ecu later : Ecu}
    (hlater : ddr later = ddr (Run.final Statement.run ecu order)) : ¬ Directed later := by
  intro hdirected
  have hing0 := hdirected.directs .ing0
  have hing1 := hdirected.directs .ing1
  rw [hlater, directs_final_iff ecu (h.mem_iff.mpr (by decide))] at hing0 hing1
  have hsame := hing0.symm.trans hing1
  exact absurd hsame (by decide)

/-- No order of the five statements gives all pins their direction: two of them assign
`DDRB`, and the later one makes the pin of the other an input. -/
theorem never_directed (ecu : Ecu) (order : List Statement) (horder : order.Perm directions)
    (interrupts : List Interrupt) :
    ¬ Directed (Run.final Statement.run ecu order) ∧
      ¬ Directed (Run.final interrupt (start (Run.final Statement.run ecu order)) interrupts) :=
  ⟨not_directed horder rfl, not_directed horder (ddr_later _ interrupts)⟩

/-- The order of `main` itself, before and after a first result. -/
theorem never_directed_main :
    ¬ Directed (Run.final Statement.run (powerOn 0 0 0 0 0 0) directions) ∧
      ¬ Directed (Run.final interrupt
        (start (Run.final Statement.run (powerOn 0 0 0 0 0 0) directions)) [.adc 128]) :=
  never_directed (powerOn 0 0 0 0 0 0) directions (List.Perm.refl _) [.adc 128]

/-- After `main` the injector pin is an input and the throttle pot pin an output. -/
theorem main_misdirects :
    (main (powerOn 0 0 0 0 0 0)).ddrb &&& bv ing0PinNum = 0 ∧
      (main (powerOn 0 0 0 0 0 0)).ddrc &&& bv potDrocelPinNum ≠ 0 ∧
      ¬ Directed (main (powerOn 0 0 0 0 0 0)) := by
  refine ⟨by decide, by decide, ?_⟩
  rw [main_eq_start]
  exact not_directed (List.Perm.refl _) (ddr_start _)

end OledDs18b20.IngectorControl.Directions
