import OledDs18b20.Thermostat.Loop

/-! The remote control across passes: the receiver is a mailbox whose message
is taken by the key handler, which the early returns skip. -/
namespace OledDs18b20.Thermostat.Remote
open Lib Loop

def schedule (input : PassInput) : List UInt32 :=
  input.early ++ input.during ++ input.late

/-- The codes that a run applies, in the order in which it applies them. -/
def applied (s : Sketch) (inputs : List PassInput) : List UInt32 :=
  (Run.visits step s inputs).filterMap fun visit => (loop visit.1 visit.2).handled

def events (s : Sketch) (inputs : List PassInput) : List (Mailbox.Event UInt32) :=
  (Run.visits step s inputs).flatMap fun visit => (loop visit.1 visit.2).events

/-- Codes take effect in the order of arrival, none of them twice. -/
def InOrder (s : Sketch) (inputs : List PassInput) : Prop :=
  ∃ accepted : List UInt32, accepted.Sublist (inputs.flatMap schedule) ∧
    applied s inputs ++ (Run.final step s inputs).irrecv.toList =
      s.irrecv.toList ++ accepted

end OledDs18b20.Thermostat.Remote
