import OledDs18b20.Lib.Run

/-! A mailbox with one place: it holds the first message that arrives until it
is taken, and ignores the messages that arrive meanwhile. -/
namespace OledDs18b20.Lib.Mailbox

inductive Event (α : Type*) where
  | arrive (message : α)
  | take

variable {α : Type*}

def step : Option α → Event α → Option α
  | none, .arrive message => some message
  | some held, .arrive _ => some held
  | _, .take => none

/-! What one event does to the message it is about. -/

def accepted : Option α × Event α → Option α
  | (none, .arrive message) => some message
  | _ => none

def ignored : Option α × Event α → Option α
  | (some _, .arrive message) => some message
  | _ => none

def taken : Option α × Event α → Option α
  | (held, .take) => held
  | _ => none

def arrived : Option α × Event α → Option α
  | (_, .arrive message) => some message
  | _ => none

/-- The messages of one kind in the order of a run's events. -/
def collect (kind : Option α × Event α → Option α) (slot : Option α)
    (events : List (Event α)) : List α :=
  (Run.visits step slot events).filterMap kind

@[simp] theorem collect_nil (kind : Option α × Event α → Option α) (slot : Option α) :
    collect kind slot [] = [] := rfl

theorem collect_cons (kind : Option α × Event α → Option α) (slot : Option α)
    (event : Event α) (rest : List (Event α)) :
    collect kind slot (event :: rest) =
      (kind (slot, event)).toList ++ collect kind (step slot event) rest := by
  unfold collect
  rw [Run.visits_cons, List.filterMap_cons]
  cases kind (slot, event) <;> rfl

theorem collect_append (kind : Option α × Event α → Option α) (slot : Option α)
    (left right : List (Event α)) :
    collect kind slot (left ++ right) =
      collect kind slot left ++ collect kind (Run.final step slot left) right := by
  unfold collect
  rw [Run.visits_append, List.filterMap_append]

/-- Every accepted message is taken once, in the order of acceptance, or is
still held at the end. -/
theorem taken_append_held (slot : Option α) (events : List (Event α)) :
    collect taken slot events ++ (Run.final step slot events).toList =
      slot.toList ++ collect accepted slot events := by
  induction events generalizing slot with
  | nil => simp
  | cons event rest ih =>
      rw [collect_cons, collect_cons, Run.final_cons, List.append_assoc, ih]
      cases event <;> cases slot <;> rfl

/-- Acceptance keeps the order of arrival. -/
theorem accepted_sublist (slot : Option α) (events : List (Event α)) :
    List.Sublist (collect accepted slot events) (collect arrived slot events) := by
  induction events generalizing slot with
  | nil => simp
  | cons event rest ih =>
      rw [collect_cons, collect_cons]
      refine List.Sublist.append ?_ (ih _)
      cases event <;> cases slot <;> simp [accepted, arrived]

/-- The first message to an empty mailbox is accepted. -/
theorem accepted_of_single {events : List (Event α)} {message : α}
    (h : collect arrived none events = [message]) : collect accepted none events = [message] := by
  induction events with
  | nil => simp at h
  | cons event rest ih =>
      rw [collect_cons] at h ⊢
      cases event with
      | take => exact ih h
      | arrive first =>
          obtain ⟨rfl, hrest⟩ := List.cons.inj h
          have hnone := accepted_sublist (some first) rest
          have hrest' : collect arrived (some first) rest = [] := hrest
          rw [hrest', List.sublist_nil] at hnone
          exact congrArg (first :: ·) hnone

def arrivals (messages : List α) : List (Event α) :=
  messages.map .arrive

end OledDs18b20.Lib.Mailbox
