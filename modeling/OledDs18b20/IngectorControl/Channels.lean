import OledDs18b20.IngectorControl.Ecu
import OledDs18b20.Lib.Tagged

/-! Which channel a conversion result belongs to, over every sequence of
interrupts that can follow `main`. -/
namespace OledDs18b20.IngectorControl.Channels
open Lib Ecu Tagged

/-- The conversion that an interrupt completes: the channel it was started on,
and the result. -/
def completed (ecu : Ecu) : Interrupt → Option (UInt8 × UInt8)
  | .timer2Ovf => none
  | .adc result => ecu.converting.head?.map fun started => (started, result)

def conversions (ecu : Ecu) (interrupts : List Interrupt) : List (UInt8 × UInt8) :=
  (Run.visits interrupt ecu interrupts).filterMap fun visit => completed visit.1 visit.2

def result? : Interrupt → Option UInt8
  | .timer2Ovf => none
  | .adc result => some result

/-- Channel 0 first, then channel 1, and so on. -/
def turn (k : ℕ) : UInt8 := if k % 2 = 0 then 0 else 1

def latestOf (tag : UInt8) (history : List (UInt8 × UInt8)) : UInt8 := latest tag 0xFF history

/-- The multiplexer, the conversion under way and the two variables after the
conversions of `history`. -/
structure Tied (history : List (UInt8 × UInt8)) (ecu : Ecu) : Prop where
  admux : ecu.admux = 0b01100000 ||| turn history.length
  adcsra : ecu.adcsra = 0b11001110
  sei : ecu.sei = true
  converting : ecu.converting = [turn history.length]
  adch0 : ecu.adch0 = latestOf 0 history
  adch1 : ecu.adch1 = latestOf 1 history

theorem turn_cases (k : ℕ) :
    (turn k = 0 ∧ turn (k + 1) = 1) ∨ (turn k = 1 ∧ turn (k + 1) = 0) := by
  unfold turn
  rcases Nat.mod_two_eq_zero_or_one k with heven | hodd
  · exact .inl ⟨if_pos heven, if_neg (by omega)⟩
  · exact .inr ⟨if_neg (by omega), if_pos (by omega)⟩

theorem main_tied (ddrb ddrc ddrd admux adcsra adch : UInt8) :
    Tied [] (main (powerOn ddrb ddrc ddrd admux adcsra adch)) := by
  rw [main_eq]
  exact ⟨rfl, rfl, rfl, rfl, rfl, rfl⟩

/-- The interrupt routine attributes the result to the channel it was started on
and starts the next conversion on the other channel. -/
theorem Tied.interrupt_adc {history : List (UInt8 × UInt8)} {ecu : Ecu}
    (h : Tied history ecu) (result : UInt8) :
    Tied (history ++ [(turn history.length, result)]) (interrupt ecu (.adc result)) := by
  have hlength : (history ++ [(turn history.length, result)]).length = history.length + 1 :=
    List.length_append
  rw [interrupt]
  rcases turn_cases history.length with ⟨hturn, hnext⟩ | ⟨hturn, hnext⟩
  · have hadmux : ecu.admux = 0b01100000 := by
      rw [h.admux, hturn]
      rfl
    rw [complete_zero result h.converting h.adcsra h.sei hadmux]
    constructor
    · rw [hlength, hnext]
      rfl
    · rfl
    · exact h.sei
    · rw [hlength, hnext]
      rfl
    · rw [hturn, latestOf, latest_concat_same]
    · rw [hturn, latestOf, latest_concat_other (by decide)]
      exact h.adch1
  · have hadmux : ecu.admux = 0b01100001 := by
      rw [h.admux, hturn]
      rfl
    rw [complete_one result h.converting h.adcsra h.sei hadmux]
    constructor
    · rw [hlength, hnext]
      rfl
    · rfl
    · exact h.sei
    · rw [hlength, hnext]
      rfl
    · rw [hturn, latestOf, latest_concat_other (by decide)]
      exact h.adch0
    · rw [hturn, latestOf, latest_concat_same]

theorem conversions_adc {history : List (UInt8 × UInt8)} {ecu : Ecu} (h : Tied history ecu)
    (result : UInt8) (rest : List Interrupt) :
    conversions ecu (.adc result :: rest) =
      (turn history.length, result) :: conversions (interrupt ecu (.adc result)) rest := by
  have hcompleted : completed ecu (.adc result) = some (turn history.length, result) := by
    rw [completed, h.converting]
    rfl
  unfold conversions
  rw [Run.visits_cons, List.filterMap_cons, hcompleted]

theorem run_tied (interrupts : List Interrupt) {history : List (UInt8 × UInt8)} {ecu : Ecu}
    (h : Tied history ecu) (inTurn : InTurn turn history) :
    Tied (history ++ conversions ecu interrupts) (Run.final interrupt ecu interrupts) ∧
      InTurn turn (history ++ conversions ecu interrupts) := by
  induction interrupts generalizing history ecu with
  | nil =>
      rw [conversions, Run.visits_nil, List.filterMap_nil, List.append_nil]
      exact ⟨h, inTurn⟩
  | cons event rest ih =>
      cases event with
      | timer2Ovf => exact ih h inTurn
      | adc result =>
          have hrest := ih (h.interrupt_adc result) (inTurn.concat result)
          rw [List.append_assoc] at hrest
          rw [conversions_adc h]
          exact hrest

/-- While a conversion is under way no result is lost. -/
theorem conversions_snd (interrupts : List Interrupt) {history : List (UInt8 × UInt8)}
    {ecu : Ecu} (h : Tied history ecu) :
    (conversions ecu interrupts).map Prod.snd = interrupts.filterMap result? := by
  induction interrupts generalizing history ecu with
  | nil => rfl
  | cons event rest ih =>
      cases event with
      | timer2Ovf => exact ih h
      | adc result =>
          rw [conversions_adc h, List.map_cons, ih (h.interrupt_adc result)]
          rfl

/-- Every result is delivered, each on the channel whose turn it is; one
conversion is under way between interrupts, and each variable holds the latest
result of its own channel. -/
theorem channels_apart (ddrb ddrc ddrd admux adcsra adch : UInt8)
    (interrupts : List Interrupt) :
    let started := main (powerOn ddrb ddrc ddrd admux adcsra adch)
    let last := Run.final interrupt started interrupts
    let history := conversions started interrupts
    history.map Prod.snd = interrupts.filterMap result? ∧
      InTurn turn history ∧
      last.converting = [turn history.length] ∧
      last.adch0 = latestOf 0 history ∧
      last.adch1 = latestOf 1 history := by
  intro started last history
  have hstarted : Tied [] started := main_tied ddrb ddrc ddrd admux adcsra adch
  obtain ⟨htied, hturns⟩ := run_tied interrupts hstarted (inTurn_nil turn)
  exact ⟨conversions_snd interrupts hstarted, hturns, htied.converting, htied.adch0,
    htied.adch1⟩

example : (Run.final interrupt (main (powerOn 0 0 0 0 0 0))
    [.adc 10, .adc 20, .timer2Ovf, .adc 30]).adch0 = 30 := by decide

end OledDs18b20.IngectorControl.Channels
