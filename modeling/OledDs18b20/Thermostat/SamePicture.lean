import OledDs18b20.Thermostat.GraphDivisor
import OledDs18b20.Thermostat.GraphRow

/-! The calls of `draw` in one picture loop, against each other and against the
passes that come after them. -/
namespace OledDs18b20.Thermostat.SamePicture
open Lib Draw GraphDivisor GraphRow Loop

/-- A pass, apart from the loop counter that `draw` leaves in `aab`. -/
def observed (pass : Pass) : Pass :=
  { pass with state := { pass.state with aab := 0 } }

def passes (s : Sketch) (inputs : List PassInput) : List Pass :=
  (Run.visits step s inputs).map fun visit => observed (loop visit.1 visit.2)

/-- The picture loop shows one picture, and no later call and no later pass
reads what a call of `draw` left behind. A call that divides by zero may go on
with any row. -/
structure OnePicture (ypos : Int8) (pages : List Int8) (s : Sketch) : Prop where
  divides : ∀ page ∈ (pictureLoop ypos pages s).1, page.fault ≠ some .divisionByZero
  same : ∀ first ∈ (pictureLoop ypos pages s).1, ∀ second ∈ (pictureLoop ypos pages s).1,
    first = second
  laterDraws : ∀ left later, page later (draw left s).2 = page later s
  laterPasses : ∀ left inputs, passes (draw left s).2 inputs = passes s inputs

/-- Two leftovers stand for the same start row: both at the bottom row of the
frame or below, or both at its top row or above. A frame of height 2 has a
single row, and a lower one none. -/
def SameStart (height left right : Int8) : Prop :=
  left = right ∨ height.toInt ≤ 2 ∨ (61 ≤ left.toInt ∧ 61 ≤ right.toInt) ∨
    (left.toInt ≤ 63 - height.toInt ∧ right.toInt ≤ 63 - height.toInt)

instance (height left right : Int8) : Decidable (SameStart height left right) :=
  inferInstanceAs (Decidable (_ ∨ _))

/-- The start row of the graph is read from `Ypos` before it is written. -/
def ReadsLeftover (s : Sketch) : Prop := s.params 0 = 0 ∧ s.params 2 = 3

theorem clampRow_eq_iff (s : Sketch) (left right : Int8) :
    clampRow s left = clampRow s right ↔ SameStart (s.params 3) left right := by
  rw [← Int8.toInt_inj, clampRow_toInt, clampRow_toInt, SameStart, ← Int8.toInt_inj]
  by_cases hsingle : (s.params 3).toInt ≤ 1
  · rw [if_pos hsingle, if_pos hsingle]
    exact iff_of_true rfl (.inr (.inl (by omega)))
  · rw [if_neg hsingle, if_neg hsingle]
    omega

/-! Only the start row of the first segment depends on the leftover. -/

theorem of_append_inj {commands : List Command} {first second : Page} :
    Page.of commands ++ first = Page.of commands ++ second ↔ first = second := by
  cases first
  cases second
  constructor
  · intro h
    have hcommands := congrArg Page.commands h
    have hfault := congrArg Page.fault h
    simp only [Page.of_append_commands, Page.of_append_fault] at hcommands hfault
    rw [List.append_cancel_left hcommands, hfault]
  · intro h
    rw [h]

theorem segments_start {s : Sketch} (h : s.params 4 ≠ s.params 5) (cell : Fin logsize)
    (rest : List (Fin logsize)) (left right : Int8) :
    segments s (cell :: rest) left = segments s (cell :: rest) right ↔
      clampRow s left = clampRow s right := by
  obtain ⟨drawn, hrow, _⟩ := row_eq h s.log.val.tempLog[cell]
  rw [segments, segments]
  simp only [hrow]
  constructor
  · intro hsame
    have hcommands := congrArg Page.commands hsame
    simp only [Page.of_append_commands, List.cons_append, List.nil_append, List.cons.injEq,
      line, Command.drawLine.injEq] at hcommands
    exact SignedIndex.ofInt_toInt_inj.mp hcommands.1.2.1
  · intro hsame
    rw [hsame]

theorem segments_fails {s : Sketch} (h : s.params 4 = s.params 5) (cell : Fin logsize)
    (rest : List (Fin logsize)) (ypos : Int8) :
    segments s (cell :: rest) ypos = .fail .divisionByZero := by
  have hnone := (row_eq_none_iff s s.log.val.tempLog[cell]).mpr h
  rw [segments]
  simp only [hnone]

theorem limitsGraph_same (s : Sketch) (left right : Int8) :
    limitsGraph left s = limitsGraph right s ↔
      (s.params 4 ≠ s.params 5 → SameStart (s.params 3) left right) := by
  obtain ⟨cell, rest, hcells⟩ : ∃ cell rest, List.finRange logsize = cell :: rest :=
    ⟨_, _, List.finRange_succ⟩
  rw [limitsGraph, limitsGraph, of_append_inj, hcells]
  by_cases hlimits : s.params 4 = s.params 5
  · rw [segments_fails hlimits, segments_fails hlimits]
    exact iff_of_true rfl fun h => absurd hlimits h
  · rw [segments_start hlimits, clampRow_eq_iff]
    exact ⟨fun h _ => h, fun h => h hlimits⟩

theorem append_of_inj {first second : Page} (commands : List Command)
    (hfault : first.fault = second.fault) :
    first ++ Page.of commands = second ++ Page.of commands ↔ first = second := by
  obtain ⟨left, fault⟩ := first
  obtain ⟨right, fault'⟩ := second
  dsimp only at hfault
  subst hfault
  cases fault with
  | none =>
      constructor
      · intro h
        have hcommands : left ++ commands = right ++ commands := congrArg Page.commands h
        rw [List.append_cancel_right hcommands]
      · intro h
        rw [h]
  | some fault => exact Iff.rfl

theorem mainScreen_same (s : Sketch) (left right : Int8) :
    mainScreen left s = mainScreen right s ↔ graph left s = graph right s := by
  have hfault : (graph left s).fault = (graph right s).fault := by
    unfold graph
    split_ifs
    · rfl
    · rfl
    · rw [limitsGraph_fault, limitsGraph_fault]
    · rfl
  unfold mainScreen
  rw [of_append_inj, of_append_inj, append_of_inj _ hfault]

theorem page_same (s : Sketch) (left right : Int8) :
    page left s = page right s ↔
      (ReadsLeftover s → s.params 4 ≠ s.params 5 → SameStart (s.params 3) left right) := by
  unfold page ReadsLeftover
  by_cases hmain : s.params 0 = 0
  · rw [if_pos hmain, if_pos hmain, mainScreen_same]
    unfold graph
    by_cases hlimits : s.params 2 = 3
    · simp only [hlimits, hmain, and_self, true_imp_iff]
      exact limitsGraph_same s left right
    · rw [if_neg hlimits, if_neg hlimits]
      exact iff_of_true rfl fun h => absurd h.2 hlimits
  · rw [if_neg hmain, if_neg hmain]
    exact iff_of_true rfl fun h => absurd h.1 hmain

/-! The loop counter `aab` reaches nothing that a pass observes. -/

theorem press_aab (key : Keys.Key) (s : Sketch) (aab : Int8) :
    Keys.press key { s with aab := aab } = { Keys.press key s with aab := aab } := by
  cases key with
  | switchHeater =>
      simp only [Keys.press, Keys.switchHeater]
      split_ifs <;> rfl
  | menu =>
      simp only [Keys.press, Keys.menu]
      split_ifs <;> rfl
  | next =>
      simp only [Keys.press, Keys.next]
      split_ifs <;> rfl
  | previous =>
      simp only [Keys.press, Keys.previous]
      split_ifs <;> rfl
  | increase =>
      simp only [Keys.press, Keys.increase, Keys.edit]
      split_ifs <;> rfl
  | decrease =>
      simp only [Keys.press, Keys.decrease, Keys.edit]
      split_ifs <;> rfl
  | save => rw [Keys.press, Keys.press, Keys.save_eq, Keys.save_eq]
  | _ => rfl

theorem polled_aab (typeS : UInt8) (dsNum : Fin 4) (s : Sketch) (input : PassInput)
    (aab : Int8) : polled typeS dsNum { s with aab := aab } input =
      { polled typeS dsNum s input with aab := aab } := by
  rw [polled_eq, polled_eq]
  rfl

theorem irKeys_aab (s : Sketch) (input : PassInput) (aab : Int8) :
    irKeys { s with aab := aab } input = { irKeys s input with aab := aab } := by
  have hkeep : ({ s with aab := aab } : Sketch).irrecv = s.irrecv := rfl
  rcases Option.eq_none_or_eq_some s.irrecv with hheld | ⟨value, hheld⟩
  · rw [irKeys_none input (hkeep.trans hheld), irKeys_none input hheld]
  · have hpress := press_aab (Keys.Key.ofValue value) { s with results := value } aab
    rw [irKeys_some input (hkeep.trans hheld), irKeys_some input hheld, Keys.handle,
      Keys.handle, hpress]

theorem observed_full (typeS : UInt8) (dsNum : Fin 4) (s : Sketch) (input : PassInput) :
    observed (fullPass typeS dsNum s input) =
      { state := { irKeys (polled typeS dsNum s input) input with aab := 0 }
        returned := none
        sampled := Control.sample (Decode.celsius (Decode.raw typeS input.data)) s
        handled := (polled typeS dsNum s input).irrecv
        events := Mailbox.arrivals input.early ++
          irEvents (polled typeS dsNum s input).irrecv input
        frame := (input.ypos :: input.pages).map fun left =>
          page left (irKeys (polled typeS dsNum s input) input) } := by
  obtain ⟨aab, hstate⟩ := pictureLoop_state input.ypos input.pages
    (irKeys (polled typeS dsNum s input) input)
  dsimp only [observed, fullPass]
  rw [hstate, pictureLoop_pages]

theorem observed_aab (s : Sketch) (aab : Int8) (input : PassInput) :
    observed (loop { s with aab := aab } input) = observed (loop s input) := by
  rcases detect_cases input with ⟨cause, hdetect⟩ | ⟨typeS, dsNum, hdetect⟩
  · rw [loop_early hdetect, loop_early hdetect]
    rfl
  · rw [loop_full hdetect, loop_full hdetect, observed_full, observed_full, polled_aab,
      irKeys_aab]
    simp only [page_aab]
    rfl

/-- States that agree apart from `aab` are observed alike for ever. -/
theorem passes_aab (inputs : List PassInput) (s : Sketch) (aab : Int8) :
    passes { s with aab := aab } inputs = passes s inputs := by
  induction inputs generalizing s aab with
  | nil => rfl
  | cons input rest ih =>
      have hpass := observed_aab s aab input
      have hstate : { step { s with aab := aab } input with aab := 0 } =
          { step s input with aab := 0 } := congrArg Pass.state hpass
      unfold passes at ih ⊢
      rw [Run.visits_cons, Run.visits_cons, List.map_cons, List.map_cons, hpass,
        ← ih (step { s with aab := aab } input) 0, hstate, ih (step s input) 0]

/-- Within one picture loop the calls agree exactly when they do not divide by
zero, and their leftovers stand for the same start row or are not read. -/
theorem one_picture_iff (ypos : Int8) (pages : List Int8) (s : Sketch) :
    OnePicture ypos pages s ↔ LimitsApart s ∧
      (ReadsLeftover s → ∀ left ∈ ypos :: pages, ∀ right ∈ ypos :: pages,
        SameStart (s.params 3) left right) := by
  have hpages (left right : Int8) := page_same s left right
  constructor
  · intro h
    have hdivides := h.divides
    have hsame := h.same
    rw [pictureLoop_pages] at hdivides hsame
    have hapart := (page_drawn_iff ypos s).mp
      (hdivides _ (List.mem_map_of_mem List.mem_cons_self))
    refine ⟨hapart, ?_⟩
    intro reads left hleft right hright
    exact (hpages left right).mp
      (hsame _ (List.mem_map_of_mem hleft) _ (List.mem_map_of_mem hright)) reads
      (hapart reads.1 reads.2)
  · rintro ⟨hapart, h⟩
    refine ⟨?_, ?_, ?_, ?_⟩
    · rw [pictureLoop_pages]
      intro first hfirst
      obtain ⟨left, -, rfl⟩ := List.mem_map.mp hfirst
      exact (page_drawn_iff left s).mpr hapart
    · rw [pictureLoop_pages]
      intro first hfirst second hsecond
      obtain ⟨left, hleft, rfl⟩ := List.mem_map.mp hfirst
      obtain ⟨right, hright, rfl⟩ := List.mem_map.mp hsecond
      exact (hpages left right).mpr fun reads _ => h reads left hleft right hright
    · intro left later
      obtain ⟨aab, hdraw⟩ := draw_state left s
      rw [hdraw, page_aab]
    · intro left inputs
      obtain ⟨aab, hdraw⟩ := draw_state left s
      rw [hdraw, passes_aab]

/-- Graph type 3 on a frame of height 10: the leftovers 0 and 57 start the graph
on different rows. -/
theorem second_page_differs :
    ¬ OnePicture 0 [57] (boot benchBoard (Function.update declaredImage 2 3)) := by
  intro h
  have hsame := h.same
  rw [pictureLoop_pages] at hsame
  have hpage := hsame _ (List.mem_map_of_mem List.mem_cons_self) _
    (List.mem_map_of_mem (List.mem_cons_of_mem 0 List.mem_cons_self))
  rw [page_same] at hpage
  have hreads : ReadsLeftover (boot benchBoard (Function.update declaredImage 2 3)) := by
    unfold ReadsLeftover
    rw [boot_params _ _ (by decide), boot_params _ _ (by decide)]
    decide
  have hapart : (boot benchBoard (Function.update declaredImage 2 3)).params 4 ≠
      (boot benchBoard (Function.update declaredImage 2 3)).params 5 := by
    rw [boot_params _ _ (by decide), boot_params _ _ (by decide)]
    decide
  have hstart := hpage hreads hapart
  rw [boot_params _ _ (by decide)] at hstart
  exact absurd hstart (by decide)

end OledDs18b20.Thermostat.SamePicture
