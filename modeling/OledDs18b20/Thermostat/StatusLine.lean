import OledDs18b20.Thermostat.Loop

/-! The icons of the main screen against what the control part of the same pass
did. -/
namespace OledDs18b20.Thermostat.StatusLine
open Lib Loop Draw

def bitmap? : Command → Option Bitmap
  | .drawBitmapP _ _ _ _ bitmap => some bitmap
  | _ => none

def bitmaps (commands : List Command) : List Bitmap :=
  commands.filterMap bitmap?

def Shows (page : Page) (bitmap : Bitmap) : Prop :=
  bitmap ∈ bitmaps page.commands

/-- The pass reaches its end without a key, on the main screen. -/
structure MainScreen (s : Sketch) (input : PassInput) (typeS : UInt8) (dsNum : Fin 4) :
    Prop where
  detected : detect input = .ok (typeS, dsNum)
  keyless : receive input.early s.irrecv = none
  closed : s.params 0 = 0

/-- One picture agrees with the pass; `atKeys` is the state that the control
part leaves, and it acts as a thermostat when `Params[8]` is 1. -/
structure Agrees (s : Sketch) (input : PassInput) (page : Page) : Prop where
  thermostat : (Shows page .coldTermometr ∨ Shows page .hotTermometr ∨
    Shows page .goodTemp) ↔ s.params 8 = 1
  tooCold : Shows page .coldTermometr → (atKeys s input).params 9 = 1
  tooHot : Shows page .hotTermometr → (atKeys s input).params 9 = 0
  heater : Shows page .hotHeater ↔ (step s input).pins = .on

/-- The thermostat switch has one of its two values, the temperature is not on
both wrong sides of crossed limits, and the outputs follow a known command. -/
structure Consistent (celsius : ℚ) (s : Sketch) : Prop where
  used : s.params 8 = 0 ∨ s.params 8 = 1
  limits : s.params 8 = 1 → ¬ (Control.TooHot celsius s ∧ Control.TooCold celsius s)
  command : Control.Decided celsius s ∨ s.pins = .on

theorem bitmaps_append (left right : List Command) :
    bitmaps (left ++ right) = bitmaps left ++ bitmaps right :=
  List.filterMap_append

theorem print2screen_bitmaps (number : UInt8) : bitmaps (print2screen number) = [] := by
  unfold print2screen
  split_ifs <;> rfl

theorem clock_bitmaps (s : Sketch) : bitmaps (clock s) = [] := by
  have hhour : bitmaps (.setPrintPos 53 12 :: print2screen s.tm.hour) = [] :=
    print2screen_bitmaps s.tm.hour
  unfold clock
  simp only [bitmaps_append, hhour, print2screen_bitmaps]
  rfl

theorem dots_bitmaps (s : Sketch) : bitmaps (dots s) = [] := by
  unfold bitmaps
  rw [List.filterMap_eq_nil_iff]
  intro command hcommand
  obtain ⟨cell, _, rfl⟩ := List.mem_map.mp hcommand
  rfl

theorem segments_bitmaps (s : Sketch) (cells : List (Fin logsize)) (ypos : Int8) :
    bitmaps (segments s cells ypos).commands = [] := by
  induction cells generalizing ypos with
  | nil => rfl
  | cons cell rest ih =>
      rw [segments]
      cases row s s.log.val.tempLog[cell] with
      | none => rfl
      | some drawn =>
          rw [Page.of_append_commands, bitmaps_append, ih]
          rfl

theorem graph_bitmaps (ypos : Int8) (s : Sketch) :
    bitmaps (graph ypos s).commands = [] := by
  unfold graph
  split_ifs
  · rw [Page.of_commands, ringGraph, bitmaps_append, dots_bitmaps]
    rfl
  · exact dots_bitmaps s
  · rw [limitsGraph, Page.of_append_commands, bitmaps_append, segments_bitmaps]
    rfl
  · rfl

theorem zone_bitmaps (s : Sketch) : bitmaps (thermostatZone s) = [] := by
  unfold thermostatZone
  split_ifs <;> rfl

theorem append_bitmaps {first second : Page} (hfirst : bitmaps first.commands = [])
    (hsecond : bitmaps second.commands = []) : bitmaps (first ++ second).commands = [] := by
  unfold bitmaps at hfirst hsecond ⊢
  rw [List.filterMap_eq_nil_iff] at hfirst hsecond ⊢
  intro command hcommand
  rcases Page.mem_append_commands hcommand with hin | hin
  · exact hfirst command hin
  · exact hsecond command hin

/-- Only the icons draw bitmaps, and they come before anything that can fail. -/
theorem mainScreen_bitmaps (ypos : Int8) (s : Sketch) :
    bitmaps (mainScreen ypos s).commands = bitmaps (icons s) := by
  have hgraph : bitmaps (graph ypos s ++ Page.of (thermostatZone s)).commands = [] :=
    append_bitmaps (graph_bitmaps ypos s) (zone_bitmaps s)
  have hname : bitmaps (sensorName s) = [] := rfl
  unfold mainScreen
  rw [Page.of_append_commands, Page.of_append_commands, bitmaps_append, bitmaps_append,
    bitmaps_append, clock_bitmaps, hname, hgraph]
  exact List.append_nil _

theorem icons_bitmaps (s : Sketch) :
    bitmaps (icons s) =
      [.termometr] ++ (if s.params 9 = 0 then [.coldHeater] else [.hotHeater]) ++
        if s.params 8 = 0 then []
        else if Control.TooCold s.celsius s then [.coldTermometr]
        else if Control.TooHot s.celsius s then [.hotTermometr]
        else [.goodTemp] := by
  have hheater : bitmaps (heaterIcon s) =
      if s.params 9 = 0 then [.coldHeater] else [.hotHeater] := by
    unfold heaterIcon
    by_cases hoff : s.params 9 = 0
    · simp only [hoff, ne_eq, not_true_eq_false, if_true, if_false]
      rfl
    · simp only [hoff, ne_eq, not_false_eq_true, if_true, if_false]
      rfl
  have hthermostat : bitmaps (thermostatIcon s) =
      if s.params 8 = 0 then []
      else if Control.TooCold s.celsius s then [.coldTermometr]
      else if Control.TooHot s.celsius s then [.hotTermometr]
      else [.goodTemp] := by
    have hicon : thermostatIcon s =
        if s.params 8 = 0 then []
        else if Control.TooCold s.celsius s then [.drawBitmapP 43 4 1 8 .coldTermometr]
        else if Control.TooHot s.celsius s then [.drawBitmapP 43 4 1 8 .hotTermometr]
        else [.drawBitmapP 43 4 1 8 .goodTemp] := by
      unfold thermostatIcon
      rw [ite_not]
      rfl
    rw [hicon]
    split_ifs <;> rfl
  unfold icons
  rw [bitmaps_append, bitmaps_append, hheater, hthermostat]
  rfl

/-! Which icons the main screen shows. -/

section Shows
variable {page : Page} {s : Sketch} (h : bitmaps page.commands = bitmaps (icons s))
include h

theorem shows_hotHeater : Shows page .hotHeater ↔ s.params 9 ≠ 0 := by
  unfold Shows
  rw [h, icons_bitmaps]
  split_ifs <;> simp_all

theorem shows_coldTermometr :
    Shows page .coldTermometr ↔ s.params 8 ≠ 0 ∧ Control.TooCold s.celsius s := by
  unfold Shows
  rw [h, icons_bitmaps]
  split_ifs <;> simp_all

theorem shows_hotTermometr :
    Shows page .hotTermometr ↔ s.params 8 ≠ 0 ∧ ¬ Control.TooCold s.celsius s ∧
      Control.TooHot s.celsius s := by
  unfold Shows
  rw [h, icons_bitmaps]
  split_ifs <;> simp_all

theorem shows_goodTemp :
    Shows page .goodTemp ↔ s.params 8 ≠ 0 ∧ ¬ Control.TooCold s.celsius s ∧
      ¬ Control.TooHot s.celsius s := by
  unfold Shows
  rw [h, icons_bitmaps]
  split_ifs <;> simp_all

end Shows

theorem shows_thermostat {page : Page} {s : Sketch}
    (h : bitmaps page.commands = bitmaps (icons s)) :
    (Shows page .coldTermometr ∨ Shows page .hotTermometr ∨ Shows page .goodTemp) ↔
      s.params 8 ≠ 0 := by
  rw [shows_coldTermometr h, shows_hotTermometr h, shows_goodTemp h]
  tauto

section MainScreen
variable {s : Sketch} {input : PassInput} {typeS : UInt8} {dsNum : Fin 4}

theorem frame_bitmaps (h : MainScreen s input typeS dsNum) {page : Page}
    (hpage : page ∈ (loop s input).frame) :
    bitmaps page.commands = bitmaps (icons (polled typeS dsNum s input)) := by
  obtain ⟨aab, hstep⟩ := step_keyless h.detected h.keyless
  rw [frame_full h.detected, hstep] at hpage
  obtain ⟨ypos, _, rfl⟩ := List.mem_map.mp hpage
  have hclosed : (polled typeS dsNum s input).params 0 = 0 := by
    rw [polled_params_other _ _ _ _ (by decide)]
    exact h.closed
  unfold Draw.page
  rw [if_pos hclosed, mainScreen_bitmaps]
  rfl

/-- An unknown command leaves the outputs alone, and its icon is the hot one. -/
theorem heater_agrees_iff (celsius : ℚ) (s : Sketch) :
    (Control.command celsius s ≠ 0 ↔
        Control.outputs (Control.command celsius s) s.pins = .on) ↔
      Control.Decided celsius s ∨ s.pins = .on := by
  by_cases hdecided : Control.Decided celsius s
  · refine iff_of_true ?_ (.inl hdecided)
    rcases Control.command_decided.mpr hdecided with hoff | hon
    · rw [hoff]
      have hshown : Pins.off ≠ Pins.on := by decide
      exact iff_of_false (not_not.mpr rfl) hshown
    · rw [hon]
      exact iff_of_true (by decide) rfl
  · have hunknown := mt Control.command_decided.mp hdecided
    rw [not_or] at hunknown
    have houtputs : Control.outputs (Control.command celsius s) s.pins = s.pins := by
      unfold Control.outputs
      rw [if_neg hunknown.2, if_neg hunknown.1]
    rw [houtputs, iff_true_left hunknown.1]
    exact (or_iff_right hdecided).symm

theorem command_hot {celsius : ℚ} {s : Sketch} (used : s.params 8 = 1)
    (hot : Control.TooHot celsius s) : Control.command celsius s = 0 :=
  if_pos ⟨used, hot⟩

theorem command_cold {celsius : ℚ} {s : Sketch} (used : s.params 8 = 1)
    (hot : ¬ Control.TooHot celsius s) (cold : Control.TooCold celsius s) :
    Control.command celsius s = 1 := by
  unfold Control.command
  rw [if_neg (fun h => hot h.2), if_pos ⟨used, cold⟩]

section Frame
variable (h : MainScreen s input typeS dsNum) {page : Page} (hpage : page ∈ (loop s input).frame)
include h hpage

theorem frame_thermostat :
    (Shows page .coldTermometr ∨ Shows page .hotTermometr ∨ Shows page .goodTemp) ↔
      s.params 8 ≠ 0 := by
  rw [shows_thermostat (frame_bitmaps h hpage), polled_params_other _ _ _ _ (by decide)]

theorem frame_coldTermometr :
    Shows page .coldTermometr ↔ s.params 8 ≠ 0 ∧ Control.TooCold (reading typeS input) s := by
  have hshown := shows_coldTermometr (frame_bitmaps h hpage)
  unfold Control.TooCold at hshown
  rw [polled_params_other _ _ _ _ (by decide), polled_params_other _ _ _ _ (by decide),
    polled_celsius] at hshown
  exact hshown

theorem frame_hotTermometr :
    Shows page .hotTermometr ↔ s.params 8 ≠ 0 ∧
      ¬ Control.TooCold (reading typeS input) s ∧ Control.TooHot (reading typeS input) s := by
  have hshown := shows_hotTermometr (frame_bitmaps h hpage)
  unfold Control.TooCold Control.TooHot at hshown
  rw [polled_params_other _ _ _ _ (by decide), polled_params_other _ _ _ _ (by decide),
    polled_params_other _ _ _ _ (by decide), polled_celsius] at hshown
  exact hshown

theorem frame_hotHeater :
    Shows page .hotHeater ↔ Control.command (reading typeS input) s ≠ 0 := by
  rw [shows_hotHeater (frame_bitmaps h hpage), polled_params_nine]

theorem consistent_of_agrees (agrees : Agrees s input page) :
    Consistent (reading typeS input) s := by
  obtain ⟨thermostat, tooCold, _, heater⟩ := agrees
  rw [frame_thermostat h hpage] at thermostat
  rw [atKeys_load h.detected] at tooCold
  rw [frame_hotHeater h hpage, step_pins h.detected] at heater
  refine ⟨?_, ?_, (heater_agrees_iff _ s).mp heater⟩
  · by_cases hzero : s.params 8 = 0
    · exact .inl hzero
    · exact .inr (thermostat.mp hzero)
  · rintro used ⟨hot, cold⟩
    have hshown := tooCold ((frame_coldTermometr h hpage).mpr ⟨by rw [used]; decide, cold⟩)
    rw [command_hot used hot] at hshown
    exact absurd hshown (by decide)

theorem agrees_of_consistent (consistent : Consistent (reading typeS input) s) :
    Agrees s input page := by
  obtain ⟨used, limits, command⟩ := consistent
  have hused : s.params 8 ≠ 0 → s.params 8 = 1 := used.resolve_left
  have hload := atKeys_load (s := s) h.detected
  constructor
  · rw [frame_thermostat h hpage]
    exact ⟨hused, fun hone => by rw [hone]; decide⟩
  · intro shown
    have hcase := (frame_coldTermometr h hpage).mp shown
    have hone := hused hcase.1
    rw [hload]
    exact command_cold hone (fun hot => limits hone ⟨hot, hcase.2⟩) hcase.2
  · intro shown
    have hcase := (frame_hotTermometr h hpage).mp shown
    rw [hload]
    exact command_hot (hused hcase.1) hcase.2.2
  · rw [frame_hotHeater h hpage, step_pins h.detected]
    exact (heater_agrees_iff _ s).mpr command

end Frame

/-- One picture agrees exactly when the state before the pass is consistent. -/
theorem agrees_iff (h : MainScreen s input typeS dsNum) {page : Page}
    (hpage : page ∈ (loop s input).frame) :
    Agrees s input page ↔ Consistent (reading typeS input) s :=
  ⟨consistent_of_agrees h hpage, agrees_of_consistent h hpage⟩

end MainScreen

/-- The status line agrees with the controller in a run exactly when each pass
that draws it meets a consistent state. -/
theorem status_agrees_iff (board : Board) (eeprom : ℕ → UInt8) (inputs : List PassInput) :
    (∀ visit ∈ Run.visits step (boot board eeprom) inputs, ∀ typeS dsNum,
        MainScreen visit.1 visit.2 typeS dsNum →
          ∀ page ∈ (loop visit.1 visit.2).frame, Agrees visit.1 visit.2 page) ↔
      ∀ visit ∈ Run.visits step (boot board eeprom) inputs, ∀ typeS dsNum,
        MainScreen visit.1 visit.2 typeS dsNum →
          Consistent (reading typeS visit.2) visit.1 := by
  constructor
  · intro agrees visit hvisit typeS dsNum hmain
    have hfirst : Draw.page visit.2.ypos (step visit.1 visit.2) ∈
        (loop visit.1 visit.2).frame := by
      rw [frame_full hmain.detected]
      exact List.mem_cons_self
    exact (agrees_iff hmain hfirst).mp (agrees visit hvisit typeS dsNum hmain _ hfirst)
  · intro consistent visit hvisit typeS dsNum hmain page hpage
    exact (agrees_iff hmain hpage).mpr (consistent visit hvisit typeS dsNum hmain)

/-- The declared settings, but switching on below 25 and off above 15 degrees. -/
def crossedImage : ℕ → UInt8 :=
  Function.update (Function.update declaredImage 6 15) 7 25

theorem crossed_main :
    MainScreen (boot benchBoard crossedImage) (benchPass []) 0 1 := by
  constructor
  · decide +kernel
  · rw [boot_irrecv]
    rfl
  · rw [boot_params _ _ (by decide)]
    decide

/-- At 20 degrees, between crossed limits, the icon says too cold and the load
is commanded off. -/
theorem crossed_disagrees :
    ¬ ∀ visit ∈ Run.visits step (boot benchBoard crossedImage) [benchPass []],
      ∀ typeS dsNum, MainScreen visit.1 visit.2 typeS dsNum →
        ∀ page ∈ (loop visit.1 visit.2).frame, Agrees visit.1 visit.2 page := by
  intro agrees
  have hfirst : Draw.page 0 (step (boot benchBoard crossedImage) (benchPass [])) ∈
      (loop (boot benchBoard crossedImage) (benchPass [])).frame := by
    rw [frame_full crossed_main.detected]
    exact List.mem_cons_self
  have hagrees := agrees (boot benchBoard crossedImage, benchPass []) (by simp) 0 1
    crossed_main _ hfirst
  have hraw : Decode.raw 0 (benchPass []).data = 320 := by decide +kernel
  have hreading : reading 0 (benchPass []) = 20 := by
    have hint : (320 : Int16).toInt = 320 := rfl
    rw [reading, hraw, Decode.celsius_eq, hint]
    norm_num
  have hparam : ∀ index < paramCount,
      (boot benchBoard crossedImage).params index = (crossedImage index).toInt8 :=
    fun index => boot_params benchBoard crossedImage
  have hlimits := ((agrees_iff crossed_main hfirst).mp hagrees).limits
    ((hparam 8 (by decide)).trans (by decide))
  rw [hreading] at hlimits
  unfold Control.TooHot Control.TooCold at hlimits
  rw [hparam 6 (by decide), hparam 7 (by decide)] at hlimits
  apply hlimits
  decide +kernel

end OledDs18b20.Thermostat.StatusLine
