import OledDs18b20.Thermostat.Sketch

/-! The drawing commands that one call of `draw` issues for the current page,
up to the first operation that C leaves undefined. Coordinates are converted to
the 8-bit `u8g_uint_t` of the library. -/
namespace OledDs18b20.Thermostat.Draw

inductive Bitmap where
  | termometr
  | coldHeater | hotHeater
  | coldTermometr | hotTermometr | goodTemp
deriving DecidableEq

inductive Command where
  | drawBitmapP (x y cnt h : UInt8) (bitmap : Bitmap)
  | setPrintPos (x y : UInt8)
  | printFloat (value : ℚ) (digits : ℕ)
  | printInt (value : ℤ)
  | printStr (text : String)
  | drawPixel (x y : UInt8)
  | drawLine (x1 y1 x2 y2 : UInt8)
deriving DecidableEq

inductive Fault where
  | divisionByZero
  | outsideParams
  | outsideMenuNames
deriving DecidableEq

/-- The commands issued, and the fault that ended the page, if one did. -/
structure Page where
  commands : List Command
  fault : Option Fault
deriving DecidableEq

namespace Page

def of (commands : List Command) : Page := ⟨commands, none⟩

def fail (fault : Fault) : Page := ⟨[], some fault⟩

/-- Nothing is issued after a fault. -/
def andThen (first second : Page) : Page :=
  match first.fault with
  | none => ⟨first.commands ++ second.commands, second.fault⟩
  | some fault => ⟨first.commands, some fault⟩

instance : Append Page := ⟨andThen⟩

@[simp] theorem of_commands (commands : List Command) :
    (of commands).commands = commands := rfl

@[simp] theorem of_fault (commands : List Command) : (of commands).fault = none := rfl

@[simp] theorem fail_fault (fault : Fault) : (fail fault).fault = some fault := rfl

@[simp] theorem of_append_commands (commands : List Command) (second : Page) :
    (of commands ++ second).commands = commands ++ second.commands := rfl

@[simp] theorem of_append_fault (commands : List Command) (second : Page) :
    (of commands ++ second).fault = second.fault := rfl

theorem append_fault (first second : Page) :
    (first ++ second).fault = first.fault.or second.fault := by
  change (andThen first second).fault = _
  unfold andThen
  cases h : first.fault <;> simp

theorem mem_append_commands {command : Command} {first second : Page}
    (h : command ∈ (first ++ second).commands) :
    command ∈ first.commands ∨ command ∈ second.commands := by
  change command ∈ (andThen first second).commands at h
  unfold andThen at h
  cases hfault : first.fault with
  | none => simpa [hfault] using h
  | some fault => exact .inl (by simpa [hfault] using h)

end Page

def width : ℤ := 128
def height : ℤ := 64

def menuParamsName : List String :=
  [" nop", " nop1", "GType", "GHeight", "GMax", "Gmin", "T Off", "T ON", "TInUse",
    "LoadOn", "Sh T", "Sh G", "LogSec", "SCR revers", "ParamCount", "@EOM"]

def dsType : Vector String 4 := #v["DS18S20", "DS18B20", "DS1820", "BAD temp sensor"]

def pixel (x y : ℤ) : Command := .drawPixel (UInt8.ofInt x) (UInt8.ofInt y)

def line (x1 y1 x2 y2 : ℤ) : Command :=
  .drawLine (UInt8.ofInt x1) (UInt8.ofInt y1) (UInt8.ofInt x2) (UInt8.ofInt y2)

def printPos (x y : ℤ) : Command := .setPrintPos (UInt8.ofInt x) (UInt8.ofInt y)

def print2screen (number : UInt8) : List Command :=
  if number < 10 then [.printStr "0", .printInt number.toNat] else [.printInt number.toNat]

def temperature (s : Sketch) : List Command :=
  [.drawBitmapP 3 4 1 8 .termometr, .setPrintPos 12 12,
    .printFloat s.celsius (if 0 ≤ s.celsius then 1 else 0)]

def heaterIcon (s : Sketch) : List Command :=
  (if s.params 9 = 0 then [.drawBitmapP 35 4 1 8 .coldHeater] else []) ++
  (if s.params 9 ≠ 0 then [.drawBitmapP 35 4 1 8 .hotHeater] else [])

def thermostatIcon (s : Sketch) : List Command :=
  if s.params 8 ≠ 0 then
    if s.celsius < (s.params 7).toInt then [.drawBitmapP 43 4 1 8 .coldTermometr]
    else if ((s.params 6).toInt : ℚ) < s.celsius then [.drawBitmapP 43 4 1 8 .hotTermometr]
    else [.drawBitmapP 43 4 1 8 .goodTemp]
  else []

def clock (s : Sketch) : List Command :=
  .setPrintPos 53 12 :: print2screen s.tm.hour ++
    [.printStr (if s.tm.second % 2 ≠ 0 then ":" else ".")] ++ print2screen s.tm.minute ++
    [.printStr ":"] ++ print2screen s.tm.second

def sensorName (s : Sketch) : List Command :=
  [.setPrintPos 4 50, .printStr dsType[s.dsNum]]

def dots (s : Sketch) : List Command :=
  (List.finRange logsize).map fun aab =>
    pixel (s.startXGraph.toInt + aab.val)
      (height - 2 - (s.log.val.tempLog[aab] / 10 : Int16).toInt)

def ringGraph (s : Sketch) : List Command :=
  let x := s.startXGraph.toInt + s.log.val.tempLogIndex.toInt
  dots s ++ [line x (height - 40) x (height - 10)]

def frame (s : Sketch) : List Command :=
  let left := s.startXGraph.toInt
  let right := s.startXGraph.toInt + logsize
  let low := height - 2
  let high := height - 2 - (s.params 3).toInt
  [line left low right low, line left high right high,
    line left low left high, line right low right high,
    printPos (left - 14) (height - 3), .printInt (s.params 5).toInt,
    printPos (left - 14) (height - 2 - ((s.params 3).toInt - s.fontAscent.toInt)),
    .printInt (s.params 4).toInt]

/-- The row of a logged value before clamping, in 16-bit arithmetic and stored
into a `char`. The scale divides by the difference of the limits. -/
def row (s : Sketch) (logged : Int16) : Option Int8 :=
  let range := (s.params 4).toInt16 - (s.params 5).toInt16
  if range = 0 then none
  else
    let scale := (s.params 3).toInt16 / range
    some (Int16.ofInt (height - 2) - (logged / 10 - (s.params 5).toInt16) * scale).toInt8

/-- The two clamps, one after the other, of `Ypos` and of `oldYpos`. -/
def clampRow (s : Sketch) (ypos : Int8) : Int8 :=
  let ypos := if ypos.toInt ≥ height - 2 then Int8.ofInt (height - 3) else ypos
  if ypos.toInt ≤ height - 2 - (s.params 3).toInt then
    Int8.ofInt (height - 2 - ((s.params 3).toInt - 1))
  else ypos

/-- The loop over the log, from the value that `Ypos` holds before it. -/
def segments (s : Sketch) : List (Fin logsize) → Int8 → Page
  | [], _ => .of []
  | aab :: rest, ypos =>
      let oldYpos := clampRow s ypos
      match row s s.log.val.tempLog[aab] with
      | none => .fail .divisionByZero
      | some ypos =>
          let ypos := clampRow s ypos
          .of [line (s.startXGraph.toInt + aab.val - 1) oldYpos.toInt
            (s.startXGraph.toInt + aab.val) ypos.toInt] ++ segments s rest ypos

def limitsGraph (ypos : Int8) (s : Sketch) : Page :=
  .of (frame s) ++ segments s (List.finRange logsize) ypos

def graph (ypos : Int8) (s : Sketch) : Page :=
  if s.params 2 = 1 then .of (ringGraph s)
  else if s.params 2 = 2 then .of (dots s)
  else if s.params 2 = 3 then limitsGraph ypos s
  else .of []

def thermostatZone (s : Sketch) : List Command :=
  if s.params 8 = 1 ∧ s.params 10 = 1 then
    [.setPrintPos 4 24, .printInt (s.params 6).toInt, .printStr ">T>",
      .printInt (s.params 7).toInt]
  else []

def icons (s : Sketch) : List Command :=
  temperature s ++ heaterIcon s ++ thermostatIcon s

def mainScreen (ypos : Int8) (s : Sketch) : Page :=
  .of (icons s) ++ (.of (clock s ++ sensorName s) ++ (graph ypos s ++ .of (thermostatZone s)))

def menuParam (s : Sketch) : Page :=
  match menuParamsName[s.menuIndex]? with
  | none => .fail .outsideMenuNames
  | some name =>
      .of [.setPrintPos 4 24, .printStr name, .printStr "="] ++
      if s.menuIndex < paramCount then
        .of [.printInt (s.params s.menuIndex).toInt, .printStr "|"]
      else .fail .outsideParams

def menuScreen (s : Sketch) : Page :=
  .of [.setPrintPos 2 12, .printStr "menu"] ++
  ((if s.params 0 > 1 then menuParam s else .of []) ++
    .of [.setPrintPos 4 62, .printStr "ParamNum= ", .printInt (s.params 0).toInt])

/-- `ypos` is what the uninitialised local `Ypos` holds when `draw` is entered. -/
def page (ypos : Int8) (s : Sketch) : Page :=
  if s.params 0 = 0 then mainScreen ypos s
  else if s.params 0 > 0 then menuScreen s
  else .of []

/-- `draw` leaves its loop counter in the global `aab` for graph types 1 and 2. -/
def draw (ypos : Int8) (s : Sketch) : Page × Sketch :=
  (page ypos s,
    if s.params 0 = 0 ∧ (s.params 2 = 1 ∨ s.params 2 = 2) then
      { s with aab := Int8.ofNat logsize }
    else s)

/-- The picture loop: one call of `draw` for each page of the display. -/
def pictureLoop (ypos : Int8) : List Int8 → Sketch → List Page × Sketch
  | [], s => ([(draw ypos s).1], (draw ypos s).2)
  | ypos' :: rest, s =>
      let drawn := draw ypos s
      let later := pictureLoop ypos' rest drawn.2
      (drawn.1 :: later.1, later.2)

/-! The global `aab` never reaches a command, so all calls of one picture loop
work on the same variables. -/

theorem segments_aab (s : Sketch) (aab : Int8) (cells : List (Fin logsize)) (ypos : Int8) :
    segments { s with aab := aab } cells ypos = segments s cells ypos := by
  induction cells generalizing ypos with
  | nil => rfl
  | cons cell rest ih =>
      rw [segments, segments]
      change (match row s s.log.val.tempLog[cell] with
        | none => Page.fail .divisionByZero
        | some drawn => _) = _
      cases row s s.log.val.tempLog[cell] with
      | none => rfl
      | some drawn => exact congrArg (Page.of _ ++ ·) (ih _)

theorem page_aab (ypos : Int8) (s : Sketch) (aab : Int8) :
    page ypos { s with aab := aab } = page ypos s := by
  have hlimits : limitsGraph ypos { s with aab := aab } = limitsGraph ypos s := by
    unfold limitsGraph
    rw [segments_aab]
    rfl
  have hgraph : graph ypos { s with aab := aab } = graph ypos s := by
    unfold graph
    rw [hlimits]
    rfl
  have hmain : mainScreen ypos { s with aab := aab } = mainScreen ypos s := by
    unfold mainScreen
    rw [hgraph]
    rfl
  unfold page
  rw [hmain]
  rfl

theorem draw_state (ypos : Int8) (s : Sketch) :
    ∃ aab, (draw ypos s).2 = { s with aab := aab } := by
  unfold draw
  split
  · exact ⟨_, rfl⟩
  · exact ⟨s.aab, rfl⟩

theorem pictureLoop_state (ypos : Int8) (pages : List Int8) (s : Sketch) :
    ∃ aab, (pictureLoop ypos pages s).2 = { s with aab := aab } := by
  induction pages generalizing ypos s with
  | nil => exact draw_state ypos s
  | cons ypos' rest ih =>
      obtain ⟨first, hfirst⟩ := draw_state ypos s
      obtain ⟨last, hlast⟩ := ih ypos' (draw ypos s).2
      rw [hfirst] at hlast
      refine ⟨last, ?_⟩
      rw [pictureLoop, hfirst]
      exact hlast

theorem pictureLoop_pages (ypos : Int8) (pages : List Int8) (s : Sketch) :
    (pictureLoop ypos pages s).1 = (ypos :: pages).map fun left => page left s := by
  induction pages generalizing ypos s with
  | nil => rfl
  | cons ypos' rest ih =>
      obtain ⟨aab, haab⟩ := draw_state ypos s
      rw [pictureLoop, ih, haab]
      simp only [page_aab, List.map_cons]
      rfl

/-! The fault that ends a page, if one does. -/

theorem row_eq_none_iff (s : Sketch) (logged : Int16) :
    row s logged = none ↔ s.params 4 = s.params 5 := by
  have hwiden : (s.params 4).toInt16 = (s.params 5).toInt16 ↔ s.params 4 = s.params 5 := by
    rw [← Int16.toInt_inj, Int8.toInt_toInt16, Int8.toInt_toInt16, Int8.toInt_inj]
  have hrange : (s.params 4).toInt16 - (s.params 5).toInt16 = 0 ↔
      s.params 4 = s.params 5 := by
    rw [← hwiden]
    grind
  unfold row
  by_cases hsame : s.params 4 = s.params 5
  · exact iff_of_true (if_pos (hrange.mpr hsame)) hsame
  · refine iff_of_false ?_ hsame
    rw [if_neg (mt hrange.mp hsame)]
    exact Option.some_ne_none _

theorem segments_fault (s : Sketch) (cells : List (Fin logsize)) (ypos : Int8)
    (h : cells ≠ []) :
    (segments s cells ypos).fault =
      if s.params 4 = s.params 5 then some .divisionByZero else none := by
  induction cells generalizing ypos with
  | nil => exact absurd rfl h
  | cons cell rest ih =>
      rw [segments]
      have hnone := row_eq_none_iff s s.log.val.tempLog[cell]
      cases hrow : row s s.log.val.tempLog[cell] with
      | none => rw [if_pos (hnone.mp hrow), Page.fail_fault]
      | some drawn =>
          have hdiffer : ¬ s.params 4 = s.params 5 := by
            intro hsame
            rw [hnone.mpr hsame] at hrow
            cases hrow
          rw [if_neg hdiffer, Page.of_append_fault]
          cases rest with
          | nil => rfl
          | cons next rest =>
              rw [ih _ (List.cons_ne_nil next rest), if_neg hdiffer]

theorem limitsGraph_fault (ypos : Int8) (s : Sketch) :
    (limitsGraph ypos s).fault =
      if s.params 4 = s.params 5 then some .divisionByZero else none := by
  rw [limitsGraph, Page.of_append_fault]
  exact segments_fault s (List.finRange logsize) ypos (by decide)

/-- Only graph type 3 can fail, and only with equal limits. -/
theorem mainScreen_fault (ypos : Int8) (s : Sketch) :
    (mainScreen ypos s).fault =
      if s.params 2 = 3 ∧ s.params 4 = s.params 5 then some .divisionByZero else none := by
  unfold mainScreen
  rw [Page.of_append_fault, Page.of_append_fault, Page.append_fault, Page.of_fault,
    Option.or_none]
  unfold graph
  by_cases hlimits : s.params 2 = 3
  · simp only [hlimits, true_and]
    rw [if_neg (by decide), if_neg (by decide), if_pos trivial]
    exact limitsGraph_fault ypos s
  · simp only [hlimits, false_and, if_false]
    split_ifs <;> rfl

theorem menuScreen_fault {s : Sketch} (h : s.menuIndex < paramCount) :
    (menuScreen s).fault = none := by
  have hname : s.menuIndex < menuParamsName.length := Nat.lt_succ_of_lt h
  have hparam : (menuParam s).fault = none := by
    unfold menuParam
    rw [List.getElem?_eq_getElem hname, if_pos h]
    rfl
  unfold menuScreen
  rw [Page.of_append_fault, Page.append_fault, Page.of_fault, Option.or_none]
  split_ifs
  · exact hparam
  · rfl

theorem menuScreen_never_divides (s : Sketch) :
    (menuScreen s).fault ≠ some .divisionByZero := by
  have hparam : (menuParam s).fault ≠ some .divisionByZero := by
    unfold menuParam
    cases menuParamsName[s.menuIndex]? with
    | none => simp
    | some name =>
        simp only [Page.of_append_fault]
        split_ifs <;> simp
  unfold menuScreen
  rw [Page.of_append_fault, Page.append_fault, Page.of_fault, Option.or_none]
  split_ifs
  · exact hparam
  · simp

end OledDs18b20.Thermostat.Draw
