import OledDs18b20.Thermostat.SamePicture
import OledDs18b20.U8glib.Shapes

/-! What the display shows after a pass: the commands of `draw`, through the drawing functions and
the picture loop of the display. -/
namespace OledDs18b20.Thermostat.Screen
open U8glib (U8g Font Place)

def bitmapBytes : Draw.Bitmap → List UInt8
  | .hotTermometr => [0b00100010, 0b01100111, 0b00100010, 0b01100000,
      0b00100000, 0b01010000, 0b01110000, 0b00100000]
  | .coldTermometr => [0b00100000, 0b01100000, 0b00100000, 0b01100000,
      0b00100000, 0b01010111, 0b01110000, 0b00100000]
  | .termometr => [0b01000100, 0b11001010, 0b01001000, 0b11001010,
      0b01000100, 0b10100000, 0b11100000, 0b01000000]
  | .hotHeater => [0b00001000, 0b00010000, 0b00100000, 0b00010000,
      0b00001000, 0b00010000, 0b01111110, 0b00100100]
  | .coldHeater => [0, 0, 0, 0, 0, 0, 0b01111110, 0b00100100]
  | .goodTemp => [0b00100010, 0b01100111, 0b00100010, 0b01100000,
      0b00100000, 0b01010111, 0b01110000, 0b00100000]

section Send
variable (font : Font) (text : Draw.Command → List UInt8)

/-- The commands as they reach the display, from a print position on. `text` is what `Print` makes
of a value; every character of it is drawn at the print position and moves it. -/
def send : Place → List Draw.Command → List U8glib.Command
  | _, [] => []
  | _, .setPrintPos x y :: rest => send (x, y) rest
  | pos, .drawBitmapP x y cnt h bitmap :: rest =>
      .drawBitmapP x y cnt h (fun index => (bitmapBytes bitmap)[index]?.getD 0) :: send pos rest
  | pos, .drawPixel x y :: rest => .drawPixel x y :: send pos rest
  | pos, .drawLine x1 y1 x2 y2 :: rest => .drawLine x1 y1 x2 y2 :: send pos rest
  | pos, command :: rest =>
      .drawStr font pos.1 pos.2 (text command) ::
        send (pos.1 + font.advance (text command), pos.2) rest

/-- What one call of `draw` sends. The print position is left over from the call before. -/
def sendPage (starts : ℕ → Place) (frame : List Draw.Page) (number : ℕ) : List U8glib.Command :=
  match frame[number]? with
  | none => []
  | some page => send font text (starts number) page.commands

/-- Bitmaps so narrow that their columns do not wrap. -/
def Narrow : Draw.Command → Prop
  | .drawBitmapP _ _ cnt _ _ => cnt ≤ 32
  | _ => True

variable {font text}

/-- All that `draw` sends is drawn in the one colour, in bitmaps of one byte a row. -/
theorem send_forall {p : U8glib.Command → Prop}
    (hbitmap : ∀ x y cnt h bitmap, cnt ≤ 32 → p (.drawBitmapP x y cnt h bitmap))
    (hpixel : ∀ x y, p (.drawPixel x y)) (hline : ∀ x1 y1 x2 y2, p (.drawLine x1 y1 x2 y2))
    (htext : ∀ x y s, p (.drawStr font x y s)) {commands : List Draw.Command}
    (hnarrow : ∀ command ∈ commands, Narrow command) (pos : Place) :
    ∀ command ∈ send font text pos commands, p command := by
  induction commands generalizing pos with
  | nil => simp [send]
  | cons command rest ih =>
      rw [List.forall_mem_cons] at hnarrow
      have hrest := ih hnarrow.2
      cases command with
      | setPrintPos x y => exact hrest (x, y)
      | drawBitmapP x y cnt h bitmap =>
          rw [send, List.forall_mem_cons]
          exact ⟨hbitmap _ _ _ _ _ hnarrow.1, hrest pos⟩
      | drawPixel x y =>
          rw [send, List.forall_mem_cons]
          exact ⟨hpixel x y, hrest pos⟩
      | drawLine x1 y1 x2 y2 =>
          rw [send, List.forall_mem_cons]
          exact ⟨hline x1 y1 x2 y2, hrest pos⟩
      | printFloat value digits =>
          rw [send, List.forall_mem_cons]
          · exact ⟨htext _ _ _, hrest _⟩
          all_goals simp
      | printInt value =>
          rw [send, List.forall_mem_cons]
          · exact ⟨htext _ _ _, hrest _⟩
          all_goals simp
      | printStr value =>
          rw [send, List.forall_mem_cons]
          · exact ⟨htext _ _ _, hrest _⟩
          all_goals simp

theorem mem_send_pixel {commands : List Draw.Command} {x y : UInt8}
    (h : .drawPixel x y ∈ commands) (pos : Place) :
    .drawPixel x y ∈ send font text pos commands := by
  induction commands generalizing pos with
  | nil => simp at h
  | cons command rest ih =>
      rcases List.mem_cons.mp h with rfl | hrest
      · exact List.mem_cons_self ..
      · cases command with
        | setPrintPos x' y' => exact ih hrest (x', y')
        | drawBitmapP x' y' cnt h' bitmap => exact List.mem_cons_of_mem _ (ih hrest pos)
        | drawPixel x' y' => exact List.mem_cons_of_mem _ (ih hrest pos)
        | drawLine x1 y1 x2 y2 => exact List.mem_cons_of_mem _ (ih hrest pos)
        | printFloat value digits => exact List.mem_cons_of_mem _ (ih hrest _)
        | printInt value => exact List.mem_cons_of_mem _ (ih hrest _)
        | printStr value => exact List.mem_cons_of_mem _ (ih hrest _)

/-- All pages of a pass are drawn from the state that the pass ends in. -/
theorem frame_eq {s : Sketch} {input : Loop.PassInput}
    (hreturned : (Loop.loop s input).returned = none) :
    (Loop.loop s input).frame =
      (input.ypos :: input.pages).map fun left => Draw.page left (Loop.loop s input).state := by
  cases hdetect : Loop.detect input with
  | error cause =>
      rw [Loop.loop_early hdetect] at hreturned
      contradiction
  | ok found => exact Loop.frame_full hdetect

theorem heaterIcon_narrow (s : Sketch) : ∀ command ∈ Draw.heaterIcon s, Narrow command := by
  have hone : (1 : UInt8) ≤ 32 := by decide
  unfold Draw.heaterIcon
  split_ifs <;> simp [Narrow, hone]

theorem thermostatIcon_narrow (s : Sketch) :
    ∀ command ∈ Draw.thermostatIcon s, Narrow command := by
  have hone : (1 : UInt8) ≤ 32 := by decide
  unfold Draw.thermostatIcon
  split_ifs <;> simp [Narrow, hone]

theorem icons_narrow (s : Sketch) : ∀ command ∈ Draw.icons s, Narrow command := by
  have hone : (1 : UInt8) ≤ 32 := by decide
  have htemperature : ∀ command ∈ Draw.temperature s, Narrow command := by
    simp [Draw.temperature, Narrow, hone]
  unfold Draw.icons
  simp only [List.forall_mem_append]
  exact ⟨⟨htemperature, heaterIcon_narrow s⟩, thermostatIcon_narrow s⟩

theorem print2screen_narrow (number : UInt8) :
    ∀ command ∈ Draw.print2screen number, Narrow command := by
  unfold Draw.print2screen
  split_ifs <;> simp [Narrow]

theorem clock_narrow (s : Sketch) : ∀ command ∈ Draw.clock s, Narrow command := by
  have hcolon (text : String) : ∀ command ∈ [Draw.Command.printStr text], Narrow command := by
    simp [Narrow]
  have hhour : ∀ command ∈ .setPrintPos 53 12 :: Draw.print2screen s.tm.hour, Narrow command :=
    List.forall_mem_cons.mpr ⟨trivial, print2screen_narrow _⟩
  unfold Draw.clock
  simp only [List.forall_mem_append]
  exact ⟨⟨⟨⟨hhour, hcolon _⟩, print2screen_narrow _⟩, hcolon _⟩, print2screen_narrow _⟩

theorem dots_narrow (s : Sketch) : ∀ command ∈ Draw.dots s, Narrow command := by
  intro command hcommand
  obtain ⟨aab, -, rfl⟩ := List.mem_map.mp hcommand
  trivial

theorem append_narrow {first second : Draw.Page}
    (hfirst : ∀ command ∈ first.commands, Narrow command)
    (hsecond : ∀ command ∈ second.commands, Narrow command) :
    ∀ command ∈ (first ++ second).commands, Narrow command := by
  intro command hcommand
  rcases Draw.Page.mem_append_commands hcommand with hmem | hmem
  · exact hfirst command hmem
  · exact hsecond command hmem

theorem segments_narrow (s : Sketch) (cells : List (Fin logsize)) (ypos : Int8) :
    ∀ command ∈ (Draw.segments s cells ypos).commands, Narrow command := by
  induction cells generalizing ypos with
  | nil => simp [Draw.segments]
  | cons aab rest ih =>
      unfold Draw.segments
      dsimp only
      split
      · simp [Draw.Page.fail]
      · exact append_narrow (by simp [Draw.line, Narrow]) (ih _)

theorem graph_narrow (left : Int8) (s : Sketch) :
    ∀ command ∈ (Draw.graph left s).commands, Narrow command := by
  have hring : ∀ command ∈ Draw.ringGraph s, Narrow command := by
    unfold Draw.ringGraph
    dsimp only
    rw [List.forall_mem_append]
    exact ⟨dots_narrow s, by simp [Draw.line, Narrow]⟩
  have hframe : ∀ command ∈ Draw.frame s, Narrow command := by
    simp [Draw.frame, Draw.line, Draw.printPos, Narrow]
  unfold Draw.graph
  split_ifs
  · exact hring
  · exact dots_narrow s
  · exact append_narrow hframe (segments_narrow s _ left)
  · simp

theorem menuScreen_narrow (s : Sketch) :
    ∀ command ∈ (Draw.menuScreen s).commands, Narrow command := by
  have hparam : ∀ command ∈ (Draw.menuParam s).commands, Narrow command := by
    unfold Draw.menuParam
    split
    · simp [Draw.Page.fail]
    · apply append_narrow
      · simp [Narrow]
      · split_ifs <;> simp [Draw.Page.fail, Narrow]
  unfold Draw.menuScreen
  apply append_narrow
  · simp [Narrow]
  · apply append_narrow
    · split_ifs
      · exact hparam
      · simp
    · simp [Narrow]

/-- All bitmaps on the screen are one byte wide. -/
theorem page_narrow (left : Int8) (s : Sketch) :
    ∀ command ∈ (Draw.page left s).commands, Narrow command := by
  have hsensor : ∀ command ∈ Draw.sensorName s, Narrow command := by
    simp [Draw.sensorName, Narrow]
  have hzone : ∀ command ∈ Draw.thermostatZone s, Narrow command := by
    unfold Draw.thermostatZone
    split_ifs <;> simp [Narrow]
  unfold Draw.page Draw.mainScreen
  split_ifs
  · apply append_narrow (icons_narrow s)
    apply append_narrow
    · rw [Draw.Page.of_commands, List.forall_mem_append]
      exact ⟨clock_narrow s, hsensor⟩
    · exact append_narrow (graph_narrow left s) hzone
  · exact menuScreen_narrow s
  · simp

/-- Every page places its first text before it prints it. -/
theorem page_begins (left : Int8) (s : Sketch) : (Draw.page left s).commands = [] ∨
    (∃ rest, (Draw.page left s).commands = .setPrintPos 2 12 :: rest) ∨
    ∃ rest, (Draw.page left s).commands =
      .drawBitmapP 3 4 1 8 .termometr :: .setPrintPos 12 12 :: rest := by
  unfold Draw.page
  split_ifs
  · exact .inr (.inr ⟨_, rfl⟩)
  · exact .inr (.inl ⟨_, rfl⟩)
  · exact .inl rfl

theorem send_page (left : Int8) (s : Sketch) (pos pos' : Place) :
    send font text pos (Draw.page left s).commands =
      send font text pos' (Draw.page left s).commands := by
  obtain hnone | ⟨rest, hmenu⟩ | ⟨rest, hmain⟩ := page_begins left s
  · rw [hnone]
    rfl
  · rw [hmenu]
    rfl
  · rw [hmain]
    rfl

end Send

/-- The main screen with the log as dots. -/
theorem page_dots {s : Sketch} (hmain : s.params 0 = 0) (htype : s.params 2 = 1 ∨ s.params 2 = 2)
    (left : Int8) : ∃ graph, (Draw.page left s).commands =
      Draw.icons s ++ ((Draw.clock s ++ Draw.sensorName s) ++
        (graph ++ Draw.thermostatZone s)) ∧
      (graph = Draw.ringGraph s ∨ graph = Draw.dots s) := by
  have hpage : Draw.page left s = Draw.mainScreen left s := if_pos hmain
  rw [hpage]
  unfold Draw.mainScreen Draw.graph
  rcases htype with htype | htype
  · rw [if_pos htype]
    exact ⟨Draw.ringGraph s, rfl, .inl rfl⟩
  · have hnot : ¬ s.params 2 = 1 := by
      rw [htype]
      decide
    rw [if_neg hnot, if_pos htype]
    exact ⟨Draw.dots s, rfl, .inr rfl⟩

/-- Where `draw` puts the dot of a sample. -/
def samplePlace (s : Sketch) (aab : Fin logsize) : Place :=
  (UInt8.ofInt (s.startXGraph.toInt + aab.val),
    UInt8.ofInt (Draw.height - 2 - (s.log.val.tempLog.get aab / 10 : Int16).toInt))

/-- The dot of a sample is drawn on every page. -/
theorem dot_mem {s : Sketch} (hmain : s.params 0 = 0) (htype : s.params 2 = 1 ∨ s.params 2 = 2)
    (left : Int8) (aab : Fin logsize) :
    .drawPixel (samplePlace s aab).1 (samplePlace s aab).2 ∈ (Draw.page left s).commands := by
  obtain ⟨graph, hcommands, hgraph⟩ := page_dots hmain htype left
  have hdots : .drawPixel (samplePlace s aab).1 (samplePlace s aab).2 ∈ Draw.dots s :=
    List.mem_map_of_mem (List.mem_finRange aab)
  have hmem : .drawPixel (samplePlace s aab).1 (samplePlace s aab).2 ∈ graph := by
    rcases hgraph with rfl | rfl
    · exact List.mem_append_left _ hdots
    · exact hdots
  rw [hcommands]
  exact List.mem_append_right _ (List.mem_append_right _ (List.mem_append_left _ hmem))

theorem turn_inside {u : U8g 128} (htotal : u.pb.p.totalHeight = 64) {place : Place}
    (hx : place.1 < 128) (hy : place.2 < 64) : (u.turn place).1 < 128 ∧ (u.turn place).2 < 64 := by
  have hone : UInt8.toNat 1 = 1 := rfl
  have hwidth : UInt8.toNat 128 = 128 := rfl
  have hheight : UInt8.toNat 64 = 64 := rfl
  unfold U8g.turn
  rw [htotal]
  split_ifs
  · simp only [UInt8.lt_iff_toNat_lt, UInt8.toNat_sub, hone, hwidth, hheight] at hx hy ⊢
    omega
  · exact ⟨hx, hy⟩

section Pages
variable {font : Font} {text : Draw.Command → List UInt8} {starts : ℕ → Place}

theorem sendPage_sound (hfont : ∀ encoding glyph, font.glyph encoding = some glyph → glyph.Padded)
    (lefts : List Int8) (s : Sketch) (number : ℕ) : ∀ command ∈
      sendPage font text starts (lefts.map fun left => Draw.page left s) number,
      command.Sound ∧ command.Plain := by
  unfold sendPage
  cases hpage : (lefts.map fun left => Draw.page left s)[number]? with
  | none => simp
  | some page =>
      obtain ⟨left, -, rfl⟩ := List.mem_map.mp (List.mem_of_getElem? hpage)
      apply send_forall
      · exact fun x y cnt h bitmap hcnt => ⟨hcnt, fun _ => rfl⟩
      · exact fun x y => ⟨trivial, fun _ => rfl⟩
      · exact fun x1 y1 x2 y2 => ⟨trivial, fun _ => rfl⟩
      · exact fun x y s => ⟨hfont, fun _ => rfl⟩
      · exact page_narrow left s

theorem sendPage_eq {lefts : List Int8} (s : Sketch) {number : ℕ} (h : number < lefts.length) :
    ∃ left ∈ lefts, sendPage font text starts (lefts.map fun left => Draw.page left s) number =
      send font text (0, 0) (Draw.page left s).commands := by
  have hpage : (lefts.map fun left => Draw.page left s)[number]? =
      some (Draw.page lefts[number] s) := by
    rw [List.getElem?_map, List.getElem?_eq_getElem h]
    rfl
  refine ⟨lefts[number], List.getElem_mem h, ?_⟩
  rw [sendPage, hpage]
  exact send_page _ _ _ _

end Pages

/-- A display of 128x64 that draws in a visible colour and acknowledges what is written to it. -/
structure Ready (acknowledged : ℕ → ℕ) (u : U8g 128) : Prop where
  pageHeight : u.pb.p.pageHeight = 8
  totalHeight : u.pb.p.totalHeight = 64
  color : u.color ≠ 0
  whole : ∀ number < 8, UInt8.toNat 128 ≤ acknowledged number

/-- After a pass a place is lit if and only if the call of `draw` for its page drew on it. -/
theorem lit_iff {s : Sketch} {input : Loop.PassInput}
    (hreturned : (Loop.loop s input).returned = none) (hpages : input.pages.length = 7)
    {font : Font} (hfont : ∀ encoding glyph, font.glyph encoding = some glyph → glyph.Padded)
    (text : Draw.Command → List UInt8) (starts : ℕ → Place) {acknowledged : ℕ → ℕ} {u : U8g 128}
    (hready : Ready acknowledged u) :
    ∃ u', U8g.pictureLoop acknowledged (sendPage font text starts (Loop.loop s input).frame) 8 0
        u.firstPage = some u' ∧
      ∀ place : Place, place.1 < 128 → place.2 < 64 → ∃ left ∈ input.ypos :: input.pages,
        (u'.shown (u.turn place) = true ↔ ∃ command ∈
          send font text (0, 0) (Draw.page left (Loop.loop s input).state).commands,
          place ∈ command.places) := by
  rw [frame_eq hreturned]
  have hsound := @sendPage_sound font text starts hfont (input.ypos :: input.pages)
    (Loop.loop s input).state
  have hplain := fun number command hcommand => (hsound number command hcommand).2
  have hrows : u.pb.p.totalHeight.toNat = 8 * 8 := by
    rw [hready.totalHeight]
    rfl
  obtain ⟨u', hloop, hshown⟩ := U8g.pictureLoop_whole u hready.pageHeight hrows (by decide)
    hready.whole fun number _ command hcommand => (hsound number command hcommand).1
  refine ⟨u', hloop, ?_⟩
  intro place hx hy
  obtain ⟨hx', hy'⟩ := turn_inside hready.totalHeight hx hy
  have hrow : (u.turn place).2.toNat / 8 < 8 := by
    have hheight : UInt8.toNat 64 = 64 := rfl
    rw [UInt8.lt_iff_toNat_lt, hheight] at hy'
    omega
  have hlength : (u.turn place).2.toNat / 8 < (input.ypos :: input.pages).length := by
    rw [List.length_cons, hpages]
    exact hrow
  obtain ⟨left, hleft, hsend⟩ := @sendPage_eq font text starts _ (Loop.loop s input).state _ hlength
  refine ⟨left, hleft, ?_⟩
  rw [hshown _ hx' (hready.totalHeight ▸ hy'), U8glib.colorBefore_plain hplain,
    U8g.turn_turn, U8glib.picture_plain_iff hready.color (hplain _), hsend]

/-- A font that has only a minus sign. -/
def minusFont : Font where
  calcVref := 0
  glyph encoding := if encoding = 45 then some ⟨3, 1, 4, 0, 2, fun _ => 0b11100000⟩ else none

theorem minusFont_padded : ∀ encoding glyph, minusFont.glyph encoding = some glyph →
    glyph.Padded := by
  intro encoding glyph hglyph
  unfold minusFont at hglyph
  dsimp only at hglyph
  split_ifs at hglyph
  obtain rfl := Option.some.inj hglyph
  unfold U8glib.Glyph.Padded
  decide

def benchSketch : Sketch :=
  (List.replicate 5 (Loop.benchPass [])).foldl Loop.step
    (Loop.boot Loop.benchBoard Loop.declaredImage)

def benchInput : Loop.PassInput := { Loop.benchPass [] with pages := List.replicate 7 0 }

theorem ssd1306_ready : Ready (fun _ => 128) U8g.ssd1306 :=
  ⟨rfl, rfl, by decide, fun _ _ => le_rfl⟩

/-- What the display shows after a pass is one call of `draw`, whole, upside down if the display
is: if that call comes to its end, and the calls do not begin a graph between the limits on
different rows. -/
theorem pass_shown {s : Sketch} {input : Loop.PassInput}
    (hreturned : (Loop.loop s input).returned = none) (hpages : input.pages.length = 7)
    {commands : List Draw.Command}
    (hdrawn : Draw.page input.ypos (Loop.loop s input).state = .of commands)
    (hstart : SamePicture.ReadsLeftover (Loop.loop s input).state → ∀ left ∈ input.pages,
      SamePicture.SameStart ((Loop.loop s input).state.params 3) left input.ypos)
    {font : Font} (hfont : ∀ encoding glyph, font.glyph encoding = some glyph → glyph.Padded)
    (text : Draw.Command → List UInt8) (starts : ℕ → Place) {acknowledged : ℕ → ℕ} {u : U8g 128}
    (hready : Ready acknowledged u) :
    ∃ u', U8g.pictureLoop acknowledged (sendPage font text starts (Loop.loop s input).frame) 8 0
        u.firstPage = some u' ∧
      ∀ place : Place, place.1 < 128 → place.2 < 64 →
        (u'.shown (u.turn place) = true ↔
          ∃ command ∈ send font text (0, 0) commands, place ∈ command.places) := by
  obtain ⟨u', hloop, hlit⟩ := lit_iff hreturned hpages hfont text starts hready
  refine ⟨u', hloop, ?_⟩
  intro place hx hy
  obtain ⟨left, hleft, hshown⟩ := hlit place hx hy
  have hsame : Draw.page left (Loop.loop s input).state = .of commands := by
    rcases List.mem_cons.mp hleft with rfl | hlater
    · exact hdrawn
    · rw [← hdrawn]
      exact (SamePicture.page_same _ _ _).mpr fun hreads _ => hstart hreads left hlater
  rw [hshown, hsame]
  rfl

theorem pass_shown_bench : ∃ u', U8g.pictureLoop (fun _ => 128)
      (sendPage minusFont (fun _ => [45]) (fun _ => (0, 0))
        (Loop.loop benchSketch benchInput).frame) 8 0
      U8g.ssd1306.firstPage = some u' ∧
    ∀ place : Place, place.1 < 128 → place.2 < 64 →
      (u'.shown (U8g.ssd1306.turn place) = true ↔ ∃ command ∈
        send minusFont (fun _ => [45]) (0, 0)
          (Draw.page 0 (Loop.loop benchSketch benchInput).state).commands,
        place ∈ command.places) := by
  have hreturned : (Loop.loop benchSketch benchInput).returned = none := by
    decide +kernel
  have hdrawn : Draw.page 0 (Loop.loop benchSketch benchInput).state =
      .of (Draw.page 0 (Loop.loop benchSketch benchInput).state).commands := by
    decide +kernel
  have hunread : ¬ SamePicture.ReadsLeftover (Loop.loop benchSketch benchInput).state := by
    unfold SamePicture.ReadsLeftover
    decide +kernel
  exact pass_shown hreturned rfl hdrawn (fun hreads => absurd hreads hunread) minusFont_padded
    (fun _ => [45]) (fun _ => (0, 0)) ssd1306_ready

/-- From the log to the display: after a pass with graph type 1 or 2 on the main screen, every
sample of the log is a dot of the display, upside down if the display is, whatever the font, the
texts, and what else is drawn. -/
theorem samples_shown {s : Sketch} {input : Loop.PassInput}
    (hreturned : (Loop.loop s input).returned = none) (hpages : input.pages.length = 7)
    (hmain : (Loop.loop s input).state.params 0 = 0)
    (htype : (Loop.loop s input).state.params 2 = 1 ∨ (Loop.loop s input).state.params 2 = 2)
    {font : Font} (hfont : ∀ encoding glyph, font.glyph encoding = some glyph → glyph.Padded)
    (text : Draw.Command → List UInt8) (starts : ℕ → Place) {acknowledged : ℕ → ℕ} {u : U8g 128}
    (hready : Ready acknowledged u) :
    ∃ u', U8g.pictureLoop acknowledged (sendPage font text starts (Loop.loop s input).frame) 8 0
        u.firstPage = some u' ∧
      ∀ aab, (samplePlace (Loop.loop s input).state aab).1 < 128 →
        (samplePlace (Loop.loop s input).state aab).2 < 64 →
        u'.shown (u.turn (samplePlace (Loop.loop s input).state aab)) = true := by
  obtain ⟨u', hloop, hlit⟩ := lit_iff hreturned hpages hfont text starts hready
  refine ⟨u', hloop, ?_⟩
  intro aab hx hy
  obtain ⟨left, -, hshown⟩ := hlit _ hx hy
  exact hshown.mpr
    ⟨_, mem_send_pixel (dot_mem hmain htype left aab) _, List.mem_singleton_self _⟩

theorem samples_shown_bench : ∃ u', U8g.pictureLoop (fun _ => 128)
      (sendPage minusFont (fun _ => [45]) (fun _ => (0, 0))
        (Loop.loop benchSketch benchInput).frame) 8 0
      U8g.ssd1306.firstPage = some u' ∧ u'.shown (77, 42) = true := by
  have hreturned : (Loop.loop benchSketch benchInput).returned = none := by
    decide +kernel
  have hplace : samplePlace (Loop.loop benchSketch benchInput).state ⟨1, by decide⟩ =
      (77, 42) := by
    decide +kernel
  have hturn : U8g.ssd1306.turn (77, 42) = (77, 42) := rfl
  obtain ⟨u', hloop, hshown⟩ := samples_shown hreturned rfl (by decide +kernel)
    (.inl (by decide +kernel)) minusFont_padded (fun _ => [45]) (fun _ => (0, 0)) ssd1306_ready
  have hsample := hshown ⟨1, by decide⟩
  rw [hplace, hturn] at hsample
  exact ⟨u', hloop, hsample (by decide) (by decide)⟩

end OledDs18b20.Thermostat.Screen
