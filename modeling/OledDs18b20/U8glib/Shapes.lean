import OledDs18b20.U8glib.Display
import OledDs18b20.U8glib.Line

/-! The figures that the drawing functions stand for, and the picture as one figure over another. -/
namespace OledDs18b20.U8glib
open Lib

/-- Distances wrap as the coordinates do. -/
def rect (x y w h : UInt8) : Set Place := {place | place.1 - x < w ∧ place.2 - y < h}

/-- A table of rows of bytes. -/
def bitmapAt (bitmap : ℕ → UInt8) (cnt h : ℕ) (x y : UInt8) : Set Place :=
  {place | ∃ row < h, ∃ column < 8 * cnt, place = (x + UInt8.ofNat column, y + UInt8.ofNat row) ∧
    bit (bitmap (row * cnt + column / 8)) (column % 8) = true}

/-- The left end of the baseline is at the place. -/
def Glyph.shape (glyph : Glyph) (x y : UInt8) : Set Place :=
  bitmapAt glyph.data ((glyph.width.toNat + 7) / 8) glyph.height.toNat (x + glyph.x)
    (y - glyph.y - glyph.height)

/-- How far a text moves to the right. -/
def Font.advance (font : Font) (s : List UInt8) : UInt8 :=
  (s.map fun encoding => ((font.glyph encoding).map Glyph.dx).getD 0).sum

/-- Characters next to each other, without those that the font does not have. -/
def Font.text (font : Font) (x y : UInt8) (s : List UInt8) : Set Place :=
  {place | ∃ before encoding rest glyph, s = before ++ encoding :: rest ∧
    font.glyph encoding = some glyph ∧ place ∈ glyph.shape (x + font.advance before) y}

/-- The figure of a command. A line is the line that `line_straight` is about. -/
def Command.shape : Command → Set Place
  | .setColorIndex _ => ∅
  | .drawPixel x y => {(x, y)}
  | .drawLine x1 y1 x2 y2 => {place | place ∈ U8glib.places (line x1 y1 x2 y2)}
  | .drawHLine x y w => rect x y w 1
  | .drawVLine x y w => rect x y 1 w
  | .drawFrame x y w h => {place ∈ rect x y w h | place.1 = x ∨ place.1 = x + w - 1 ∨
      place.2 = y ∨ place.2 = y + h - 1}
  | .drawBox x y w h => rect x y w h
  | .drawBitmapP x y cnt h bitmap => bitmapAt bitmap cnt.toNat h.toNat x y
  | .drawStr font x y s => font.text x (y + font.calcVref) s

/-- What the source asks of those who draw frames and boxes, and glyphs whose rows can be counted
in bytes without `w += 7` running over. -/
def Command.Restricted : Command → Prop
  | .drawFrame _ _ w h => w > 0 ∧ h > 0
  | .drawBox _ _ _ h => h > 0
  | .drawStr font _ _ _ => ∀ encoding glyph, font.glyph encoding = some glyph → glyph.width ≤ 248
  | _ => True

theorem rowBytes_eq {width : UInt8} (h : width ≤ 248) :
    ((width + 7) / 8).toNat = (width.toNat + 7) / 8 := by
  have hseven : UInt8.toNat 7 = 7 := rfl
  have height : UInt8.toNat 8 = 8 := rfl
  have hwidest : UInt8.toNat 248 = 248 := rfl
  rw [UInt8.le_iff_toNat_le, hwidest] at h
  rw [UInt8.toNat_div, UInt8.toNat_add, hseven, height, Nat.mod_eq_of_lt (by omega)]

theorem exists_offset_iff (start value length : UInt8) :
    (∃ index < length.toNat, value = start + UInt8.ofNat index) ↔ value - start < length := by
  rw [UInt8.lt_iff_toNat_lt]
  constructor
  · rintro ⟨index, hindex, rfl⟩
    have hsmall := length.toNat_lt
    have hback : start + UInt8.ofNat index - start = UInt8.ofNat index := by grind
    rw [hback, UInt8.toNat_ofNat', Nat.mod_eq_of_lt (by omega)]
    exact hindex
  · intro h
    refine ⟨(value - start).toNat, h, ?_⟩
    rw [UInt8.ofNat_toNat]
    grind

theorem mem_hline_iff {x y w : UInt8} {place : Place} :
    place ∈ places (hline x y w) ↔ place.1 - x < w ∧ place.2 = y := by
  rw [mem_hline, ← exists_offset_iff]
  simp only [Prod.ext_iff]
  tauto

theorem mem_vline_iff {x y h : UInt8} {place : Place} :
    place ∈ places (vline x y h) ↔ place.1 = x ∧ place.2 - y < h := by
  rw [mem_vline, ← exists_offset_iff]
  simp only [Prod.ext_iff]
  tauto

theorem mem_box {x y w h : UInt8} (hh : h > 0) {place : Place} :
    place ∈ places (box x y w h) ↔ place ∈ rect x y w h := by
  have hone : (1 : UInt8) ≤ h := by
    rw [UInt8.le_iff_toNat_le]
    exact UInt8.lt_iff_toNat_lt.mp hh
  have hrows : (h - 1).toNat + 1 = h.toNat := by
    have hpositive : UInt8.toNat 1 ≤ h.toNat := UInt8.le_iff_toNat_le.mp hone
    have hvalue : UInt8.toNat 1 = 1 := rfl
    rw [UInt8.toNat_sub_of_le _ _ hone]
    omega
  rw [box, hrows, mem_boxLoop]
  change _ ↔ place.1 - x < w ∧ place.2 - y < h
  rw [← exists_offset_iff, ← exists_offset_iff]
  constructor
  · rintro ⟨row, hrow, column, hcolumn, rfl⟩
    exact ⟨⟨column, hcolumn, rfl⟩, row, hrow, rfl⟩
  · rintro ⟨⟨column, hcolumn, hx⟩, row, hrow, hy⟩
    exact ⟨row, hrow, column, hcolumn, Prod.ext hx hy⟩

/-- The far side of a frame. -/
theorem sub_lt_of_far {start length value : UInt8} (hlength : length > 0)
    (h : value = start + length - 1) : value - start < length := by
  have hone : (1 : UInt8) ≤ length := by
    rw [UInt8.le_iff_toNat_le]
    exact UInt8.lt_iff_toNat_lt.mp hlength
  have hvalue : UInt8.toNat 1 = 1 := rfl
  have hback : start + length - 1 - start = length - 1 := by grind
  have hpositive : 0 < length.toNat := UInt8.lt_iff_toNat_lt.mp hlength
  rw [h, hback, UInt8.lt_iff_toNat_lt, UInt8.toNat_sub_of_le _ _ hone]
  omega

theorem mem_frame {x y w h : UInt8} (hw : w > 0) (hh : h > 0) {place : Place} :
    place ∈ (Command.drawFrame x y w h).places ↔ place ∈ (Command.drawFrame x y w h).shape := by
  have hplaces : (Command.drawFrame x y w h).places =
      places (hline x y w ++ (vline x y h ++ (vline (x + w - 1) y h ++ hline x (y + h - 1) w))) :=
    congrArg places (List.append_nil _)
  rw [hplaces, places_append, places_append, places_append]
  simp only [List.mem_append, mem_hline_iff, mem_vline_iff]
  change _ ↔ (place.1 - x < w ∧ place.2 - y < h) ∧ _
  have hnear (start length value : UInt8) (hlength : length > 0) (hvalue : value = start) :
      value - start < length := by
    rw [hvalue, UInt8.sub_self]
    exact hlength
  constructor
  · rintro (⟨hcolumn, hy⟩ | ⟨hx, hrow⟩ | ⟨hx, hrow⟩ | ⟨hcolumn, hy⟩)
    · exact ⟨⟨hcolumn, hnear y h _ hh hy⟩, .inr (.inr (.inl hy))⟩
    · exact ⟨⟨hnear x w _ hw hx, hrow⟩, .inl hx⟩
    · exact ⟨⟨sub_lt_of_far hw hx, hrow⟩, .inr (.inl hx)⟩
    · exact ⟨⟨hcolumn, sub_lt_of_far hh hy⟩, .inr (.inr (.inr hy))⟩
  · rintro ⟨⟨hcolumn, hrow⟩, hx | hx | hy | hy⟩
    · exact .inr (.inl ⟨hx, hrow⟩)
    · exact .inr (.inr (.inl ⟨hx, hrow⟩))
    · exact .inl ⟨hcolumn, hy⟩
    · exact .inr (.inr (.inr ⟨hcolumn, hy⟩))

theorem mem_bitmapAt {bitmap : ℕ → UInt8} {cnt h : ℕ} {x y : UInt8} {place : Place} :
    place ∈ places (bitmapRows bitmap cnt h x y 0) ↔ place ∈ bitmapAt bitmap cnt h x y := by
  rw [mem_bitmapRows]
  simp only [Nat.zero_add]
  rfl

theorem mem_glyph {font : Font} {encoding : UInt8} {glyph : Glyph}
    (hglyph : font.glyph encoding = some glyph) (hwidth : glyph.width ≤ 248) (x y : UInt8)
    {place : Place} : place ∈ places ((drawGlyph font x y encoding).1.flatMap Part.calls) ↔
      place ∈ glyph.shape x y := by
  have htop : y - glyph.y - 1 - glyph.height + 1 = y - glyph.y - glyph.height := by grind
  unfold drawGlyph
  rw [hglyph]
  dsimp only
  rw [List.flatMap_singleton, mem_bitmapAt, htop, rowBytes_eq hwidth]
  rfl

theorem mem_text_cons {font : Font} {encoding : UInt8} {s : List UInt8} {x y : UInt8}
    {place : Place} : place ∈ font.text x y (encoding :: s) ↔
      (∃ glyph, font.glyph encoding = some glyph ∧ place ∈ glyph.shape x y) ∨
        place ∈ font.text (x + (drawGlyph font x y encoding).2) y s := by
  have hadvance : (drawGlyph font x y encoding).2 =
      ((font.glyph encoding).map Glyph.dx).getD 0 := by
    unfold drawGlyph
    cases font.glyph encoding <;> rfl
  have hnone : x + font.advance [] = x := UInt8.add_zero x
  have hfirst (before : List UInt8) : x + font.advance (encoding :: before) =
      x + (drawGlyph font x y encoding).2 + font.advance before := by
    rw [hadvance, UInt8.add_assoc]
    rfl
  constructor
  · rintro ⟨before, found, rest, glyph, hs, hglyph, hplace⟩
    cases before with
    | nil =>
        obtain ⟨rfl, rfl⟩ := List.cons.inj hs
        exact .inl ⟨glyph, hglyph, hnone ▸ hplace⟩
    | cons other before =>
        obtain ⟨rfl, rfl⟩ := List.cons.inj hs
        exact .inr ⟨before, found, rest, glyph, rfl, hglyph, hfirst before ▸ hplace⟩
  · rintro (⟨glyph, hglyph, hplace⟩ | ⟨before, found, rest, glyph, rfl, hglyph, hplace⟩)
    · exact ⟨[], encoding, s, glyph, rfl, hglyph, hnone.symm ▸ hplace⟩
    · exact ⟨encoding :: before, found, rest, glyph, rfl, hglyph, hfirst before ▸ hplace⟩

/-- `u8g_DrawStr` draws the text. -/
theorem mem_text {font : Font} {s : List UInt8}
    (hwidth : ∀ encoding glyph, font.glyph encoding = some glyph → glyph.width ≤ 248)
    (x y : UInt8) {place : Place} :
    place ∈ places ((drawStrLoop font x y s).flatMap Part.calls) ↔ place ∈ font.text x y s := by
  induction s generalizing x with
  | nil => simp [drawStrLoop, places, Font.text]
  | cons encoding s ih =>
      rw [drawStrLoop, List.flatMap_append, places_append, List.mem_append, ih, mem_text_cons]
      apply or_congr_left
      cases hglyph : font.glyph encoding with
      | none =>
          have hnothing : (drawGlyph font x y encoding).1 = [] := by
            rw [drawGlyph, hglyph]
          simp [hnothing, places]
      | some glyph =>
          rw [mem_glyph hglyph (hwidth encoding glyph hglyph)]
          simp

theorem sub_lt_one_iff (value start : UInt8) : value - start < 1 ↔ value = start := by
  have hone : UInt8.toNat 1 = 1 := rfl
  rw [UInt8.lt_iff_toNat_lt, hone, Nat.lt_one_iff]
  constructor
  · intro h
    have hnone : value - start = 0 := UInt8.toNat_inj.mp h
    grind
  · rintro rfl
    rw [UInt8.sub_self]
    rfl

/-- Every command draws its figure: not a dot of it is missing, and there is no other. -/
theorem mem_places_iff {command : Command} (hrestricted : command.Restricted) (place : Place) :
    place ∈ command.places ↔ place ∈ command.shape := by
  have hsingle (bbx : Option Bbx) (calls : List Call) :
      places ([Part.mk bbx calls].flatMap Part.calls) = places calls :=
    congrArg places (List.append_nil _)
  cases command with
  | setColorIndex idx => simp [Command.places, Command.parts, places, Command.shape]
  | drawPixel x y => simp [Command.places, Command.parts, places, Command.shape, Call.places]
  | drawLine x1 y1 x2 y2 =>
      rw [Command.places, Command.parts, hsingle]
      rfl
  | drawHLine x y w =>
      rw [Command.places, Command.parts, hsingle, mem_hline_iff, ← sub_lt_one_iff]
      rfl
  | drawVLine x y w =>
      rw [Command.places, Command.parts, hsingle, mem_vline_iff, ← sub_lt_one_iff]
      rfl
  | drawFrame x y w h => exact mem_frame hrestricted.1 hrestricted.2
  | drawBox x y w h =>
      rw [Command.places, Command.parts, hsingle]
      exact mem_box hrestricted
  | drawBitmapP x y cnt h bitmap =>
      rw [Command.places, Command.parts, hsingle]
      exact mem_bitmapAt
  | drawStr font x y s => exact mem_text hrestricted x (y + font.calcVref)

open Classical in
/-- Figures one over another. Colour 0 erases. -/
noncomputable def overlay (color : UInt8) : List Command → (Place → Bool) → Place → Bool
  | [], before => before
  | command :: rest, before =>
      overlay (command.colorAfter color) rest fun place =>
        if place ∈ command.shape then decide (command.colorAfter color ≠ 0) else before place

/-- The picture that the display shows is its figures, one over another: lines in groups of eight
pixels, boxes, bitmaps and texts are drawn whole, and a later one hides an earlier one. -/
theorem picture_eq_overlay (color : UInt8) {commands : List Command}
    (hrestricted : ∀ command ∈ commands, command.Restricted) :
    picture color commands = overlay color commands fun _ => false := by
  have hpaint (before : Place → Bool) :
      Raster.paint (strokes color commands) before = overlay color commands before := by
    induction commands generalizing color before with
    | nil => rfl
    | cons command commands ih =>
        rw [List.forall_mem_cons] at hrestricted
        rw [strokes, Raster.paint_append, ih _ hrestricted.2, overlay]
        congr 1
        funext place
        rw [Pb.inColor, Raster.paint_figure]
        have hmem := mem_places_iff hrestricted.1 place
        by_cases hplace : place ∈ command.shape
        · rw [if_pos (hmem.mpr hplace), if_pos hplace]
        · rw [if_neg (mt hmem.mp hplace), if_neg hplace]
  exact hpaint _

theorem picture_eq_overlay_menu : picture 0 [.setColorIndex 1, .drawBox 0 0 128 10,
      .setColorIndex 0, .drawFrame 250 2 20 6] =
    overlay 0 [.setColorIndex 1, .drawBox 0 0 128 10, .setColorIndex 0,
      .drawFrame 250 2 20 6] fun _ => false :=
  picture_eq_overlay 0 (by simp [Command.Restricted])

/-! Programs that draw in one colour. -/

def Command.Plain (command : Command) : Prop := ∀ color, command.colorAfter color = color

theorem foldl_plain {commands : List Command} (h : ∀ command ∈ commands, command.Plain)
    (color : UInt8) : commands.foldl Command.colorAfter color = color := by
  induction commands with
  | nil => rfl
  | cons command commands ih =>
      rw [List.forall_mem_cons] at h
      rw [List.foldl_cons, h.1 color, ih h.2]

theorem colorBefore_plain {draw : ℕ → List Command}
    (h : ∀ number, ∀ command ∈ draw number, command.Plain) (color : UInt8) (number : ℕ) :
    U8g.colorBefore draw color number = color := by
  apply foldl_plain
  intro command hcommand
  obtain ⟨index, -, hmem⟩ := List.mem_flatMap.mp hcommand
  exact h index command hmem

theorem picture_plain_iff {color : UInt8} (hcolor : color ≠ 0) {commands : List Command}
    (hplain : ∀ command ∈ commands, command.Plain) (place : Place) :
    picture color commands place = true ↔ ∃ command ∈ commands, place ∈ command.places := by
  have hpaint (before : Place → Bool) :
      Raster.paint (strokes color commands) before place = true ↔
        before place = true ∨ ∃ command ∈ commands, place ∈ command.places := by
    induction commands generalizing before with
    | nil => simp [strokes]
    | cons command commands ih =>
        rw [List.forall_mem_cons] at hplain
        rw [strokes, hplain.1 color, Raster.paint_append, ih hplain.2, Pb.inColor,
          Raster.paint_figure, List.exists_mem_cons_iff]
        by_cases hplace : place ∈ command.places <;> simp [hplace, hcolor]
  rw [picture, hpaint]
  simp

end OledDs18b20.U8glib
