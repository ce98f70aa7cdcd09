import OledDs18b20.U8glib.PageBuffer

/-! The drawing functions, as the pixels and groups of eight pixels that they ask of the device.
Most of them look at a bounding box first, and draw nothing if it misses the current page. -/
namespace OledDs18b20.U8glib
open Lib

/-- What a drawing function asks of the device. -/
inductive Call where
  | pixel (x y : UInt8)
  | eightPixel (x y : UInt8) (dir : BitVec 2) (pixel : UInt8)
deriving DecidableEq

def Call.places : Call → List Place
  | .pixel x y => [(x, y)]
  | .eightPixel x y dir bits => dots8 8 x y dir bits

def places (calls : List Call) : List Place := calls.flatMap Call.places

theorem places_cons (call : Call) (calls : List Call) :
    places (call :: calls) = call.places ++ places calls := rfl

theorem places_append (first second : List Call) :
    places (first ++ second) = places first ++ places second :=
  List.flatMap_append

/-! Lines along the axes. -/

/-- The loop of `u8g_draw_hline` (`dir` 0) and `u8g_draw_vline` (`dir` 1), which turns once for
every eight pixels, and the pixels that are left. -/
def strip (dir : BitVec 2) : ℕ → UInt8 → UInt8 → UInt8 → List Call
  | 0, x, y, w =>
      if w ≠ 0 then [.eightPixel x y dir (0xff <<< (((w ^^^ 7) + 1) &&& 7))] else []
  | turns + 1, x, y, w =>
      .eightPixel x y dir 0xff :: strip dir turns (x + 8 * stepX dir) (y + 8 * stepY dir) (w - 8)

def hline (x y w : UInt8) : List Call := strip 0 (w.toNat / 8) x y w

def vline (x y h : UInt8) : List Call := strip 1 (h.toNat / 8) x y h

/-- The loop of `u8g_draw_box`: its test comes after the first row. -/
def boxLoop : ℕ → UInt8 → UInt8 → UInt8 → List Call
  | 0, _, _, _ => []
  | rows + 1, x, y, w => hline x y w ++ boxLoop rows x (y + 1) w

def box (x y w h : UInt8) : List Call := boxLoop ((h - 1).toNat + 1) x y w

/-! Bytes from a table, eight pixels each. -/

def hBitmapP (bitmap : ℕ → UInt8) : ℕ → UInt8 → UInt8 → ℕ → List Call
  | 0, _, _, _ => []
  | cnt + 1, x, y, offset =>
      .eightPixel x y 0 (bitmap offset) :: hBitmapP bitmap cnt (x + 8) y (offset + 1)

/-- The loop over the rows, in `u8g_DrawBitmapP` and in `u8g_draw_glyph`. -/
def bitmapRows (bitmap : ℕ → UInt8) (cnt : ℕ) : ℕ → UInt8 → UInt8 → ℕ → List Call
  | 0, _, _, _ => []
  | h + 1, x, y, offset =>
      hBitmapP bitmap cnt x y offset ++ bitmapRows bitmap cnt h x (y + 1) (offset + cnt)

/-! `u8g_DrawLine` -/

def lineLoop (swapxy : Bool) (dx dy : UInt8) (ystep : UInt8) :
    ℕ → UInt8 → UInt8 → Int8 → List Call
  | 0, _, _, _ => []
  | count + 1, x, y, err =>
      let call := if swapxy then Call.pixel y x else Call.pixel x y
      let err := err - dy.toInt8
      if err < 0 then
        call :: lineLoop swapxy dx dy ystep count (x + 1) (y + ystep) (err + dx.toInt8)
      else call :: lineLoop swapxy dx dy ystep count (x + 1) y err

/-- The line from a place to one further right: the loop turns once for each column. -/
def lineRight (swapxy : Bool) (dx dy x1 y1 x2 y2 : UInt8) : List Call :=
  let ystep : UInt8 := if y2 > y1 then 1 else 0 - 1
  let x2 := if x2 = 255 then x2 - 1 else x2
  let count := if x1 ≤ x2 then (x2 - x1).toNat + 1 else 0
  lineLoop swapxy dx dy ystep count x1 y1 (dx >>> 1).toInt8

def line (x1 y1 x2 y2 : UInt8) : List Call :=
  let dx := if x1 > x2 then x1 - x2 else x2 - x1
  let dy := if y1 > y2 then y1 - y2 else y2 - y1
  let swapxy := decide (dy > dx)
  let (dx, dy, x1, y1, x2, y2) :=
    if swapxy then (dy, dx, y1, x1, y2, x2) else (dx, dy, x1, y1, x2, y2)
  if x1 > x2 then lineRight swapxy dx dy x2 y2 x1 y1 else lineRight swapxy dx dy x1 y1 x2 y2

/-! Bounding boxes. -/

structure Box where
  x0 : UInt8
  y0 : UInt8
  x1 : UInt8
  y1 : UInt8
deriving DecidableEq

structure Bbx where
  x : UInt8
  y : UInt8
  w : UInt8
  h : UInt8
deriving DecidableEq

def isBBXIntersection (currentPage : Box) (bbx : Bbx) : Bool :=
  if isIntersection currentPage.y0 currentPage.y1 bbx.y (bbx.y + bbx.h - 1) = false then false
  else isIntersection currentPage.x0 currentPage.x1 bbx.x (bbx.x + bbx.w - 1)

/-- Calls that are made only if the bounding box, where there is one, meets the page. -/
structure Part where
  bbx : Option Bbx
  calls : List Call

def Part.run (currentPage : Box) (part : Part) : List Call :=
  match part.bbx with
  | none => part.calls
  | some bbx => if isBBXIntersection currentPage bbx then part.calls else []

/-- What `u8g_GetGlyph` finds of a character. -/
structure Glyph where
  width : UInt8
  height : UInt8
  x : UInt8
  y : UInt8
  dx : UInt8
  data : ℕ → UInt8

structure Font where
  calcVref : UInt8
  glyph : UInt8 → Option Glyph

/-- `u8g_draw_glyph`, with what it returns. -/
def drawGlyph (font : Font) (x y encoding : UInt8) : List Part × UInt8 :=
  match font.glyph encoding with
  | none => ([], 0)
  | some glyph =>
      let x := x + glyph.x
      let y := y - glyph.y - 1
      let h := glyph.height
      let w := (glyph.width + 7) / 8
      ([{ bbx := some ⟨x, y - h + 1, glyph.width, h⟩
          calls := bitmapRows glyph.data w.toNat h.toNat x (y - h + 1) 0 }], glyph.dx)

def drawStrLoop (font : Font) : UInt8 → UInt8 → List UInt8 → List Part
  | _, _, [] => []
  | x, y, encoding :: s =>
      let glyph := drawGlyph font x y encoding
      glyph.1 ++ drawStrLoop font (x + glyph.2) y s

inductive Command where
  | setColorIndex (idx : UInt8)
  | drawPixel (x y : UInt8)
  | drawLine (x1 y1 x2 y2 : UInt8)
  | drawHLine (x y w : UInt8)
  | drawVLine (x y w : UInt8)
  | drawFrame (x y w h : UInt8)
  | drawBox (x y w h : UInt8)
  | drawBitmapP (x y cnt h : UInt8) (bitmap : ℕ → UInt8)
  | drawStr (font : Font) (x y : UInt8) (s : List UInt8)

def Command.parts : Command → List Part
  | .setColorIndex _ => []
  | .drawPixel x y => [⟨none, [.pixel x y]⟩]
  | .drawLine x1 y1 x2 y2 => [⟨none, line x1 y1 x2 y2⟩]
  | .drawHLine x y w => [⟨some ⟨x, y, w, 1⟩, hline x y w⟩]
  | .drawVLine x y w => [⟨some ⟨x, y, 1, w⟩, vline x y w⟩]
  | .drawFrame x y w h =>
      [⟨some ⟨x, y, w, h⟩,
        hline x y w ++ (vline x y h ++ (vline (x + w - 1) y h ++ hline x (y + h - 1) w))⟩]
  | .drawBox x y w h => [⟨some ⟨x, y, w, h⟩, box x y w h⟩]
  | .drawBitmapP x y cnt h bitmap =>
      [⟨some ⟨x, y, cnt * 8, h⟩, bitmapRows bitmap cnt.toNat h.toNat x y 0⟩]
  | .drawStr font x y s => drawStrLoop font x (y + font.calcVref) s

/-! Where the dots are. -/

theorem stepX_zero : stepX 0 = 1 := rfl

theorem stepY_zero : stepY 0 = 0 := rfl

theorem add_ofNat_eight (start : UInt8) (index : ℕ) :
    start + 8 + UInt8.ofNat index = start + UInt8.ofNat (8 + index) := by
  rw [UInt8.ofNat_add, UInt8.add_assoc]
  rfl

theorem exists_lt_add_iff {p : ℕ → Prop} (first second : ℕ) :
    (∃ index < first + second, p index) ↔
      (∃ index < first, p index) ∨ ∃ index < second, p (first + index) := by
  constructor
  · rintro ⟨index, hindex, hp⟩
    rcases Nat.lt_or_ge index first with hlow | hhigh
    · exact .inl ⟨index, hlow, hp⟩
    · exact .inr ⟨index - first, by omega, by rwa [Nat.add_sub_cancel' hhigh]⟩
  · rintro (⟨index, hindex, hp⟩ | ⟨index, hindex, hp⟩)
    · exact ⟨index, by omega, hp⟩
    · exact ⟨first + index, by omega, hp⟩

/-- The bits of the last group, which has fewer than eight pixels. -/
theorem last_bits : ∀ count < 8, count ≠ 0 → ∀ index < 8,
    (bit (0xff <<< (((UInt8.ofNat count ^^^ 7) + 1) &&& 7)) index = true ↔ index < count) := by
  decide

theorem mem_strip {dir : BitVec 2} {turns : ℕ} {x y w : UInt8} (hturns : w.toNat / 8 = turns)
    {place : Place} : place ∈ places (strip dir turns x y w) ↔
      ∃ index < w.toNat, place = (x + UInt8.ofNat index * stepX dir,
        y + UInt8.ofNat index * stepY dir) := by
  induction turns generalizing x y w with
  | zero =>
      have hsmall : w.toNat < 8 := by omega
      rw [strip]
      split_ifs with hw
      · have hpositive : w.toNat ≠ 0 := fun hzero => hw (UInt8.toNat_inj.mp hzero)
        have hbits := last_bits w.toNat hsmall hpositive
        rw [UInt8.ofNat_toNat] at hbits
        have hplaces (bits : UInt8) :
            places [.eightPixel x y dir bits] = dots8 8 x y dir bits := List.append_nil _
        rw [hplaces, mem_dots8 le_rfl]
        constructor
        · rintro ⟨index, hindex, hplace, hbit⟩
          exact ⟨index, (hbits index hindex).mp hbit, hplace⟩
        · rintro ⟨index, hindex, hplace⟩
          exact ⟨index, by omega, hplace, (hbits index (by omega)).mpr hindex⟩
      · obtain rfl : w = 0 := not_not.mp hw
        simp [places]
  | succ turns ih =>
      have hless : (8 : UInt8) ≤ w := by
        rw [UInt8.le_iff_toNat_le]
        change 8 ≤ w.toNat
        omega
      have hrest : (w - 8).toNat = w.toNat - 8 := UInt8.toNat_sub_of_le _ _ hless
      have hlength : w.toNat = 8 + (w - 8).toNat := by omega
      have hall : ∀ index < 8, bit 0xff index = true := by decide
      have hnext (start step : UInt8) (index : ℕ) :
          start + 8 * step + UInt8.ofNat index * step =
            start + UInt8.ofNat (8 + index) * step := by
        rw [UInt8.ofNat_add, UInt8.add_mul, UInt8.add_assoc]
        rfl
      rw [strip, places_cons, List.mem_append, ih (by omega), hlength, exists_lt_add_iff]
      apply or_congr
      · rw [Call.places, mem_dots8 le_rfl]
        refine exists_congr fun index => and_congr_right fun hindex => ?_
        rw [hall index hindex]
        exact and_iff_left rfl
      · simp only [hnext]

theorem mem_hBitmapP {bitmap : ℕ → UInt8} {cnt : ℕ} {x y : UInt8} {offset : ℕ} {place : Place} :
    place ∈ places (hBitmapP bitmap cnt x y offset) ↔
      ∃ column < 8 * cnt, place = (x + UInt8.ofNat column, y) ∧
        bit (bitmap (offset + column / 8)) (column % 8) = true := by
  induction cnt generalizing x offset with
  | zero => simp [hBitmapP, places]
  | succ cnt ih =>
      rw [hBitmapP, places_cons, List.mem_append, ih, Nat.mul_succ, Nat.add_comm (8 * cnt),
        exists_lt_add_iff]
      apply or_congr
      · rw [Call.places, mem_dots8 le_rfl]
        refine exists_congr fun index => and_congr_right fun hindex => ?_
        rw [stepX_zero, stepY_zero, UInt8.mul_one, UInt8.mul_zero, UInt8.add_zero,
          Nat.mod_eq_of_lt hindex, Nat.div_eq_of_lt hindex, Nat.add_zero]
      · refine exists_congr fun column => and_congr_right fun _ => ?_
        have hbyte : offset + (8 + column) / 8 = offset + 1 + column / 8 := by omega
        rw [add_ofNat_eight, Nat.add_mod_left, hbyte]

theorem add_ofNat_succ (start : UInt8) (index : ℕ) :
    start + 1 + UInt8.ofNat index = start + UInt8.ofNat (index + 1) := by
  rw [UInt8.ofNat_add, UInt8.add_assoc, UInt8.add_comm (UInt8.ofNat index)]
  rfl

theorem mem_bitmapRows {bitmap : ℕ → UInt8} {cnt h : ℕ} {x y : UInt8} {offset : ℕ}
    {place : Place} : place ∈ places (bitmapRows bitmap cnt h x y offset) ↔
      ∃ row < h, ∃ column < 8 * cnt, place = (x + UInt8.ofNat column, y + UInt8.ofNat row) ∧
        bit (bitmap (offset + row * cnt + column / 8)) (column % 8) = true := by
  induction h generalizing y offset with
  | zero => simp [bitmapRows, places]
  | succ h ih =>
      rw [bitmapRows, places_append, List.mem_append, ih, mem_hBitmapP, Nat.exists_lt_succ_left]
      have hoffset (row : ℕ) : offset + (row + 1) * cnt = offset + cnt + row * cnt := by ring
      have hfirst : y + UInt8.ofNat 0 = y := UInt8.add_zero y
      simp only [add_ofNat_succ, hoffset, hfirst, Nat.zero_mul, Nat.add_zero]

theorem mem_hline {x y w : UInt8} {place : Place} : place ∈ places (hline x y w) ↔
    ∃ index < w.toNat, place = (x + UInt8.ofNat index, y) := by
  rw [hline, mem_strip rfl]
  simp only [stepX_zero, stepY_zero, UInt8.mul_one, UInt8.mul_zero, UInt8.add_zero]

theorem mem_vline {x y h : UInt8} {place : Place} : place ∈ places (vline x y h) ↔
    ∃ index < h.toNat, place = (x, y + UInt8.ofNat index) := by
  have hx : stepX 1 = 0 := rfl
  have hy : stepY 1 = 1 := rfl
  rw [vline, mem_strip rfl]
  simp only [hx, hy, UInt8.mul_one, UInt8.mul_zero, UInt8.add_zero]

theorem mem_boxLoop {rows : ℕ} {x y w : UInt8} {place : Place} :
    place ∈ places (boxLoop rows x y w) ↔ ∃ row < rows, ∃ column < w.toNat,
      place = (x + UInt8.ofNat column, y + UInt8.ofNat row) := by
  induction rows generalizing y with
  | zero => simp [boxLoop, places]
  | succ rows ih =>
      have hfirst : y + UInt8.ofNat 0 = y := UInt8.add_zero y
      rw [boxLoop, places_append, List.mem_append, ih, mem_hline, Nat.exists_lt_succ_left]
      simp only [add_ofNat_succ, hfirst]

/-! A part that is left out has no dot on the page. -/

/-- A width or height of 0 stands for 256 here: the sides wrap. -/
def Bbx.Covers (bbx : Bbx) (place : Place) : Prop :=
  ∃ column ≤ (bbx.w - 1).toNat, ∃ row ≤ (bbx.h - 1).toNat,
    place = (bbx.x + UInt8.ofNat column, bbx.y + UInt8.ofNat row)

def Box.Holds (currentPage : Box) (place : Place) : Prop :=
  (currentPage.x0 ≤ place.1 ∧ place.1 ≤ currentPage.x1) ∧
    currentPage.y0 ≤ place.2 ∧ place.2 ≤ currentPage.y1

theorem last_place (start length : UInt8) :
    start + length - 1 = start + UInt8.ofNat (length - 1).toNat := by
  rw [UInt8.ofNat_toNat, UInt8.sub_eq_add_neg, UInt8.sub_eq_add_neg, UInt8.add_assoc]

theorem isBBXIntersection_of_covers {currentPage : Box} {bbx : Bbx} {place : Place}
    (hcovers : bbx.Covers place) (hholds : currentPage.Holds place) :
    isBBXIntersection currentPage bbx = true := by
  obtain ⟨column, hcolumn, row, hrow, rfl⟩ := hcovers
  obtain ⟨⟨hx0, hx1⟩, hy0, hy1⟩ := hholds
  have hx := isIntersection_of_mem hcolumn (bbx.w - 1).toNat_lt hx0 hx1
  have hy := isIntersection_of_mem hrow (bbx.h - 1).toNat_lt hy0 hy1
  rw [isBBXIntersection, last_place, last_place, hx, hy, if_neg (by decide)]

def Part.Fits (part : Part) : Prop :=
  ∀ bbx, part.bbx = some bbx → ∀ place ∈ places part.calls, bbx.Covers place

theorem Part.run_eq {currentPage : Box} {part : Part} (hfits : part.Fits) {place : Place}
    (hholds : currentPage.Holds place) (hmem : place ∈ places part.calls) :
    part.run currentPage = part.calls := by
  unfold run
  cases hbbx : part.bbx with
  | none => rfl
  | some bbx =>
      have hcovers := hfits bbx hbbx place hmem
      exact if_pos (isBBXIntersection_of_covers hcovers hholds)

theorem le_sub_one {index : ℕ} {length : UInt8} (h : index < length.toNat) :
    index ≤ (length - 1).toNat := by
  have hone : (1 : UInt8) ≤ length := by
    rw [UInt8.le_iff_toNat_le]
    exact Nat.succ_le_of_lt (Nat.zero_lt_of_lt h)
  rw [UInt8.toNat_sub_of_le _ _ hone]
  exact Nat.le_sub_one_of_lt h

/-- The bits that fill up the last byte of a row are clear. -/
def Glyph.Padded (glyph : Glyph) : Prop :=
  ∀ row < glyph.height.toNat, ∀ column,
    column < 8 * ((glyph.width + 7) / 8).toNat → glyph.width.toNat ≤ column →
      bit (glyph.data (row * ((glyph.width + 7) / 8).toNat + column / 8)) (column % 8) = false

/-- The bounding boxes of bitmaps and glyphs are right. -/
def Command.Sound : Command → Prop
  | .drawBitmapP _ _ cnt _ _ => cnt ≤ 32
  | .drawStr font _ _ _ => ∀ encoding glyph, font.glyph encoding = some glyph → glyph.Padded
  | _ => True

theorem drawGlyph_fits {font : Font} {encoding : UInt8}
    (hpadded : ∀ glyph, font.glyph encoding = some glyph → glyph.Padded) (x y : UInt8) :
    ∀ part ∈ (drawGlyph font x y encoding).1, part.Fits := by
  intro part hpart
  unfold drawGlyph at hpart
  cases hglyph : font.glyph encoding with
  | none => simp [hglyph] at hpart
  | some glyph =>
      rw [hglyph, List.mem_singleton] at hpart
      subst hpart
      intro bbx hbbx place hplace
      obtain rfl := Option.some.inj hbbx
      obtain ⟨row, hrow, column, hcolumn, rfl, hbit⟩ := mem_bitmapRows.mp hplace
      rw [Nat.zero_add] at hbit
      have hwidth : column < glyph.width.toNat := by
        by_contra hlarge
        have hclear := hpadded glyph hglyph row hrow column hcolumn (Nat.le_of_not_lt hlarge)
        rw [hclear] at hbit
        exact Bool.false_ne_true hbit
      exact ⟨column, le_sub_one hwidth, row, le_sub_one hrow, rfl⟩

theorem drawStrLoop_fits {font : Font}
    (hpadded : ∀ encoding glyph, font.glyph encoding = some glyph → glyph.Padded)
    (x y : UInt8) (s : List UInt8) : ∀ part ∈ drawStrLoop font x y s, part.Fits := by
  induction s generalizing x with
  | nil => simp [drawStrLoop]
  | cons encoding s ih =>
      rw [drawStrLoop, List.forall_mem_append]
      exact ⟨drawGlyph_fits (hpadded encoding) x y, ih _⟩

theorem Part.fits_none (calls : List Call) : Part.Fits ⟨none, calls⟩ :=
  fun _ hbbx => by simp at hbbx

theorem Part.fits_some {bbx : Bbx} {calls : List Call}
    (h : ∀ place ∈ places calls, bbx.Covers place) : Part.Fits ⟨some bbx, calls⟩ := by
  intro other hother place hplace
  obtain rfl := Option.some.inj hother
  exact h place hplace

theorem covers_hline {x y w h : UInt8} {place : Place} (hmem : place ∈ places (hline x y w)) :
    Bbx.Covers ⟨x, y, w, h⟩ place := by
  obtain ⟨column, hcolumn, rfl⟩ := mem_hline.mp hmem
  exact ⟨column, le_sub_one hcolumn, 0, Nat.zero_le _, Prod.ext rfl (UInt8.add_zero y).symm⟩

theorem covers_vline {x y w h : UInt8} {place : Place} (hmem : place ∈ places (vline x y h)) :
    Bbx.Covers ⟨x, y, w, h⟩ place := by
  obtain ⟨row, hrow, rfl⟩ := mem_vline.mp hmem
  exact ⟨0, Nat.zero_le _, row, le_sub_one hrow, Prod.ext (UInt8.add_zero x).symm rfl⟩

theorem covers_frame {x y w h : UInt8} {place : Place}
    (hmem : place ∈ places (hline x y w ++
      (vline x y h ++ (vline (x + w - 1) y h ++ hline x (y + h - 1) w)))) :
    Bbx.Covers ⟨x, y, w, h⟩ place := by
  rw [places_append, places_append, places_append, List.mem_append, List.mem_append,
    List.mem_append] at hmem
  rcases hmem with htop | hleft | hright | hbottom
  · exact covers_hline htop
  · exact covers_vline hleft
  · obtain ⟨row, hrow, rfl⟩ := mem_vline.mp hright
    exact ⟨(w - 1).toNat, le_rfl, row, le_sub_one hrow, Prod.ext (last_place x w) rfl⟩
  · obtain ⟨column, hcolumn, rfl⟩ := mem_hline.mp hbottom
    exact ⟨column, le_sub_one hcolumn, (h - 1).toNat, le_rfl, Prod.ext rfl (last_place y h)⟩

theorem covers_box {x y w h : UInt8} {place : Place} (hmem : place ∈ places (box x y w h)) :
    Bbx.Covers ⟨x, y, w, h⟩ place := by
  obtain ⟨row, hrow, column, hcolumn, rfl⟩ := mem_boxLoop.mp hmem
  exact ⟨column, le_sub_one hcolumn, row, Nat.le_of_lt_succ hrow, rfl⟩

theorem covers_bitmap {bitmap : ℕ → UInt8} {x y cnt h : UInt8} (hcnt : cnt ≤ 32) {place : Place}
    (hmem : place ∈ places (bitmapRows bitmap cnt.toNat h.toNat x y 0)) :
    Bbx.Covers ⟨x, y, cnt * 8, h⟩ place := by
  obtain ⟨row, hrow, column, hcolumn, rfl, -⟩ := mem_bitmapRows.mp hmem
  refine ⟨column, ?_, row, le_sub_one hrow, rfl⟩
  have hsmall : cnt.toNat ≤ 32 := UInt8.le_iff_toNat_le.mp hcnt
  have height : UInt8.toNat 8 = 8 := rfl
  have hone : UInt8.toNat 1 = 1 := rfl
  rw [UInt8.toNat_sub, UInt8.toNat_mul, height, hone]
  omega

theorem Command.fits {command : Command} (hsound : command.Sound) :
    ∀ part ∈ command.parts, part.Fits := by
  cases command with
  | setColorIndex idx => simp [parts]
  | drawPixel x y => exact List.forall_mem_singleton.mpr (Part.fits_none _)
  | drawLine x1 y1 x2 y2 => exact List.forall_mem_singleton.mpr (Part.fits_none _)
  | drawHLine x y w =>
      exact List.forall_mem_singleton.mpr (Part.fits_some fun _ => covers_hline)
  | drawVLine x y w =>
      exact List.forall_mem_singleton.mpr (Part.fits_some fun _ => covers_vline)
  | drawFrame x y w h =>
      exact List.forall_mem_singleton.mpr (Part.fits_some fun _ => covers_frame)
  | drawBox x y w h =>
      exact List.forall_mem_singleton.mpr (Part.fits_some fun _ => covers_box)
  | drawBitmapP x y cnt h bitmap =>
      exact List.forall_mem_singleton.mpr (Part.fits_some fun _ => covers_bitmap hsound)
  | drawStr font x y s => exact drawStrLoop_fits hsound x (y + font.calcVref) s

end OledDs18b20.U8glib
