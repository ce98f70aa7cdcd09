import OledDs18b20.U8glib.Drawing

/-! The display behind the drawing functions: the device, which may turn the picture upside down,
and the picture loop, which draws everything once for each page. -/
namespace OledDs18b20.U8glib
open Lib

/-- `u8g_t` with its device. `ram` is the memory of the display's controller, page by page, and
`rot180` tells whether `u8g_dev_rot` is in between. -/
structure U8g (width : UInt8) where
  pb : Pb width
  rot180 : Bool
  currentPage : Box
  color : UInt8
  ram : ℕ → Vector UInt8 width.toNat

/-- `u8g_SetColorIndex` changes the colour; the other functions draw in it. -/
def Command.colorAfter (color : UInt8) : Command → UInt8
  | .setColorIndex idx => idx
  | _ => color

namespace U8g
variable {width : UInt8}

/-- `U8G_DEV_MSG_GET_PAGE_BOX`: `u8g_pb_GetPageBox`, and `u8g_dev_rot180_fn` after it. -/
def pageBox (u : U8g width) : Box :=
  let box : Box := ⟨0, u.pb.p.pageY0, width - 1, u.pb.p.pageY1⟩
  let height := u.pb.p.totalHeight
  if u.rot180 then
    ⟨width - box.x1 - 1, height - box.y1 - 1, width - box.x0 - 1, height - box.y0 - 1⟩
  else box

def setRot180 (u : U8g width) : U8g width :=
  let u := { u with rot180 := true }
  { u with currentPage := u.pageBox }

def undoRotation (u : U8g width) : U8g width :=
  if u.rot180 then
    let u := { u with rot180 := false }
    { u with currentPage := u.pageBox }
  else u

def turn (u : U8g width) (place : Place) : Place :=
  if u.rot180 then (width - place.1 - 1, u.pb.p.totalHeight - place.2 - 1) else place

def call (u : U8g width) : Call → U8g width
  | .pixel x y =>
      let place := u.turn (x, y)
      { u with pb := u.pb.setPixel ⟨place.1, place.2, 0, 0, u.color⟩ }
  | .eightPixel x y dir pixel =>
      let place := u.turn (x, y)
      let dir := if u.rot180 then dir + 2 else dir
      { u with pb := u.pb.set8PixelMsg ⟨place.1, place.2, pixel, dir, u.color⟩ }

def calls (u : U8g width) (calls : List Call) : U8g width := calls.foldl call u

def run (u : U8g width) (command : Command) : U8g width :=
  let u := { u with color := command.colorAfter u.color }
  u.calls (command.parts.flatMap (Part.run u.currentPage))

def runAll (u : U8g width) (commands : List Command) : U8g width := commands.foldl run u

/-- `u8g_Init` over a device made by `U8G_PB_DEV`. What the controller shows at first is whatever
it finds in its memory. -/
def init (width height pageHeight : UInt8) (ram : ℕ → Vector UInt8 width.toNat) : U8g width :=
  let u : U8g width :=
    { pb := ⟨⟨pageHeight, height, 0, 0, 0⟩, Vector.replicate width.toNat 0⟩
      rot180 := false
      currentPage := ⟨0, 0, 0, 0⟩
      color := 1
      ram := ram }
  { u with currentPage := u.pageBox }

def firstPage (u : U8g width) : U8g width :=
  let u := { u with pb := { u.pb.clear with p := u.pb.p.first } }
  { u with currentPage := u.pageBox }

/-- `u8g_pb_WriteBuffer`, with what it returns. The controller stores the bytes that it
acknowledges, and the first one that it does not ends the write. -/
def writeBuffer (u : U8g width) (acknowledged : ℕ) : Bool × U8g width :=
  let page := u.pb.p.page.toNat
  let stored := Vector.ofFn fun column =>
    if column.val < acknowledged then u.pb.buf.get column else (u.ram page).get column
  (decide (width.toNat ≤ acknowledged), { u with ram := Function.update u.ram page stored })

/-- `u8g_NextPage`, with what it returns. The device writes the buffer to the controller before
it goes on, and does not go on if that fails. -/
def nextPage (u : U8g width) (acknowledged : ℕ) : Bool × U8g width :=
  let (written, u) := u.writeBuffer acknowledged
  if written = false then (false, u)
  else
    let next := u.pb.p.next
    let u := { u with pb := { u.pb with p := next.2 } }
    if next.1 then
      let u := { u with pb := u.pb.clear }
      (true, { u with currentPage := u.pageBox })
    else (false, u)

/-- `do { draw(); } while ( u8g.nextPage() );` The calls of `draw` are numbered: what they draw
may change from one to the next, and so may what the controller acknowledges. -/
def pictureLoop (acknowledged : ℕ → ℕ) (draw : ℕ → List Command) :
    ℕ → ℕ → U8g width → Option (U8g width)
  | 0, _, _ => none
  | fuel + 1, number, u =>
      let next := (u.runAll (draw number)).nextPage (acknowledged number)
      if next.1 then pictureLoop acknowledged draw fuel (number + 1) next.2 else some next.2

end U8g

/-! What a program of commands draws, if there are no pages. -/

def Command.places (command : Command) : List Place :=
  U8glib.places (command.parts.flatMap Part.calls)

def strokes (color : UInt8) : List Command → List (Raster.Dot Place Bool)
  | [] => []
  | command :: rest =>
      Pb.inColor (command.colorAfter color) command.places ++
        strokes (command.colorAfter color) rest

def picture (color : UInt8) (commands : List Command) : Place → Bool :=
  Raster.paint (strokes color commands) fun _ => false

theorem paint_run {currentPage : Box} {parts : List Part} (hfits : ∀ part ∈ parts, part.Fits)
    (color : UInt8) (before : Place → Bool) {place : Place} (hholds : currentPage.Holds place) :
    Raster.paint (Pb.inColor color (places (parts.flatMap (Part.run currentPage)))) before place =
      Raster.paint (Pb.inColor color (places (parts.flatMap Part.calls))) before place := by
  induction parts generalizing before with
  | nil => rfl
  | cons part parts ih =>
      rw [List.forall_mem_cons] at hfits
      rw [List.flatMap_cons, List.flatMap_cons, places_append, places_append, Pb.inColor_append,
        Pb.inColor_append, Raster.paint_append, Raster.paint_append, ih hfits.2]
      apply Raster.paint_congr
      by_cases hmem : place ∈ places part.calls
      · rw [part.run_eq hfits.1 hholds hmem]
      · have hnone (calls : List Call) (hcalls : place ∉ places calls) :
            Raster.paint (Pb.inColor color (places calls)) before place = before place := by
          apply Raster.paint_of_forall_ne
          intro dot hdot hsame
          obtain ⟨other, hother, rfl⟩ := List.mem_map.mp hdot
          exact hcalls (hsame ▸ hother)
        rw [hnone _ hmem]
        apply hnone
        unfold Part.run
        cases part.bbx with
        | none => exact hmem
        | some bbx =>
            dsimp only
            split_ifs
            · exact hmem
            · simp [places]

namespace U8g
variable {width : UInt8}

theorem turn_turn (u : U8g width) (place : Place) : u.turn (u.turn place) = place := by
  have hback (length position : UInt8) : length - (length - position - 1) - 1 = position := by
    grind
  unfold turn
  by_cases hrot : u.rot180 = true
  · simp only [hrot, if_true, hback]
  · rw [if_neg hrot, if_neg hrot]

theorem turn_injective (u : U8g width) : Function.Injective u.turn :=
  Function.Involutive.injective u.turn_turn

theorem dots8_turn {u : U8g width} (hrot : u.rot180 = true) (count : ℕ) (x y : UInt8)
    (dir : BitVec 2) (pixel : UInt8) :
    dots8 count (u.turn (x, y)).1 (u.turn (x, y)).2 (dir + 2) pixel =
      (dots8 count x y dir pixel).map u.turn := by
  have hx : ∀ dir, stepX (dir + 2) = 0 - stepX dir := by decide
  have hy : ∀ dir, stepY (dir + 2) = 0 - stepY dir := by decide
  induction count generalizing x y pixel with
  | zero => rfl
  | succ count ih =>
      have hnext : ((u.turn (x, y)).1 + stepX (dir + 2), (u.turn (x, y)).2 + stepY (dir + 2)) =
          u.turn (x + stepX dir, y + stepY dir) := by
        unfold turn
        rw [if_pos hrot, if_pos hrot, hx, hy]
        apply Prod.ext <;> dsimp only <;> grind
      rw [dots8, dots8, List.map_append, ← ih, ← hnext]
      split_ifs <;> rfl

structure Kept (u u' : U8g width) : Prop where
  p : u'.pb.p = u.pb.p
  rot180 : u'.rot180 = u.rot180
  currentPage : u'.currentPage = u.currentPage
  ram : u'.ram = u.ram

namespace Kept
variable {u u' u'' : U8g width}

theorem trans (h : Kept u u') (h' : Kept u' u'') : Kept u u'' where
  p := h'.p.trans h.p
  rot180 := h'.rot180.trans h.rot180
  currentPage := h'.currentPage.trans h.currentPage
  ram := h'.ram.trans h.ram

theorem turn (h : Kept u u') (place : Place) : u'.turn place = u.turn place := by
  unfold U8g.turn
  rw [h.rot180, h.p]

theorem onPage (h : Kept u u') (place : Place) : u'.pb.OnPage place ↔ u.pb.OnPage place :=
  Pb.onPage_congr h.p place

end Kept

theorem kept_call (u : U8g width) (call : Call) : Kept u (u.call call) := by
  cases call with
  | pixel x y => exact ⟨Pb.setPixel_p _ _, rfl, rfl, rfl⟩
  | eightPixel x y dir pixel => exact ⟨Pb.set8PixelMsg_p _ _, rfl, rfl, rfl⟩

theorem color_call (u : U8g width) (call : Call) : (u.call call).color = u.color := by
  cases call <;> rfl

theorem kept_calls (u : U8g width) (list : List Call) :
    Kept u (u.calls list) ∧ (u.calls list).color = u.color := by
  induction list generalizing u with
  | nil => exact ⟨⟨rfl, rfl, rfl, rfl⟩, rfl⟩
  | cons call list ih =>
      have hrest := ih (u.call call)
      rw [color_call] at hrest
      exact ⟨(u.kept_call call).trans hrest.1, hrest.2⟩

theorem kept_run (u : U8g width) (command : Command) :
    Kept u (u.run command) ∧ (u.run command).color = command.colorAfter u.color := by
  have hcalls := kept_calls { u with color := command.colorAfter u.color }
    (command.parts.flatMap (Part.run u.currentPage))
  exact ⟨⟨hcalls.1.p, hcalls.1.rot180, hcalls.1.currentPage, hcalls.1.ram⟩, hcalls.2⟩

def seen (u : U8g width) (place : Place) : Bool := u.pb.shows (u.turn place)

theorem seen_call {u : U8g width} (haligned : Pb.Aligned u.pb.p) (call : Call) {place : Place}
    (hplace : u.pb.OnPage (u.turn place)) :
    (u.call call).seen place =
      Raster.paint (Pb.inColor u.color call.places) u.seen place := by
  have hturn : (u.call call).seen place = (u.call call).pb.shows (u.turn place) := by
    rw [seen, (u.kept_call call).turn]
  have hmap (places : List Place) :
      Raster.paint (Pb.inColor u.color (places.map u.turn)) u.pb.shows (u.turn place) =
        Raster.paint (Pb.inColor u.color places) u.seen place := by
    have hdots : Pb.inColor u.color (places.map u.turn) =
        (Pb.inColor u.color places).map (Raster.Dot.map u.turn) := by
      simp [Pb.inColor, Raster.Dot.map, Function.comp_def]
    rw [hdots]
    exact Raster.paint_map u.turn_injective _ _ place
  rw [hturn, ← hmap]
  cases call with
  | pixel x y => exact Pb.shows_setPixel haligned _ hplace
  | eightPixel x y dir pixel =>
      have hset := Pb.shows_set8PixelMsg haligned
        ⟨(u.turn (x, y)).1, (u.turn (x, y)).2, pixel, if u.rot180 then dir + 2 else dir, u.color⟩
        hplace
      rw [call, hset, Call.places]
      dsimp only
      congr 2
      by_cases hrot : u.rot180 = true
      · rw [if_pos hrot]
        exact dots8_turn hrot 8 x y dir pixel
      · have hid : u.turn = id := by
          funext other
          exact if_neg hrot
        rw [if_neg hrot, hid, List.map_id]
        rfl

theorem seen_calls {u : U8g width} (haligned : Pb.Aligned u.pb.p) (list : List Call)
    {place : Place} (hplace : u.pb.OnPage (u.turn place)) :
    (u.calls list).seen place = Raster.paint (Pb.inColor u.color (places list)) u.seen place := by
  induction list generalizing u with
  | nil => rfl
  | cons call list ih =>
      have hkept := u.kept_call call
      have haligned' : Pb.Aligned (u.call call).pb.p := hkept.p ▸ haligned
      have hplace' : (u.call call).pb.OnPage ((u.call call).turn place) := by
        rw [hkept.turn, hkept.onPage]
        exact hplace
      rw [places_cons, Pb.inColor_append, Raster.paint_append]
      have hrest := ih haligned' hplace'
      rw [color_call] at hrest
      exact hrest.trans (Raster.paint_congr (seen_call haligned call hplace) _)

/-! One page after another. -/

/-- The picture loop is at a page of a display with the given number of them. -/
structure AtPage (pages page : ℕ) (u : U8g width) : Prop where
  pageHeight : u.pb.p.pageHeight = 8
  totalHeight : u.pb.p.totalHeight.toNat = 8 * pages
  pageY0 : u.pb.p.pageY0.toNat = 8 * page
  pageY1 : u.pb.p.pageY1.toNat = 8 * page + 7
  page_eq : u.pb.p.page.toNat = page
  currentPage : u.currentPage = u.pageBox
  inside : page < pages

namespace AtPage
variable {pages page : ℕ} {u u' : U8g width}

theorem aligned (h : AtPage pages page u) : Pb.Aligned u.pb.p := by
  rw [Pb.Aligned, h.pageY0, h.pageY1]

theorem of_kept (h : AtPage pages page u) (hkept : Kept u u') : AtPage pages page u' where
  pageHeight := by rw [hkept.p, h.pageHeight]
  totalHeight := by rw [hkept.p, h.totalHeight]
  pageY0 := by rw [hkept.p, h.pageY0]
  pageY1 := by rw [hkept.p, h.pageY1]
  page_eq := by rw [hkept.p, h.page_eq]
  currentPage := by
    rw [hkept.currentPage, h.currentPage]
    unfold pageBox
    rw [hkept.p, hkept.rot180]
  inside := h.inside

/-- The current page, as the drawing functions see it, is the page of the device. -/
theorem holds (h : AtPage pages page u) {place : Place} (hplace : u.pb.OnPage (u.turn place)) :
    u.currentPage.Holds place := by
  obtain ⟨hx, hlow, hhigh⟩ := hplace
  have hheight := u.pb.p.totalHeight.toNat_lt
  have hpages := h.inside
  have htotal := h.totalHeight
  have hy0 := h.pageY0
  have hy1 := h.pageY1
  have hone : UInt8.toNat 1 = 1 := rfl
  have hzero : UInt8.toNat 0 = 0 := rfl
  have hwidth := width.toNat_lt
  have hcolumn := place.1.toNat_lt
  have hrow := place.2.toNat_lt
  rw [h.currentPage]
  unfold turn at hx hlow hhigh
  unfold pageBox Box.Holds
  by_cases hrot : u.rot180 = true
  · rw [if_pos hrot] at hx hlow hhigh ⊢
    simp only [UInt8.le_iff_toNat_le, UInt8.lt_iff_toNat_lt, UInt8.toNat_sub, hone, hzero]
      at hx hlow hhigh ⊢
    omega
  · rw [if_neg hrot] at hx hlow hhigh ⊢
    simp only [UInt8.le_iff_toNat_le, UInt8.lt_iff_toNat_lt, UInt8.toNat_sub, hone, hzero]
      at hx hlow hhigh ⊢
    omega

theorem seen_run (h : AtPage pages page u) {command : Command} (hsound : command.Sound)
    {place : Place} (hplace : u.pb.OnPage (u.turn place)) :
    (u.run command).seen place =
      Raster.paint (Pb.inColor (command.colorAfter u.color) command.places) u.seen place := by
  have hcalls := seen_calls (u := { u with color := command.colorAfter u.color }) h.aligned
    (command.parts.flatMap (Part.run u.currentPage)) hplace
  exact hcalls.trans (paint_run (Command.fits hsound) _ _ (h.holds hplace))

theorem seen_runAll (h : AtPage pages page u) {commands : List Command}
    (hsound : ∀ command ∈ commands, command.Sound) {place : Place}
    (hplace : u.pb.OnPage (u.turn place)) :
    (u.runAll commands).seen place =
      Raster.paint (strokes u.color commands) u.seen place := by
  induction commands generalizing u with
  | nil => rfl
  | cons command commands ih =>
      rw [List.forall_mem_cons] at hsound
      obtain ⟨hkept, hcolor⟩ := u.kept_run command
      have hplace' : (u.run command).pb.OnPage ((u.run command).turn place) := by
        rw [hkept.turn, hkept.onPage]
        exact hplace
      have hrest := ih (h.of_kept hkept) hsound.2 hplace'
      rw [hcolor] at hrest
      rw [strokes, Raster.paint_append]
      exact hrest.trans (Raster.paint_congr (h.seen_run hsound.1 hplace) _)

end AtPage

theorem kept_runAll (u : U8g width) (commands : List Command) :
    Kept u (u.runAll commands) ∧
      (u.runAll commands).color = commands.foldl Command.colorAfter u.color := by
  induction commands generalizing u with
  | nil => exact ⟨⟨rfl, rfl, rfl, rfl⟩, rfl⟩
  | cons command commands ih =>
      obtain ⟨hkept, hcolor⟩ := u.kept_run command
      have hrest := ih (u.run command)
      rw [hcolor] at hrest
      exact ⟨hkept.trans hrest.1, hrest.2⟩

/-- A page before anything is drawn. -/
structure Fresh (pages page : ℕ) (u : U8g width) : Prop where
  atPage : AtPage pages page u
  blank : ∀ place, u.seen place = false

theorem shows_clear (b : Pb width) (p : Page) (place : Place) :
    Pb.shows { b.clear with p := p } place = false := by
  have hbyte : ((Vector.replicate width.toNat (0 : UInt8))[place.1.toNat]?).getD 0 = 0 := by
    rw [Vector.getElem?_replicate]
    split_ifs <;> rfl
  unfold Pb.shows Pb.clear
  dsimp only
  rw [hbyte]
  exact BitVec.getLsbD_zero

theorem fresh_firstPage {pages : ℕ} (u : U8g width) (hpageHeight : u.pb.p.pageHeight = 8)
    (htotal : u.pb.p.totalHeight.toNat = 8 * pages) (hpages : 0 < pages) :
    Fresh pages 0 u.firstPage := by
  refine ⟨⟨hpageHeight, htotal, rfl, ?_, rfl, rfl, hpages⟩, fun place => shows_clear u.pb _ _⟩
  change (u.pb.p.pageHeight - 1).toNat = 7
  rw [hpageHeight]
  rfl

theorem writeBuffer_whole {u : U8g width} {acknowledged : ℕ}
    (h : width.toNat ≤ acknowledged) :
    u.writeBuffer acknowledged =
      (true, { u with ram := Function.update u.ram u.pb.p.page.toNat u.pb.buf }) := by
  have hstored : (Vector.ofFn fun column : Fin width.toNat =>
      if column.val < acknowledged then u.pb.buf.get column
      else (u.ram u.pb.p.page.toNat).get column) = u.pb.buf := by
    apply Vector.ext
    intro column hcolumn
    rw [Vector.getElem_ofFn, if_pos (by omega)]
    rfl
  rw [writeBuffer, hstored, decide_eq_true h]

/-- A write that is not acknowledged ends the picture, and touches no other page. -/
theorem nextPage_failed {u : U8g width} {acknowledged : ℕ} (h : acknowledged < width.toNat) :
    (u.nextPage acknowledged).1 = false ∧ ∀ other ≠ u.pb.p.page.toNat,
      (u.nextPage acknowledged).2.ram other = u.ram other := by
  have hfails : decide (width.toNat ≤ acknowledged) = false :=
    decide_eq_false (Nat.not_le_of_lt h)
  unfold nextPage writeBuffer
  simp only [hfails, if_true]
  exact ⟨trivial, fun other hother => Function.update_of_ne hother _ _⟩

/-- What the controller shows. -/
def shown (u : U8g width) (place : Place) : Bool :=
  ((u.ram (place.2.toNat / 8))[place.1.toNat]?.getD 0).toBitVec.getLsbD (place.2.toNat % 8)

namespace AtPage
variable {pages page : ℕ} {u : U8g width}

theorem onPage_iff (h : AtPage pages page u) (place : Place) :
    u.pb.OnPage place ↔ place.1 < width ∧ place.2.toNat / 8 = page := by
  have hy0 := h.pageY0
  have hy1 := h.pageY1
  unfold Pb.OnPage
  rw [UInt8.le_iff_toNat_le, UInt8.le_iff_toNat_le, hy0, hy1]
  constructor
  · rintro ⟨hx, hlow, hhigh⟩
    exact ⟨hx, by omega⟩
  · rintro ⟨hx, hrow⟩
    exact ⟨hx, by omega, by omega⟩

theorem shown_eq (h : AtPage pages page u) {place : Place} (hplace : u.pb.OnPage place)
    {ram : ℕ → Vector UInt8 width.toNat} (hram : ram page = u.pb.buf) :
    ((ram (place.2.toNat / 8))[place.1.toNat]?.getD 0).toBitVec.getLsbD (place.2.toNat % 8) =
      u.pb.shows place := by
  obtain ⟨hrow, hsmall⟩ := Pb.row_eq h.aligned hplace
  have hpage := ((h.onPage_iff place).mp hplace).2
  have hmod : place.2.toNat % 8 = place.2.toNat - u.pb.p.pageY0.toNat := by
    rw [h.pageY0]
    omega
  unfold Pb.shows
  rw [hrow, hpage, hram, hmod, UInt8.toNat_ofNat', Nat.mod_eq_of_lt (by omega : _ < 2 ^ 8)]

theorem next_y0 (h : AtPage pages page u) :
    (u.pb.p.pageY0 + u.pb.p.pageHeight).toNat = 8 * (page + 1) := by
  have hheight := u.pb.p.totalHeight.toNat_lt
  have htotal := h.totalHeight
  have hpages := h.inside
  have height : UInt8.toNat 8 = 8 := rfl
  rw [h.pageHeight, UInt8.toNat_add, h.pageY0, height]
  omega

theorem nextPage_last (h : AtPage pages page u) (hlast : page + 1 = pages) {acknowledged : ℕ}
    (hwhole : width.toNat ≤ acknowledged) :
    (u.nextPage acknowledged).1 = false ∧
      (u.nextPage acknowledged).2.ram = Function.update u.ram page u.pb.buf := by
  have hend : u.pb.p.pageY0 + u.pb.p.pageHeight ≥ u.pb.p.totalHeight := by
    rw [ge_iff_le, UInt8.le_iff_toNat_le, h.next_y0, h.totalHeight, hlast]
  have hnext : u.pb.p.next.1 = false := by
    rw [Page.next]
    simp only [hend, if_true]
  unfold nextPage
  rw [writeBuffer_whole hwhole]
  simp only [hnext, h.page_eq]
  exact ⟨rfl, rfl⟩

theorem nextPage_more (h : AtPage pages page u) (hmore : page + 1 < pages) {acknowledged : ℕ}
    (hwritten : width.toNat ≤ acknowledged) :
    (u.nextPage acknowledged).1 = true ∧ Fresh pages (page + 1) (u.nextPage acknowledged).2 ∧
      (u.nextPage acknowledged).2.ram = Function.update u.ram page u.pb.buf ∧
      (u.nextPage acknowledged).2.color = u.color ∧
      (u.nextPage acknowledged).2.turn = u.turn := by
  have hheight := u.pb.p.totalHeight.toNat_lt
  have htotal := h.totalHeight
  have hmiddle : ¬ u.pb.p.pageY0 + u.pb.p.pageHeight ≥ u.pb.p.totalHeight := by
    rw [ge_iff_le, UInt8.le_iff_toNat_le, h.next_y0, h.totalHeight]
    omega
  have height : UInt8.toNat 8 = 8 := rfl
  have hone : UInt8.toNat 1 = 1 := rfl
  have hy1 : (u.pb.p.pageY1 + u.pb.p.pageHeight).toNat = 8 * (page + 1) + 7 := by
    rw [h.pageHeight, UInt8.toNat_add, h.pageY1, height]
    omega
  have hwhole : ¬ u.pb.p.pageY1 + u.pb.p.pageHeight ≥ u.pb.p.totalHeight := by
    rw [ge_iff_le, UInt8.le_iff_toNat_le, hy1, h.totalHeight]
    omega
  have hnext : u.pb.p.next = (true, { u.pb.p with
      pageY0 := u.pb.p.pageY0 + u.pb.p.pageHeight
      page := u.pb.p.page + 1
      pageY1 := u.pb.p.pageY1 + u.pb.p.pageHeight }) := by
    rw [Page.next]
    simp only [hmiddle, hwhole, if_false]
  unfold nextPage
  rw [writeBuffer_whole hwritten]
  simp only [hnext, h.page_eq, if_true, Bool.true_eq_false, if_false]
  refine ⟨trivial, ⟨⟨h.pageHeight, htotal, h.next_y0, hy1, ?_, rfl, hmore⟩, ?_⟩, trivial, trivial,
    rfl⟩
  · change (u.pb.p.page + 1).toNat = page + 1
    rw [UInt8.toNat_add, h.page_eq, hone]
    omega
  · intro place
    exact shows_clear u.pb _ _

end AtPage

def colorBefore (draw : ℕ → List Command) (color : UInt8) (number : ℕ) : UInt8 :=
  ((List.range number).flatMap draw).foldl Command.colorAfter color

theorem colorBefore_succ (draw : ℕ → List Command) (color : UInt8) (number : ℕ) :
    colorBefore draw color (number + 1) =
      (draw number).foldl Command.colorAfter (colorBefore draw color number) := by
  rw [colorBefore, List.range_succ, List.flatMap_append, List.foldl_append, List.flatMap_singleton]
  rfl

/-- After the commands of one page, the buffer holds that part of the picture. -/
theorem Fresh.shows_runAll {pages page : ℕ} {u : U8g width} (h : Fresh pages page u)
    {commands : List Command} (hsound : ∀ command ∈ commands, command.Sound) {place : Place}
    (hplace : u.pb.OnPage place) :
    (u.runAll commands).pb.shows place = picture u.color commands (u.turn place) := by
  have hturned : u.pb.OnPage (u.turn (u.turn place)) := by
    rw [turn_turn]
    exact hplace
  have hseen := h.atPage.seen_runAll hsound hturned
  rw [seen, (u.kept_runAll commands).1.turn, turn_turn] at hseen
  rw [hseen]
  exact Raster.paint_congr (h.blank _) _

theorem Fresh.shown_page {pages page : ℕ} {u u' : U8g width} (h : Fresh pages page u)
    {commands : List Command} (hsound : ∀ command ∈ commands, command.Sound)
    (hram : u'.ram page = (u.runAll commands).pb.buf) {place : Place} (hx : place.1 < width)
    (hpage : place.2.toNat / 8 = page) :
    u'.shown place = picture u.color commands (u.turn place) := by
  have hplace : u.pb.OnPage place := (h.atPage.onPage_iff place).mpr ⟨hx, hpage⟩
  have hkept := (u.kept_runAll commands).1
  rw [← h.shows_runAll hsound hplace]
  exact (h.atPage.of_kept hkept).shown_eq ((hkept.onPage place).mpr hplace) hram

section Loop
variable {acknowledged : ℕ → ℕ} {draw : ℕ → List Command} {color : UInt8}

/-- The picture loop from a page to the last one, or to the first one whose write fails. The
other pages stay as they are. -/
theorem pictureLoop_from (rest : ℕ) {pages page : ℕ} {u : U8g width}
    (hfresh : Fresh pages page u) (hinside : page + rest < pages)
    (hsound : ∀ number ≤ page + rest, ∀ command ∈ draw number, command.Sound)
    (hbefore : ∀ number < page + rest, width.toNat ≤ acknowledged number)
    (hends : page + rest + 1 = pages ∨ acknowledged (page + rest) < width.toNat)
    (hcolor : u.color = colorBefore draw color page) :
    ∃ u', (∀ extra, pictureLoop acknowledged draw (rest + 1 + extra) page u = some u') ∧
      (∀ place, place.1 < width → page ≤ place.2.toNat / 8 →
        place.2.toNat / 8 ≤ page + rest → width.toNat ≤ acknowledged (place.2.toNat / 8) →
        u'.shown place = picture (colorBefore draw color (place.2.toNat / 8))
          (draw (place.2.toNat / 8)) (u.turn place)) ∧
      ∀ other, other < page ∨ page + rest < other → u'.ram other = u.ram other := by
  obtain ⟨hkept, hcolors⟩ := u.kept_runAll (draw page)
  have hat := hfresh.atPage.of_kept hkept
  have hsounds := hsound page (by omega)
  induction rest generalizing page u with
  | zero =>
      have hpageEq : (u.runAll (draw page)).pb.p.page.toNat = page := hat.page_eq
      refine ⟨((u.runAll (draw page)).nextPage (acknowledged page)).2, ?_, ?_, ?_⟩
      · intro extra
        have hstops : ((u.runAll (draw page)).nextPage (acknowledged page)).1 = false := by
          rcases Nat.lt_or_ge (acknowledged page) width.toNat with hfails | hwhole
          · exact (nextPage_failed hfails).1
          · exact (hat.nextPage_last (hends.resolve_right (Nat.not_lt_of_le hwhole)) hwhole).1
        rw [Nat.zero_add, Nat.add_comm, pictureLoop]
        simp only [hstops]
        rfl
      · intro place hx hlow hhigh hwhole
        obtain rfl : place.2.toNat / 8 = page := by omega
        have hram := (hat.nextPage_last
          (hends.resolve_right (Nat.not_lt_of_le hwhole)) hwhole).2
        rw [← hcolor]
        apply hfresh.shown_page hsounds _ hx rfl
        rw [hram, Function.update_self]
      · intro other hother
        have hdiffers : other ≠ page := by omega
        rw [← hkept.ram]
        rcases Nat.lt_or_ge (acknowledged page) width.toNat with hfails | hwhole
        · exact (nextPage_failed hfails).2 other (by rw [hpageEq]; exact hdiffers)
        · rw [(hat.nextPage_last (hends.resolve_right (Nat.not_lt_of_le hwhole)) hwhole).2,
            Function.update_of_ne hdiffers]
  | succ rest ih =>
      have hwhole := hbefore page (by omega)
      obtain ⟨hnext, hnextFresh, hram, hnextColor, hturn⟩ :=
        hat.nextPage_more (by omega) hwhole
      have hreach : page + (rest + 1) = page + 1 + rest := by omega
      rw [hreach] at hinside hsound hbefore hends
      have hstart : ((u.runAll (draw page)).nextPage (acknowledged page)).2.color =
          colorBefore draw color (page + 1) := by
        rw [hnextColor, hcolors, hcolor, colorBefore_succ]
      obtain ⟨hkept', hcolors'⟩ :=
        kept_runAll ((u.runAll (draw page)).nextPage (acknowledged page)).2 (draw (page + 1))
      obtain ⟨u', hloop, hshown, hsame⟩ := ih hnextFresh hinside hsound hbefore hends hstart
        hkept' hcolors' (hnextFresh.atPage.of_kept hkept') (hsound (page + 1) (by omega))
      refine ⟨u', ?_, ?_, ?_⟩
      · intro extra
        have hfuel : rest + 1 + 1 + extra = rest + 1 + extra + 1 := by omega
        rw [hfuel, pictureLoop]
        simp only [hnext, if_true]
        exact hloop extra
      · intro place hx hlow hhigh hrow
        rcases Nat.eq_or_lt_of_le hlow with hpage | hlater
        · subst hpage
          rw [← hcolor]
          apply hfresh.shown_page hsounds _ hx rfl
          rw [hsame _ (.inl (Nat.lt_succ_self _)), hram, Function.update_self]
        · have hplace : ((u.runAll (draw page)).nextPage (acknowledged page)).2.turn place =
              u.turn place := by
            rw [hturn, hkept.turn]
          rw [hshown place hx hlater (by omega) hrow, hplace]
      · intro other hother
        have hdiffers : other ≠ page := by omega
        rw [hsame other (by omega), hram, Function.update_of_ne hdiffers, hkept.ram]

/-- The picture loop on a display that acknowledges everything. -/
theorem pictureLoop_whole {pages : ℕ} (u : U8g width) (hpageHeight : u.pb.p.pageHeight = 8)
    (htotal : u.pb.p.totalHeight.toNat = 8 * pages) (hpages : 0 < pages)
    (hwhole : ∀ number < pages, width.toNat ≤ acknowledged number)
    (hsound : ∀ number < pages, ∀ command ∈ draw number, command.Sound) :
    ∃ u', pictureLoop acknowledged draw pages 0 u.firstPage = some u' ∧
      ∀ place, place.1 < width → place.2 < u.pb.p.totalHeight →
        u'.shown place = picture (colorBefore draw u.color (place.2.toNat / 8))
          (draw (place.2.toNat / 8)) (u.turn place) := by
  obtain ⟨rest, rfl⟩ : ∃ rest, pages = rest + 1 := ⟨pages - 1, by omega⟩
  have hfresh := fresh_firstPage u hpageHeight htotal hpages
  obtain ⟨u', hdone, hshown, -⟩ := pictureLoop_from rest hfresh (by omega)
    (fun number hnumber => hsound number (by omega))
    (fun number hnumber => hwhole number (by omega)) (.inl (by omega)) rfl
  refine ⟨u', hdone 0, ?_⟩
  intro place hx hy
  rw [UInt8.lt_iff_toNat_lt, htotal] at hy
  exact hshown place hx (Nat.zero_le _) (by omega) (hwhole _ (by omega))

end Loop

/-- `u8g_dev_ssd1306_128x64_i2c`, where the controller shows stripes. -/
def ssd1306 : U8g 128 := init 128 64 8 fun _ => Vector.replicate (UInt8.toNat 128) 0xa5

/-- If every page is drawn alike, the whole display shows that one picture, and with
`u8g_SetRot180` the same picture upside down. -/
theorem picture_upside_down {pages : ℕ} (u : U8g width) (hpageHeight : u.pb.p.pageHeight = 8)
    (htotal : u.pb.p.totalHeight.toNat = 8 * pages) (hpages : 0 < pages)
    (acknowledged : ℕ → ℕ) (hwhole : ∀ number < pages, width.toNat ≤ acknowledged number)
    {draw : ℕ → List Command}
    (hsound : ∀ number < pages, ∀ command ∈ draw number, command.Sound) {whole : Place → Bool}
    (halike : ∀ number < pages, picture (colorBefore draw u.color number) (draw number) = whole) :
    ∃ upright turned,
      pictureLoop acknowledged draw pages 0 u.undoRotation.firstPage = some upright ∧
      pictureLoop acknowledged draw pages 0 u.setRot180.firstPage = some turned ∧
      ∀ place, place.1 < width → place.2 < u.pb.p.totalHeight →
        upright.shown place = whole place ∧
        turned.shown place = whole (width - place.1 - 1, u.pb.p.totalHeight - place.2 - 1) := by
  have hpb : u.undoRotation.pb = u.pb := by
    unfold undoRotation
    split_ifs <;> rfl
  have hcolor : u.undoRotation.color = u.color := by
    unfold undoRotation
    split_ifs <;> rfl
  have hrot : u.undoRotation.rot180 = false := by
    unfold undoRotation
    split_ifs with hrot
    · rfl
    · exact Bool.eq_false_of_not_eq_true hrot
  obtain ⟨upright, hupright, hshown⟩ := pictureLoop_whole u.undoRotation
    (hpb ▸ hpageHeight) (hpb ▸ htotal) hpages hwhole hsound
  obtain ⟨turned, hturned, hshown'⟩ :=
    pictureLoop_whole u.setRot180 hpageHeight htotal hpages hwhole hsound
  refine ⟨upright, turned, hupright, hturned, ?_⟩
  intro place hx hy
  have hpage : place.2.toNat / 8 < pages := by
    rw [UInt8.lt_iff_toNat_lt, htotal] at hy
    omega
  constructor
  · have hplain : u.undoRotation.turn place = place := by
      rw [turn, hrot]
      rfl
    rw [hshown place hx (hpb ▸ hy), hplain, hcolor, halike _ hpage]
  · exact (hshown' place hx hy).trans (congrFun (halike _ hpage) _)

theorem picture_upside_down_ssd1306 :
    ∃ upright turned,
      pictureLoop (fun _ => 128)
        (fun _ => [.setColorIndex 1, .drawFrame 0 0 128 16, .drawBox 2 2 9 5]) 8 0
        ssd1306.undoRotation.firstPage = some upright ∧
      pictureLoop (fun _ => 128)
        (fun _ => [.setColorIndex 1, .drawFrame 0 0 128 16, .drawBox 2 2 9 5]) 8 0
        ssd1306.setRot180.firstPage = some turned ∧
      ∀ place : Place, place.1 < 128 → place.2 < 64 →
        upright.shown place =
          picture 1 [.setColorIndex 1, .drawFrame 0 0 128 16, .drawBox 2 2 9 5] place ∧
        turned.shown place =
          picture 1 [.setColorIndex 1, .drawFrame 0 0 128 16, .drawBox 2 2 9 5]
            (128 - place.1 - 1, 64 - place.2 - 1) :=
  picture_upside_down ssd1306 rfl rfl (by decide) _ (fun _ _ => le_rfl)
    (fun _ _ => by simp [Command.Sound]) fun _ _ => rfl

end U8g

end OledDs18b20.U8glib
