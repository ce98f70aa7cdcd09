import OledDs18b20.Lib.Raster

/-! The display is drawn page by page: the buffer holds the eight rows of one page, a byte for
each column, and a pixel outside of the page is dropped. -/
namespace OledDs18b20.U8glib
open Lib

/-- A place on the screen. Coordinates are bytes, and wrap. -/
abbrev Place := UInt8 × UInt8

structure Page where
  pageHeight : UInt8
  totalHeight : UInt8
  pageY0 : UInt8
  pageY1 : UInt8
  page : UInt8
deriving DecidableEq

namespace Page

def first (p : Page) : Page :=
  { p with pageY0 := 0, pageY1 := p.pageHeight - 1, page := 0 }

def next (p : Page) : Bool × Page :=
  let pageY0 := p.pageY0 + p.pageHeight
  if pageY0 ≥ p.totalHeight then (false, { p with pageY0 := pageY0 })
  else
    let y1 := p.pageY1 + p.pageHeight
    let y1 := if y1 ≥ p.totalHeight then p.totalHeight - 1 else y1
    (true, { p with pageY0 := pageY0, page := p.page + 1, pageY1 := y1 })

end Page

structure ArgPixel where
  x : UInt8
  y : UInt8
  pixel : UInt8
  dir : BitVec 2
  color : UInt8
deriving DecidableEq

structure Pb (width : UInt8) where
  p : Page
  buf : Vector UInt8 width.toNat
deriving DecidableEq

/-- The step from one pixel to the next. -/
def stepX (dir : BitVec 2) : UInt8 :=
  if dir = 0 then 1 else if dir = 2 then 0 - 1 else 0

def stepY (dir : BitVec 2) : UInt8 :=
  if dir = 1 then 1 else if dir = 3 then 0 - 1 else 0

namespace Pb
variable {width : UInt8}

def clear (b : Pb width) : Pb width :=
  { b with buf := Vector.replicate width.toNat 0 }

def setPixelAt (b : Pb width) (x y : UInt8) (colorIndex : UInt8) : Pb width :=
  let y := (y - b.p.pageY0) &&& 0x07
  let mask : UInt8 := 1 <<< y
  let old := b.buf[x.toNat]?.getD 0
  { b with
    buf := b.buf.setIfInBounds x.toNat
      (if colorIndex ≠ 0 then old ||| mask else old &&& (mask ^^^ 0xff)) }

def setPixel (b : Pb width) (argPixel : ArgPixel) : Pb width :=
  if argPixel.y < b.p.pageY0 then b
  else if argPixel.y > b.p.pageY1 then b
  else if argPixel.x ≥ width then b
  else b.setPixelAt argPixel.x argPixel.y argPixel.color

/-- The loop of `u8g_pb8v1_Set8PixelOpt2`, which ends when no bit is left of `pixel`. -/
def set8PixelLoop : ℕ → Pb width → ArgPixel → Pb width
  | 0, b, _ => b
  | fuel + 1, b, argPixel =>
      let b := if argPixel.pixel &&& 128 ≠ 0 then b.setPixel argPixel else b
      let argPixel := { argPixel with
        x := argPixel.x + stepX argPixel.dir
        y := argPixel.y + stepY argPixel.dir
        pixel := argPixel.pixel <<< 1 }
      if argPixel.pixel ≠ 0 then set8PixelLoop fuel b argPixel else b

/-- `u8g_pb8v1_Set8PixelOpt2`: eight shifts clear every byte. -/
def set8Pixel (b : Pb width) (argPixel : ArgPixel) : Pb width :=
  set8PixelLoop 8 b argPixel

def isYIntersection (b : Pb width) (v0 v1 : UInt8) : Bool :=
  let c1 := decide (v0 ≤ b.p.pageY1)
  let c2 := decide (v1 ≥ b.p.pageY0)
  let c3 := decide (v0 > v1)
  c1 && c2 || c2 && c3 || c3 && c1

def is8PixelVisible (b : Pb width) (argPixel : ArgPixel) : Bool :=
  let v0 := if argPixel.dir = 3 then argPixel.y - 8 else argPixel.y
  let v1 := if argPixel.dir = 1 then argPixel.y + 8 else argPixel.y
  b.isYIntersection v0 v1

def set8PixelMsg (b : Pb width) (argPixel : ArgPixel) : Pb width :=
  if b.is8PixelVisible argPixel then b.set8Pixel argPixel else b

end Pb

def isIntersection (a0 a1 v0 v1 : UInt8) : Bool :=
  if v0 ≤ a1 then
    if v1 ≥ a0 then true
    else if v0 > v1 then true
    else false
  else if v1 ≥ a0 then
    if v0 > v1 then true
    else false
  else false

/-! A stretch of places, which may wrap, is never taken for one that misses the page. -/

theorem isIntersection_iff (a0 a1 v0 v1 : UInt8) :
    isIntersection a0 a1 v0 v1 = true ↔
      v0 ≤ a1 ∧ v1 ≥ a0 ∨ v1 ≥ a0 ∧ v0 > v1 ∨ v0 > v1 ∧ v0 ≤ a1 := by
  unfold isIntersection
  split_ifs <;> simp_all

theorem Pb.isYIntersection_eq {width : UInt8} (b : Pb width) (v0 v1 : UInt8) :
    b.isYIntersection v0 v1 = isIntersection b.p.pageY0 b.p.pageY1 v0 v1 := by
  rw [Bool.eq_iff_iff, isIntersection_iff]
  simp [isYIntersection, or_assoc]

theorem isIntersection_of_mem {a0 a1 v0 : UInt8} {length index : ℕ} (hindex : index ≤ length)
    (hlength : length < 256) (hlow : a0 ≤ v0 + UInt8.ofNat index)
    (hhigh : v0 + UInt8.ofNat index ≤ a1) :
    isIntersection a0 a1 v0 (v0 + UInt8.ofNat length) = true := by
  rw [isIntersection_iff]
  simp only [ge_iff_le, gt_iff_lt, UInt8.le_iff_toNat_le, UInt8.lt_iff_toNat_lt,
    UInt8.toNat_add, UInt8.toNat_ofNat'] at hlow hhigh ⊢
  have hstart : v0.toNat < 256 := v0.toNat_lt
  omega

/-! What the buffer shows. -/

/-- The places of eight pixels, as far as their bits are set. -/
def dots8 : ℕ → UInt8 → UInt8 → BitVec 2 → UInt8 → List Place
  | 0, _, _, _, _ => []
  | count + 1, x, y, dir, pixel =>
      (if pixel &&& 128 ≠ 0 then [(x, y)] else []) ++
        dots8 count (x + stepX dir) (y + stepY dir) dir (pixel <<< 1)

theorem dots8_zero (count : ℕ) (x y : UInt8) (dir : BitVec 2) : dots8 count x y dir 0 = [] := by
  induction count generalizing x y with
  | zero => rfl
  | succ count ih =>
      have hshift : (0 : UInt8) <<< 1 = 0 := by decide
      rw [dots8, hshift, ih]
      rfl

/-- The bits of a byte stand for pixels from the left. -/
def bit (pixel : UInt8) (index : ℕ) : Bool := pixel.toBitVec.getLsbD (7 - index)

theorem and_ne_zero_iff (pixel : UInt8) : pixel &&& 128 ≠ 0 ↔ bit pixel 0 = true := by
  obtain ⟨⟨pixel⟩⟩ := pixel
  revert pixel
  decide +kernel

theorem bit_shift (pixel : UInt8) : ∀ index < 7,
    bit (pixel <<< 1) index = bit pixel (index + 1) := by
  obtain ⟨⟨pixel⟩⟩ := pixel
  revert pixel
  decide +kernel

theorem mem_dots8 {count : ℕ} (hcount : count ≤ 8) {x y pixel : UInt8} {dir : BitVec 2}
    {place : Place} : place ∈ dots8 count x y dir pixel ↔ ∃ index < count,
      place = (x + UInt8.ofNat index * stepX dir, y + UInt8.ofNat index * stepY dir) ∧
        bit pixel index = true := by
  induction count generalizing x y pixel with
  | zero => simp [dots8]
  | succ count ih =>
      have hnext (start step : UInt8) (index : ℕ) :
          start + step + UInt8.ofNat index * step = start + UInt8.ofNat (index + 1) * step := by
        rw [UInt8.ofNat_add, UInt8.add_mul, UInt8.add_assoc, UInt8.add_comm step]
        congr 2
        exact (UInt8.one_mul step).symm
      have hfirst : place ∈ (if pixel &&& 128 ≠ 0 then [(x, y)] else []) ↔
          place = (x + UInt8.ofNat 0 * stepX dir, y + UInt8.ofNat 0 * stepY dir) ∧
            bit pixel 0 = true := by
        have hstart (start step : UInt8) : start + UInt8.ofNat 0 * step = start := by
          change start + 0 * step = start
          rw [UInt8.zero_mul, UInt8.add_zero]
        rw [hstart, hstart, ← and_ne_zero_iff]
        split_ifs with hbit <;> simp [hbit]
      rw [dots8, List.mem_append, ih (by omega), hfirst, Nat.exists_lt_succ_left]
      refine or_congr_right (exists_congr fun index => and_congr_right fun hindex => ?_)
      rw [hnext, hnext, bit_shift pixel index (by omega)]

namespace Pb
variable {width : UInt8}

def OnPage (b : Pb width) (place : Place) : Prop :=
  place.1 < width ∧ b.p.pageY0 ≤ place.2 ∧ place.2 ≤ b.p.pageY1

/-- The bit of a place on the page. -/
def shows (b : Pb width) (place : Place) : Bool :=
  (b.buf[place.1.toNat]?.getD 0).toBitVec.getLsbD ((place.2 - b.p.pageY0) &&& 7).toNat

/-- A page has eight rows. -/
def Aligned (p : Page) : Prop := p.pageY1.toNat = p.pageY0.toNat + 7

theorem mask_bit {row row' : ℕ} (hrow : row < 8) (hrow' : row' < 8) :
    ((1 : UInt8) <<< UInt8.ofNat row).toBitVec.getLsbD row' = decide (row = row') := by
  interval_cases row <;> interval_cases row' <;> decide

theorem written_bit (old colorIndex : UInt8) {row row' : ℕ} (hrow : row < 8) (hrow' : row' < 8) :
    (if colorIndex ≠ 0 then old ||| (1 : UInt8) <<< UInt8.ofNat row
      else old &&& ((1 : UInt8) <<< UInt8.ofNat row ^^^ 0xff)).toBitVec.getLsbD row' =
      if row = row' then decide (colorIndex ≠ 0) else old.toBitVec.getLsbD row' := by
  have hmask := mask_bit hrow hrow'
  have hones : (0xff : UInt8).toBitVec.getLsbD row' = true := by
    interval_cases row' <;> decide
  by_cases hcolor : colorIndex = 0
  · rw [if_neg (not_not.mpr hcolor), UInt8.toBitVec_and, UInt8.toBitVec_xor, BitVec.getLsbD_and,
      BitVec.getLsbD_xor, hmask, hones]
    by_cases hsame : row = row' <;> simp [hsame, hcolor]
  · rw [if_pos hcolor, UInt8.toBitVec_or, BitVec.getLsbD_or, hmask]
    by_cases hsame : row = row' <;> simp [hsame, hcolor]

theorem row_eq {b : Pb width} (haligned : Aligned b.p) {place : Place} (h : b.OnPage place) :
    (place.2 - b.p.pageY0) &&& 7 = UInt8.ofNat (place.2.toNat - b.p.pageY0.toNat) ∧
      place.2.toNat - b.p.pageY0.toNat < 8 := by
  obtain ⟨-, hlow, hhigh⟩ := h
  have hrow : place.2.toNat - b.p.pageY0.toNat < 8 := by
    rw [UInt8.le_iff_toNat_le, haligned] at hhigh
    omega
  have hseven : UInt8.toNat 7 = 2 ^ 3 - 1 := rfl
  refine ⟨?_, hrow⟩
  apply UInt8.toNat_inj.mp
  rw [UInt8.toNat_and, hseven, Nat.and_two_pow_sub_one_eq_mod, UInt8.toNat_sub_of_le _ _ hlow,
    UInt8.toNat_ofNat', Nat.mod_eq_of_lt hrow, Nat.mod_eq_of_lt (by omega)]

/-- One pixel of the page is set, and no other. -/
theorem shows_setPixelAt {b : Pb width} (haligned : Aligned b.p) {x y : UInt8}
    (h : b.OnPage (x, y)) (colorIndex : UInt8) {place : Place} (hplace : b.OnPage place) :
    (b.setPixelAt x y colorIndex).shows place =
      Function.update b.shows (x, y) (decide (colorIndex ≠ 0)) place := by
  obtain ⟨hrow, hsmall⟩ := row_eq haligned h
  obtain ⟨hrow', hsmall'⟩ := row_eq haligned hplace
  have hcolumn : x.toNat < width.toNat := UInt8.lt_iff_toNat_lt.mp h.1
  have hrows : y = place.2 ↔
      y.toNat - b.p.pageY0.toNat = place.2.toNat - b.p.pageY0.toNat := by
    have hlow := UInt8.le_iff_toNat_le.mp h.2.1
    have hlow' := UInt8.le_iff_toNat_le.mp hplace.2.1
    rw [← UInt8.toNat_inj]
    simp only at hlow
    omega
  unfold shows setPixelAt
  dsimp only at hrow hsmall ⊢
  rw [hrow, hrow', UInt8.toNat_ofNat', Nat.mod_eq_of_lt (by omega : _ < 2 ^ 8)]
  by_cases hx : x = place.1
  · subst hx
    rw [Vector.getElem?_setIfInBounds_self, if_pos hcolumn, Option.getD_some,
      written_bit _ _ hsmall hsmall', Function.update_apply]
    by_cases hy : y = place.2
    · have hsame : place = (place.1, y) := Prod.ext rfl hy.symm
      rw [if_pos (hrows.mp hy), if_pos hsame]
    · rw [if_neg (mt hrows.mpr hy), if_neg fun hsame => hy (congrArg Prod.snd hsame).symm, hrow',
        UInt8.toNat_ofNat', Nat.mod_eq_of_lt (by omega : _ < 2 ^ 8)]
  · have hcolumns : x.toNat ≠ place.1.toNat := fun hsame => hx (UInt8.toNat_inj.mp hsame)
    rw [Vector.getElem?_setIfInBounds_ne hcolumns,
      Function.update_of_ne fun hsame => hx (congrArg Prod.fst hsame).symm, hrow',
      UInt8.toNat_ofNat', Nat.mod_eq_of_lt (by omega : _ < 2 ^ 8)]

@[simp] theorem setPixel_p (b : Pb width) (argPixel : ArgPixel) :
    (b.setPixel argPixel).p = b.p := by
  unfold setPixel
  split_ifs <;> rfl

theorem onPage_congr {b b' : Pb width} (h : b'.p = b.p) (place : Place) :
    b'.OnPage place ↔ b.OnPage place := by
  rw [OnPage, h]
  rfl

theorem shows_setPixel {b : Pb width} (haligned : Aligned b.p) (argPixel : ArgPixel)
    {place : Place} (hplace : b.OnPage place) :
    (b.setPixel argPixel).shows place =
      Function.update b.shows (argPixel.x, argPixel.y) (decide (argPixel.color ≠ 0)) place := by
  by_cases hinside : b.OnPage (argPixel.x, argPixel.y)
  · obtain ⟨hx, hlow, hhigh⟩ := hinside
    have hset : b.setPixel argPixel = b.setPixelAt argPixel.x argPixel.y argPixel.color := by
      rw [setPixel, if_neg (UInt8.not_lt.mpr hlow), if_neg (UInt8.not_lt.mpr hhigh),
        if_neg (UInt8.not_le.mpr hx)]
    rw [hset]
    exact shows_setPixelAt haligned ⟨hx, hlow, hhigh⟩ argPixel.color hplace
  · have hother : place ≠ (argPixel.x, argPixel.y) := fun hsame => hinside (hsame ▸ hplace)
    have hkept : b.setPixel argPixel = b := by
      unfold setPixel
      split_ifs with hlow hhigh hx
      · rfl
      · rfl
      · rfl
      · exact absurd ⟨UInt8.not_le.mp hx, UInt8.not_lt.mp hlow, UInt8.not_lt.mp hhigh⟩ hinside
    rw [hkept, Function.update_of_ne hother]

/-- The dots of a list of places in one colour. -/
def inColor (color : UInt8) (places : List Place) : List (Raster.Dot Place Bool) :=
  places.map fun place => ⟨place, decide (color ≠ 0)⟩

theorem inColor_append (color : UInt8) (first second : List Place) :
    inColor color (first ++ second) = inColor color first ++ inColor color second :=
  List.map_append

@[simp] theorem set8PixelLoop_p (fuel : ℕ) (b : Pb width) (argPixel : ArgPixel) :
    (set8PixelLoop fuel b argPixel).p = b.p := by
  induction fuel generalizing b argPixel with
  | zero => rfl
  | succ fuel ih =>
      unfold set8PixelLoop
      dsimp only
      split_ifs <;> simp [ih]

theorem shows_set8PixelLoop (fuel : ℕ) {b : Pb width} (haligned : Aligned b.p)
    (argPixel : ArgPixel) {place : Place} (hplace : b.OnPage place) :
    (set8PixelLoop fuel b argPixel).shows place =
      Raster.paint (inColor argPixel.color
        (dots8 fuel argPixel.x argPixel.y argPixel.dir argPixel.pixel)) b.shows place := by
  induction fuel generalizing b argPixel with
  | zero => rfl
  | succ fuel ih =>
      let set := if argPixel.pixel &&& 128 ≠ 0 then b.setPixel argPixel else b
      let moved := { argPixel with
        x := argPixel.x + stepX argPixel.dir
        y := argPixel.y + stepY argPixel.dir
        pixel := argPixel.pixel <<< 1 }
      have hp : set.p = b.p := by
        dsimp only [set]
        split_ifs <;> simp
      have hset : set.shows place = Raster.paint (inColor argPixel.color
          (if argPixel.pixel &&& 128 ≠ 0 then [(argPixel.x, argPixel.y)] else [])) b.shows
            place := by
        dsimp only [set]
        split_ifs
        · exact shows_setPixel haligned argPixel hplace
        · rfl
      have hloop : set8PixelLoop (fuel + 1) b argPixel =
          if moved.pixel ≠ 0 then set8PixelLoop fuel set moved else set := rfl
      rw [hloop, dots8, inColor_append, Raster.paint_append]
      by_cases hdone : moved.pixel ≠ 0
      · rw [if_pos hdone, ih (hp ▸ haligned) moved ((onPage_congr hp place).mpr hplace)]
        exact Raster.paint_congr hset _
      · have hnone : argPixel.pixel <<< 1 = 0 := not_not.mp hdone
        rw [if_neg hdone, hnone, dots8_zero]
        exact hset

theorem shows_set8Pixel {b : Pb width} (haligned : Aligned b.p) (argPixel : ArgPixel)
    {place : Place} (hplace : b.OnPage place) :
    (b.set8Pixel argPixel).shows place =
      Raster.paint (inColor argPixel.color
        (dots8 8 argPixel.x argPixel.y argPixel.dir argPixel.pixel)) b.shows place :=
  shows_set8PixelLoop 8 haligned argPixel hplace

/-- Eight pixels that are taken for invisible are not on the page. -/
theorem visible_of_mem {b : Pb width} {argPixel : ArgPixel} {place : Place}
    (hmem : place ∈ dots8 8 argPixel.x argPixel.y argPixel.dir argPixel.pixel)
    (hplace : b.OnPage place) : b.is8PixelVisible argPixel = true := by
  obtain ⟨index, hindex, rfl, -⟩ := (mem_dots8 le_rfl).mp hmem
  obtain ⟨-, hlow, hhigh⟩ := hplace
  dsimp only at hlow hhigh
  unfold is8PixelVisible
  dsimp only
  rw [isYIntersection_eq]
  by_cases hdown : argPixel.dir = 1
  · rw [hdown, stepY, if_pos rfl, UInt8.mul_one] at hlow hhigh
    rw [hdown, if_neg (by decide), if_pos rfl]
    have hvisible : isIntersection b.p.pageY0 b.p.pageY1 argPixel.y
        (argPixel.y + UInt8.ofNat 8) = true :=
      isIntersection_of_mem (by omega) (by decide) hlow hhigh
    exact hvisible
  · by_cases hup : argPixel.dir = 3
    · have hback : argPixel.y + UInt8.ofNat index * (0 - 1) =
          argPixel.y - 8 + UInt8.ofNat (8 - index) := by
        interval_cases index <;> grind
      rw [hup, stepY, if_neg (by decide), if_pos rfl, hback] at hlow hhigh
      rw [hup, if_pos rfl, if_neg (by decide)]
      have hvisible : isIntersection b.p.pageY0 b.p.pageY1 (argPixel.y - 8)
          (argPixel.y - 8 + UInt8.ofNat 8) = true :=
        isIntersection_of_mem (by omega) (by decide) hlow hhigh
      have hend : argPixel.y - 8 + UInt8.ofNat 8 = argPixel.y := UInt8.sub_add_cancel _ _
      rwa [hend] at hvisible
    · have hstay : stepY argPixel.dir = 0 := by
        rw [stepY, if_neg hdown, if_neg hup]
      rw [hstay, UInt8.mul_zero] at hlow hhigh
      rw [if_neg hdown, if_neg hup]
      have hvisible : isIntersection b.p.pageY0 b.p.pageY1 argPixel.y
          (argPixel.y + UInt8.ofNat 0) = true :=
        isIntersection_of_mem le_rfl (by decide) hlow hhigh
      rwa [show UInt8.ofNat 0 = 0 from rfl, UInt8.add_zero] at hvisible

@[simp] theorem set8PixelMsg_p (b : Pb width) (argPixel : ArgPixel) :
    (b.set8PixelMsg argPixel).p = b.p := by
  unfold set8PixelMsg set8Pixel
  split_ifs <;> simp

theorem shows_set8PixelMsg {b : Pb width} (haligned : Aligned b.p) (argPixel : ArgPixel)
    {place : Place} (hplace : b.OnPage place) :
    (b.set8PixelMsg argPixel).shows place =
      Raster.paint (inColor argPixel.color
        (dots8 8 argPixel.x argPixel.y argPixel.dir argPixel.pixel)) b.shows place := by
  unfold set8PixelMsg
  split_ifs with hvisible
  · exact shows_set8Pixel haligned argPixel hplace
  · symm
    apply Raster.paint_of_forall_ne
    intro dot hdot hsame
    obtain ⟨other, hother, rfl⟩ := List.mem_map.mp hdot
    exact hvisible (visible_of_mem (hsame ▸ hother) hplace)

/-- The loop has ended after eight turns: more of them make no difference. -/
theorem set8PixelLoop_add (fuel extra : ℕ) (b : Pb width) (argPixel : ArgPixel)
    (h : (· <<< (1 : UInt8))^[fuel + 1] argPixel.pixel = 0) :
    set8PixelLoop (fuel + 1 + extra) b argPixel = set8PixelLoop (fuel + 1) b argPixel := by
  induction fuel generalizing b argPixel with
  | zero =>
      have hdone : argPixel.pixel <<< 1 = 0 := h
      rw [Nat.add_right_comm, set8PixelLoop, set8PixelLoop]
      simp only [hdone, ne_eq, not_true_eq_false, if_false]
  | succ fuel ih =>
      rw [Nat.add_right_comm, set8PixelLoop]
      conv_rhs => rw [set8PixelLoop]
      dsimp only
      have hmoved (set : Pb width) (moved : ArgPixel)
          (hpixel : moved.pixel = argPixel.pixel <<< 1) :
          set8PixelLoop (fuel + 1 + extra) set moved = set8PixelLoop (fuel + 1) set moved := by
        apply ih
        rw [hpixel]
        exact h
      rw [hmoved _ _ rfl]

theorem shift_eight (pixel : UInt8) : (· <<< (1 : UInt8))^[8] pixel = 0 := by
  obtain ⟨⟨pixel⟩⟩ := pixel
  revert pixel
  decide +kernel

theorem set8Pixel_eq (extra : ℕ) (b : Pb width) (argPixel : ArgPixel) :
    set8PixelLoop (8 + extra) b argPixel = b.set8Pixel argPixel :=
  set8PixelLoop_add 7 extra b argPixel (shift_eight argPixel.pixel)

end Pb

end OledDs18b20.U8glib
