import OledDs18b20.U8glib.Shapes

/-! Fonts as tables of bytes, and how a glyph is found in them. -/
namespace OledDs18b20.U8glib

def fontWord (font : ℕ → UInt8) (offset : ℕ) : ℕ :=
  (font offset).toNat * 256 + (font (offset + 1)).toNat

def glyphStructureSize (font : ℕ → UInt8) : ℕ :=
  if font 0 = 0 then 6 else if font 0 = 1 then 3 else if font 0 = 2 then 6 else 3

def copyGlyph (font : ℕ → UInt8) (g : ℕ) : Glyph :=
  if font 0 = 0 ∨ font 0 = 2 then
    { width := font g
      height := font (g + 1)
      dx := font (g + 3)
      x := font (g + 4)
      y := font (g + 5)
      data := fun index => font (g + glyphStructureSize font + index) }
  else
    { width := font (g + 1) >>> 4
      height := font (g + 1) &&& 15
      dx := font (g + 2) >>> 4
      x := font g >>> 4
      y := (font g &&& 15) - 2
      data := fun index => font (g + glyphStructureSize font + index) }

def mask (font : ℕ → UInt8) : UInt8 := if font 0 = 1 then 15 else 255

/-- The loop of `u8g_GetGlyph`, which turns once for each encoding up to the last. -/
def glyphLoop (font : ℕ → UInt8) (mask requested : UInt8) : ℕ → ℕ → ℕ → Option ℕ
  | 0, _, _ => none
  | turns + 1, i, p =>
      if font p = 255 then glyphLoop font mask requested turns (i + 1) (p + 1)
      else if i = requested.toNat then some p
      else glyphLoop font mask requested turns (i + 1)
        (p + (font (p + 2) &&& mask).toNat + glyphStructureSize font)

def glyphStart (font : ℕ → UInt8) (requested : UInt8) : ℕ × ℕ :=
  if requested ≥ 97 ∧ fontWord font 8 > 0 then (97, fontWord font 8)
  else if requested ≥ 65 ∧ fontWord font 6 > 0 then (65, fontWord font 6)
  else ((font 10).toNat, 17)

def getGlyph (font : ℕ → UInt8) (requested : UInt8) : Option Glyph :=
  let start := glyphStart font requested
  let last := font 11
  if requested > last then none
  else if start.1 ≤ last.toNat then
    (glyphLoop font (mask font) requested (last.toNat - start.1 + 1) start.1 start.2).map
      (copyGlyph font)
  else none

/-! The format: a glyph that is missing is a byte 255. -/

structure Figure where
  width : UInt8
  height : UInt8
  dx : UInt8
  x : UInt8
  y : UInt8
  bitmap : List UInt8

namespace Figure

/-- The structure of format 1 has two fields in a byte. -/
def bytes (packed : Bool) (figure : Figure) : List UInt8 :=
  let size := UInt8.ofNat figure.bitmap.length
  if packed then
    (figure.x <<< 4 ||| (figure.y + 2)) :: (figure.width <<< 4 ||| figure.height) ::
      (figure.dx <<< 4 ||| size) :: figure.bitmap
  else figure.width :: figure.height :: size :: figure.dx :: figure.x :: figure.y :: figure.bitmap

/-- What the format has room for, with whole rows of the bitmap. The first byte may not be that of
a missing glyph, and the rows may not be wider than the drawing functions can count. -/
structure Fits (packed : Bool) (figure : Figure) : Prop where
  width : figure.width ≤ 248
  whole : figure.bitmap.length = (figure.width.toNat + 7) / 8 * figure.height.toNat
  wide : packed = false → figure.width ≠ 255 ∧ figure.bitmap.length < 256
  narrow : packed = true → figure.x < 16 ∧ figure.y + 2 < 16 ∧
    (figure.x <<< 4 ||| (figure.y + 2)) ≠ 255 ∧ figure.width < 16 ∧ figure.height < 16 ∧
    figure.dx < 16 ∧ figure.bitmap.length < 16

end Figure

def entryBytes (packed : Bool) : Option Figure → List UInt8
  | none => [255]
  | some figure => figure.bytes packed

def tableBytes (packed : Bool) (entries : List (Option Figure)) : List UInt8 :=
  entries.flatMap (entryBytes packed)

def Holds (font : ℕ → UInt8) (place : ℕ) (bytes : List UInt8) : Prop :=
  ∀ index byte, bytes[index]? = some byte → font (place + index) = byte

theorem holds_append {font : ℕ → UInt8} {place : ℕ} {first second : List UInt8}
    (h : Holds font place (first ++ second)) :
    Holds font place first ∧ Holds font (place + first.length) second := by
  constructor
  · intro index byte hbyte
    apply h
    obtain ⟨hindex, -⟩ := List.getElem?_eq_some_iff.mp hbyte
    rw [List.getElem?_append_left hindex, hbyte]
  · intro index byte hbyte
    rw [Nat.add_assoc]
    apply h
    rw [List.getElem?_append_right (Nat.le_add_right _ _), Nat.add_sub_cancel_left, hbyte]

theorem halves {high low : UInt8} (hhigh : high < 16) (hlow : low < 16) :
    (high <<< 4 ||| low) >>> 4 = high ∧ (high <<< 4 ||| low) &&& 15 = low := by
  have hall : ∀ high < 16, ∀ low < 16,
      (UInt8.ofNat high <<< 4 ||| UInt8.ofNat low) >>> 4 = UInt8.ofNat high ∧
        (UInt8.ofNat high <<< 4 ||| UInt8.ofNat low) &&& 15 = UInt8.ofNat low := by
    decide
  have hvalues := hall high.toNat (UInt8.lt_iff_toNat_lt.mp hhigh) low.toNat
    (UInt8.lt_iff_toNat_lt.mp hlow)
  rwa [UInt8.ofNat_toNat, UInt8.ofNat_toNat] at hvalues

structure Glyph.Is (glyph : Glyph) (figure : Figure) : Prop where
  width : glyph.width = figure.width
  height : glyph.height = figure.height
  dx : glyph.dx = figure.dx
  x : glyph.x = figure.x
  y : glyph.y = figure.y
  data : ∀ index byte, figure.bitmap[index]? = some byte → glyph.data index = byte

def Figure.shape (figure : Figure) (x y : UInt8) : Set Place :=
  bitmapAt (fun index => figure.bitmap[index]?.getD 0) ((figure.width.toNat + 7) / 8)
    figure.height.toNat (x + figure.x) (y - figure.y - figure.height)

theorem Glyph.Is.shape_eq {glyph : Glyph} {figure : Figure} {packed : Bool} (h : glyph.Is figure)
    (hfits : figure.Fits packed) (x y : UInt8) : glyph.shape x y = figure.shape x y := by
  unfold Glyph.shape Figure.shape
  rw [h.width, h.height, h.x, h.y]
  ext place
  refine exists_congr fun row => and_congr_right fun hrow => ?_
  refine exists_congr fun column => and_congr_right fun hcolumn => and_congr_right fun _ => ?_
  have hinside : row * ((figure.width.toNat + 7) / 8) + column / 8 < figure.bitmap.length := by
    rw [hfits.whole]
    calc row * ((figure.width.toNat + 7) / 8) + column / 8
        < row * ((figure.width.toNat + 7) / 8) + (figure.width.toNat + 7) / 8 := by omega
      _ = (figure.width.toNat + 7) / 8 * (row + 1) := by ring
      _ ≤ (figure.width.toNat + 7) / 8 * figure.height.toNat := Nat.mul_le_mul_left _ hrow
  have hbyte : glyph.data (row * ((figure.width.toNat + 7) / 8) + column / 8) =
      figure.bitmap[row * ((figure.width.toNat + 7) / 8) + column / 8]?.getD 0 := by
    rw [h.data _ _ (List.getElem?_eq_getElem hinside), List.getElem?_eq_getElem hinside]
    rfl
  rw [hbyte]

section Table
variable {packed : Bool} {font : ℕ → UInt8}

/-- One entry of a table of format 1, with two fields to a byte: it is not taken for a missing
one, its length is found, and so are its fields. -/
theorem figure_at_packed (hformat : font 0 = 1) {figure : Figure} (hfits : figure.Fits true)
    {place : ℕ} (h : Holds font place (figure.bytes true)) :
    font place ≠ 255 ∧
      (font (place + 2) &&& mask font).toNat + glyphStructureSize font =
        (figure.bytes true).length ∧
      (copyGlyph font place).Is figure := by
  obtain ⟨hx, hy, hbyte, hwidth, hheight, hdx, hlength⟩ := hfits.narrow rfl
  have hsize : UInt8.ofNat figure.bitmap.length < 16 := by
    rw [UInt8.lt_iff_toNat_lt, UInt8.toNat_ofNat', Nat.mod_eq_of_lt (by omega)]
    exact hlength
  have h0 : font place = figure.x <<< 4 ||| (figure.y + 2) := h 0 _ rfl
  have h1 : font (place + 1) = figure.width <<< 4 ||| figure.height := h 1 _ rfl
  have h2 : font (place + 2) = figure.dx <<< 4 ||| UInt8.ofNat figure.bitmap.length :=
    h 2 _ rfl
  have hsizes : glyphStructureSize font = 3 := by
    unfold glyphStructureSize
    simp [hformat]
  have hmask : mask font = 15 := by
    unfold mask
    simp [hformat]
  have hdata (index : ℕ) (byte : UInt8) (hindex : figure.bitmap[index]? = some byte) :
      font (place + 3 + index) = byte := by
    have hplace := h (index + 3) byte hindex
    rwa [Nat.add_comm index, ← Nat.add_assoc] at hplace
  refine ⟨h0 ▸ hbyte, ?_, ?_⟩
  · rw [h2, hmask, hsizes, (halves hdx hsize).2, UInt8.toNat_ofNat',
      Nat.mod_eq_of_lt (by omega)]
    rfl
  · have hnot : ¬ (font 0 = 0 ∨ font 0 = 2) := by
      rw [hformat]
      decide
    rw [copyGlyph, if_neg hnot, hsizes, h0, h1, h2]
    refine ⟨(halves hwidth hheight).1, (halves hwidth hheight).2, (halves hdx hsize).1,
      (halves hx hy).1, ?_, hdata⟩
    dsimp only
    rw [(halves hx hy).2, UInt8.add_sub_cancel]

theorem figure_at_wide (hformat : font 0 = 0) {figure : Figure} (hfits : figure.Fits false)
    {place : ℕ} (h : Holds font place (figure.bytes false)) :
    font place ≠ 255 ∧
      (font (place + 2) &&& mask font).toNat + glyphStructureSize font =
        (figure.bytes false).length ∧
      (copyGlyph font place).Is figure := by
  obtain ⟨hwidth, hlength⟩ := hfits.wide rfl
  have h0 : font place = figure.width := h 0 _ rfl
  have h2 : font (place + 2) = UInt8.ofNat figure.bitmap.length := h 2 _ rfl
  have hsizes : glyphStructureSize font = 6 := by
    unfold glyphStructureSize
    simp [hformat]
  have hmask : mask font = 255 := by
    unfold mask
    simp [hformat]
  have hall (byte : UInt8) : byte &&& 255 = byte := by
    obtain ⟨⟨byte⟩⟩ := byte
    revert byte
    decide +kernel
  refine ⟨h0 ▸ hwidth, ?_, ?_⟩
  · rw [h2, hmask, hsizes, hall, UInt8.toNat_ofNat', Nat.mod_eq_of_lt (by omega)]
    rfl
  · have hwide : font 0 = 0 ∨ font 0 = 2 := .inl hformat
    rw [copyGlyph, if_pos hwide, hsizes]
    refine ⟨h0, h 1 _ rfl, h 3 _ rfl, h 4 _ rfl, h 5 _ rfl, ?_⟩
    intro index byte hindex
    have hplace := h (index + 6) byte hindex
    rwa [Nat.add_comm index, ← Nat.add_assoc] at hplace

theorem figure_at (hformat : font 0 = if packed then 1 else 0) {figure : Figure}
    (hfits : figure.Fits packed) {place : ℕ} (h : Holds font place (figure.bytes packed)) :
    font place ≠ 255 ∧
      (font (place + 2) &&& mask font).toNat + glyphStructureSize font =
        (figure.bytes packed).length ∧
      (copyGlyph font place).Is figure := by
  cases packed with
  | true => exact figure_at_packed hformat hfits h
  | false => exact figure_at_wide hformat hfits h

def lookup (entries : List (Option Figure)) (i : ℕ) (requested : UInt8) : Option Figure :=
  if requested.toNat < i then none else entries[requested.toNat - i]?.join

theorem lookup_cons (entry : Option Figure) (entries : List (Option Figure)) (i : ℕ)
    (requested : UInt8) : lookup (entry :: entries) i requested =
      if i = requested.toNat then entry else lookup entries (i + 1) requested := by
  unfold lookup
  split_ifs with hbefore hsame hnext hsame hnext
  · omega
  · rfl
  · omega
  · have hzero : requested.toNat - i = 0 := by omega
    rw [hzero]
    rfl
  · omega
  · have hsucc : requested.toNat - i = requested.toNat - (i + 1) + 1 := by omega
    rw [hsucc, List.getElem?_cons_succ]

def Found (font : ℕ → UInt8) (entry : Option Figure) (answer : Option ℕ) : Prop :=
  match entry with
  | none => answer = none
  | some figure => ∃ g, answer = some g ∧ (copyGlyph font g).Is figure

theorem glyphLoop_found (hformat : font 0 = if packed then 1 else 0) (requested : UInt8)
    {entries : List (Option Figure)}
    (hfits : ∀ figure, some figure ∈ entries → figure.Fits packed) {i place : ℕ}
    (hholds : Holds font place (tableBytes packed entries)) :
    Found font (lookup entries i requested)
      (glyphLoop font (mask font) requested entries.length i place) := by
  induction entries generalizing i place with
  | nil =>
      have hnone : lookup [] i requested = none := by
        simp [lookup]
      rw [hnone]
      exact rfl
  | cons entry entries ih =>
      obtain ⟨hentry, hrest⟩ := holds_append hholds
      have hlater := fun figure hmem => hfits figure (List.mem_cons_of_mem entry hmem)
      rw [lookup_cons, List.length_cons, glyphLoop]
      cases entry with
      | none =>
          have hmissing : font place = 255 := hentry 0 255 rfl
          rw [if_pos hmissing]
          have htail := ih hlater (i := i + 1) hrest
          split_ifs with hsame
          · have hpast : lookup entries (i + 1) requested = none := if_pos (by omega)
            rw [hpast] at htail
            exact htail
          · exact htail
      | some figure =>
          obtain ⟨hpresent, hlength, hglyph⟩ := figure_at hformat
            (hfits figure (List.mem_cons_self ..)) hentry
          rw [if_neg hpresent]
          split_ifs with hsame
          · exact ⟨place, rfl, hglyph⟩
          · rw [Nat.add_assoc, hlength]
            exact ih hlater hrest

end Table

/-- A font before it is laid out: the entries of its encodings from the first to the last, and
the metrics in the header, which do not matter here. -/
structure Typeface where
  packed : Bool
  first : UInt8
  entries : List (Option Figure)
  metrics : ℕ → UInt8
  nonempty : 0 < entries.length
  encodings : first.toNat + entries.length ≤ 256
  fits : ∀ figure, some figure ∈ entries → figure.Fits packed
  size : 17 + (tableBytes packed entries).length < 2 ^ 16

namespace Typeface
variable (t : Typeface)

def jump (encoding : ℕ) : ℕ :=
  if t.first.toNat ≤ encoding ∧ encoding < t.first.toNat + t.entries.length then
    17 + (tableBytes t.packed (t.entries.take (encoding - t.first.toNat))).length
  else 0

def font : ℕ → UInt8
  | 0 => if t.packed then 1 else 0
  | 6 => UInt8.ofNat (t.jump 65 / 256)
  | 7 => UInt8.ofNat (t.jump 65)
  | 8 => UInt8.ofNat (t.jump 97 / 256)
  | 9 => UInt8.ofNat (t.jump 97)
  | 10 => t.first
  | 11 => UInt8.ofNat (t.first.toNat + t.entries.length - 1)
  | offset =>
      if offset < 17 then t.metrics offset
      else (tableBytes t.packed t.entries)[offset - 17]?.getD 0

theorem holds_table : Holds t.font 17 (tableBytes t.packed t.entries) := by
  intro index byte hbyte
  have hbehind : ¬ 17 + index < 17 := by omega
  have htable : t.font (17 + index) =
      if 17 + index < 17 then t.metrics (17 + index)
      else (tableBytes t.packed t.entries)[17 + index - 17]?.getD 0 := by
    unfold font
    split <;> first | omega | rfl
  rw [htable, if_neg hbehind, Nat.add_sub_cancel_left, hbyte]
  rfl

theorem tableBytes_take_drop (count : ℕ) :
    tableBytes t.packed t.entries = tableBytes t.packed (t.entries.take count) ++
      tableBytes t.packed (t.entries.drop count) := by
  rw [tableBytes, tableBytes, tableBytes, ← List.flatMap_append, List.take_append_drop]

theorem jump_lt (encoding : ℕ) : t.jump encoding < 2 ^ 16 := by
  have hsize := t.size
  rw [t.tableBytes_take_drop (encoding - t.first.toNat), List.length_append] at hsize
  unfold jump
  split_ifs <;> omega

theorem fontWord_jump {offset encoding : ℕ}
    (hhigh : t.font offset = UInt8.ofNat (t.jump encoding / 256))
    (hlow : t.font (offset + 1) = UInt8.ofNat (t.jump encoding)) :
    fontWord t.font offset = t.jump encoding := by
  have hsmall := t.jump_lt encoding
  rw [fontWord, hhigh, hlow, UInt8.toNat_ofNat', UInt8.toNat_ofNat']
  omega

theorem last_eq : (t.font 11).toNat = t.first.toNat + t.entries.length - 1 := by
  have hencodings := t.encodings
  have hlast : t.font 11 = UInt8.ofNat (t.first.toNat + t.entries.length - 1) := rfl
  rw [hlast, UInt8.toNat_ofNat', Nat.mod_eq_of_lt]
  have hnonempty := t.nonempty
  omega

theorem format_eq : t.font 0 = if t.packed then 1 else 0 := rfl

theorem found_from {encoding : ℕ} (hjump : 0 < t.jump encoding) {requested : UInt8}
    (hrequested : encoding ≤ requested.toNat ∨ encoding = t.first.toNat) :
    encoding ≤ (t.font 11).toNat ∧ Found t.font (lookup t.entries t.first.toNat requested)
      (glyphLoop t.font (mask t.font) requested
        ((t.font 11).toNat - encoding + 1) encoding (t.jump encoding)) := by
  have hinside : t.first.toNat ≤ encoding ∧ encoding < t.first.toNat + t.entries.length := by
    by_contra houtside
    rw [jump, if_neg houtside] at hjump
    exact lt_irrefl 0 hjump
  have hplace : t.jump encoding =
      17 + (tableBytes t.packed (t.entries.take (encoding - t.first.toNat))).length :=
    if_pos hinside
  have hturns : (t.font 11).toNat - encoding + 1 =
      (t.entries.drop (encoding - t.first.toNat)).length := by
    rw [last_eq, List.length_drop]
    omega
  have hlookup : lookup t.entries t.first.toNat requested =
      lookup (t.entries.drop (encoding - t.first.toNat)) encoding requested := by
    unfold lookup
    by_cases hbefore : requested.toNat < encoding
    · have hfirst : requested.toNat < t.first.toNat := by omega
      rw [if_pos hbefore, if_pos hfirst]
    · have hfirst : ¬ requested.toNat < t.first.toNat := by omega
      have hindex : encoding - t.first.toNat + (requested.toNat - encoding) =
          requested.toNat - t.first.toNat := by omega
      rw [if_neg hbefore, if_neg hfirst, List.getElem?_drop, hindex]
  have hholds := t.holds_table
  rw [t.tableBytes_take_drop (encoding - t.first.toNat)] at hholds
  refine ⟨by rw [last_eq]; omega, ?_⟩
  rw [hlookup, hturns, hplace]
  apply glyphLoop_found t.format_eq requested _ (holds_append hholds).2
  intro figure hmem
  exact t.fits figure (List.mem_of_mem_drop hmem)

theorem glyphStart_eq (requested : UInt8) : ∃ encoding,
    glyphStart t.font requested = (encoding, t.jump encoding) ∧ 0 < t.jump encoding ∧
      (encoding ≤ requested.toNat ∨ encoding = t.first.toNat) := by
  have hsmall : fontWord t.font 8 = t.jump 97 := t.fontWord_jump rfl rfl
  have hcapital : fontWord t.font 6 = t.jump 65 := t.fontWord_jump rfl rfl
  unfold glyphStart
  rw [hsmall, hcapital]
  split_ifs with hsmalls hcapitals
  · exact ⟨97, rfl, hsmalls.2, .inl (UInt8.le_iff_toNat_le.mp hsmalls.1)⟩
  · exact ⟨65, rfl, hcapitals.2, .inl (UInt8.le_iff_toNat_le.mp hcapitals.1)⟩
  · have hstart : t.jump t.first.toNat = 17 := by
      have hnonempty := t.nonempty
      unfold jump
      rw [if_pos ⟨le_rfl, by omega⟩, Nat.sub_self]
      rfl
    exact ⟨t.first.toNat, by rw [hstart]; rfl, by omega, .inr rfl⟩

/-- The glyphs that `u8g_GetGlyph` finds in a font are those that were laid out in it, also when
it starts in the middle of the table, and it finds no other. -/
theorem getGlyph_found (requested : UInt8) :
    match lookup t.entries t.first.toNat requested with
    | none => getGlyph t.font requested = none
    | some figure => ∃ glyph, getGlyph t.font requested = some glyph ∧ glyph.Is figure := by
  obtain ⟨encoding, hstart, hjump, hrequested⟩ := t.glyphStart_eq requested
  obtain ⟨hinside, hfound⟩ := t.found_from hjump hrequested
  unfold getGlyph
  simp only [hstart, hinside, if_true]
  by_cases hlast : requested > t.font 11
  · have hpast : lookup t.entries t.first.toNat requested = none := by
      rw [gt_iff_lt, UInt8.lt_iff_toNat_lt, last_eq] at hlast
      unfold lookup
      rw [List.getElem?_eq_none (by omega)]
      exact ite_self none
    rw [hpast, if_pos hlast]
  · rw [if_neg hlast]
    cases hlookup : lookup t.entries t.first.toNat requested with
    | none =>
        rw [hlookup] at hfound
        rw [hfound]
        rfl
    | some figure =>
        rw [hlookup] at hfound
        obtain ⟨g, hg, hglyph⟩ := hfound
        exact ⟨copyGlyph t.font g, by rw [hg]; rfl, hglyph⟩

example : ∃ t : Typeface, t.first = 65 ∧ (getGlyph t.font 65).map Glyph.width = some 3 ∧
    (getGlyph t.font 66).map Glyph.width = none ∧ (getGlyph t.font 97).map Glyph.dx = none :=
  ⟨⟨true, 65, [some ⟨3, 2, 4, 0, 0, [0xe0, 0xa0]⟩, none], fun _ => 0, by decide, by decide,
      by simp only [List.mem_cons, Option.some.injEq, List.not_mem_nil, or_false, reduceCtorEq]
         rintro figure rfl
         exact ⟨by decide, rfl, by simp, fun _ => by decide⟩, by decide⟩,
    rfl, by decide, by decide, by decide⟩

def advance (s : List UInt8) : UInt8 :=
  (s.map fun encoding => ((lookup t.entries t.first.toNat encoding).map Figure.dx).getD 0).sum

def text (x y : UInt8) (s : List UInt8) : Set Place :=
  {place | ∃ before encoding rest figure, s = before ++ encoding :: rest ∧
    lookup t.entries t.first.toNat encoding = some figure ∧
    place ∈ figure.shape (x + t.advance before) y}

theorem getGlyph_eq_none {encoding : UInt8}
    (h : lookup t.entries t.first.toNat encoding = none) : getGlyph t.font encoding = none := by
  have hfound := t.getGlyph_found encoding
  rwa [h] at hfound

theorem getGlyph_eq_some {encoding : UInt8} {figure : Figure}
    (h : lookup t.entries t.first.toNat encoding = some figure) :
    ∃ glyph, getGlyph t.font encoding = some glyph ∧ glyph.Is figure := by
  have hfound := t.getGlyph_found encoding
  rwa [h] at hfound

theorem fits_of_lookup {encoding : UInt8} {figure : Figure}
    (h : lookup t.entries t.first.toNat encoding = some figure) : figure.Fits t.packed := by
  unfold lookup at h
  split_ifs at h
  exact t.fits figure (List.mem_of_getElem? (Option.join_eq_some_iff.mp h))

theorem advance_eq (calcVref : UInt8) (s : List UInt8) :
    Font.advance ⟨calcVref, getGlyph t.font⟩ s = t.advance s := by
  unfold Font.advance advance
  congr 1
  apply List.map_congr_left
  intro encoding _
  cases hlookup : lookup t.entries t.first.toNat encoding with
  | none =>
      dsimp only
      rw [t.getGlyph_eq_none hlookup]
      rfl
  | some figure =>
      obtain ⟨glyph, hglyph, his⟩ := t.getGlyph_eq_some hlookup
      dsimp only
      rw [hglyph]
      exact his.dx

theorem glyph_width {encoding : UInt8} {glyph : Glyph}
    (h : getGlyph t.font encoding = some glyph) : glyph.width ≤ 248 := by
  cases hlookup : lookup t.entries t.first.toNat encoding with
  | none =>
      rw [t.getGlyph_eq_none hlookup] at h
      contradiction
  | some figure =>
      obtain ⟨found, hfound, his⟩ := t.getGlyph_eq_some hlookup
      obtain rfl := Option.some.inj (hfound.symm.trans h)
      rw [his.width]
      exact (t.fits_of_lookup hlookup).width

/-- From the table of bytes to the dots: `u8g_DrawStr` draws the bitmaps that were laid out in the
font for the characters of the text, each moved by what those before it take up. -/
theorem mem_drawStr (calcVref x y : UInt8) (s : List UInt8) (place : Place) :
    place ∈ (Command.drawStr ⟨calcVref, getGlyph t.font⟩ x y s).places ↔
      place ∈ t.text x (y + calcVref) s := by
  have hrestricted : (Command.drawStr ⟨calcVref, getGlyph t.font⟩ x y s).Restricted :=
    fun _ _ => t.glyph_width
  rw [mem_places_iff hrestricted]
  constructor
  · rintro ⟨before, encoding, rest, glyph, hs, hglyph, hplace⟩
    rw [advance_eq] at hplace
    cases hlookup : lookup t.entries t.first.toNat encoding with
    | none =>
        dsimp only at hglyph
        rw [t.getGlyph_eq_none hlookup] at hglyph
        contradiction
    | some figure =>
        obtain ⟨found, hfound, his⟩ := t.getGlyph_eq_some hlookup
        obtain rfl := Option.some.inj (hfound.symm.trans hglyph)
        rw [his.shape_eq (t.fits_of_lookup hlookup)] at hplace
        exact ⟨before, encoding, rest, figure, hs, hlookup, hplace⟩
  · rintro ⟨before, encoding, rest, figure, hs, hlookup, hplace⟩
    obtain ⟨glyph, hglyph, his⟩ := t.getGlyph_eq_some hlookup
    refine ⟨before, encoding, rest, glyph, hs, hglyph, ?_⟩
    rw [advance_eq, his.shape_eq (t.fits_of_lookup hlookup)]
    exact hplace

end Typeface

end OledDs18b20.U8glib
