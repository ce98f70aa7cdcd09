import Mathlib
import OledDs18b20.Nokia.Dashboard

/-! The drawing commands of one call of `draw`, with the options that the sketch
defines. Coordinates are converted to the 8-bit `u8g_uint_t` of the library. -/
namespace OledDs18b20.Nokia.Screen
open Dashboard

def heightLCD : ℤ := 48
def widthLCD : ℤ := 84
def hBarW : ℤ := 10
def accHeight : ℤ := 10
def acuOffsetW : ℤ := 0
def acuOffsetH : ℤ := 0
def topPicHeight : ℤ := 16
def arrOffset : ℤ := 0

/-- `char buf[8]` -/
def bufSize : ℕ := 8

inductive Bitmap where
  | fuel | accum
  | bigLoBeam | bigHiBeam
  | bigLArr | bigRArr
deriving DecidableEq

inductive Command where
  | setFont
  | setFontRefHeightExtendedText
  | setDefaultForegroundColor
  | setFontPosTop
  | setColorIndex (index : UInt8)
  | drawStr (x y : UInt8) (text : String)
  | drawFrame (x y w h : UInt8)
  | drawBox (x y w h : UInt8)
  | drawPixel (x y : UInt8)
  | drawLine (x1 y1 x2 y2 : UInt8)
  | drawBitmapP (x y cnt h : UInt8) (bitmap : Bitmap)
deriving DecidableEq

/-- What one call of `draw` reads from the pins. -/
structure PageInput where
  lTurn : Bool
  rTurn : Bool
  volt : Adc
deriving DecidableEq

def str (x y : ℤ) (text : String) : Command :=
  .drawStr (UInt8.ofInt x) (UInt8.ofInt y) text

def frame (x y w h : ℤ) : Command :=
  .drawFrame (UInt8.ofInt x) (UInt8.ofInt y) (UInt8.ofInt w) (UInt8.ofInt h)

def box (x y w h : ℤ) : Command :=
  .drawBox (UInt8.ofInt x) (UInt8.ofInt y) (UInt8.ofInt w) (UInt8.ofInt h)

def pixel (x y : ℤ) : Command := .drawPixel (UInt8.ofInt x) (UInt8.ofInt y)

def line (x1 y1 x2 y2 : ℤ) : Command :=
  .drawLine (UInt8.ofInt x1) (UInt8.ofInt y1) (UInt8.ofInt x2) (UInt8.ofInt y2)

def bitmapP (x y cnt h : ℤ) (bitmap : Bitmap) : Command :=
  .drawBitmapP (UInt8.ofInt x) (UInt8.ofInt y) (UInt8.ofInt cnt) (UInt8.ofInt h) bitmap

/-! The four texts that `sprintf` writes into `buf`. -/

/-- `"a0=%d"` -/
def rawFuelText (d : Dashboard) : String := "a0=" ++ toString d.sensorValue.toInt

/-- `"%d%%"` -/
def percentText (d : Dashboard) : String := toString d.fuelLVLProcent.toInt ++ "%"

/-- `"%d.%dV"` -/
def voltageText (d : Dashboard) : String :=
  toString (d.voltValue / 10).toInt ++ "." ++ toString (d.voltValue % 10).toInt ++ "V"

/-- `"v=%d"` -/
def rawVoltageText (volt : Adc) : String := "v=" ++ toString (analog volt).toInt

def texts (d : Dashboard) (input : PageInput) : List String :=
  [rawFuelText d, percentText d, voltageText d, rawVoltageText input.volt]

/-- The bytes that `sprintf` writes, the terminator included. The texts are ASCII. -/
def written (text : String) : ℕ := text.length + 1

def u8gPrepare : List Command :=
  [.setFont, .setFontRefHeightExtendedText, .setDefaultForegroundColor, .setFontPosTop]

def rawFuel (d : Dashboard) : List Command :=
  [str (widthLCD / 2 - 10) 17 (rawFuelText d)]

def fuelPercent (d : Dashboard) : List Command :=
  [str (widthLCD - hBarW - 16) (heightLCD - 8) (percentText d)]

def fuelBar (d : Dashboard) : List Command :=
  [frame (widthLCD - hBarW) 0 hBarW (heightLCD - d.drawH.toInt),
    box (widthLCD - hBarW) (heightLCD - d.drawH.toInt) hBarW heightLCD]

/-- The pixels of one row of marks. -/
def marks (columns : List ℤ) (row : ℤ) : List Command :=
  columns.map fun x => pixel x row

def fuelBarMark : List Command :=
  let x := widthLCD - hBarW
  marks [x - 1, x - 2] (heightLCD / 2) ++
    marks [x + 1, x + 3, x + 5] (heightLCD / 2) ++
    marks [x - 1, x + 1, x + 3, x + 5] (heightLCD / 4) ++
    marks [x - 1, x + 1, x + 3, x + 5] (heightLCD / 4 * 3) ++
    [.setColorIndex 0] ++
    marks [x, x + 2, x + 4] (heightLCD / 2) ++
    marks [x, x + 2, x + 4] (heightLCD / 4) ++
    marks [x, x + 2, x + 4] (heightLCD / 4 * 3) ++
    [.setColorIndex 1]

def fuelMark : List Command :=
  [.setColorIndex 0, bitmapP (widthLCD - 9) (heightLCD - 8) 1 8 .fuel, .setColorIndex 1]

def accumMark (d : Dashboard) : List Command :=
  [bitmapP (hBarW + 1 + acuOffsetW) (heightLCD - 8 + acuOffsetH) 2 8 .accum,
    str (hBarW + 18 + acuOffsetW) (heightLCD - 8 + acuOffsetH) (voltageText d),
    line (hBarW + 1) (heightLCD - accHeight) (widthLCD - (hBarW + 2)) (heightLCD - accHeight),
    line 55 heightLCD 55 (heightLCD - accHeight)]

def headLight : List Command :=
  [bitmapP 27 0 2 15 .bigLoBeam, bitmapP 43 0 2 15 .bigHiBeam]

def sigTable : List Command :=
  [line (hBarW + 1) topPicHeight (widthLCD - (hBarW + 2)) topPicHeight,
    line 26 0 26 topPicHeight, line 41 0 41 topPicHeight, line 42 0 42 topPicHeight,
    line 57 0 57 topPicHeight]

/-- The pins are read here, in every call. -/
def turnSig (input : PageInput) : List Command :=
  (if input.lTurn then [bitmapP (hBarW + 1) arrOffset 2 15 .bigLArr] else []) ++
  (if input.rTurn then [bitmapP (widthLCD - hBarW - 1 - 14) arrOffset 2 15 .bigRArr] else [])

def leftBarFrame (d : Dashboard) : List Command :=
  [frame 0 0 hBarW (heightLCD - d.lbarH.toInt),
    box 0 (heightLCD - d.lbarH.toInt) hBarW heightLCD]

def leftBarMark : List Command :=
  let x := hBarW - 5
  marks [hBarW + 1] (heightLCD / 2) ++
    marks [x - 1, x + 1, x + 3, x + 5] (heightLCD / 2) ++
    marks [x - 1, x + 1, x + 3, x + 5] (heightLCD / 4) ++
    marks [x - 1, x + 1, x + 3, x + 5] (heightLCD / 4 * 3) ++
    [.setColorIndex 0] ++
    marks [x, x + 2, x + 4] (heightLCD / 2) ++
    marks [x, x + 2, x + 4] (heightLCD / 4) ++
    marks [x, x + 2, x + 4] (heightLCD / 4 * 3) ++
    [.setColorIndex 1]

/-- The voltage is read from its pin here, in every call. -/
def rawVoltage (input : PageInput) : List Command :=
  [str (widthLCD / 2 - 10) 25 (rawVoltageText input.volt)]

/-- The argument of the source's `u8g_1screen` is not used. -/
def u8g1screen (d : Dashboard) (input : PageInput) : List Command :=
  rawFuel d ++ fuelPercent d ++ fuelBar d ++ fuelBarMark ++ fuelMark ++ accumMark d ++
    headLight ++ sigTable ++ turnSig input ++ leftBarFrame d ++ leftBarMark ++
    rawVoltage input

def draw (d : Dashboard) (input : PageInput) : List Command :=
  u8gPrepare ++ u8g1screen d input

end OledDs18b20.Nokia.Screen
