import OledDs18b20.Lib.Binary32
import OledDs18b20.Lib.Counting

/-! The round gauge of the tachometer sketch. Angles are in degrees, computed in 16-bit
arithmetic; positions are single-precision values converted to a `char`. -/
namespace OledDs18b20.TahoTest
open Lib

inductive Command where
  | drawCircle (x y rad : UInt8)
  | drawPixel (x y : UInt8)
  | drawLine (x1 y1 x2 y2 : UInt8)
  | setPrintPos (x y : UInt8)
deriving DecidableEq

/-- The single-precision `cos` and `sin` of the C library. -/
structure Trig where
  cos : ℚ → ℚ
  sin : ℚ → ℚ

structure Gauge where
  xpos : Int8
  ypos : Int8
  rad : Int8
  arrowDegre : Int16
  scaleType : Int8
  drawScale : Int8
  barW : Int8
  barH : Int8
deriving DecidableEq

namespace Gauge

def coordinate (position : Int8) : UInt8 := UInt8.ofInt position.toInt

def alphaRad (degrees : Int16) : ℚ :=
  Binary32.round (degrees.toInt * Binary32.round (174 / 10000))

def toChar (position : ℚ) : Int8 := Int8.ofInt (Binary32.truncate position)

def point (trig : Trig) (gauge : Gauge) (degrees : Int16) (distance : ℤ) : UInt8 × UInt8 :=
  let co := trig.cos (alphaRad degrees)
  let si := trig.sin (alphaRad degrees)
  (coordinate (toChar (Binary32.round (Binary32.round (co * distance) + gauge.xpos.toInt))),
    coordinate (toChar (Binary32.round (gauge.ypos.toInt - Binary32.round (si * distance)))))

def pointer (trig : Trig) (gauge : Gauge) (degrees : Int16) : Command :=
  let tip := point trig gauge degrees gauge.rad.toInt
  .drawLine (coordinate gauge.xpos) (coordinate gauge.ypos) tip.1 tip.2

def outline (gauge : Gauge) : List Command :=
  let x := coordinate gauge.xpos
  let y := coordinate gauge.ypos
  let inner := UInt8.ofInt (gauge.rad.toInt - gauge.barW.toInt)
  (if gauge.drawScale = 1 then
    [.drawCircle x y (coordinate gauge.rad), .drawPixel x y] else []) ++
  (if gauge.drawScale = 2 then
    [.drawCircle x y (coordinate gauge.rad), .drawCircle x y inner, .drawPixel x y] else [])

def arrow (trig : Trig) (gauge : Gauge) : List Command :=
  if gauge.scaleType = 1 then [pointer trig gauge (180 - gauge.arrowDegre)] else []

def barRow (trig : Trig) (fuel : ℕ) (gauge : Gauge) (temp2 : Int8) : Option (List Command) :=
  let degrees := 180 - gauge.arrowDegre - temp2.toInt16
  Counting.loop Counting.int8 gauge.barW.toInt
    (fun temp1 =>
      let pixel := point trig gauge degrees (gauge.rad.toInt - temp1.toInt)
      some [.drawPixel pixel.1 pixel.2]) fuel 0

def bar (trig : Trig) (fuel : ℕ) (gauge : Gauge) : Option (List Command) :=
  if gauge.scaleType = 2 then
    Counting.loop Counting.int8 gauge.barH.toInt (barRow trig fuel gauge) fuel 0
  else some []

/-- `ScaleType` 3: a sector. The counter is an `unsigned char` and the bound an `int`. -/
def sector (trig : Trig) (fuel : ℕ) (gauge : Gauge) : Option (List Command) :=
  if gauge.scaleType = 3 then
    Counting.loop Counting.uint8 gauge.arrowDegre.toInt
      (fun temp => some [pointer trig gauge (180 - temp.toUInt16.toInt16)]) fuel 0
  else some []

def thickArrow (trig : Trig) (gauge : Gauge) : List Command :=
  let degrees := 180 - gauge.arrowDegre
  if gauge.scaleType = 4 then
    [degrees - 1, degrees - 2, degrees + 1, degrees + 2].map (pointer trig gauge)
  else []

end Gauge

/-- `DrawRoundScale`, with the same fuel for each of its loops; `none` if one runs out. -/
def drawRoundScale (trig : Trig) (fuel : ℕ) (gauge : Gauge) : Option (List Command) := do
  let bar ← gauge.bar trig fuel
  let sector ← gauge.sector trig fuel
  pure (gauge.outline ++ gauge.arrow trig ++ bar ++ sector ++ gauge.thickArrow trig)

end OledDs18b20.TahoTest
