import Linux95.Base.Layers
import Linux95.Gui.WindowManager

/-! The software renderer of `graphics/renderer.cpp`. No routine reads the framebuffer, so each is
what it writes: the last value it puts at every pixel. -/

namespace Linux95.Gui
open Base Base.Drawing

structure Color where
  r : UInt8
  g : UInt8
  b : UInt8
  deriving DecidableEq, Repr

structure PixelFormat where
  redSize : UInt8
  redShift : UInt8
  greenSize : UInt8
  greenShift : UInt8
  blueSize : UInt8
  blueShift : UInt8
  deriving DecidableEq, Repr

def scaleComponent (value size : UInt8) : UInt8 :=
  if size = 0 then 0 else if size ≥ 8 then value else value >>> (8 - size)

def packColor (format : PixelFormat) (color : Color) : UInt32 :=
  (scaleComponent color.r format.redSize).toUInt32 <<< format.redShift.toUInt32 |||
    (scaleComponent color.g format.greenSize).toUInt32 <<< format.greenShift.toUInt32 |||
    (scaleComponent color.b format.blueSize).toUInt32 <<< format.blueShift.toUInt32

def OnScreen (p : Point) : Prop :=
  0 ≤ p.x ∧ p.x < screenWidth ∧ 0 ≤ p.y ∧ p.y < screenHeight

/-- A framebuffer that `validate_framebuffer` accepts has as many pixels as the screen. -/
abbrev Pixel := { p : Point // OnScreen p }

abbrev Framebuffer := Pixel → UInt32

abbrev Painting := Drawing Pixel UInt32

def int32Max : Int := 2 ^ 31 - 1

def clipRect (rect : Rect) (width height : Int) : Rect :=
  if width ≤ 0 ∨ height ≤ 0 ∨ rect.width ≤ 0 ∨ rect.height ≤ 0 then ⟨0, 0, 0, 0⟩
  else
    let x1 := max rect.x 0
    let y1 := max rect.y 0
    let x2 := min (if rect.x + rect.width > int32Max then int32Max else rect.x + rect.width) width
    let y2 := min (if rect.y + rect.height > int32Max then int32Max else rect.y + rect.height) height
    if x2 ≤ x1 ∨ y2 ≤ y1 then ⟨0, 0, 0, 0⟩ else ⟨x1, y1, x2 - x1, y2 - y1⟩

section Routines
variable (format : PixelFormat)

/-- A point outside the framebuffer is no pixel, so nothing is written there. -/
def putPixel (x y : Int) (color : Color) : Painting :=
  fun p => if p.1 = ⟨x, y⟩ then some (packColor format color) else none

def fillRect (rect : Rect) (color : Color) : Painting :=
  let clipped := clipRect rect screenWidth screenHeight
  seqAll ((List.range clipped.height.toNat).flatMap fun y : Nat =>
    (List.range clipped.width.toNat).map fun x : Nat =>
      putPixel format (clipped.x + x) (clipped.y + y) color)

/-- The loop of `draw_line`. Every turn moves towards the end in one direction or both. -/
def lineFrom (x1 y1 dx dy sx sy : Int) (color : Color) : Nat → Int → Int → Int → Painting
  | 0, _, _, _ => nothing
  | fuel + 1, x, y, error =>
    seq (putPixel format x y color)
      (if x = x1 ∧ y = y1 then nothing
      else
        let twiceError := error * 2
        let error := if twiceError ≥ dy then error + dy else error
        let x := if twiceError ≥ dy then x + sx else x
        let error := if twiceError ≤ dx then error + dx else error
        let y := if twiceError ≤ dx then y + sy else y
        lineFrom x1 y1 dx dy sx sy color fuel x y error)

def drawLine (x0 y0 x1 y1 : Int) (color : Color) : Painting :=
  let dx := if x1 ≥ x0 then x1 - x0 else x0 - x1
  let sx := if x0 < x1 then 1 else -1
  let dy := if y1 ≥ y0 then y0 - y1 else y1 - y0
  let sy := if y0 < y1 then 1 else -1
  lineFrom format x1 y1 dx dy sx sy color ((dx - dy).toNat + 1) x0 y0 (dx + dy)

def drawRect (rect : Rect) (color : Color) : Painting :=
  if rect.width ≤ 0 ∨ rect.height ≤ 0 then nothing
  else
    let right := rect.x + rect.width - 1
    let bottom := rect.y + rect.height - 1
    seqAll [drawLine format rect.x rect.y right rect.y color,
      drawLine format rect.x bottom right bottom color,
      drawLine format rect.x rect.y rect.x bottom color,
      drawLine format right rect.y right bottom color]

def font8x8 : List (List UInt8) :=
  [[0x00, 0x00, 0x00, 0x00, 0x00, 0x00, 0x00, 0x00], [0x18, 0x18, 0x18, 0x18, 0x18, 0x00, 0x18, 0x00],
   [0x36, 0x36, 0x36, 0x00, 0x00, 0x00, 0x00, 0x00], [0x36, 0x36, 0x7F, 0x36, 0x7F, 0x36, 0x36, 0x00],
   [0x18, 0x3E, 0x60, 0x3C, 0x06, 0x7C, 0x18, 0x00], [0x62, 0x66, 0x0C, 0x18, 0x30, 0x66, 0x46, 0x00],
   [0x38, 0x6C, 0x38, 0x76, 0xDC, 0xCC, 0x76, 0x00], [0x18, 0x18, 0x30, 0x00, 0x00, 0x00, 0x00, 0x00],
   [0x0C, 0x18, 0x30, 0x30, 0x30, 0x18, 0x0C, 0x00], [0x30, 0x18, 0x0C, 0x0C, 0x0C, 0x18, 0x30, 0x00],
   [0x00, 0x66, 0x3C, 0xFF, 0x3C, 0x66, 0x00, 0x00], [0x00, 0x18, 0x18, 0x7E, 0x18, 0x18, 0x00, 0x00],
   [0x00, 0x00, 0x00, 0x00, 0x00, 0x18, 0x18, 0x30], [0x00, 0x00, 0x00, 0x7E, 0x00, 0x00, 0x00, 0x00],
   [0x00, 0x00, 0x00, 0x00, 0x00, 0x18, 0x18, 0x00], [0x06, 0x0C, 0x18, 0x30, 0x60, 0xC0, 0x80, 0x00],
   [0x3C, 0x66, 0x6E, 0x76, 0x66, 0x66, 0x3C, 0x00], [0x18, 0x38, 0x18, 0x18, 0x18, 0x18, 0x7E, 0x00],
   [0x3C, 0x66, 0x06, 0x0C, 0x18, 0x30, 0x7E, 0x00], [0x3C, 0x66, 0x06, 0x1C, 0x06, 0x66, 0x3C, 0x00],
   [0x0C, 0x1C, 0x3C, 0x6C, 0x7E, 0x0C, 0x0C, 0x00], [0x7E, 0x60, 0x7C, 0x06, 0x06, 0x66, 0x3C, 0x00],
   [0x1C, 0x30, 0x60, 0x7C, 0x66, 0x66, 0x3C, 0x00], [0x7E, 0x66, 0x0C, 0x18, 0x30, 0x30, 0x30, 0x00],
   [0x3C, 0x66, 0x66, 0x3C, 0x66, 0x66, 0x3C, 0x00], [0x3C, 0x66, 0x66, 0x3E, 0x06, 0x0C, 0x38, 0x00],
   [0x00, 0x18, 0x18, 0x00, 0x00, 0x18, 0x18, 0x00], [0x00, 0x18, 0x18, 0x00, 0x00, 0x18, 0x18, 0x30],
   [0x0C, 0x18, 0x30, 0x60, 0x30, 0x18, 0x0C, 0x00], [0x00, 0x00, 0x7E, 0x00, 0x7E, 0x00, 0x00, 0x00],
   [0x30, 0x18, 0x0C, 0x06, 0x0C, 0x18, 0x30, 0x00], [0x3C, 0x66, 0x06, 0x0C, 0x18, 0x00, 0x18, 0x00],
   [0x3C, 0x66, 0x6E, 0x6A, 0x6E, 0x60, 0x3C, 0x00], [0x18, 0x3C, 0x66, 0x66, 0x7E, 0x66, 0x66, 0x00],
   [0x7C, 0x66, 0x66, 0x7C, 0x66, 0x66, 0x7C, 0x00], [0x3C, 0x66, 0x60, 0x60, 0x60, 0x66, 0x3C, 0x00],
   [0x78, 0x6C, 0x66, 0x66, 0x66, 0x6C, 0x78, 0x00], [0x7E, 0x60, 0x60, 0x7C, 0x60, 0x60, 0x7E, 0x00],
   [0x7E, 0x60, 0x60, 0x7C, 0x60, 0x60, 0x60, 0x00], [0x3C, 0x66, 0x60, 0x6E, 0x66, 0x66, 0x3E, 0x00],
   [0x66, 0x66, 0x66, 0x7E, 0x66, 0x66, 0x66, 0x00], [0x3C, 0x18, 0x18, 0x18, 0x18, 0x18, 0x3C, 0x00],
   [0x1E, 0x0C, 0x0C, 0x0C, 0x0C, 0x6C, 0x38, 0x00], [0x66, 0x6C, 0x78, 0x70, 0x78, 0x6C, 0x66, 0x00],
   [0x60, 0x60, 0x60, 0x60, 0x60, 0x60, 0x7E, 0x00], [0x63, 0x77, 0x7F, 0x6B, 0x63, 0x63, 0x63, 0x00],
   [0x66, 0x76, 0x7E, 0x7E, 0x6E, 0x66, 0x66, 0x00], [0x3C, 0x66, 0x66, 0x66, 0x66, 0x66, 0x3C, 0x00],
   [0x7C, 0x66, 0x66, 0x7C, 0x60, 0x60, 0x60, 0x00], [0x3C, 0x66, 0x66, 0x66, 0x6A, 0x6C, 0x36, 0x00],
   [0x7C, 0x66, 0x66, 0x7C, 0x78, 0x6C, 0x66, 0x00], [0x3C, 0x66, 0x60, 0x3C, 0x06, 0x66, 0x3C, 0x00],
   [0x7E, 0x18, 0x18, 0x18, 0x18, 0x18, 0x18, 0x00], [0x66, 0x66, 0x66, 0x66, 0x66, 0x66, 0x3C, 0x00],
   [0x66, 0x66, 0x66, 0x66, 0x66, 0x3C, 0x18, 0x00], [0x63, 0x63, 0x63, 0x6B, 0x7F, 0x77, 0x63, 0x00],
   [0x66, 0x66, 0x3C, 0x18, 0x3C, 0x66, 0x66, 0x00], [0x66, 0x66, 0x66, 0x3C, 0x18, 0x18, 0x18, 0x00],
   [0x7E, 0x06, 0x0C, 0x18, 0x30, 0x60, 0x7E, 0x00], [0x3C, 0x30, 0x30, 0x30, 0x30, 0x30, 0x3C, 0x00],
   [0xC0, 0x60, 0x30, 0x18, 0x0C, 0x06, 0x02, 0x00], [0x3C, 0x0C, 0x0C, 0x0C, 0x0C, 0x0C, 0x3C, 0x00],
   [0x18, 0x3C, 0x66, 0x00, 0x00, 0x00, 0x00, 0x00], [0x00, 0x00, 0x00, 0x00, 0x00, 0x00, 0x00, 0xFF],
   [0x30, 0x18, 0x0C, 0x00, 0x00, 0x00, 0x00, 0x00], [0x00, 0x00, 0x3C, 0x06, 0x3E, 0x66, 0x3E, 0x00],
   [0x60, 0x60, 0x7C, 0x66, 0x66, 0x66, 0x7C, 0x00], [0x00, 0x00, 0x3C, 0x66, 0x60, 0x66, 0x3C, 0x00],
   [0x06, 0x06, 0x3E, 0x66, 0x66, 0x66, 0x3E, 0x00], [0x00, 0x00, 0x3C, 0x66, 0x7E, 0x60, 0x3C, 0x00],
   [0x1C, 0x36, 0x30, 0x7C, 0x30, 0x30, 0x30, 0x00], [0x00, 0x00, 0x3E, 0x66, 0x66, 0x3E, 0x06, 0x7C],
   [0x60, 0x60, 0x7C, 0x66, 0x66, 0x66, 0x66, 0x00], [0x18, 0x00, 0x38, 0x18, 0x18, 0x18, 0x3C, 0x00],
   [0x0C, 0x00, 0x0C, 0x0C, 0x0C, 0x6C, 0x6C, 0x38], [0x60, 0x60, 0x66, 0x6C, 0x78, 0x6C, 0x66, 0x00],
   [0x38, 0x18, 0x18, 0x18, 0x18, 0x18, 0x3C, 0x00], [0x00, 0x00, 0x66, 0x7F, 0x7F, 0x6B, 0x63, 0x00],
   [0x00, 0x00, 0x7C, 0x66, 0x66, 0x66, 0x66, 0x00], [0x00, 0x00, 0x3C, 0x66, 0x66, 0x66, 0x3C, 0x00],
   [0x00, 0x00, 0x7C, 0x66, 0x66, 0x7C, 0x60, 0x60], [0x00, 0x00, 0x3E, 0x66, 0x66, 0x3E, 0x06, 0x06],
   [0x00, 0x00, 0x6C, 0x76, 0x60, 0x60, 0x60, 0x00], [0x00, 0x00, 0x3E, 0x60, 0x3C, 0x06, 0x7C, 0x00],
   [0x30, 0x30, 0x7C, 0x30, 0x30, 0x36, 0x1C, 0x00], [0x00, 0x00, 0x66, 0x66, 0x66, 0x66, 0x3E, 0x00],
   [0x00, 0x00, 0x66, 0x66, 0x66, 0x3C, 0x18, 0x00], [0x00, 0x00, 0x63, 0x6B, 0x7F, 0x3E, 0x36, 0x00],
   [0x00, 0x00, 0x66, 0x3C, 0x18, 0x3C, 0x66, 0x00], [0x00, 0x00, 0x66, 0x66, 0x66, 0x3E, 0x06, 0x7C],
   [0x00, 0x00, 0x7E, 0x0C, 0x18, 0x30, 0x7E, 0x00], [0x0E, 0x18, 0x18, 0x70, 0x18, 0x18, 0x0E, 0x00],
   [0x18, 0x18, 0x18, 0x00, 0x18, 0x18, 0x18, 0x00], [0x70, 0x18, 0x18, 0x0E, 0x18, 0x18, 0x70, 0x00],
   [0x32, 0x7C, 0x00, 0x00, 0x00, 0x00, 0x00, 0x00], [0x7E, 0x42, 0x5A, 0x5A, 0x5A, 0x42, 0x7E, 0x00]]

def drawChar (x y : Int) (c : Char) (color : Color) : Painting :=
  let glyph := if c.toNat < 0x20 ∨ c.toNat > 0x7F then '?'.toNat else c.toNat
  let rows := font8x8.getD (glyph - 0x20) []
  seqAll ((List.range 8).flatMap fun row : Nat =>
    (List.range 8).map fun column : Nat =>
      if rows.getD row 0 &&& (0x80 >>> UInt8.ofNat column) ≠ 0 then
        putPixel format (x + column) (y + row) color
      else nothing)

def drawTextFrom (initialX : Int) (color : Color) : Int → Int → List Char → Painting
  | _, _, [] => nothing
  | x, y, c :: rest =>
    if c = '\n' then drawTextFrom initialX color initialX (y + 8) rest
    else seq (drawChar format x y c color) (drawTextFrom initialX color (x + 8) y rest)

def drawText (x y : Int) (text : List Char) (color : Color) : Painting :=
  drawTextFrom format x color x y text

end Routines

end Linux95.Gui
