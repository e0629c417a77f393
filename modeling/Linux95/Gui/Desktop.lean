import Linux95.Gui.Renderer

/-! The painting half of `gui/desktop.cpp`: windows, panel and menu, the redraw of a region, and the
queue of dirty regions. -/

namespace Linux95.Gui
open Base Base.Drawing

def desktopColor : Color := ⟨42, 104, 108⟩
def panelColor : Color := ⟨192, 192, 192⟩
def panelDark : Color := ⟨96, 96, 96⟩
def panelLight : Color := ⟨232, 232, 232⟩
def windowFrame : Color := ⟨192, 192, 192⟩
def focusedTitle : Color := ⟨0, 0, 128⟩
def inactiveTitle : Color := ⟨96, 96, 96⟩
def white : Color := ⟨255, 255, 255⟩
def black : Color := ⟨0, 0, 0⟩

def taskButtonWidth : Int := 120
def taskButtonHeight : Int := 24
def menuWidth : Int := 180
def menuItemHeight : Int := 24
def menuItemCount : Int := 3
def titleBarHeight : Int := 24
def chromeButtonWidth : Int := 20
def chromeButtonHeight : Int := 18
def maxDirtyRects : Nat := 32

def terminalWindowId : WindowId := 1
def systemInfoWindowId : WindowId := 2
def fileManagerWindowId : WindowId := 3

def intersects (a b : Rect) : Bool :=
  decide (a.width > 0) && decide (a.height > 0) && decide (b.width > 0) && decide (b.height > 0) &&
    decide (a.x < b.x + b.width) && decide (b.x < a.x + a.width) &&
    decide (a.y < b.y + b.height) && decide (b.y < a.y + a.height)

/-- A dirty rectangle comes here as the caller gave it, so its edges are computed in `int32_t`. -/
def intersection (a b : Rect) : Rect :=
  let left := if a.x > b.x then a.x else b.x
  let top := if a.y > b.y then a.y else b.y
  let rightA := int32 (a.x + a.width)
  let rightB := int32 (b.x + b.width)
  let right := if rightA < rightB then rightA else rightB
  let bottomA := int32 (a.y + a.height)
  let bottomB := int32 (b.y + b.height)
  let bottom := if bottomA < bottomB then bottomA else bottomB
  if right ≤ left ∨ bottom ≤ top then ⟨0, 0, 0, 0⟩ else ⟨left, top, right - left, bottom - top⟩

def screen : Rect := ⟨0, 0, screenWidth, screenHeight⟩

def panel : Rect := ⟨0, 0, screenWidth, panelHeight⟩

def clipToScreen (rect : Rect) : Rect := intersection rect screen

def menuBounds : Rect := ⟨0, panelHeight, menuWidth, menuItemHeight * menuItemCount⟩

def taskButtonBounds (slot : Nat) : Rect :=
  ⟨350 + slot * taskButtonWidth, 2, taskButtonWidth, taskButtonHeight⟩

def contentRect (bounds : Rect) : Rect :=
  ⟨bounds.x, bounds.y + titleBarHeight, bounds.width, bounds.height - titleBarHeight⟩

/-- The digits that the first loop of `format_u64` collects, the last one first. -/
def reversedDigits : Nat → Nat → List Char
  | 0, _ => []
  | room + 1, value =>
    Char.ofNat ('0'.toNat + value % 10) ::
      if value / 10 = 0 then [] else reversedDigits room (value / 10)

def formatU64 (value capacity : Nat) : List Char := (reversedDigits 21 value).reverse.take (capacity - 1)

/-- The `draw` callback of an application in its present state: it writes inside the rectangle it is
given, whatever the framebuffer holds. -/
structure AppDrawing where
  draw : Rect → Painting
  within : ∀ content, (draw content).Within { p | contains content p.1 = true }

/-- The fields of `RuntimeState` that painting reads; an absent drawing is a null callback. -/
structure RuntimeState where
  format : PixelFormat
  windows : WindowManager
  terminal : Option AppDrawing
  systemInfo : Option AppDrawing
  fileManager : Option AppDrawing
  menuOpen : Bool
  lastUptime : Nat

namespace RuntimeState

def appFor (state : RuntimeState) (id : WindowId) : Option AppDrawing :=
  if id = terminalWindowId then state.terminal
  else if id = systemInfoWindowId then state.systemInfo
  else if id = fileManagerWindowId then state.fileManager
  else none

def titleFor (id : WindowId) : List Char :=
  if id = terminalWindowId then "Terminal".toList
  else if id = systemInfoWindowId then "System Info".toList
  else if id = fileManagerWindowId then "File Manager".toList
  else "Linux95".toList

def drawChromeButton (format : PixelFormat) (button : Rect) (label : List Char) : Painting :=
  seqAll [fillRect format button panelColor, drawRect format button black,
    drawText format (button.x + 6) (button.y + 5) label black]

def drawChrome (state : RuntimeState) (window : Window) : Painting :=
  let bounds := window.bounds
  let title : Rect := ⟨bounds.x, bounds.y, bounds.width, titleBarHeight⟩
  let focused := decide (state.windows.focused = window.id)
  let closeButton : Rect := ⟨bounds.x + bounds.width - chromeButtonWidth, bounds.y + 3,
    chromeButtonWidth, chromeButtonHeight⟩
  let minimizeButton : Rect := ⟨closeButton.x - chromeButtonWidth, closeButton.y, chromeButtonWidth,
    chromeButtonHeight⟩
  seqAll [fillRect state.format bounds windowFrame,
    fillRect state.format title (if focused then focusedTitle else inactiveTitle),
    drawText state.format (bounds.x + 6) (bounds.y + 8) (titleFor window.id) white,
    drawChromeButton state.format minimizeButton "_".toList,
    if window.closable then drawChromeButton state.format closeButton "X".toList else nothing]

/-- The application's part of `draw_window`, without its test of the dirty rectangle. -/
def drawContent (state : RuntimeState) (window : Window) : Painting :=
  match state.appFor window.id with
  | none => nothing
  | some app => app.draw (contentRect window.bounds)

def drawWindow (state : RuntimeState) (window : Window) (dirty : Rect) : Painting :=
  if window.state ≠ .opened then nothing
  else if !intersects window.bounds dirty then nothing
  else
    seqAll [drawChrome state window,
      if intersects (contentRect window.bounds) dirty then drawContent state window else nothing,
      drawRect state.format window.bounds black]

def drawTaskButton (state : RuntimeState) (id : WindowId) (slot : Nat) : Painting :=
  match state.windows.find id with
  | none => nothing
  | some _ =>
    let button := taskButtonBounds slot
    seqAll [fillRect state.format button (if state.windows.focused = id then panelLight else panelColor),
      drawRect state.format button panelDark,
      drawText state.format (button.x + 6) (button.y + 8) (titleFor id) black]

def drawTaskButtons (state : RuntimeState) : Nat → List WindowId → Painting
  | _, [] => nothing
  | slot, id :: rest =>
    if (state.windows.find id).isSome then
      seq (drawTaskButton state id slot) (drawTaskButtons state (slot + 1) rest)
    else drawTaskButtons state slot rest

/-- The part of `draw_panel` inside the panel. -/
def drawControls (state : RuntimeState) : Painting :=
  seqAll [drawText state.format 6 10 "Applications".toList black,
    drawText state.format 130 10 "Terminal".toList black,
    drawText state.format 230 10 "System Info".toList black,
    drawTaskButtons state 0 [terminalWindowId, systemInfoWindowId, fileManagerWindowId],
    drawText state.format (screenWidth - 170) 10 "Uptime".toList black,
    drawText state.format (screenWidth - 112) 10 (formatU64 state.lastUptime 21) black,
    drawText state.format (screenWidth - 48) 10 "s".toList black]

def drawMenu (state : RuntimeState) : Painting :=
  let menu := menuBounds
  seqAll [fillRect state.format menu panelColor,
    drawRect state.format menu black,
    drawText state.format (menu.x + 8) (menu.y + 8) "Terminal".toList black,
    drawLine state.format menu.x (menu.y + menuItemHeight) (menu.x + menu.width - 1)
      (menu.y + menuItemHeight) panelDark,
    drawText state.format (menu.x + 8) (menu.y + menuItemHeight + 8) "System Info".toList black,
    drawLine state.format menu.x (menu.y + menuItemHeight * 2) (menu.x + menu.width - 1)
      (menu.y + menuItemHeight * 2) panelDark,
    drawText state.format (menu.x + 8) (menu.y + menuItemHeight * 2 + 8) "File Manager".toList black]

def drawPanel (state : RuntimeState) (dirty : Rect) : Painting :=
  seq (if intersects panel dirty then drawControls state else nothing)
    (if state.menuOpen && intersects menuBounds dirty then drawMenu state else nothing)

def redrawRegion (state : RuntimeState) (dirty : Rect) : Painting :=
  let dirty := clipToScreen dirty
  if dirty.width ≤ 0 ∨ dirty.height ≤ 0 then nothing
  else
    let panelDirty := intersection dirty panel
    seqAll [fillRect state.format dirty desktopColor,
      if panelDirty.width > 0 ∧ panelDirty.height > 0 then
        fillRect state.format panelDirty panelColor
      else nothing,
      seqAll ((state.windows.openWindowsInZOrder maxWindows).map fun i =>
        drawWindow state (state.windows.windows i) dirty),
      drawPanel state dirty]

/-- The loop of `redraw_dirty`. -/
def redrawAll (state : RuntimeState) (dirty : List Rect) (framebuffer : Framebuffer) : Framebuffer :=
  dirty.foldl (fun framebuffer rect => (redrawRegion state rect).apply framebuffer) framebuffer

end RuntimeState

structure DirtyRegionQueue where
  rects : List Rect
  deriving DecidableEq, Repr

namespace DirtyRegionQueue

def initial : DirtyRegionQueue := ⟨[]⟩

def invalidate (queue : DirtyRegionQueue) (region : Rect) : DirtyRegionQueue :=
  let clipped := clipToScreen region
  if clipped.width ≤ 0 ∨ clipped.height ≤ 0 then queue
  else if queue.rects.length ≥ maxDirtyRects then ⟨[screen]⟩
  else ⟨queue.rects ++ [clipped]⟩

def clear (_ : DirtyRegionQueue) : DirtyRegionQueue := ⟨[]⟩

def size (queue : DirtyRegionQueue) : Nat := queue.rects.length

def rect (queue : DirtyRegionQueue) (index : Nat) : Rect := queue.rects.getD index ⟨0, 0, 0, 0⟩

end DirtyRegionQueue

end Linux95.Gui
