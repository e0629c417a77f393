import Linux95.Base.Scan
import Mathlib.Algebra.Group.Int.Defs
import Mathlib.Algebra.Group.Nat.Defs
import Mathlib.Data.List.FinRange
import Mathlib.Logic.Function.Basic

/-! The window manager of `gui/window_manager.cpp`: a table of windows with a z order, the focus and
the drag or resize in progress. -/

namespace Linux95.Gui
open Base

structure Point where
  x : Int
  y : Int
  deriving DecidableEq, Repr

structure Rect where
  x : Int
  y : Int
  width : Int
  height : Int
  deriving DecidableEq, Repr

def contains (rect : Rect) (point : Point) : Bool :=
  decide (point.x ≥ rect.x) && decide (point.y ≥ rect.y) &&
    decide (point.x < rect.x + rect.width) && decide (point.y < rect.y + rect.height)

/-- The value of an `int32_t` after an addition or a subtraction. -/
def int32 (n : Int) : Int := n.bmod (2 ^ 32)

abbrev WindowId := UInt32

inductive WindowState where
  | opened
  | minimized
  | closed
  deriving DecidableEq, Repr

structure Window where
  id : WindowId
  bounds : Rect
  restoreBounds : Rect
  state : WindowState
  z : Nat
  resizable : Bool
  closable : Bool
  deriving DecidableEq, Repr

inductive PointerAction where
  | none
  | drag
  | resize
  deriving DecidableEq, Repr

def maxWindows : Nat := 8
def screenWidth : Int := 1280
def screenHeight : Int := 720
def panelHeight : Int := 28
def minWidth : Int := 160
def minHeight : Int := 100

abbrev Slot := Fin maxWindows

abbrev Windows := Slot → Window

def slots : List Slot := List.finRange maxWindows

structure WindowManager where
  windows : Windows
  focused : WindowId
  pointerAction : PointerAction
  pointerWindow : WindowId
  pointerStart : Point
  pointerStartBounds : Rect

def clampValue (value minimum maximum : Int) : Int :=
  if value < minimum then minimum else if value > maximum then maximum else value

def clampBounds (bounds : Rect) : Rect :=
  let width := clampValue bounds.width minWidth screenWidth
  let height := clampValue bounds.height minHeight (screenHeight - panelHeight)
  { x := clampValue bounds.x 0 (screenWidth - width)
    y := clampValue bounds.y panelHeight (screenHeight - height)
    width := width
    height := height }

namespace Windows

def live (ws : Windows) (i : Slot) : Bool := decide ((ws i).state ≠ .closed)

def isOpen (ws : Windows) (i : Slot) : Bool := decide ((ws i).state = .opened)

def z (ws : Windows) (i : Slot) : Nat := (ws i).z

def setZ (ws : Windows) (i : Slot) (z : Nat) : Windows :=
  Function.update ws i { ws i with z := z }

def findMutable (ws : Windows) (id : WindowId) : Option Slot :=
  if id = 0 then none
  else slots.find? fun i => ws.live i && decide ((ws i).id = id)

/-- The inner loop of `compact_z`. -/
def lowest (ws : Windows) (nextZ : Nat) : Option Slot :=
  scanBest (fun i => ws.live i && decide (nextZ ≤ ws.z i)) (fun i j => decide (ws.z i < ws.z j))
    slots

/-- The outer loop of `compact_z`. A round moves one more entry below `nextZ`, so a table of
`maxWindows` entries needs at most that many rounds and one that finds nothing. -/
def compactFrom : Nat → Nat → Windows → Windows
  | 0, _, ws => ws
  | fuel + 1, nextZ, ws =>
    match ws.lowest nextZ with
    | none => ws
    | some i => compactFrom fuel ((nextZ + 1) % 2 ^ 8) (ws.setZ i nextZ)

def compactZ (ws : Windows) : Windows := compactFrom (maxWindows + 1) 0 ws

def other (ws : Windows) (id : WindowId) (i : Slot) : Bool :=
  ws.live i && decide ((ws i).id ≠ id)

def topZ (ws : Windows) (id : WindowId) : Option Nat :=
  (scanBest (ws.other id) (fun i j => decide (ws.z i > ws.z j)) slots).map ws.z

def lowerAbove (ws : Windows) (id : WindowId) (oldZ : Nat) : Windows :=
  fun i => if ws.other id i && decide (ws.z i > oldZ) then { ws i with z := ws.z i - 1 } else ws i

def highestFree (ws : Windows) (id : WindowId) : Nat :=
  slots.foldl (fun highest i =>
    if ws.other id i && decide (ws.z i ≥ highest) then (ws.z i + 1) % 2 ^ 8 else highest) 0

def raise (ws : Windows) (id : WindowId) : Windows :=
  match ws.findMutable id with
  | none => ws
  | some target =>
    let ws := ws.compactZ
    let topZ := ws.topZ id
    let ws := ws.lowerAbove id (ws.z target)
    let ws := ws.setZ target (topZ.getD 0)
    let ws := ws.compactZ
    ws.setZ target (ws.highestFree id)

def highestOpenWindow (ws : Windows) : WindowId :=
  match scanBest ws.isOpen (fun i j => decide (ws.z i > ws.z j)) slots with
  | none => 0
  | some best => (ws best).id

end Windows

namespace WindowManager

/-- The state the constructor leaves; the fields it does not write are those of a zeroed object. -/
def initial : WindowManager :=
  { windows := fun _ => ⟨0, ⟨0, 0, 0, 0⟩, ⟨0, 0, 0, 0⟩, .closed, 0, false, false⟩
    focused := 0
    pointerAction := .none
    pointerWindow := 0
    pointerStart := ⟨0, 0⟩
    pointerStartBounds := ⟨0, 0, 0, 0⟩ }

def findMutable (wm : WindowManager) (id : WindowId) : Option Slot := wm.windows.findMutable id

def find (wm : WindowManager) (id : WindowId) : Option Window :=
  (wm.findMutable id).map wm.windows

def openWindowsInZOrder (wm : WindowManager) (capacity : Nat) : List Slot :=
  (slots.filter wm.windows.isOpen).foldl (insertByKey wm.windows.z capacity) []

def hitTest (wm : WindowManager) (point : Point) : WindowId :=
  match scanBest (fun i => wm.windows.isOpen i && contains (wm.windows i).bounds point)
      (fun i j => decide (wm.windows.z i > wm.windows.z j)) slots with
  | none => 0
  | some best => (wm.windows best).id

def setWindow (wm : WindowManager) (i : Slot) (window : Window) : WindowManager :=
  { wm with windows := Function.update wm.windows i window }

def addWindow (wm : WindowManager) (id : WindowId) (bounds : Rect) (resizable closable : Bool) :
    Bool × WindowManager :=
  if id = 0 ∨ (wm.find id).isSome then (false, wm)
  else
    let activeCount := (slots.filter wm.windows.live).length
    match slots.find? fun i => !wm.windows.live i with
    | none => (false, wm)
    | some slot =>
      if activeCount ≥ maxWindows then (false, wm)
      else
        let bounds := clampBounds bounds
        let wm := wm.setWindow slot
          ⟨id, bounds, bounds, .opened, activeCount % 2 ^ 8, resizable, closable⟩
        (true, { wm with focused := id, windows := wm.windows.raise id })

def focus (wm : WindowManager) (id : WindowId) : Bool × WindowManager :=
  match wm.findMutable id with
  | none => (false, wm)
  | some i =>
    if wm.windows.isOpen i then
      (true, { wm with focused := id, windows := wm.windows.raise id })
    else (false, wm)

def beginAction (wm : WindowManager) (action : PointerAction) (i : Slot) (id : WindowId)
    (point : Point) : WindowManager :=
  let wm := (wm.focus id).2
  { wm with pointerAction := action, pointerWindow := id, pointerStart := point,
            pointerStartBounds := (wm.windows i).bounds }

def beginDrag (wm : WindowManager) (id : WindowId) (point : Point) : Bool × WindowManager :=
  match wm.findMutable id with
  | none => (false, wm)
  | some i =>
    if wm.windows.isOpen i then (true, wm.beginAction .drag i id point) else (false, wm)

def beginResize (wm : WindowManager) (id : WindowId) (point : Point) : Bool × WindowManager :=
  match wm.findMutable id with
  | none => (false, wm)
  | some i =>
    if wm.windows.isOpen i && (wm.windows i).resizable then
      (true, wm.beginAction .resize i id point)
    else (false, wm)

def endPointerAction (wm : WindowManager) : WindowManager :=
  { wm with pointerAction := .none, pointerWindow := 0 }

def draggedBounds (start : Rect) (dx dy : Int) : Rect :=
  { start with
    x := clampValue (int32 (start.x + dx)) 0 (screenWidth - start.width)
    y := clampValue (int32 (start.y + dy)) panelHeight (screenHeight - start.height) }

def resizedBounds (start bounds : Rect) (dx dy : Int) : Rect :=
  { bounds with
    width := clampValue (int32 (start.width + dx)) minWidth (screenWidth - start.x)
    height := clampValue (int32 (start.height + dy)) minHeight (screenHeight - start.y) }

def pointerMove (wm : WindowManager) (point : Point) : WindowManager :=
  match wm.findMutable wm.pointerWindow with
  | none => wm.endPointerAction
  | some i =>
    if wm.windows.isOpen i then
      let window := wm.windows i
      let dx := int32 (point.x - wm.pointerStart.x)
      let dy := int32 (point.y - wm.pointerStart.y)
      match wm.pointerAction with
      | .none => wm
      | .drag =>
        wm.setWindow i { window with bounds := draggedBounds wm.pointerStartBounds dx dy }
      | .resize =>
        wm.setWindow i
          { window with bounds := resizedBounds wm.pointerStartBounds window.bounds dx dy }
    else wm.endPointerAction

def releasePointer (wm : WindowManager) (id : WindowId) : WindowManager :=
  if wm.pointerWindow = id then wm.endPointerAction else wm

def minimize (wm : WindowManager) (id : WindowId) : Bool × WindowManager :=
  match wm.findMutable id with
  | none => (false, wm)
  | some i =>
    if wm.windows.isOpen i then
      let window := wm.windows i
      let wm := wm.setWindow i { window with restoreBounds := window.bounds, state := .minimized }
      let wm := wm.releasePointer id
      if wm.focused = id then (true, { wm with focused := wm.windows.highestOpenWindow })
      else (true, wm)
    else (false, wm)

def restore (wm : WindowManager) (id : WindowId) : Bool × WindowManager :=
  match wm.findMutable id with
  | none => (false, wm)
  | some i =>
    let window := wm.windows i
    if window.state = .minimized then
      (wm.setWindow i { window with bounds := window.restoreBounds, state := .opened }).focus id
    else (false, wm)

def close (wm : WindowManager) (id : WindowId) : Bool × WindowManager :=
  match wm.findMutable id with
  | none => (false, wm)
  | some i =>
    let window := wm.windows i
    if window.closable then
      let wasFocused := decide (wm.focused = id)
      let wm := wm.setWindow i { window with state := .closed, id := 0 }
      let wm := wm.releasePointer id
      let wm := { wm with windows := wm.windows.compactZ }
      if wasFocused then (true, { wm with focused := wm.windows.highestOpenWindow })
      else (true, wm)
    else (false, wm)

end WindowManager

end Linux95.Gui
