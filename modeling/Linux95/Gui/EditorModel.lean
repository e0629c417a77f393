import Linux95.Input.EventQueue
import Linux95.Storage.Device
import Mathlib.Data.List.Basic

/-! The text buffer of `gui/editor_model.cpp` and what a key does to it. -/

namespace Linux95.Gui.Editor
open Input Storage

def textCapacity : Nat := 65536
def statusCapacity : Nat := 96
def pathCapacity : Nat := 128

def ascii (text : String) : List UInt8 := text.toList.map fun c => UInt8.ofNat c.toNat

inductive EditorAction where
  | none
  | save
  | quit
  deriving DecidableEq, Repr

/-- `capacity` is 0 when there is no storage. -/
structure EditorModel where
  storage : Nat → UInt8
  capacity : Nat
  path : List UInt8
  status : List UInt8
  length : Nat
  cursor : Nat
  desiredColumn : Nat
  viewportTopLine : Nat
  viewportLeftColumn : Nat
  fileExists : Bool
  modified : Bool
  started : Bool
  forcedQuitPending : Bool

namespace EditorModel

def new (storage : Nat → UInt8) (capacity : Nat) : EditorModel :=
  { storage := storage, capacity := capacity, path := [], status := [], length := 0, cursor := 0
    desiredColumn := 0, viewportTopLine := 0, viewportLeftColumn := 0, fileExists := false
    modified := false, started := false, forcedQuitPending := false }

def text (m : EditorModel) : List UInt8 := (List.range m.length).map m.storage

def supportedTextByte (byte : UInt8) : Bool := byte = 0x0A || (0x20 ≤ byte && byte ≤ 0x7E)

/-- The loop of `cursor_location` from the byte `i` on. -/
def locateFrom (m : EditorModel) : Nat → Nat → Nat → Nat → Nat × Nat
  | 0, _, line, column => (line, column)
  | left + 1, i, line, column =>
    if m.storage i = 0x0A then m.locateFrom left (i + 1) (line + 1) 0
    else m.locateFrom left (i + 1) line (column + 1)

def cursorLocation (m : EditorModel) : Nat × Nat := m.locateFrom m.cursor 0 0 0

def resetDesiredColumn (m : EditorModel) : EditorModel :=
  { m with desiredColumn := m.cursorLocation.2 }

def writeBytes (storage : Nat → UInt8) (offset : Nat) (data : List UInt8) : Nat → UInt8 :=
  fun i => if offset ≤ i ∧ i < offset + data.length then data.getD (i - offset) 0 else storage i

/-- The end of `initialize`, once the bytes are in the storage. -/
def begin (m : EditorModel) (path : List UInt8) (length : Nat) (fileExists : Bool) : EditorModel :=
  { m with path := path, status := [], length := length, cursor := length, desiredColumn := 0
           viewportTopLine := 0, viewportLeftColumn := 0, fileExists := fileExists
           modified := false, started := true, forcedQuitPending := false }.resetDesiredColumn

def validPath (path : List UInt8) : Bool :=
  let length := (path.takeWhile (· ≠ 0)).length
  length ≠ 0 && length < pathCapacity

/-- `initialize`; the path is the string up to its NUL. -/
def init (m : EditorModel) (path : Option (List UInt8)) (data : List UInt8) (fileExists : Bool) :
    Bool × EditorModel :=
  match path with
  | none => (false, m)
  | some path =>
    if m.capacity < textCapacity ∨ data.length > textCapacity then (false, m)
    else if !validPath path then (false, m)
    else if data.any fun byte => !supportedTextByte byte then (false, m)
    else
      (true, { m with storage := writeBytes m.storage 0 data }.begin (path.takeWhile (· ≠ 0))
        data.length fileExists)

def initFromStorage (m : EditorModel) (path : Option (List UInt8)) (length : Nat)
    (fileExists : Bool) : Bool × EditorModel :=
  match path with
  | none => (false, m)
  | some path =>
    if m.capacity < textCapacity ∨ length > textCapacity then (false, m)
    else if !validPath path then (false, m)
    else if ((List.range length).map m.storage).any fun byte => !supportedTextByte byte then
      (false, m)
    else (true, m.begin (path.takeWhile (· ≠ 0)) length fileExists)

def shiftUp (cursor : Nat) : Nat → (Nat → UInt8) → Nat → UInt8
  | 0, storage => storage
  | i + 1, storage =>
    if i + 1 > cursor then shiftUp cursor i (Function.update storage (i + 1) (storage i))
    else storage

def shiftDown (length : Nat) : Nat → Nat → (Nat → UInt8) → Nat → UInt8
  | 0, _, storage => storage
  | left + 1, i, storage =>
    if i + 1 < length then
      shiftDown length left (i + 1) (Function.update storage i (storage (i + 1)))
    else storage

def insertByte (m : EditorModel) (byte : UInt8) : EditorModel :=
  { m with storage := Function.update (shiftUp m.cursor m.length m.storage) m.cursor byte
           cursor := m.cursor + 1, length := m.length + 1, modified := true }.resetDesiredColumn

def insert (m : EditorModel) (byte : UInt8) : Bool × EditorModel :=
  if !m.started || byte < 0x20 || byte > 0x7E || m.length ≥ textCapacity then (false, m)
  else (true, m.insertByte byte)

def insertNewline (m : EditorModel) : Bool × EditorModel :=
  if !m.started || m.length ≥ textCapacity then (false, m) else (true, m.insertByte 0x0A)

def backspace (m : EditorModel) : Bool × EditorModel :=
  if !m.started || m.cursor = 0 then (false, m)
  else
    (true, { m with storage := shiftDown m.length m.length (m.cursor - 1) m.storage
                    cursor := m.cursor - 1, length := m.length - 1
                    modified := true }.resetDesiredColumn)

def moveLeft (m : EditorModel) : EditorModel :=
  (if m.started && m.cursor ≠ 0 then { m with cursor := m.cursor - 1 } else m).resetDesiredColumn

def moveRight (m : EditorModel) : EditorModel :=
  (if m.started && m.cursor < m.length then { m with cursor := m.cursor + 1 }
    else m).resetDesiredColumn

def lineCount (m : EditorModel) : Nat :=
  (List.range m.length).foldl (fun lines i => if m.storage i = 0x0A then lines + 1 else lines) 1

/-- The loop of `line_bounds` from the byte `i` on. -/
def boundsFrom (m : EditorModel) (requested : Nat) : Nat → Nat → Nat → Nat → Option (Nat × Nat)
  | 0, _, line, start => if line = requested then some (start, m.length) else none
  | left + 1, i, line, start =>
    if m.storage i ≠ 0x0A then m.boundsFrom requested left (i + 1) line start
    else if line = requested then some (start, i)
    else m.boundsFrom requested left (i + 1) (line + 1) (i + 1)

def lineBounds (m : EditorModel) (requested : Nat) : Option (Nat × Nat) :=
  if !m.started || requested ≥ m.lineCount then none else m.boundsFrom requested m.length 0 0 0

def moveToLine (m : EditorModel) (line : Nat) : EditorModel :=
  match m.lineBounds line with
  | none => m
  | some (lineBegin, lineEnd) =>
    let column := if m.desiredColumn < lineEnd - lineBegin then m.desiredColumn
      else lineEnd - lineBegin
    { m with cursor := lineBegin + column }

def moveUp (m : EditorModel) : EditorModel :=
  if !m.started then m
  else if m.cursorLocation.1 = 0 then m
  else m.moveToLine (m.cursorLocation.1 - 1)

def moveDown (m : EditorModel) : EditorModel :=
  if !m.started then m
  else if m.cursorLocation.1 + 1 ≥ m.lineCount then m
  else m.moveToLine (m.cursorLocation.1 + 1)

def updateViewport (m : EditorModel) (visibleRows visibleColumns : Nat) : EditorModel :=
  if !m.started || visibleRows = 0 || visibleColumns = 0 then m
  else
    let (line, column) := m.cursorLocation
    let top :=
      if line < m.viewportTopLine then line
      else if line - m.viewportTopLine ≥ visibleRows then line - visibleRows + 1
      else m.viewportTopLine
    let maxTop := if m.lineCount > visibleRows then m.lineCount - visibleRows else 0
    let left :=
      if column < m.viewportLeftColumn then column
      else if column - m.viewportLeftColumn ≥ visibleColumns then column - visibleColumns + 1
      else m.viewportLeftColumn
    { m with viewportTopLine := if top > maxTop then maxTop else top, viewportLeftColumn := left }

def setStatusMessage (m : EditorModel) (message : List UInt8) : EditorModel :=
  { m with status := (message.takeWhile (· ≠ 0)).take (statusCapacity - 1) }

def saveSucceeded (m : EditorModel) : EditorModel :=
  { m with fileExists := true, modified := false, forcedQuitPending := false }.setStatusMessage
    ((ascii "Saved " ++ m.path).take (statusCapacity - 1))

def failureReason : Status → String
  | .notMounted => "filesystem not mounted"
  | .ioError => "I/O error"
  | .invalidFilesystem => "invalid filesystem"
  | .notFound => "not found"
  | .notDirectory => "not a directory"
  | .isDirectory => "is a directory"
  | .corrupt => "filesystem corrupt"
  | .unsupported => "unsupported operation"
  | .invalidDescriptor => "invalid file descriptor"
  | .invalidHandle => "invalid handle"
  | .tooManyOpenFiles => "too many open files"
  | .tooManyOpenDirectories => "too many open directories"
  | .alreadyExists => "already exists"
  | .invalidName => "invalid 8.3 name or path"
  | .noSpace => "disk full"
  | .directoryNotEmpty => "directory not empty"
  | .readOnly => "read-only volume"
  | .ok => "unknown error"

def saveFailed (m : EditorModel) (status : Status) : EditorModel :=
  { m with modified := true, forcedQuitPending := false }.setStatusMessage
    ((ascii "Save failed: " ++ ascii (failureReason status)).take (statusCapacity - 1))

def unsavedWarning : List UInt8 :=
  ascii "Unsaved changes! Press Ctrl+Q again to quit without saving."

def isShortcut (event : KeyEvent) (lower upper : UInt8) : Bool :=
  event.key = .character && event.ctrl && (event.character = lower || event.character = upper)

def isCtrlS (event : KeyEvent) : Bool := isShortcut event 's'.toUInt8 'S'.toUInt8
def isCtrlQ (event : KeyEvent) : Bool := isShortcut event 'q'.toUInt8 'Q'.toUInt8

def editKey (m : EditorModel) (event : KeyEvent) : EditorModel :=
  match event.key with
  | .character =>
    if event.ctrl then m
    else
      let (inserted, m) := m.insert event.character
      if inserted then m else m.setStatusMessage (ascii "Buffer full or unsupported character")
  | .enter =>
    let (inserted, m) := m.insertNewline
    if inserted then m else m.setStatusMessage (ascii "Buffer full")
  | .backspace => m.backspace.2
  | .arrowLeft => m.moveLeft
  | .arrowRight => m.moveRight
  | .arrowUp => m.moveUp
  | .arrowDown => m.moveDown
  | .unknown | .escape | .delete => m

def handleKey (m : EditorModel) (event : KeyEvent) : EditorAction × EditorModel :=
  if !m.started || !event.pressed then (.none, m)
  else if isCtrlS event then (.save, { m with forcedQuitPending := false }.setStatusMessage [])
  else if isCtrlQ event then
    if !m.modified then (.quit, { m with forcedQuitPending := false }.setStatusMessage [])
    else if m.forcedQuitPending then (.quit, { m with forcedQuitPending := false })
    else (.none, { m with forcedQuitPending := true }.setStatusMessage unsavedWarning)
  else (.none, ({ m with forcedQuitPending := false }.setStatusMessage []).editKey event)

end EditorModel

end Linux95.Gui.Editor
