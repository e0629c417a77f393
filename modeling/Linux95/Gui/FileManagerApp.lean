import Linux95.Input.EventQueue
import Linux95.Gui.WindowManager
import Linux95.Gui.FileManagerRuns

/-! `gui/file_manager_app.cpp`: keys, clicks and dialogs of the file manager, with the window as
`gui/desktop.cpp` opens, feeds and closes it. What a drawing paints is left out. -/

namespace Linux95.Gui.FileManager
open Storage Fat32 Input

inductive DialogMode where
  | none
  | name
  | deleteConfirm
  deriving DecidableEq, Repr

inductive PendingOperation where
  | none
  | newFolder
  | newFile
  | rename
  deriving DecidableEq, Repr

structure MouseEvent where
  x : Int
  y : Int
  leftPressed : Bool
  deriving DecidableEq, Repr

/-- `FileManagerApp`, with the size of the last drawing in `g_content_width` and
`g_content_height`. -/
structure App where
  model : Model
  dialog : DialogMode
  pending : PendingOperation
  nameBuffer : CString
  statusMessage : List Char
  contentWidth : Int
  contentHeight : Int

def App.initial : App := ⟨.initial, .none, .none, [], [], 0, 0⟩

def statusText : Status → String
  | .ok => "OK"
  | .notMounted => "filesystem not mounted"
  | .notFound => "entry not found"
  | .notDirectory => "not a directory"
  | .isDirectory => "is a directory"
  | .alreadyExists => "name already exists"
  | .invalidName => "invalid 8.3 name"
  | .noSpace => "disk is full"
  | .directoryNotEmpty => "directory is not empty"
  | .readOnly => "filesystem is read only"
  | .ioError => "disk I/O error"
  | .corrupt => "filesystem is corrupt"
  | .unsupported => "operation unavailable"
  | _ => "filesystem operation failed"

structure Layout where
  entries : Rect
  deleteButton : Rect
  cancelButton : Rect

def layout (content : Rect) (view : ViewMode) : Layout :=
  let bottom := content.y + (if content.height > 0 then content.height else 0)
  let entriesTop := content.y + 64
  let entriesBottom := if bottom > content.y + 20 then bottom - 20 else entriesTop
  let entriesHeight := if entriesBottom > entriesTop then entriesBottom - entriesTop else 0
  let dialogHeight :=
    if content.height > 76 then (if content.height - 76 < 72 then content.height - 76 else 72) else 0
  let buttonY := content.y + 56 + dialogHeight - 26
  let entriesWidth :=
    if view = .icons ∧ content.width > 0 ∧ entriesHeight > 0 ∧ content.width / 80 = 0 then 0
    else content.width
  { entries := ⟨content.x, entriesTop, entriesWidth, entriesHeight⟩
    deleteButton := if dialogHeight ≥ 40 then ⟨content.x + 24, buttonY, 80, 22⟩ else ⟨0, 0, 0, 0⟩
    cancelButton := if dialogHeight ≥ 40 then ⟨content.x + 112, buttonY, 80, 22⟩ else ⟨0, 0, 0, 0⟩ }

def firstVisibleEntry (content : Rect) (view : ViewMode) (selected : Option Nat) : Nat :=
  let bounds := (layout content view).entries
  let pageCapacity :=
    match view with
    | .details => (bounds.height / 18).toNat
    | .icons => (bounds.width / 80).toNat * (bounds.height / 52).toNat
  match selected with
  | none => 0
  | some selected =>
    if pageCapacity = 0 ∨ selected < pageCapacity then 0 else selected / pageCapacity * pageCapacity

/-- `presentation::hit_test`; `none` is -1. The slot is a 32-bit product turned into a `size_t`. -/
def hitTest (content : Rect) (entryCount : Nat) (view : ViewMode) (x y : Int)
    (selected : Option Nat) : Option Nat :=
  let entryCount := if entryCount > maxEntries then maxEntries else entryCount
  let bounds := (layout content view).entries
  if entryCount = 0 ∨ bounds.width ≤ 0 ∨ bounds.height ≤ 0 ∨ x < bounds.x ∨ y < bounds.y ∨
      x ≥ bounds.x + bounds.width ∨ y ≥ bounds.y + bounds.height then none
  else
    let slot : Option Int :=
      match view with
      | .details =>
        if (y - bounds.y) / 18 ≥ bounds.height / 18 then none else some ((y - bounds.y) / 18)
      | .icons =>
        let columns := bounds.width / 80
        let column := (x - bounds.x) / 80
        let row := (y - bounds.y) / 52
        if columns ≤ 0 ∨ column ≥ columns ∨ row ≥ bounds.height / 52 then none
        else some (int32 (row * columns + column))
    match slot with
    | none => none
    | some slot =>
      let index : Int := (Int.ofNat (firstVisibleEntry content view selected) + slot) % 2 ^ 64
      if index < entryCount then some index.toNat else none

namespace App

def setStatus (a : App) (message : List Char) : App := { a with statusMessage := message.take 63 }

def setStatusFor (a : App) (status : Status) (operation : String) : App :=
  if status = .ok then a.setStatus "OK".toList
  else
    a.setStatus ((operation.toList.take 61 ++ ": ".toList ++ (statusText status).toList).take 63)

def cancelDialog (a : App) : App := { a with dialog := .none, pending := .none, nameBuffer := [] }

def beginNameDialog (a : App) (operation : PendingOperation) : App :=
  let a := { a with pending := operation, dialog := .name, nameBuffer := [] }
  if operation = .rename then
    match a.model.selectedIndex.bind fun i => a.model.entries[i]? with
    | none => a.cancelDialog.setStatus "select an entry first".toList
    | some entry => { a with nameBuffer := entry.name.take 12 }.setStatus "rename entry".toList
  else if operation = .newFolder then a.setStatus "new folder name".toList
  else if operation = .newFile then a.setStatus "new file name".toList
  else a.setStatus "rename entry".toList

def beginDeleteConfirmation (a : App) : App :=
  if a.model.selectedIndex = none then a.setStatus "select an entry first".toList
  else { a with pending := .none, dialog := .deleteConfirm }.setStatus "confirm delete".toList

def activateAction (a : App) (operation : PendingOperation) : App :=
  if operation = .rename ∧ a.model.selectedIndex = none then
    a.setStatus "select an entry first".toList
  else a.beginNameDialog operation

def toggleView (a : App) : App :=
  { a with model := a.model.setView (if a.model.view = .icons then .details else .icons) }

def nameOutcome (a : App) (r : Replies) : Outcome :=
  match a.pending with
  | .newFolder => a.model.createFolder r (some a.nameBuffer)
  | .newFile => a.model.createFile r (some a.nameBuffer)
  | .rename => a.model.renameSelected r (some a.nameBuffer)
  | .none => ⟨.invalidName, a.model, []⟩

def confirmName (a : App) (r : Replies) : App × List VfsCall :=
  let o := a.nameOutcome r
  let operation :=
    match a.pending with
    | .newFolder => "create folder"
    | .newFile => "create file"
    | _ => "rename"
  let a := { a with model := o.model }.setStatusFor o.status operation
  (if o.status = .ok then a.cancelDialog else a, o.calls)

def confirmDelete (a : App) (r : Replies) : App × List VfsCall :=
  let o := a.model.removeSelected r
  (({ a with model := o.model }.setStatusFor o.status "delete").cancelDialog, o.calls)

def shows (a : App) (o : Outcome) (operation : String) : App × List VfsCall :=
  ({ a with model := o.model }.setStatusFor o.status operation, o.calls)

def openRoot (a : App) (r : Replies) : App × List VfsCall := a.shows (a.model.loadRoot r) "open"

def nameKey (a : App) (r : Replies) (event : KeyEvent) : App × List VfsCall :=
  match event.key with
  | .escape => (a.cancelDialog, [])
  | .backspace => ({ a with nameBuffer := a.nameBuffer.dropLast }, [])
  | .enter => a.confirmName r
  | .character =>
    if event.character ≥ 32 ∧ event.character ≤ 126 ∧ event.character ≠ 0x2F ∧
        a.nameBuffer.length < 12 then
      ({ a with nameBuffer := a.nameBuffer ++ [event.character] }, [])
    else (a, [])
  | _ => (a, [])

def deleteKey (a : App) (r : Replies) (event : KeyEvent) : App × List VfsCall :=
  match event.key with
  | .escape => (a.cancelDialog, [])
  | .enter => a.confirmDelete r
  | _ => (a, [])

def lowerAscii (c : UInt8) : UInt8 := if 0x41 ≤ c ∧ c ≤ 0x5A then c + 0x20 else c

def arrowTarget (up : Bool) (selected : Option Nat) (count : Nat) : Nat :=
  match up, selected with
  | true, none => count - 1
  | true, some selected => selected - 1
  | false, none => 0
  | false, some selected => if selected + 1 < count then selected + 1 else count - 1

def arrowKey (a : App) (up : Bool) : App :=
  if a.model.entries.length = 0 then a
  else
    { a with
      model := a.model.select (arrowTarget up a.model.selectedIndex a.model.entries.length) }

def plainKey (a : App) (r : Replies) (event : KeyEvent) : App × List VfsCall :=
  if event.ctrl ∧ event.key = .character then
    if lowerAscii event.character = 0x6E then (a.activateAction .newFolder, [])
    else if lowerAscii event.character = 0x66 then (a.activateAction .newFile, [])
    else if lowerAscii event.character = 0x72 then (a.activateAction .rename, [])
    else if lowerAscii event.character = 0x76 then (a.toggleView, [])
    else (a, [])
  else
    match event.key with
    | .delete => (a.beginDeleteConfirmation, [])
    | .arrowUp => (a.arrowKey true, [])
    | .arrowDown => (a.arrowKey false, [])
    | .enter =>
      match a.model.selectedIndex with
      | none => (a, [])
      | some selected =>
        match a.model.entries[selected]? with
        | none => (a, [])
        | some entry =>
          if entry.isDirectory then
            a.shows (a.model.navigateInto r selected) "open directory"
          else (a, [])
    | .backspace => a.shows (a.model.navigateParent r) "go to parent"
    | _ => (a, [])

def onKey (a : App) (r : Replies) (event : KeyEvent) : App × List VfsCall :=
  if !event.pressed then (a, [])
  else
    match a.dialog with
    | .name => a.nameKey r event
    | .deleteConfirm => a.deleteKey r event
    | .none => a.plainKey r event

def inside (rect : Rect) (event : MouseEvent) : Bool :=
  decide (event.x ≥ rect.x) && decide (event.x < rect.x + rect.width) &&
    decide (event.y ≥ rect.y) && decide (event.y < rect.y + rect.height)

def dialogMouse (a : App) (r : Replies) (event : MouseEvent) : App × List VfsCall :=
  if a.contentWidth ≤ 0 ∨ a.contentHeight ≤ 0 then (a, [])
  else
    let areas := layout ⟨0, 0, a.contentWidth, a.contentHeight⟩ a.model.view
    if inside areas.deleteButton event then
      if a.dialog = .name then a.confirmName r else a.confirmDelete r
    else if inside areas.cancelButton event then (a.cancelDialog, [])
    else (a, [])

def plainMouse (a : App) (r : Replies) (event : MouseEvent) : App × List VfsCall :=
  if event.x < 0 ∨ event.y < 0 then (a, [])
  else if event.y ≥ 24 ∧ event.y < 48 ∧ event.x < 72 then
    a.shows (a.model.navigateParent r) "go to parent"
  else if event.y ≥ 24 ∨ event.x < 0 then
    if a.contentWidth ≤ 0 ∨ a.contentHeight ≤ 0 then (a, [])
    else
      match hitTest ⟨0, 0, a.contentWidth, a.contentHeight⟩ a.model.entries.length a.model.view
          event.x event.y a.model.selectedIndex with
      | none => (a, [])
      | some index => ({ a with model := a.model.select index }, [])
  else if event.x < 76 then (a.activateAction .newFolder, [])
  else if event.x < 136 then (a.activateAction .newFile, [])
  else if event.x < 196 then (a.activateAction .rename, [])
  else if event.x < 256 then (a.beginDeleteConfirmation, [])
  else if event.x < 316 then (a.toggleView, [])
  else (a, [])

def onMouse (a : App) (r : Replies) (event : MouseEvent) : App × List VfsCall :=
  if !event.leftPressed then (a, [])
  else if a.dialog ≠ .none then a.dialogMouse r event
  else a.plainMouse r event

def draw (a : App) (width height : Int) : App :=
  { a with contentWidth := width, contentHeight := height }

end App

structure Desk where
  app : App
  shown : Bool

def Desk.initial : Desk := ⟨.initial, false⟩

inductive Event where
  | activate
  | key (event : KeyEvent)
  | mouse (event : MouseEvent)
  | draw (width height : Int)
  | close

/-- One event on the desktop: `activate_runtime_window` opens the application with a new window only,
and `route_key` and `route_mouse` need a window. -/
def Desk.deliver (s : Desk) (r : Replies) : Event → Desk × List VfsCall
  | .activate =>
    if s.shown then (s, []) else (⟨(s.app.openRoot r).1, true⟩, (s.app.openRoot r).2)
  | .key event =>
    if s.shown then (⟨(s.app.onKey r event).1, true⟩, (s.app.onKey r event).2) else (s, [])
  | .mouse event =>
    if s.shown then (⟨(s.app.onMouse r event).1, true⟩, (s.app.onMouse r event).2) else (s, [])
  | .draw width height => (⟨s.app.draw width height, s.shown⟩, [])
  | .close => (⟨s.app.cancelDialog, false⟩, [])

/-- The desktop after a history of events, each with the answers of the VFS it met. -/
def desk (history : List (Event × Replies)) : Desk :=
  history.foldl (fun s e => (s.deliver e.2 e.1).1) .initial

end Linux95.Gui.FileManager
