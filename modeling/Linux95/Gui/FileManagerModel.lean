import Linux95.Fat32.Helpers

/-! `gui/file_manager_model.cpp`: the directory shown by the file manager. The VFS is outside: each
operation is given the answers its calls get, and hands back the calls it made. -/

namespace Linux95.Gui.FileManager
open Storage Fat32

structure Entry where
  name : CString
  isDirectory : Bool
  size : Nat
  fits : name.length ≤ 12 ∧ 0 ∉ name
  deriving DecidableEq

inductive ViewMode where
  | icons
  | details
  deriving DecidableEq, Repr

/-- A call of the VFS; `opendir` with the handle and the status it gave. -/
inductive VfsCall where
  | opendir (path : CString) (handle : Int) (status : Status)
  | readdir (handle : Int)
  | closedir (handle : Int)
  | stat (path : CString)
  | mkdir (path : CString)
  | touch (path : CString)
  | move (source destination : CString)
  | remove (path : CString)
  deriving DecidableEq

/-- The answers of the VFS during one operation; `readdir i` answers the call number `i` with the
status, the entry and the end flag. -/
structure Replies where
  opendir : Int × Status
  readdir : Nat → Status × Entry × Bool
  closedir : Status
  stat : Status
  mkdir : Status
  touch : Status
  move : Status
  remove : Status

structure Model where
  path : CString
  entries : List Entry
  selectedName : CString
  hasSelection : Bool
  view : ViewMode
  truncated : Bool
  deriving DecidableEq

def Model.initial : Model := ⟨[0x2F], [], [], false, .icons, false⟩

structure Outcome where
  status : Status
  model : Model
  calls : List VfsCall
  deriving DecidableEq

def maxEntries : Nat := 128
def pathCapacity : Nat := 128
def nameCapacity : Nat := 13

def foldAscii (c : UInt8) : UInt8 := if 0x61 ≤ c ∧ c ≤ 0x7A then c - 0x20 else c

def sameName : CString → CString → Bool
  | [], [] => true
  | [], _ :: _ => false
  | _ :: _, [] => false
  | a :: left, b :: right => if foldAscii a ≠ foldAscii b then false else sameName left right

/-- `copy_bounded`: the text, when it fits with its terminating zero. -/
def copyBounded (source : CString) (capacity : Nat) : Option CString :=
  if source.length < capacity then some source else none

def validateName : Option CString → Status
  | none => .invalidName
  | some name => if validPathComponent name then .ok else .invalidName

def isRoot (path : CString) : Bool := path.length = 1 && path.headD 0 = 0x2F

def joinPath (parent name : CString) : CString :=
  parent ++ (if isRoot parent then [] else [0x2F]) ++ name

def joinSize (parent name : CString) : Nat :=
  parent.length + (if isRoot parent then 0 else 1) + name.length + 1

def buildChildPath (parent name : CString) : Option CString :=
  if parent.headD 0 ≠ 0x2F ∨ joinSize parent name > pathCapacity then none
  else some (joinPath parent name)

namespace Model

def findName (entries : List Entry) (name : CString) : Option Nat :=
  entries.findIdx? fun entry => sameName name entry.name

def selectedIndex (m : Model) : Option Nat :=
  if m.hasSelection then findName m.entries m.selectedName else none

def copiedName (m : Model) (entry : Entry) : CString :=
  (copyBounded entry.name nameCapacity).getD m.selectedName

def select (m : Model) (index : Nat) : Model :=
  match m.entries[index]? with
  | none => m
  | some entry => { m with selectedName := m.copiedName entry, hasSelection := true }

def selectName (m : Model) (name : CString) : Model :=
  match m.entries.findIdx? fun entry => sameName entry.name name with
  | none => m
  | some index => m.select index

/-- What the loop of `load_path` and the probe after it have read. -/
structure Scan where
  status : Status
  reachedEnd : Bool
  entries : List Entry
  reads : Nat

def readEntries (replies : Nat → Status × Entry × Bool) : Nat → Nat → List Entry → Scan
  | 0, i, seen => ⟨.ok, false, seen, i⟩
  | n + 1, i, seen =>
    match replies i with
    | (status, next, atEnd) =>
      if status ≠ .ok then ⟨status, false, seen, i + 1⟩
      else if atEnd then ⟨.ok, true, seen, i + 1⟩
      else readEntries replies n (i + 1) (seen ++ [next])

def readListing (replies : Nat → Status × Entry × Bool) : Scan × Bool :=
  let scan := readEntries replies maxEntries 0 []
  if scan.status = .ok ∧ !scan.reachedEnd ∧ scan.entries.length = maxEntries then
    match replies scan.reads with
    | (status, _, atEnd) =>
      ({ scan with
          status := status, reachedEnd := status = .ok && atEnd, reads := scan.reads + 1 },
        status = .ok && !atEnd)
  else (scan, false)

/-- The last part of `load_path`: the new listing, with the selection kept by its name. -/
def replace (m : Model) (newPath : CString) (entries : List Entry) (truncated : Bool) : Model :=
  let preserved := if m.hasSelection then findName entries m.selectedName else none
  match preserved.bind fun i => entries[i]? with
  | none => { m with
      path := newPath, entries := entries, truncated := truncated, hasSelection := false,
      selectedName := [] }
  | some entry => { m with
      path := newPath, entries := entries, truncated := truncated, hasSelection := true,
      selectedName := m.copiedName entry }

def loadPath (m : Model) (r : Replies) (candidate : CString) : Outcome :=
  let handle := r.opendir.1
  let opened := VfsCall.opendir candidate handle r.opendir.2
  if r.opendir.2 ≠ .ok then ⟨r.opendir.2, m, [opened]⟩
  else if handle < 0 then ⟨.invalidHandle, m, [opened]⟩
  else
    let (scan, truncated) := readListing r.readdir
    let calls := opened :: List.replicate scan.reads (.readdir handle) ++ [.closedir handle]
    if scan.status ≠ .ok then ⟨scan.status, m, calls⟩
    else if r.closedir ≠ .ok then ⟨r.closedir, m, calls⟩
    else
      match copyBounded candidate pathCapacity with
      | none => ⟨.invalidName, m, calls⟩
      | some newPath => ⟨.ok, m.replace newPath scan.entries truncated, calls⟩

def loadRoot (m : Model) (r : Replies) : Outcome := m.loadPath r [0x2F]

def refresh (m : Model) (r : Replies) : Outcome := m.loadPath r m.path

def navigateInto (m : Model) (r : Replies) (index : Nat) : Outcome :=
  match m.entries[index]? with
  | none => ⟨.notFound, m, []⟩
  | some selected =>
    if !selected.isDirectory then ⟨.notDirectory, m, []⟩
    else if validateName (some selected.name) ≠ .ok then ⟨validateName (some selected.name), m, []⟩
    else if joinSize m.path selected.name > pathCapacity then ⟨.invalidName, m, []⟩
    else m.loadPath r (joinPath m.path selected.name)

/-- The loop of `navigate_parent`: the length up to and with the last slash, at least one. -/
def parentLength (path : CString) : Nat → Nat
  | 0 => 0
  | length + 1 =>
    if length + 1 > 1 ∧ path.getD length 0 ≠ 0x2F then parentLength path length else length + 1

def parentPath (path : CString) : CString :=
  let length := parentLength path path.length
  if length > 1 then path.take (length - 1) else path.take 1

def navigateParent (m : Model) (r : Replies) : Outcome :=
  if m.path = [0x2F] then ⟨.ok, m, []⟩ else m.loadPath r (parentPath m.path)

/-- The end of the operations that change the directory: the mutation, then a fresh listing with the
given name selected. -/
def mutate (m : Model) (r : Replies) (call : VfsCall) (mutation : Status) (name : Option CString) :
    Outcome :=
  if mutation ≠ .ok then ⟨mutation, m, [call]⟩
  else
    let refreshed := m.refresh r
    match name with
    | some name =>
      if refreshed.status = .ok then
        ⟨.ok, refreshed.model.selectName name, call :: refreshed.calls⟩
      else ⟨refreshed.status, refreshed.model, call :: refreshed.calls⟩
    | none => ⟨refreshed.status, refreshed.model, call :: refreshed.calls⟩

def createFolder (m : Model) (r : Replies) (name : Option CString) : Outcome :=
  match name with
  | none => ⟨.invalidName, m, []⟩
  | some name =>
    if validateName (some name) ≠ .ok then ⟨validateName (some name), m, []⟩
    else
      match buildChildPath m.path name with
      | none => ⟨.invalidName, m, []⟩
      | some destination => m.mutate r (.mkdir destination) r.mkdir (some name)

def createFile (m : Model) (r : Replies) (name : Option CString) : Outcome :=
  match name with
  | none => ⟨.invalidName, m, []⟩
  | some name =>
    if validateName (some name) ≠ .ok then ⟨validateName (some name), m, []⟩
    else
      match buildChildPath m.path name with
      | none => ⟨.invalidName, m, []⟩
      | some destination =>
        if r.stat = .ok then ⟨.alreadyExists, m, [.stat destination]⟩
        else if r.stat ≠ .notFound then ⟨r.stat, m, [.stat destination]⟩
        else
          let touched := m.mutate r (.touch destination) r.touch (some name)
          { touched with calls := .stat destination :: touched.calls }

def renameSelected (m : Model) (r : Replies) (name : Option CString) : Outcome :=
  match m.selectedIndex.bind fun i => m.entries[i]? with
  | none => ⟨.unsupported, m, []⟩
  | some entry =>
    match name with
    | none => ⟨.invalidName, m, []⟩
    | some name =>
      if validateName (some name) ≠ .ok then ⟨validateName (some name), m, []⟩
      else
        match buildChildPath m.path entry.name, buildChildPath m.path name with
        | some source, some destination =>
          if sameName entry.name name then ⟨.alreadyExists, m, []⟩
          else m.mutate r (.move source destination) r.move (some name)
        | _, _ => ⟨.invalidName, m, []⟩

def removeSelected (m : Model) (r : Replies) : Outcome :=
  match m.selectedIndex.bind fun i => m.entries[i]? with
  | none => ⟨.unsupported, m, []⟩
  | some entry =>
    match buildChildPath m.path entry.name with
    | none => ⟨.invalidName, m, []⟩
    | some target => m.mutate r (.remove target) r.remove none

def setView (m : Model) (view : ViewMode) : Model := { m with view := view }

end Model

inductive Operation where
  | loadRoot
  | refresh
  | navigateInto (index : Nat)
  | navigateParent
  | createFolder (name : Option CString)
  | createFile (name : Option CString)
  | renameSelected (name : Option CString)
  | removeSelected
  | select (index : Nat)
  | setView (view : ViewMode)
  deriving DecidableEq

def Model.step (m : Model) (r : Replies) : Operation → Outcome
  | .loadRoot => m.loadRoot r
  | .refresh => m.refresh r
  | .navigateInto index => m.navigateInto r index
  | .navigateParent => m.navigateParent r
  | .createFolder name => m.createFolder r name
  | .createFile name => m.createFile r name
  | .renameSelected name => m.renameSelected r name
  | .removeSelected => m.removeSelected r
  | .select index => ⟨.ok, m.select index, []⟩
  | .setView view => ⟨.ok, m.setView view, []⟩

def runOperations : List (Operation × Replies) → Model → Model × List VfsCall
  | [], m => (m, [])
  | (op, r) :: rest, m =>
    let o := m.step r op
    ((runOperations rest o.model).1, o.calls ++ (runOperations rest o.model).2)

end Linux95.Gui.FileManager
