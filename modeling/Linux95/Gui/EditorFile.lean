import Linux95.Gui.EditorModel

/-! `gui/editor_file.cpp`: loading and saving the text through the VFS, which is a parameter: any
answers of its calls are possible. -/

namespace Linux95.Gui.Editor
open Storage

structure FileStat where
  isDirectory : Bool
  size : Nat
  deriving DecidableEq, Repr

/-- What `vfs::read` leaves: the status, the bytes it has put into the buffer (also when it fails),
and `bytes_read`. -/
structure ReadResult where
  status : Status
  written : List UInt8
  bytesRead : Nat

abbrev Failure := { status : Status // status ≠ .ok }

/-- The calls of the VFS the editor makes, on a state of their own. -/
structure VfsCalls (σ : Type) where
  stat : List UInt8 → σ → Except Failure FileStat × σ
  openFile : List UInt8 → σ → Except Failure Int × σ
  read : Int → Nat → σ → ReadResult × σ
  close : Int → σ → Status × σ
  writeFile : List UInt8 → List UInt8 → σ → Status × σ

namespace EditorModel

variable {σ : Type} (v : VfsCalls σ)

def parentPath (path : List UInt8) : List UInt8 :=
  let separator := path.length - (path.reverse.takeWhile (· ≠ 0x2F)).length
  if separator ≤ 1 then [0x2F] else path.take (separator - 1)

def validateParent (path : List UInt8) (s : σ) : Status × σ :=
  if path.length = 0 ∨ path.length ≥ pathCapacity then (.invalidName, s)
  else
    match v.stat (parentPath path) s with
    | (.error status, s) => (status.val, s)
    | (.ok info, s) => (if info.isDirectory then .ok else .notDirectory, s)

/-- The read loop of `open_file`; each round reads at least one of the `left` bytes. -/
def readLoop (fd : Int) (size : Nat) : Nat → Nat → (Nat → UInt8) → σ → Status × (Nat → UInt8) × σ
  | 0, _, storage, s => (.ok, storage, s)
  | left + 1, offset, storage, s =>
    if offset < size then
      let (r, s) := v.read fd (size - offset) s
      let storage := writeBytes storage offset (r.written.take (size - offset))
      if r.status ≠ .ok then (r.status, storage, s)
      else if r.bytesRead = 0 ∨ r.bytesRead > size - offset then (.ioError, storage, s)
      else readLoop fd size left (offset + r.bytesRead) storage s
    else (.ok, storage, s)

def openNew (m : EditorModel) (path : List UInt8) (s : σ) : Status × EditorModel × σ :=
  match validateParent v path s with
  | (.ok, s) =>
    match m.init (some path) [] false with
    | (true, m) => (.ok, m, s)
    | (false, m) => (.invalidName, m, s)
  | (status, s) => (status, m, s)

/-- The end of `open_file`, with the bytes in the storage. -/
def finishLoad (m : EditorModel) (path : List UInt8) (size : Nat) (status : Status) (s : σ) :
    Status × EditorModel × σ :=
  if status ≠ .ok then (status, m, s)
  else
    match m.initFromStorage (some path) size true with
    | (true, m) => (.ok, m, s)
    | (false, m) => (.unsupported, m, s)

def load (m : EditorModel) (path : List UInt8) (size : Nat) (s : σ) : Status × EditorModel × σ :=
  match v.openFile path s with
  | (.error status, s) => (status.val, m, s)
  | (.ok fd, s) =>
    let r := readLoop v fd size size 0 m.storage s
    let closed := v.close fd r.2.2
    finishLoad { m with storage := r.2.1 } path size (if r.1 = .ok then closed.1 else r.1) closed.2

/-- The path is the string up to its NUL. -/
def openFile (m : EditorModel) (path : Option (List UInt8)) (s : σ) : Status × EditorModel × σ :=
  match path.map fun path => path.takeWhile (· ≠ 0) with
  | none | some [] => (.invalidName, m, s)
  | some path =>
    match v.stat path s with
    | (.error status, s) =>
      if status.val = .notFound then m.openNew v path s else (status.val, m, s)
    | (.ok info, s) =>
      if info.isDirectory then (.isDirectory, m, s)
      else if info.size > textCapacity then (.unsupported, m, s)
      else if m.capacity < textCapacity then (.unsupported, m, s)
      else m.load v path info.size s

def saveFile (m : EditorModel) (s : σ) : Status × EditorModel × σ :=
  match v.writeFile m.path m.text s with
  | (.ok, s) => (.ok, m.saveSucceeded, s)
  | (status, s) => (status, m.saveFailed status, s)

end EditorModel

end Linux95.Gui.Editor
