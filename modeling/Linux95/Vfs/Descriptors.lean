import Linux95.Fat32.Contents

/-! `filesystem/vfs.cpp`: the tables of open files and open directories. -/

namespace Linux95.Vfs
open Base Storage Fat32

structure FileDescriptor where
  inUse : Bool
  path : CString
  offset : Nat
  size : Nat
  deriving DecidableEq

structure DirectoryHandle where
  inUse : Bool
  path : CString
  nextIndex : Nat
  deriving DecidableEq

def FileDescriptor.empty : FileDescriptor := ⟨false, [], 0, 0⟩
def DirectoryHandle.empty : DirectoryHandle := ⟨false, [], 0⟩

/-- `file_descriptors` and `directory_handles`; only slots below 64 and 32 are ever used. -/
structure Tables where
  files : Nat → FileDescriptor
  directories : Nat → DirectoryHandle

def Tables.setFile (t : Tables) (fd : Nat) (slot : FileDescriptor) : Tables :=
  { t with files := Function.update t.files fd slot }

def Tables.setDirectory (t : Tables) (handle : Nat) (slot : DirectoryHandle) : Tables :=
  { t with directories := Function.update t.directories handle slot }

def Tables.initial : Tables := ⟨fun _ => .empty, fun _ => .empty⟩

/-- What a call sees below the VFS: the mounted volume, which `parse_bpb` accepted (`mount_wp`), and the
device as it is at that moment. -/
structure Backend where
  vol : Option BpbGeometry
  dev : Device
  accepted : ∀ g, vol = some g → ∃ sector diskSectors, parseBpb sector diskSectors = some g

/-- `copy_path`: a non-empty path of at most 127 bytes. -/
def copyPath : Option CString → Option CString
  | none => none
  | some source =>
    let text := source.takeWhile (· ≠ 0)
    if text.length = 0 then none else if text.length ≤ 127 then some text else none

def stat (b : Backend) (path : Option CString) : Except Status (Bool × Nat) :=
  match copyPath path with
  | none => .error .unsupported
  | some safePath =>
    match ((statPath b.vol (some safePath)).exec b.dev).1 with
    | .error status => .error status
    | .ok entry => .ok (entry.isDirectory, entry.size)

def lowestFree (inUse : Nat → Bool) : Nat → Nat → Option Nat
  | 0, _ => none
  | n + 1, i => if inUse i then lowestFree inUse n (i + 1) else some i

def openFile (b : Backend) (path : Option CString) (t : Tables) : Except Status Nat × Tables :=
  match copyPath path with
  | none => (.error .unsupported, t)
  | some safePath =>
    match stat b (some safePath) with
    | .error status => (.error status, t)
    | .ok (isDirectory, size) =>
      if isDirectory then (.error .isDirectory, t)
      else
        match lowestFree (fun i => (t.files i).inUse) 61 3 with
        | none => (.error .tooManyOpenFiles, t)
        | some fd => (.ok fd, t.setFile fd ⟨true, safePath, 0, size⟩)

def validFileDescriptor (t : Tables) (fd : Int) : Option Nat :=
  if fd < 3 ∨ fd ≥ 64 then none else if (t.files fd.toNat).inUse then some fd.toNat else none

def validDirHandle (t : Tables) (handle : Int) : Option Nat :=
  if handle < 0 ∨ handle ≥ 32 then none
  else if (t.directories handle.toNat).inUse then some handle.toNat else none

def read (b : Backend) (fd : Int) (buffer : Bool) (size : Nat) (t : Tables) :
    Except Status (List UInt8) × Tables :=
  match validFileDescriptor t fd with
  | none => (.error .invalidDescriptor, t)
  | some i =>
    let slot := t.files i
    match ((readFile b.vol (some slot.path) slot.offset buffer size).exec b.dev).1 with
    | .error status => (.error status, t)
    | .ok (bytes, reportedSize) =>
      if reportedSize ≠ slot.size then (.error .corrupt, t)
      else if bytes.length > 0xFFFFFFFF - slot.offset then (.error .corrupt, t)
      else (.ok bytes, t.setFile i { slot with offset := (slot.offset + bytes.length) % 2 ^ 32 })

def close (fd : Int) (t : Tables) : Status × Tables :=
  match validFileDescriptor t fd with
  | none => (.invalidDescriptor, t)
  | some i => (.ok, t.setFile i .empty)

def fstat (fd : Int) (t : Tables) : Except Status (Bool × Nat) :=
  match validFileDescriptor t fd with
  | none => .error .invalidDescriptor
  | some i => .ok (false, (t.files i).size)

def opendir (b : Backend) (path : Option CString) (t : Tables) : Except Status Nat × Tables :=
  match copyPath path with
  | none => (.error .unsupported, t)
  | some safePath =>
    match stat b (some safePath) with
    | .error status => (.error status, t)
    | .ok (isDirectory, _) =>
      if !isDirectory then (.error .notDirectory, t)
      else
        match lowestFree (fun i => (t.directories i).inUse) 32 0 with
        | none => (.error .tooManyOpenDirectories, t)
        | some handle => (.ok handle, t.setDirectory handle ⟨true, safePath, 0⟩)

def readdir (b : Backend) (handle : Int) (t : Tables) :
    Except Status (Option FileEntry) × Tables :=
  match validDirHandle t handle with
  | none => (.error .invalidHandle, t)
  | some i =>
    let slot := t.directories i
    match ((readDirectoryEntry b.vol (some slot.path) slot.nextIndex).exec b.dev).1 with
    | .error status => (.error status, t)
    | .ok none => (.ok none, t)
    | .ok (some entry) =>
      (.ok (some entry), t.setDirectory i { slot with nextIndex := (slot.nextIndex + 1) % 2 ^ 32 })

def closedir (handle : Int) (t : Tables) : Status × Tables :=
  match validDirHandle t handle with
  | none => (.invalidHandle, t)
  | some i => (.ok, t.setDirectory i .empty)

inductive Call where
  | init
  | openFile (path : Option CString)
  | read (fd : Int) (buffer : Bool) (size : Nat)
  | close (fd : Int)
  | fstat (fd : Int)
  | opendir (path : Option CString)
  | readdir (handle : Int)
  | closedir (handle : Int)
  deriving DecidableEq

inductive Reply where
  | done
  | opened (result : Except Status Nat)
  | bytes (result : Except Status (List UInt8))
  | info (result : Except Status (Bool × Nat))
  | entry (result : Except Status (Option FileEntry))
  | closed (status : Status)
  deriving DecidableEq

def step (b : Backend) (call : Call) (t : Tables) : Reply × Tables :=
  match call with
  | .init => (.done, .initial)
  | .openFile path => ((openFile b path t).1 |> .opened, (openFile b path t).2)
  | .read fd buffer size => ((read b fd buffer size t).1 |> .bytes, (read b fd buffer size t).2)
  | .close fd => ((close fd t).1 |> .closed, (close fd t).2)
  | .fstat fd => (fstat fd t |> .info, t)
  | .opendir path => ((opendir b path t).1 |> .opened, (opendir b path t).2)
  | .readdir handle => ((readdir b handle t).1 |> .entry, (readdir b handle t).2)
  | .closedir handle => ((closedir handle t).1 |> .closed, (closedir handle t).2)

def run : List (Backend × Call) → Tables → Tables
  | [], t => t
  | (b, call) :: rest, t => run rest (step b call t).2

end Linux95.Vfs
