import Linux95.Memory.Heap
import Linux95.User.Elf
import Linux95.User.ProcessTable
import Linux95.Vfs.Descriptors

/-! `load_process_image` of `user/elf.cpp`. -/

namespace Linux95.User
open Base Fat32 Memory Vfs

structure Kernel where
  machine : Machine
  heap : Heap
  files : Tables
  table : Table

structure Loading where
  machine : Machine
  userPages : List Word

abbrev LoadM := Exec Loading ElfStatus

namespace LoadM

/-- `allocate_page` for a page of the image or of the user stack, noted in `user_pages`. -/
def takePage : LoadM Word :=
  ExceptT.mk fun s =>
    match s.machine.allocatePage with
    | (none, m) => (.error .invalidSegment, { s with machine := m })
    | (some p, m) => (.ok p, ⟨m, s.userPages ++ [p]⟩)

def takeStack : LoadM Word :=
  ExceptT.mk fun s =>
    match s.machine.allocatePage with
    | (none, m) => (.error .invalidSegment, { s with machine := m })
    | (some p, m) => (.ok p, { s with machine := m })

def fillPage (p : Word) (contents : Index → Word) : LoadM Unit :=
  ExceptT.mk fun s => (.ok (), { s with machine := s.machine.writeTable p contents })

def mapPage (root va p : Word) (writable executable : Bool) : LoadM Unit :=
  ExceptT.mk fun s =>
    match s.machine.mapUserPage root va p writable executable with
    | (false, m) => (.error .invalidSegment, { s with machine := m })
    | (true, m) => (.ok (), { s with machine := m })

end LoadM

open LoadM

def pageWords (bytes : Bytes) : Index → Word := fun i => BitVec.ofNat 64 (le64 bytes (8 * i.val))

def copyFile (elf : Bytes) (size : Nat) (segment : LoadSegment) (fileEnd virtualPage : Nat)
    (physical : Word) : LoadM Unit :=
  let pageEnd := (virtualPage + pageSize) % 2 ^ 64
  let copyStart := if virtualPage > segment.virtualAddress then virtualPage else segment.virtualAddress
  let copyEnd := if pageEnd < fileEnd then pageEnd else fileEnd
  if copyEnd > copyStart then
    let sourceOffset := (segment.fileOffset + (copyStart - segment.virtualAddress)) % 2 ^ 64
    let copySize := copyEnd - copyStart
    if sourceOffset > size ∨ copySize > size - sourceOffset then throw .rangeOverflow
    else
      fillPage physical (pageWords fun i =>
        if copyStart - virtualPage ≤ i ∧ i < copyStart - virtualPage + copySize then
          elf (sourceOffset + (i - (copyStart - virtualPage)))
        else 0)
  else pure ()

def loadPage (elf : Bytes) (size : Nat) (root : Word) (segment : LoadSegment) (plan : SegmentPagePlan)
    (fileEnd pageIndex : Nat) : LoadM Unit := do
  let physical ← takePage
  fillPage physical fun _ => 0#64
  copyFile elf size segment fileEnd ((plan.firstPage + pageIndex * pageSize) % 2 ^ 64) physical
  mapPage root (BitVec.ofNat 64 (plan.firstPage + pageIndex * pageSize)) physical plan.writable
    plan.executable

def loadSegment (elf : Bytes) (size : Nat) (root : Word) (segment : LoadSegment)
    (plan : SegmentPagePlan) : LoadM Unit :=
  match checkedAdd segment.virtualAddress segment.memorySize with
  | none => throw .rangeOverflow
  | some _ =>
    match checkedAdd segment.virtualAddress segment.fileSize with
    | none => throw .rangeOverflow
    | some fileEnd => (List.range plan.pageCount).forM (loadPage elf size root segment plan fileEnd)

def loadStackPage (root : Word) (stackIndex : Nat) : LoadM Unit := do
  let physical ← takePage
  fillPage physical fun _ => 0#64
  mapPage root (userStackTop - BitVec.ofNat 64 ((userStackPages - stackIndex) * pageSize)) physical
    true false

def buildImage (elf : Bytes) (size : Nat) (root : Word) (segments : List LoadSegment)
    (plans : List SegmentPagePlan) : LoadM Word := do
  (segments.zip plans).forM fun part => loadSegment elf size root part.1 part.2
  (List.range userStackPages).forM (loadStackPage root)
  let stack ← takeStack
  fillPage stack fun _ => 0#64
  pure stack

def releasePages (pages : List Word) (m : Machine) : Machine := pages.foldl Machine.freePage m

/-- The label `cleanup`. It is reached before the kernel stack has been allocated, or not at all. -/
def cleanUp (root : Word) (s : Loading) : Machine :=
  (releasePages s.userPages s.machine).destroyUserAddressSpace root

def userCodeSelector : BitVec 16 := 0x23
def userDataSelector : BitVec 16 := 0x1B

def readyProcess (p : Process) (root stack : Word) (entry : Nat) : Process :=
  { p with
    state := .ready
    pageTablePhysical := root
    userEntry := BitVec.ofNat 64 entry
    userStackTop := Memory.userStackTop
    kernelStackBase := physicalToHhdm stack
    kernelStackTop := physicalToHhdm stack + BitVec.ofNat 64 pageSize
    context :=
      { UserContext.zero with
        rip := BitVec.ofNat 64 entry
        rsp := Memory.userStackTop
        rflags := 0x202
        cs := userCodeSelector
        ss := userDataSelector
        returnKind := .iret } }

/-- The loop that reads the file; every successful turn adds a byte, so `size` turns are enough. -/
def readAll (vfs : Nat → Backend) (fd : Int) (size : Nat) :
    Nat → Nat → List UInt8 → Tables → Option (List UInt8) × Tables
  | 0, _, soFar, t => (some soFar, t)
  | turns + 1, call, soFar, t =>
    if soFar.length ≥ size then (some soFar, t)
    else
      match Vfs.read (vfs call) fd true (size - soFar.length) t with
      | (.error _, t) => (none, t)
      | (.ok bytes, t) =>
        if bytes = [] then (none, t) else readAll vfs fd size turns (call + 1) (soFar ++ bytes) t

/-- From `vfs::open` to the last `vfs::close`: the file's bytes, if they could be read. The first
backend serves `open`, the others the calls of `read`. -/
def readImage (vfs : Nat → Backend) (path : Option CString) (heap : Heap) (t : Tables) :
    Option (List UInt8 × Nat) × Heap × Tables :=
  match openFile (vfs 0) path t with
  | (.error _, t) => (none, heap, t)
  | (.ok fd, t) =>
    match fstat fd t with
    | .error _ => (none, heap, (close fd t).2)
    | .ok (isDirectory, size) =>
      if isDirectory ∨ size = 0 then (none, heap, (close fd t).2)
      else
        match heap.allocate size with
        | (none, heap) => (none, heap, (close fd t).2)
        | (some _, heap) =>
          match readAll vfs fd size size 1 [] t with
          | (none, t) => (none, heap, (close fd t).2)
          | (some bytes, t) => (some (bytes, size), heap, (close fd t).2)

def userPageCount : List SegmentPagePlan → Nat → Option Nat
  | [], count => some count
  | plan :: plans, count =>
    if plan.pageCount > uint64Max - count then none else userPageCount plans (count + plan.pageCount)

/-- The checks between the reading of the file and the building of the image: the plans and the image,
with the heap that holds `user_pages`. -/
def planImage (elf : Bytes) (size : Nat) (heap : Heap) :
    Except ElfStatus (ElfImageInfo × List SegmentPagePlan) × Heap :=
  match buildLoadPlan elf size with
  | .error status => (.error status, heap)
  | .ok plans =>
    match inspectElf64 elf size with
    | .error status => (.error status, heap)
    | .ok image =>
      match userPageCount plans userStackPages with
      | none => (.error .rangeOverflow, heap)
      | some count =>
        if count > uint64Max / 8 then (.error .rangeOverflow, heap)
        else
          match heap.allocate (count * 8) with
          | (none, heap) => (.error .invalidSegment, heap)
          | (some _, heap) => (.ok (image, plans), heap)

def failureStatus (preferred : ElfStatus) : ElfStatus :=
  if preferred = .ok then .invalidSegment else preferred

def failLoad (k : Kernel) (slot : Slot) (status : ElfStatus) (machine : Machine) (heap : Heap)
    (files : Tables) : ElfStatus × Kernel :=
  (status, ⟨machine, heap.rewind k.heap.checkpoint, files, k.table.set slot .unused⟩)

def buildProcess (k : Kernel) (slot : Slot) (elf : Bytes) (size : Nat) (image : ElfImageInfo)
    (plans : List SegmentPagePlan) (heap : Heap) (files : Tables) : ElfStatus × Kernel :=
  match k.machine.createUserAddressSpace with
  | (none, m) => failLoad k slot .invalidSegment m heap files
  | (some root, m) =>
    match (buildImage elf size root image.segments plans).exec ⟨m, []⟩ with
    | (.error status, s) => failLoad k slot (failureStatus status) (cleanUp root s) heap files
    | (.ok stack, s) =>
      (.ok, ⟨s.machine, heap.rewind k.heap.checkpoint, files,
        k.table.set slot (readyProcess (k.table.processes slot) root stack image.entry)⟩)

def loadProcessImage (vfs : Nat → Backend) (path : Option CString) (slot : Slot) (k : Kernel) :
    ElfStatus × Kernel :=
  let p := k.table.processes slot
  if path = none ∨ p.state ≠ .created ∨ p.pageTablePhysical ≠ 0#64 ∨ p.kernelStackBase ≠ 0#64 ∨
      p.kernelStackTop ≠ 0#64 then (.invalidSegment, k)
  else
    match readImage vfs path k.heap k.files with
    | (none, heap, files) => failLoad k slot .invalidSegment k.machine heap files
    | (some (bytes, size), heap, files) =>
      match planImage (fun i => bytes.getD i 0) size heap with
      | (.error status, heap) => failLoad k slot status k.machine heap files
      | (.ok (image, plans), heap) =>
        buildProcess k slot (fun i => bytes.getD i 0) size image plans heap files

end Linux95.User
