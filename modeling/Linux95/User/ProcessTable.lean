import Linux95.Memory.UserSpace

/-! `process/process.cpp`: the process table, and the reaping of exited processes. -/

namespace Linux95.User
open Memory

inductive State
  | unused
  | created
  | ready
  | running
  | blocked
  | exited
  deriving DecidableEq

inductive ReturnKind
  | iret
  | sysret
  deriving DecidableEq

structure UserContext where
  r15 : Word
  r14 : Word
  r13 : Word
  r12 : Word
  r11 : Word
  r10 : Word
  r9 : Word
  r8 : Word
  rbp : Word
  rdi : Word
  rsi : Word
  rdx : Word
  rcx : Word
  rbx : Word
  rax : Word
  rip : Word
  rsp : Word
  rflags : Word
  cs : BitVec 16
  ss : BitVec 16
  returnKind : ReturnKind

def UserContext.zero : UserContext :=
  ⟨0, 0, 0, 0, 0, 0, 0, 0, 0, 0, 0, 0, 0, 0, 0, 0, 0, 0, 0, 0, .iret⟩

structure Process where
  pid : BitVec 32
  state : State
  pageTablePhysical : Word
  userEntry : Word
  userStackTop : Word
  kernelStackBase : Word
  kernelStackTop : Word
  context : UserContext
  exitCode : Word
  faultVector : BitVec 32
  faultErrorCode : Word
  faultAddress : Word

/-- `Process{}` with the state `Unused`, which is also its zero value. -/
def Process.unused : Process := ⟨0, .unused, 0, 0, 0, 0, 0, .zero, 0, 0, 0, 0⟩

abbrev Slot := Fin 16

structure Table where
  processes : Slot → Process
  nextPid : BitVec 32

namespace Table

def initial : Table := ⟨fun _ => .unused, 1⟩

def set (t : Table) (slot : Slot) (process : Process) : Table :=
  { t with processes := Function.update t.processes slot process }

def firstUnused (t : Table) : Option Slot :=
  (List.finRange 16).find? fun slot => (t.processes slot).state = .unused

def allocate (t : Table) : Option (Slot × Table) :=
  t.firstUnused.map fun slot =>
    (slot, { processes := Function.update t.processes slot
               { Process.unused with pid := t.nextPid, state := .created }
             nextPid := t.nextPid + 1 })

end Table

def markExited (p : Process) (code : Word) : Process := { p with exitCode := code, state := .exited }

def hhdmBase : Word := 0xFFFF800000000000#64

def physicalToHhdm (physical : Word) : Word := hhdmBase + physical

def hhdmToPhysical (address : Word) : Word := address - hhdmBase

def lookupUserPage (m : Machine) (root address : Word) : Option Word :=
  let (answered, info) := queryPage m.memory root address
  if !answered || !info.present || !info.user then none else some info.physical

/-- One turn of the loop of `release_mapped_range`. -/
def releaseMappedPage (root : Word) (m : Machine) (address : Word) : Machine :=
  match lookupUserPage m root address with
  | none => m
  | some physical => m.freePage physical

/-- The pages that the loop of `release_mapped_range` visits. -/
def pagesFrom (first : Word) (count : Nat) : List Word :=
  (List.range count).map fun i => first + BitVec.ofNat 64 (i * pageSize)

def imagePageCount : Nat := (userImageLimit.toNat - userImageBase.toNat) / pageSize

def userStackBase : Word := userStackTop - BitVec.ofNat 64 (userStackPages * pageSize)

def releaseMappedRange (root first : Word) (count : Nat) (m : Machine) : Machine :=
  if root = 0#64 then m else (pagesFrom first count).foldl (releaseMappedPage root) m

def reapMachine (p : Process) (m : Machine) : Machine :=
  let m := releaseMappedRange p.pageTablePhysical userImageBase imagePageCount m
  let m := releaseMappedRange p.pageTablePhysical userStackBase userStackPages m
  let m := if p.pageTablePhysical = 0#64 then m else m.destroyUserAddressSpace p.pageTablePhysical
  if p.kernelStackBase = 0#64 then m else m.freePage (hhdmToPhysical p.kernelStackBase)

def reapOne (state : Table × Machine) (slot : Slot) : Table × Machine :=
  if (state.1.processes slot).state = .exited then
    (state.1.set slot .unused, reapMachine (state.1.processes slot) state.2)
  else state

/-- The loop of `reap_exited`. -/
def reapExited (t : Table) (m : Machine) : Table × Machine := (List.finRange 16).foldl reapOne (t, m)

end Linux95.User
