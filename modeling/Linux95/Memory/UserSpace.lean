import Linux95.Base.LinkedTables
import Linux95.Memory.Physical

/-! `memory/user_space.cpp` with `query_page` of `memory/paging.cpp`: page tables of four levels in
physical memory. -/

namespace Linux95.Memory
open Base LinkedTables

def pagePresent : Word := 1#64
def pageWritable : Word := 2#64
def pageUser : Word := 4#64
def pageHuge : Word := 0x80#64
def pageNoExecute : Word := 0x8000000000000000#64
def oneGiBAddressMask : Word := 0x000FFFFFC0000000#64
def twoMiBAddressMask : Word := 0x000FFFFFFFE00000#64

def userImageBase : Word := 0x0000400000000000#64
def userImageLimit : Word := 0x0000400100000000#64
def userStackTop : Word := 0x00007FFFFFF00000#64
def userStackPages : Nat := 8

def has (entry flag : Word) : Bool := entry &&& flag != 0#64

abbrev Index := Fin 512

def tableIndex (shift : Nat) (va : Word) : Index := ⟨(va >>> shift).toNat % 512, Nat.mod_lt _ (by decide)⟩

theorem tableIndex_val (shift : Nat) (va : Word) : (tableIndex shift va).val = va.toNat / 2 ^ shift % 512 := by
  unfold tableIndex
  dsimp only
  rw [BitVec.toNat_ushiftRight, Nat.shiftRight_eq_div_pow]

def pml4Index (va : Word) : Index := tableIndex 39 va
def pdptIndex (va : Word) : Index := tableIndex 30 va
def pdIndex (va : Word) : Index := tableIndex 21 va
def ptIndex (va : Word) : Index := tableIndex 12 va

/-- The table of 512 entries at every page-aligned physical address. -/
abbrev PhysicalMemory := Word → Index → Word

structure PageInfo where
  present : Bool
  user : Bool
  writable : Bool
  executable : Bool
  physical : Word
  deriving DecidableEq

def PageInfo.absent : PageInfo := ⟨false, false, false, false, 0#64⟩

structure Rights where
  user : Bool
  writable : Bool
  executable : Bool
  deriving DecidableEq

def Rights.all : Rights := ⟨true, true, true⟩

def Rights.restrict (r : Rights) (entry : Word) : Rights :=
  ⟨r.user && has entry pageUser, r.writable && has entry pageWritable,
    r.executable && !has entry pageNoExecute⟩

def Rights.info (r : Rights) (entry mask va offsetMask : Word) : PageInfo :=
  ⟨true, r.user, r.writable, r.executable, entry &&& mask ||| va &&& offsetMask⟩

/-- `query_page`: whether the root is aligned, and what the walk finds. -/
def queryPage (memory : PhysicalMemory) (root va : Word) : Bool × PageInfo :=
  if !isPageAligned root then (false, .absent)
  else
    let pml4e := memory root (pml4Index va)
    if !has pml4e pagePresent then (true, .absent)
    else
      let rights := Rights.all.restrict pml4e
      let pdpte := memory (pml4e &&& addressMask) (pdptIndex va)
      if !has pdpte pagePresent then (true, .absent)
      else
        let rights := rights.restrict pdpte
        if has pdpte pageHuge then (true, rights.info pdpte oneGiBAddressMask va 0x3FFFFFFF#64)
        else
          let pde := memory (pdpte &&& addressMask) (pdIndex va)
          if !has pde pagePresent then (true, .absent)
          else
            let rights := rights.restrict pde
            if has pde pageHuge then (true, rights.info pde twoMiBAddressMask va 0x1FFFFF#64)
            else
              let pte := memory (pde &&& addressMask) (ptIndex va)
              if !has pte pagePresent then (true, .absent)
              else (true, (rights.restrict pte).info pte addressMask va 0xFFF#64)

/-- The machine as the memory code sees it: the allocator, physical memory, the root in CR3 while
the host runs, and whether no-execute is enabled. -/
structure Machine where
  allocator : Allocator
  memory : PhysicalMemory
  kernelRoot : Word
  nxeEnabled : Bool

namespace Machine

def rootPhysical (m : Machine) : Word := m.kernelRoot &&& addressMask

theorem rootPhysical_congr {m m' : Machine} (h : m'.kernelRoot = m.kernelRoot) :
    m'.rootPhysical = m.rootPhysical :=
  congrArg (· &&& addressMask) h

def freePage (m : Machine) (physical : Word) : Machine :=
  { m with allocator := m.allocator.freePage physical }

def writeEntry (m : Machine) (table : Word) (index : Index) (entry : Word) : Machine :=
  { m with memory := store m.memory table index entry }

def writeTable (m : Machine) (table : Word) (entries : Index → Word) : Machine :=
  { m with memory := Function.update m.memory table entries }

def allocatePage (m : Machine) : Option Word × Machine :=
  (m.allocator.allocatePage.1, { m with allocator := m.allocator.allocatePage.2 })

def allocateTable (m : Machine) : Option Word × Machine :=
  match m.allocatePage with
  | (none, m) => (none, m)
  | (some physical, m) =>
    (some physical, m.writeTable physical fun _ => 0#64)

def child (m : Machine) (parent : Word) (index : Index) : Option Word × Machine :=
  let entry := m.memory parent index
  if has entry pagePresent then
    (if has entry pageHuge then none else some (entry &&& addressMask), m)
  else
    match m.allocateTable with
    | (none, m) => (none, m)
    | (some physical, m) =>
      (some physical,
        m.writeEntry parent index (physical ||| pagePresent ||| pageWritable ||| pageUser))

def releaseTable : Nat → Word → Machine → Machine
  | level, physical, m =>
    if physical = 0#64 ∨ physical = invalidAddress then m
    else
      let m :=
        match level with
        | 0 | 1 => m
        | level + 2 =>
          (List.finRange 512).foldl (fun m i =>
            let entry := m.memory physical i
            if has entry pagePresent && !has entry pageHuge then
              releaseTable (level + 1) (entry &&& addressMask) m
            else m) m
      m.freePage physical

def imageSlot : Index := pml4Index userImageBase
def stackSlot : Index := pml4Index userStackTop

def createUserAddressSpace (m : Machine) : Option Word × Machine :=
  match m.allocateTable with
  | (none, m) => (none, m)
  | (some root, m) =>
    let source := m.memory m.rootPhysical
    let copied := fun i => source i &&& ~~~pageUser
    if has (source imageSlot) pagePresent || has (source stackSlot) pagePresent then
      (none, (m.writeTable root copied).freePage root)
    else
      (some root, m.writeTable root
        (Function.update (Function.update copied imageSlot 0#64) stackSlot 0#64))

def destroyUserAddressSpace (root : Word) (m : Machine) : Machine :=
  if root = invalidAddress ∨ root = 0#64 then m
  else
    let m :=
      if has (m.memory root imageSlot) pagePresent then
        releaseTable 3 (m.memory root imageSlot &&& addressMask) m
      else m
    let m :=
      if has (m.memory root stackSlot) pagePresent && decide (stackSlot ≠ imageSlot) then
        releaseTable 3 (m.memory root stackSlot &&& addressMask) m
      else m
    m.freePage root

def makeUserPageFlags (writable executable nxeEnabled : Bool) : Option Word :=
  if !executable && !nxeEnabled then none
  else
    some (pagePresent ||| pageUser ||| (if writable then pageWritable else 0#64) |||
      (if !executable then pageNoExecute else 0#64))

def isCanonicalUserAddress (address : Word) : Bool := decide (address.toNat < 0x0000800000000000)

/-- The last step of `map_user_page`, in the page table at `pt`. -/
def writePte (m : Machine) (pt va physical flags : Word) : Bool × Machine :=
  if has (m.memory pt (ptIndex va)) pagePresent then (false, m)
  else (true, m.writeEntry pt (ptIndex va) (physical &&& addressMask ||| flags))

def mapUserPage (m : Machine) (root va physical : Word) (writable executable : Bool) :
    Bool × Machine :=
  if root = invalidAddress ∨ !isPageAligned va ∨ !isPageAligned physical ∨
      !isCanonicalUserAddress va then (false, m)
  else
    match makeUserPageFlags writable executable m.nxeEnabled with
    | none => (false, m)
    | some flags =>
      match m.child root (pml4Index va) with
      | (none, m) => (false, m)
      | (some pdpt, m) =>
        match m.child pdpt (pdptIndex va) with
        | (none, m) => (false, m)
        | (some pd, m) =>
          match m.child pd (pdIndex va) with
          | (none, m) => (false, m)
          | (some pt, m) => m.writePte pt va physical flags

end Machine

end Linux95.Memory
