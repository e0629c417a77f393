import Linux95.Memory.UserSpace

/-! `memory/paging.cpp`: the tables in CR3, with what `map_page` adds to them and `unmap_page` takes away. -/

namespace Linux95.Memory
open Base LinkedTables

def pageGlobal : Word := 0x100#64

def tableEmpty (table : Index → Word) : Bool := (List.finRange 512).all fun i => !has (table i) pagePresent

namespace Machine

def childTable (m : Machine) (table : Word) (index : Index) (create : Bool) : Option Word × Machine :=
  let entry := m.memory table index
  if has entry pagePresent then
    (if has entry pageHuge then none else some (entry &&& addressMask), m)
  else if !create then (none, m)
  else
    match m.allocateTable with
    | (none, m) => (none, m)
    | (some child, m) => (some child, m.writeEntry table index (child ||| pagePresent ||| pageWritable))

def acceptsPage (m : Machine) (va pa flags : Word) : Bool :=
  !(!isPageAligned va || !isPageAligned pa || has flags pageNoExecute && !m.nxeEnabled)

def allowedFlags : Word := pageWritable ||| pageUser ||| pageGlobal ||| pageNoExecute

def mapPage (m : Machine) (va pa flags : Word) : Bool × Machine :=
  if !m.acceptsPage va pa flags then (false, m)
  else
    match m.childTable m.rootPhysical (pml4Index va) true with
    | (none, m) => (false, m)
    | (some pdpt, m) =>
      match m.childTable pdpt (pdptIndex va) true with
      | (none, m) => (false, m)
      | (some pd, m) =>
        match m.childTable pd (pdIndex va) true with
        | (none, m) => (false, m)
        | (some pt, m) =>
          if has (m.memory pt (ptIndex va)) pagePresent then (false, m)
          else
            (true, m.writeEntry pt (ptIndex va) (pa &&& addressMask ||| flags &&& allowedFlags ||| pagePresent))

def translate (m : Machine) (va : Word) : Word :=
  let pml4e := m.memory m.rootPhysical (pml4Index va)
  if !has pml4e pagePresent then invalidAddress
  else
    let pdpte := m.memory (pml4e &&& addressMask) (pdptIndex va)
    if !has pdpte pagePresent then invalidAddress
    else if has pdpte pageHuge then pdpte &&& oneGiBAddressMask ||| va &&& 0x3FFFFFFF#64
    else
      let pde := m.memory (pdpte &&& addressMask) (pdIndex va)
      if !has pde pagePresent then invalidAddress
      else if has pde pageHuge then pde &&& twoMiBAddressMask ||| va &&& 0x1FFFFF#64
      else
        let pte := m.memory (pde &&& addressMask) (ptIndex va)
        if !has pte pagePresent then invalidAddress
        else pte &&& addressMask ||| va &&& 0xFFF#64

def isMapped (m : Machine) (va : Word) : Bool := m.translate va != invalidAddress

def free (m : Machine) (physical : Word) : Bool × Machine := (m.allocator.frees physical, m.freePage physical)

def unmapPage (m : Machine) (va : Word) : Bool × Machine :=
  if !isPageAligned va then (false, m)
  else
    let pml4 := m.rootPhysical
    let pml4e := m.memory pml4 (pml4Index va)
    if !has pml4e pagePresent || has pml4e pageHuge then (false, m)
    else
      let pdpt := pml4e &&& addressMask
      let pdpte := m.memory pdpt (pdptIndex va)
      if !has pdpte pagePresent || has pdpte pageHuge then (false, m)
      else
        let pd := pdpte &&& addressMask
        let pde := m.memory pd (pdIndex va)
        if !has pde pagePresent || has pde pageHuge then (false, m)
        else
          let pt := pde &&& addressMask
          let pte := m.memory pt (ptIndex va)
          if !has pte pagePresent then (false, m)
          else
            let m := m.writeEntry pt (ptIndex va) 0#64
            if !tableEmpty (m.memory pt) then (true, m)
            else
              match (m.writeEntry pd (pdIndex va) 0#64).free pt with
              | (false, m) => (false, m)
              | (true, m) =>
                if !tableEmpty (m.memory pd) then (true, m)
                else
                  match (m.writeEntry pdpt (pdptIndex va) 0#64).free pd with
                  | (false, m) => (false, m)
                  | (true, m) =>
                    if !tableEmpty (m.memory pdpt) then (true, m)
                    else
                      match (m.writeEntry pml4 (pml4Index va) 0#64).free pdpt with
                      | (false, m) => (false, m)
                      | (true, m) => (true, m)

end Machine

end Linux95.Memory
