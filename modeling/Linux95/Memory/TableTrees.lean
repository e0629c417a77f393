import Linux95.Memory.UserSpace

/-! The tables of the user address spaces as trees. Below the two user slots of its root every space
owns its tables: they are allocated, no other space has them, and they are not the kernel's. -/

namespace Linux95.Memory
open Base LinkedTables Machine

section Entries

theorem or_and_of_mask {p flags k : Word} (hp : p &&& addressMask = p) (hk : addressMask &&& k = 0#64) :
    (p ||| flags) &&& k = flags &&& k := by
  have hzero : p &&& k = 0#64 := by
    rw [← hp, BitVec.and_assoc, hk, BitVec.and_zero]
  rw [BitVec.and_or_distrib_right, hzero, BitVec.zero_or]

theorem has_or {p flags k : Word} (hp : p &&& addressMask = p) (hk : addressMask &&& k = 0#64) :
    has (p ||| flags) k = has flags k := by
  unfold has
  rw [or_and_of_mask hp hk]

theorem or_mask {p flags : Word} (hp : p &&& addressMask = p) (hflags : flags &&& addressMask = 0#64) :
    (p ||| flags) &&& addressMask = p := by
  rw [BitVec.and_or_distrib_right, hp, hflags, BitVec.or_zero]

def tableEntry (p : Word) : Word := p ||| pagePresent ||| pageWritable ||| pageUser

theorem tableEntry_eq (p : Word) : tableEntry p = p ||| 7#64 := by
  unfold tableEntry
  rw [BitVec.or_assoc, BitVec.or_assoc]
  rfl

def leafFlags (writable executable : Bool) : Word :=
  pagePresent ||| pageUser ||| (if writable then pageWritable else 0#64) |||
    (if !executable then pageNoExecute else 0#64)

structure Leaf where
  frame : Word
  writable : Bool
  executable : Bool
  deriving DecidableEq

def Leaf.entry (l : Leaf) : Word := l.frame &&& addressMask ||| leafFlags l.writable l.executable

def link (entry : Word) : Option Word :=
  if has entry pagePresent && !has entry pageHuge then some (entry &&& addressMask) else none

theorem link_zero : link 0#64 = none := by decide

theorem link_tableEntry {p : Word} (hp : p &&& addressMask = p) : link (tableEntry p) = some p := by
  unfold link
  rw [tableEntry_eq, has_or hp (by decide), has_or hp (by decide), or_mask hp (by decide)]
  rfl

theorem tableEntry_has {p : Word} (hp : p &&& addressMask = p) :
    has (tableEntry p) pagePresent = true ∧ has (tableEntry p) pageHuge = false ∧
      tableEntry p &&& addressMask = p := by
  rw [tableEntry_eq, has_or hp (by decide), has_or hp (by decide), or_mask hp (by decide)]
  exact ⟨by decide, by decide, rfl⟩

theorem tableEntry_restrict {p : Word} (hp : p &&& addressMask = p) (r : Rights) :
    r.restrict (tableEntry p) = r := by
  unfold Rights.restrict
  rw [tableEntry_eq, has_or hp (by decide), has_or hp (by decide), has_or hp (by decide)]
  have hbits : has 7#64 pageUser = true ∧ has 7#64 pageWritable = true ∧
      has 7#64 pageNoExecute = false := by decide
  rw [hbits.1, hbits.2.1, hbits.2.2, Bool.and_true, Bool.and_true, Bool.not_false, Bool.and_true]

theorem Leaf.mask (l : Leaf) : l.frame &&& addressMask &&& addressMask = l.frame &&& addressMask := by
  rw [BitVec.and_assoc, BitVec.and_self]

theorem Leaf.entry_has (l : Leaf) :
    has l.entry pagePresent = true ∧ l.entry &&& addressMask = l.frame &&& addressMask := by
  have hflags : ∀ w x, leafFlags w x &&& addressMask = 0#64 ∧ has (leafFlags w x) pagePresent = true := by
    decide
  obtain ⟨hmask, hpresent⟩ := hflags l.writable l.executable
  unfold Leaf.entry
  rw [has_or l.mask (by decide), or_mask l.mask hmask]
  exact ⟨hpresent, rfl⟩

theorem Leaf.entry_ne_zero (l : Leaf) : l.entry ≠ 0#64 := by
  intro h
  have hpresent := l.entry_has.1
  rw [h] at hpresent
  revert hpresent
  decide

theorem Leaf.restrict (l : Leaf) :
    Rights.all.restrict l.entry = ⟨true, l.writable, l.executable⟩ := by
  have hflags : ∀ w x, has (leafFlags w x) pageUser = true ∧ has (leafFlags w x) pageWritable = w ∧
      has (leafFlags w x) pageNoExecute = !x := by
    decide
  obtain ⟨huser, hwritable, hexecute⟩ := hflags l.writable l.executable
  unfold Rights.restrict Leaf.entry
  rw [has_or l.mask (by decide), has_or l.mask (by decide), has_or l.mask (by decide), huser,
    hwritable, hexecute]
  simp [Rights.all]

end Entries

def UserPath (path : List Index) : Prop :=
  path.length ≤ 3 ∧ ∀ i ∈ path.head?, i = imageSlot ∨ i = stackSlot

theorem UserPath.initial {path : List Index} {i : Index} (h : UserPath (path ++ [i])) :
    UserPath path := by
  obtain ⟨hlength, hhead⟩ := h
  rw [List.length_append, List.length_singleton] at hlength
  refine ⟨by omega, ?_⟩
  cases path with
  | nil => exact fun _ hi => by cases hi
  | cons j path => exact hhead

theorem UserPath.nil : UserPath [] := ⟨by decide, fun _ hi => by cases hi⟩

def userPaths (roots : Set Word) : Domain Word Index where
  belongs r path := r ∈ roots ∧ UserPath path
  initial h := ⟨h.1, h.2.initial⟩

def node (memory : PhysicalMemory) (r : Word) (path : List Index) : Option Word :=
  follow link memory r path

def held (memory : PhysicalMemory) (r : Word) : Set Word :=
  { p | ∃ path, UserPath path ∧ node memory r path = some p }

structure PageKey where
  pml4 : Index
  pdpt : Index
  pd : Index
  pt : Index
  deriving DecidableEq

def PageKey.path (k : PageKey) : List Index := [k.pml4, k.pdpt, k.pd]

def pageKey (va : Word) : PageKey := ⟨pml4Index va, pdptIndex va, pdIndex va, ptIndex va⟩

def PageKey.InUserSlot (k : PageKey) : Prop := k.pml4 = imageSlot ∨ k.pml4 = stackSlot

theorem PageKey.userPath {k : PageKey} (h : k.InUserSlot) : UserPath k.path :=
  ⟨le_rfl, fun i hi => by
    obtain rfl : k.pml4 = i := Option.some.inj hi
    exact h⟩

def view (memory : PhysicalMemory) (r : Word) (k : PageKey) : Option Word :=
  (node memory r k.path).bind fun p => if memory p k.pt = 0#64 then none else some (memory p k.pt)

/-- What holds of the machine while the spaces with these roots are in use. `kernel` are the pages
of the kernel's own tables, with the contents they have in `reference`. -/
structure Shaped (m : Machine) (roots kernel : Set Word) (reference : PhysicalMemory) : Prop where
  unshared : Unshared link m.memory (userPaths roots)
  taken : ∀ r ∈ roots, ∀ p ∈ held m.memory r,
    p ∈ m.allocator.managed ∧ p ∉ m.allocator.free ∧ p ∉ kernel
  inner : ∀ r ∈ roots, ∀ path i p, UserPath (path ++ [i]) → node m.memory r path = some p →
    m.memory p i = 0#64 ∨ ∃ c ∈ m.allocator.managed, m.memory p i = tableEntry c
  leaf : ∀ r ∈ roots, ∀ path p, UserPath path → path.length = 3 → node m.memory r path = some p →
    ∀ i, m.memory p i = 0#64 ∨ ∃ l : Leaf, m.memory p i = l.entry
  shared : ∀ r ∈ roots, ∀ i, i ≠ imageSlot → i ≠ stackSlot →
    m.memory r i = reference m.rootPhysical i &&& ~~~pageUser
  kept : ∀ p ∈ kernel, m.memory p = reference p ∧ p ∉ m.allocator.free
  root : m.rootPhysical ∈ kernel

section Shaped
variable {m : Machine} {roots kernel : Set Word} {reference : PhysicalMemory}

theorem Shaped.mem_held (_h : Shaped m roots kernel reference) (r : Word) :
    r ∈ held m.memory r := ⟨[], .nil, rfl⟩

theorem Shaped.held_inj (h : Shaped m roots kernel reference) {r r' p : Word} (hr : r ∈ roots)
    (hr' : r' ∈ roots) (hp : p ∈ held m.memory r) (hp' : p ∈ held m.memory r') : r = r' := by
  obtain ⟨path, hpath, hnode⟩ := hp
  obtain ⟨path', hpath', hnode'⟩ := hp'
  have hbelongs : (userPaths roots).belongs r path := ⟨hr, hpath⟩
  exact (h.unshared hbelongs ⟨hr', hpath'⟩ hnode hnode').1

theorem Shaped.fresh (h : Shaped m roots kernel reference) {c : Word} (hc : c ∈ m.allocator.free) :
    LinkedTables.Fresh link m.memory (userPaths roots) c := by
  rintro r path ⟨hr, hpath⟩ hnode
  exact (h.taken r hr c ⟨path, hpath, hnode⟩).2.1 hc

theorem Shaped.free_not_kernel (h : Shaped m roots kernel reference) {c : Word}
    (hc : c ∈ m.allocator.free) : c ∉ kernel := fun hk => (h.kept c hk).2 hc

end Shaped

end Linux95.Memory
