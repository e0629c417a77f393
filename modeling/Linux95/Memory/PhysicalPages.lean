import Linux95.Memory.BootMap
import Linux95.Memory.PageBitmap

/-! `memory/physical.cpp` over its two bitmaps, from the memory map on. -/

namespace Linux95.Memory

def lowReservedEnd : Nat := 0x00200000

def saturatingEnd (base length : Nat) : Nat := if length > uint64Max - base then uint64Max else base + length

structure PhysicalPages where
  used : PageBitmap
  reserved : PageBitmap
  pageCount : Nat
  bitmapPhysical : Nat
  bitmapBytes : Nat

namespace PhysicalPages

def boot : PhysicalPages := ⟨.new, .new, 0, 0, 0⟩

def addresses (first last : Nat) : List Nat := List.range' first ((last - first + (pageSize - 1)) / pageSize) pageSize

def markFreeAt (p : PhysicalPages) (address : Nat) : PhysicalPages :=
  { p with used := (p.used.markFree (address / pageSize)).2
           reserved := (p.reserved.markFree (address / pageSize)).2 }

def markUsedAt (p : PhysicalPages) (address : Nat) : PhysicalPages :=
  { p with used := (p.used.markUsed (address / pageSize)).2
           reserved := (p.reserved.markUsed (address / pageSize)).2 }

def markRangeFree (p : PhysicalPages) (first last : Nat) : PhysicalPages :=
  if last ≤ first then p else (addresses first last).foldl markFreeAt p

def reserveRangeInternal (p : PhysicalPages) (start length : Nat) : PhysicalPages :=
  if length = 0 ∨ p.pageCount = 0 then p
  else
    let rawEnd := saturatingEnd start length
    let first := alignDown start pageSize
    let last := alignUp rawEnd pageSize
    let managedEnd := p.pageCount * pageSize
    if first ≥ managedEnd then p
    else
      let last := if last > managedEnd ∨ last = uint64Max then managedEnd else last
      (addresses first last).foldl markUsedAt p

def storageIn (metadataBytes : Nat) (entry : E820Entry) : Option Nat :=
  if !entry.usable then none
  else
    let rawEnd := saturatingEnd entry.base.toNat entry.length.toNat
    let first := alignUp entry.base.toNat pageSize
    let last := alignDown rawEnd pageSize
    let first := if first < lowReservedEnd then lowReservedEnd else first
    let last := if last > bootstrapHhdmLimit then bootstrapHhdmLimit else last
    if first = uint64Max ∨ last ≤ first then none
    else if metadataBytes ≤ last - first then some first
    else none

def findBitmapStorage (boot : BootInfo) (metadataBytes : Nat) : Option Nat :=
  boot.entries.findSome? (storageIn metadataBytes)

/-- The body of the loop of `initialize` over the memory map. -/
def freeEntry (managedEnd : Nat) (p : PhysicalPages) (entry : E820Entry) : PhysicalPages :=
  if !entry.usable then p
  else
    let rawEnd := saturatingEnd entry.base.toNat entry.length.toNat
    let first := alignUp entry.base.toNat pageSize
    let last := alignDown rawEnd pageSize
    if first = uint64Max ∨ last ≤ first then p
    else
      let last := if last > managedEnd then managedEnd else last
      if first < last then p.markRangeFree first last else p

/-- `initialize`, with the bytes of physical memory that the bitmaps come to lie in. -/
def init (p : PhysicalPages) (boot : BootInfo) (ram : Nat → UInt8) : Bool × PhysicalPages :=
  let p := { p with pageCount := 0, bitmapPhysical := 0, bitmapBytes := 0 }
  if !boot.valid then (false, p)
  else
    let maximum := maximumUsablePhysicalAddress boot
    if maximum = 0 ∨ maximum > bootstrapHhdmLimit then (false, p)
    else
      let managedEnd := alignUp maximum pageSize
      if managedEnd = uint64Max ∨ managedEnd > bootstrapHhdmLimit then (false, p)
      else
        let p := { p with pageCount := managedEnd / pageSize, bitmapBytes := (managedEnd / pageSize + 7) / 8 }
        let oneBitmapStorage := alignUp p.bitmapBytes pageSize
        if oneBitmapStorage = uint64Max ∨ oneBitmapStorage > uint64Max / 2 then (false, p)
        else
          let metadataBytes := oneBitmapStorage * 2
          match findBitmapStorage boot metadataBytes with
          | none => (false, p)
          | some bitmapPhysical =>
            let p := { p with
              bitmapPhysical := bitmapPhysical
              used := .init (some fun i => ram (bitmapPhysical + i)) p.pageCount
              reserved := .init (some fun i => ram (bitmapPhysical + oneBitmapStorage + i)) p.pageCount }
            let p := boot.entries.foldl (freeEntry managedEnd) p
            let p := p.reserveRangeInternal 0 lowReservedEnd
            let p := p.reserveRangeInternal bitmapPhysical metadataBytes
            (p.used.freeCount > 0, p)

/-- The loop of `allocate_page`, in which a reserved page is skipped. -/
def allocateFrom : Nat → PhysicalPages → Option Word × PhysicalPages
  | 0, p => (none, p)
  | turns + 1, p =>
    match p.used.allocate with
    | (none, used) => (none, { p with used := used })
    | (some index, used) =>
      if !p.reserved.isUsed index then (some (pageAddress index), { p with used := used })
      else allocateFrom turns { p with used := used }

/-- `allocate_page`, `none` standing for the invalid address. Every turn of the loop takes another page. -/
def allocatePage (p : PhysicalPages) : Option Word × PhysicalPages := allocateFrom (p.used.freeCount + 1) p

def freePage (p : PhysicalPages) (physical : Word) : Bool × PhysicalPages :=
  if !isPageAligned physical || p.pageCount = 0 then (false, p)
  else
    let index := physical.toNat / pageSize
    if index ≥ p.pageCount || p.reserved.isUsed index then (false, p)
    else ((p.used.markFree index).1, { p with used := (p.used.markFree index).2 })

def reserveRange (p : PhysicalPages) (start length : Word) : PhysicalPages :=
  p.reserveRangeInternal start.toNat length.toNat

def totalPages (p : PhysicalPages) : Nat := p.pageCount
def freePages (p : PhysicalPages) : Nat := p.used.freeCount

def usedPages (p : PhysicalPages) : Nat := (p.pageCount + 2 ^ 64 - p.used.freeCount) % 2 ^ 64

section Marks
variable {p : PhysicalPages}

structure Paired (p : PhysicalPages) : Prop where
  pageCount : p.used.pageCount = p.reserved.pageCount
  storage : p.used.storage = none ↔ p.reserved.storage = none

theorem Paired.markUsedAt (h : p.Paired) (address : Nat) : (p.markUsedAt address).Paired := by
  obtain ⟨hpages, hstorage⟩ := PageBitmap.markUsed_shape p.used (address / pageSize)
  obtain ⟨hpages', hstorage'⟩ := PageBitmap.markUsed_shape p.reserved (address / pageSize)
  exact ⟨hpages.trans (h.pageCount.trans hpages'.symm), hstorage.trans (h.storage.trans hstorage'.symm)⟩

theorem Paired.markFreeAt (h : p.Paired) (address : Nat) : (p.markFreeAt address).Paired := by
  obtain ⟨hpages, hstorage⟩ := PageBitmap.markFree_shape p.used (address / pageSize)
  obtain ⟨hpages', hstorage'⟩ := PageBitmap.markFree_shape p.reserved (address / pageSize)
  exact ⟨hpages.trans (h.pageCount.trans hpages'.symm), hstorage.trans (h.storage.trans hstorage'.symm)⟩

structure Marked (p p' : PhysicalPages) (pages : Nat → Prop) : Prop where
  used : ∀ i, p'.used.isUsed i = true ↔ pages i ∨ p.used.isUsed i = true
  reserved : ∀ i, p'.reserved.isUsed i = true ↔ pages i ∨ p.reserved.isUsed i = true
  capacity : p'.used.pageCount = p.used.pageCount
  pageCount : p'.pageCount = p.pageCount
  paired : p.Paired → p'.Paired
  sound : p.used.Sound → p'.used.Sound

theorem markUsedAt_marked (p : PhysicalPages) (address : Nat) :
    Marked p (p.markUsedAt address) (· = address / pageSize) := by
  refine ⟨fun i => ?_, fun i => ?_, (PageBitmap.markUsed_shape _ _).1, rfl, fun h => h.markUsedAt address,
    fun h => h.markUsed _⟩
  · change (p.used.markUsed (address / pageSize)).2.isUsed i = true ↔ _
    rw [PageBitmap.markUsed_isUsed, Bool.or_eq_true, decide_eq_true_eq]
  · change (p.reserved.markUsed (address / pageSize)).2.isUsed i = true ↔ _
    rw [PageBitmap.markUsed_isUsed, Bool.or_eq_true, decide_eq_true_eq]

theorem foldl_marked (list : List Nat) (p : PhysicalPages) :
    Marked p (list.foldl PhysicalPages.markUsedAt p) (fun i => ∃ address ∈ list, i = address / pageSize) := by
  induction list generalizing p with
  | nil => exact ⟨fun i => by simp, fun i => by simp, rfl, rfl, id, id⟩
  | cons address list ih =>
    have hfirst := markUsedAt_marked p address
    have hrest := ih (p.markUsedAt address)
    refine ⟨fun i => ?_, fun i => ?_, hrest.capacity.trans hfirst.capacity, hrest.pageCount.trans hfirst.pageCount,
      fun h => hrest.paired (hfirst.paired h), fun h => hrest.sound (hfirst.sound h)⟩
    · rw [List.foldl_cons, hrest.used, hfirst.used, List.exists_mem_cons_iff, or_assoc, or_left_comm]
    · rw [List.foldl_cons, hrest.reserved, hfirst.reserved, List.exists_mem_cons_iff, or_assoc, or_left_comm]

theorem mem_addresses {first last i : Nat} (hfirst : first % pageSize = 0) (hlast : last % pageSize = 0) :
    (∃ address ∈ addresses first last, i = address / pageSize) ↔ first / pageSize ≤ i ∧ i < last / pageSize := by
  unfold addresses
  simp only [List.mem_range']
  unfold pageSize at *
  constructor
  · rintro ⟨address, ⟨k, hk, rfl⟩, rfl⟩
    omega
  · rintro ⟨hfrom, hto⟩
    exact ⟨first + 4096 * (i - first / 4096), ⟨i - first / 4096, by omega, rfl⟩, by omega⟩

end Marks

end PhysicalPages

end Linux95.Memory
