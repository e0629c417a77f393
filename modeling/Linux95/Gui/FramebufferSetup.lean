import Linux95.Gui.Renderer
import Linux95.Memory.KernelRollback

/-! `graphics/framebuffer.cpp` and `graphics/framebuffer_helpers.hpp`: the framebuffer is checked and mapped page by
page, and a failure takes the pages back. -/

namespace Linux95.Gui
open Base Memory

structure FramebufferInfo where
  physicalAddress : Word
  width : UInt32
  height : UInt32
  pitch : UInt32
  bitsPerPixel : UInt8
  redMaskSize : UInt8
  redMaskShift : UInt8
  greenMaskSize : UInt8
  greenMaskShift : UInt8
  blueMaskSize : UInt8
  blueMaskShift : UInt8
  available : UInt8

inductive ValidationStatus
  | ok
  | unavailable
  | invalidMode
  | invalidAddress
  | invalidPitch
  | invalidColorMasks
  | overflow
  deriving DecidableEq

def framebufferPageSize : Nat := 4096

def framebufferVirtualBase : Word := 0xFFFF900000000000#64

def validateFramebuffer (info : FramebufferInfo) : ValidationStatus × Nat :=
  if info.available ≠ 1 then (.unavailable, 0)
  else if info.width ≠ 1280 ∨ info.height ≠ 720 ∨ info.bitsPerPixel ≠ 32 then (.invalidMode, 0)
  else if info.physicalAddress = 0#64 then (.invalidAddress, 0)
  else if info.pitch.toNat < 1280 * 4 then (.invalidPitch, 0)
  else if info.redMaskSize ≠ 8 ∨ info.greenMaskSize ≠ 8 ∨ info.blueMaskSize ≠ 8 then (.invalidColorMasks, 0)
  else if info.redMaskShift > 24 ∨ info.greenMaskShift > 24 ∨ info.blueMaskShift > 24 then (.invalidColorMasks, 0)
  else
    let redMask : UInt32 := 0xFF <<< info.redMaskShift.toUInt32
    let greenMask : UInt32 := 0xFF <<< info.greenMaskShift.toUInt32
    let blueMask : UInt32 := 0xFF <<< info.blueMaskShift.toUInt32
    if redMask &&& greenMask ≠ 0 ∨ redMask &&& blueMask ≠ 0 ∨ greenMask &&& blueMask ≠ 0 then (.invalidColorMasks, 0)
    else if info.height ≠ 0 ∧ info.pitch.toNat > uint64Max / info.height.toNat then (.overflow, 0)
    else
      let bytes := info.pitch.toNat * info.height.toNat
      if info.physicalAddress.toNat > uint64Max - bytes then (.overflow, 0) else (.ok, bytes)

structure MappingLayout where
  physicalBase : Word
  offset : Nat
  pageCount : Nat

def mappingLayout (info : FramebufferInfo) : MappingLayout :=
  match validateFramebuffer info with
  | (.ok, byteSize) =>
    let pageMask := framebufferPageSize - 1
    let physicalBase := info.physicalAddress &&& ~~~0xFFF#64
    let offset := (info.physicalAddress - physicalBase).toNat
    if offset > uint64Max - byteSize then ⟨0#64, 0, 0⟩
    else
      let coverage := offset + byteSize
      if coverage > uint64Max - pageMask then ⟨0#64, 0, 0⟩
      else ⟨physicalBase, offset, (coverage + pageMask) / framebufferPageSize⟩
  | _ => ⟨0#64, 0, 0⟩

inductive FramebufferInitResult
  | ready
  | unavailable
  | invalidMetadata
  | mappingFailed
  deriving DecidableEq

structure FramebufferState where
  data : Word
  width : UInt32
  height : UInt32
  pitch : UInt32
  format : PixelFormat
  ready : Bool

def FramebufferState.empty : FramebufferState := ⟨0#64, 0, 0, 0, ⟨0, 0, 0, 0, 0, 0⟩, false⟩

def framebufferPage (i : Nat) : Word := framebufferVirtualBase + BitVec.ofNat 64 (i * framebufferPageSize)

def framebufferFrame (layout : MappingLayout) (i : Nat) : Word :=
  layout.physicalBase + BitVec.ofNat 64 (i * framebufferPageSize)

def mapFramebufferPage (layout : MappingLayout) (i : Nat) (m : Machine) : Bool × Machine :=
  m.mapPage (framebufferPage i) (framebufferFrame layout i) pageWritable

def mapFramebufferPages (layout : MappingLayout) : Nat → Nat → Machine → Bool × Nat × Machine
  | 0, mappedPages, m => (true, mappedPages, m)
  | remaining + 1, mappedPages, m =>
    match mapFramebufferPage layout mappedPages m with
    | (false, m) => (false, mappedPages, m)
    | (true, m) => mapFramebufferPages layout remaining (mappedPages + 1) m

def rollbackMappings (mappedPages : Nat) (m : Machine) : Machine :=
  (List.range mappedPages).foldl (fun m i => (m.unmapPage (framebufferPage i)).2) m

def initFramebuffer (info : FramebufferInfo) (m : Machine) : FramebufferInitResult × FramebufferState × Machine :=
  match (validateFramebuffer info).1 with
  | .unavailable => (.unavailable, .empty, m)
  | .ok =>
    let layout := mappingLayout info
    if layout.pageCount = 0 then (.invalidMetadata, .empty, m)
    else if layout.pageCount - 1 > (uint64Max - framebufferVirtualBase.toNat) / framebufferPageSize then
      (.invalidMetadata, .empty, m)
    else if layout.pageCount - 1 > (uint64Max - layout.physicalBase.toNat) / framebufferPageSize then
      (.invalidMetadata, .empty, m)
    else
      match mapFramebufferPages layout layout.pageCount 0 m with
      | (false, mappedPages, m) => (.mappingFailed, .empty, rollbackMappings mappedPages m)
      | (true, _, m) =>
        (.ready,
          { data := framebufferVirtualBase + BitVec.ofNat 64 layout.offset
            width := info.width
            height := info.height
            pitch := info.pitch
            format := ⟨info.redMaskSize, info.redMaskShift, info.greenMaskSize, info.greenMaskShift, info.blueMaskSize,
              info.blueMaskShift⟩
            ready := true },
          m)
  | _ => (.invalidMetadata, .empty, m)

section Failures
variable {info : FramebufferInfo} {layout : MappingLayout} {base m : Machine}

def afterPages (layout : MappingLayout) (i : Nat) (m : Machine) : Machine :=
  (List.range i).foldl (fun m j => (mapFramebufferPage layout j m).2) m

/-- The first pages are mapped, and the call for the next one fails. -/
def FailsAt (layout : MappingLayout) (m : Machine) (i : Nat) : Prop :=
  (∀ j < i, (mapFramebufferPage layout j (afterPages layout j m)).1 = true) ∧
    (mapFramebufferPage layout i (afterPages layout i m)).1 = false

theorem afterPages_succ (layout : MappingLayout) (i : Nat) (m : Machine) :
    afterPages layout (i + 1) m = (mapFramebufferPage layout i (afterPages layout i m)).2 := by
  unfold afterPages
  rw [List.range_succ, List.foldl_append]
  rfl

theorem rollbackMappings_eq (i : Nat) (m : Machine) :
    rollbackMappings i m = m.rollback ((List.range i).map framebufferPage) := by
  unfold rollbackMappings Machine.rollback
  rw [List.foldl_map]

theorem mapFramebufferPages_failed {remaining i : Nat} {m : Machine} {result : Nat × Machine}
    (hbefore : ∀ j < i, (mapFramebufferPage layout j (afterPages layout j m)).1 = true)
    (h : mapFramebufferPages layout remaining i (afterPages layout i m) = (false, result)) :
    result.1 < i + remaining ∧ FailsAt layout m result.1 ∧
      result.2 = (mapFramebufferPage layout result.1 (afterPages layout result.1 m)).2 := by
  induction remaining generalizing i with
  | zero => cases h
  | succ remaining ih =>
    unfold mapFramebufferPages at h
    generalize hcall : mapFramebufferPage layout i (afterPages layout i m) = call at h
    obtain ⟨succeeds, m'⟩ := call
    cases succeeds with
    | false =>
      obtain rfl := (Prod.mk.inj h).2
      refine ⟨Nat.lt_add_of_pos_right (Nat.succ_pos remaining), ⟨hbefore, ?_⟩, ?_⟩
      · rw [hcall]
      · rw [hcall]
    | true =>
      have hnext : m' = afterPages layout (i + 1) m := by rw [afterPages_succ, hcall]
      rw [hnext] at h
      have hbefore' : ∀ j < i + 1, (mapFramebufferPage layout j (afterPages layout j m)).1 = true := by
        intro j hj
        rcases Nat.lt_succ_iff_lt_or_eq.mp hj with hj | rfl
        · exact hbefore j hj
        · rw [hcall]
      obtain ⟨hlt, hfails⟩ := ih hbefore' h
      exact ⟨by omega, hfails⟩

theorem mappedPages_before (hbase : KernelTree m) (hcounted : m.allocator.Counted) {i : Nat}
    (hbefore : ∀ j < i, (mapFramebufferPage layout j (afterPages layout j m)).1 = true) :
    MappedPages m (afterPages layout i m) ((List.range i).map framebufferPage) := by
  induction i with
  | zero => exact .nil hbase hcounted
  | succ i ih =>
    have hmapped := ih fun j hj => hbefore j (Nat.lt_succ_of_lt hj)
    rw [afterPages_succ, List.range_succ, List.map_append]
    exact hmapped.map (hbefore i (Nat.lt_succ_self i))

theorem initFramebuffer_failed (h : (initFramebuffer info m).1 = .mappingFailed) :
    ∃ i < (mappingLayout info).pageCount, FailsAt (mappingLayout info) m i ∧ (initFramebuffer info m).2.2 =
      (mapFramebufferPage (mappingLayout info) i (afterPages (mappingLayout info) i m)).2.rollback
        ((List.range i).map framebufferPage) := by
  unfold initFramebuffer at h ⊢
  generalize hstatus : (validateFramebuffer info).1 = status at h ⊢
  cases status <;> dsimp only at h ⊢
  case ok =>
    split_ifs at h ⊢
    generalize hloop : mapFramebufferPages (mappingLayout info) (mappingLayout info).pageCount 0 m = loop at h ⊢
    obtain ⟨complete, result⟩ := loop
    cases complete with
    | true => cases h
    | false =>
      obtain ⟨hlt, hfails, hafter⟩ := mapFramebufferPages_failed (i := 0) (fun j hj => absurd hj (Nat.not_lt_zero j)) hloop
      rw [Nat.zero_add] at hlt
      refine ⟨result.1, hlt, hfails, ?_⟩
      rw [← hafter, ← rollbackMappings_eq]
  all_goals cases h

def Unchanged (m m' : Machine) : Prop := m'.memory = m.memory ∧ m'.allocator.free = m.allocator.free

/-- When a failed `map_page` has no effect, and when `initialize_framebuffer` takes everything back. -/
theorem failed_map_page_effect (m : Machine) (hbase : KernelTree m) (hcounted : m.allocator.Counted) :
    (∀ va pa flags, (m.mapPage va pa flags).1 = false →
      (Unchanged m (m.mapPage va pa flags).2 ↔ ¬m.RunsShort va pa flags)) ∧
    ∀ info, (initFramebuffer info m).1 = .mappingFailed →
      ∃ i < (mappingLayout info).pageCount, FailsAt (mappingLayout info) m i ∧
        (Restored m (initFramebuffer info m).2.2 ↔
          ¬(afterPages (mappingLayout info) i m).RunsShort (framebufferPage i) (framebufferFrame (mappingLayout info) i)
            pageWritable ∧
          ∀ j < i, Filled m (pageKey (framebufferPage j)).path) := by
  constructor
  · intro va pa flags hfails
    have hmapping := mapPage_spec hbase hcounted va pa flags
    constructor
    · rintro ⟨-, hfree⟩ hshort
      have hcount := hmapping.short hshort
      rw [← hmapping.counted.ncard_free, ← hcounted.ncard_free, hfree] at hcount
      exact absurd hcount (lt_irrefl _)
    · intro hlong
      rw [hmapping.failed hfails hlong]
      exact ⟨rfl, rfl⟩
  · intro info h
    obtain ⟨i, hlt, hfails, hafter⟩ := initFramebuffer_failed h
    refine ⟨i, hlt, hfails, ?_⟩
    have hmapped := mappedPages_before hbase hcounted hfails.1
    rw [hafter]
    refine (rollback_iff hbase hmapped hfails.2).trans (and_congr_right fun _ => ?_)
    simp only [List.mem_map, List.mem_range, forall_exists_index, and_imp, forall_apply_eq_imp_iff₂]

end Failures

namespace OnePageLeft

def allocator : Allocator where
  pageCount := 4
  used i := decide (i < 3)
  reserved i := decide (i = 0)
  freeCount := 1
  nextHint := 0
  releases := []
  pageCount_le := by decide
  reserved_used := FirstGigabyte.first_page_used
  zero_reserved := FirstGigabyte.allocator.zero_reserved

def machine : Machine := ⟨allocator, FirstGigabyte.memory, 0x1000#64, true⟩

theorem kernelTree : KernelTree machine := by
  refine ⟨FirstGigabyte.initialTables.tree.unshared, ?_⟩
  rintro p ⟨path, -, hp⟩ hfree
  rcases FirstGigabyte.table_cases hp with ⟨-, rfl⟩ | ⟨-, rfl⟩
  · have hused := (Allocator.mem_free_pageAddress (a := allocator) (i := 1) (by decide)).mp hfree
    cases hused
  · have hused := (Allocator.mem_free_pageAddress (a := allocator) (i := 2) (by decide)).mp hfree
    cases hused

/-- The only free page has become a table although the call has failed. -/
theorem failed_map_page_leaks : (machine.mapPage 0x8000000000#64 0x5000#64 pageWritable).1 = false ∧
    ¬Unchanged machine (machine.mapPage 0x8000000000#64 0x5000#64 pageWritable).2 := by
  refine ⟨by decide, ?_⟩
  rintro ⟨-, hfree⟩
  have hbefore : pageAddress 3 ∈ machine.allocator.free := (Allocator.mem_free_pageAddress (by decide)).mpr (by decide)
  rw [← hfree, Allocator.mem_free_pageAddress (by decide)] at hbefore
  revert hbefore
  decide

def linearFramebuffer : FramebufferInfo where
  physicalAddress := 0xE0000000#64
  width := 1280
  height := 720
  pitch := 5120
  bitsPerPixel := 32
  redMaskSize := 8
  redMaskShift := 16
  greenMaskSize := 8
  greenMaskShift := 8
  blueMaskSize := 8
  blueMaskShift := 0
  available := 1

theorem failed_map_page_effect_one_page :
    ((machine.mapPage 0x8000000000#64 0x5000#64 pageWritable).1 = false ∧
      (Unchanged machine (machine.mapPage 0x8000000000#64 0x5000#64 pageWritable).2 ↔
        ¬machine.RunsShort 0x8000000000#64 0x5000#64 pageWritable)) ∧
    (initFramebuffer linearFramebuffer machine).1 = .mappingFailed ∧
      ∃ i < (mappingLayout linearFramebuffer).pageCount, FailsAt (mappingLayout linearFramebuffer) machine i ∧
        (Restored machine (initFramebuffer linearFramebuffer machine).2.2 ↔
          ¬(afterPages (mappingLayout linearFramebuffer) i machine).RunsShort (framebufferPage i)
            (framebufferFrame (mappingLayout linearFramebuffer) i) pageWritable ∧
          ∀ j < i, Filled machine (pageKey (framebufferPage j)).path) := by
  have hfails : (machine.mapPage 0x8000000000#64 0x5000#64 pageWritable).1 = false := by decide
  have hinit : (initFramebuffer linearFramebuffer machine).1 = .mappingFailed := by decide +kernel
  obtain ⟨hmap, hframebuffer⟩ := failed_map_page_effect machine kernelTree (by decide)
  exact ⟨⟨hfails, hmap _ _ _ hfails⟩, hinit, hframebuffer _ hinit⟩

end OnePageLeft

end Linux95.Gui
