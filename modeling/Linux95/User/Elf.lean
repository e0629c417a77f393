import Linux95.Fat32.Helpers
import Linux95.Memory.UserSpace

/-! `user/elf.cpp`: the inspection of an executable and the plan of its pages. Numbers are those of the
source's unsigned types; a sum that leaves 64 bits is an error or is taken modulo 2^64 where the source
does so. -/

namespace Linux95.User
open Fat32 Memory

inductive ElfStatus
  | ok
  | badMagic
  | truncated
  | unsupported
  | invalidSegment
  | rangeOverflow
  | overlappingSegments
  | interpreterNotSupported
  | addressOutOfRange
  | invalidEntry
  deriving DecidableEq

def checkedAdd (left right : Nat) : Option Nat :=
  if right > uint64Max - left then none else some (left + right)

def checkedMul (left right : Nat) : Option Nat :=
  if left ≠ 0 ∧ right > uint64Max / left then none else some (left * right)

def le64 (data : Bytes) (offset : Nat) : Nat :=
  le32 data offset + le32 data (offset + 4) * 2 ^ 32

structure Elf64Header where
  ident : List UInt8
  type : Nat
  machine : Nat
  entry : Nat
  programHeaderOffset : Nat
  headerSize : Nat
  programHeaderSize : Nat
  programHeaderCount : Nat

structure Elf64ProgramHeader where
  type : Nat
  flags : Nat
  offset : Nat
  virtualAddress : Nat
  fileSize : Nat
  memorySize : Nat

/-- The range check of `read_bytes`. -/
def readable (size offset length : Nat) : Bool := decide (offset ≤ size ∧ length ≤ size - offset)

def headerOf (data : Bytes) : Elf64Header where
  ident := (List.range 16).map data
  type := le16 data 16
  machine := le16 data 18
  entry := le64 data 24
  programHeaderOffset := le64 data 32
  headerSize := le16 data 52
  programHeaderSize := le16 data 54
  programHeaderCount := le16 data 56

def programHeaderAt (data : Bytes) (offset : Nat) : Elf64ProgramHeader where
  type := le32 data offset
  flags := le32 data (offset + 4)
  offset := le64 data (offset + 8)
  virtualAddress := le64 data (offset + 16)
  fileSize := le64 data (offset + 32)
  memorySize := le64 data (offset + 40)

structure LoadSegment where
  virtualAddress : Nat
  memorySize : Nat
  fileOffset : Nat
  fileSize : Nat
  flags : Nat

structure ElfImageInfo where
  entry : Nat
  segments : List LoadSegment

def maxSegments : Nat := 16
def elfHeaderSize : Nat := 64
def programHeaderBytes : Nat := 56

/-- What the loop over the program headers has found: the segments with their expanded ranges, and
whether the entry lies in an executable one. -/
structure Found where
  segments : List (LoadSegment × Nat × Nat)
  entryInExecutableSegment : Bool

def Found.nothing : Found := ⟨[], false⟩

def overlaps (first last : Nat) (previous : LoadSegment × Nat × Nat) : Bool :=
  decide (first < previous.2.2) && decide (last > previous.2.1)

def addSegment (size entry : Nat) (found : Found) (header : Elf64ProgramHeader) :
    Except ElfStatus Found :=
  if found.segments.length = maxSegments then .error .invalidSegment
  else if header.fileSize > header.memorySize then .error .invalidSegment
  else
    match checkedAdd header.offset header.fileSize with
    | none => .error .rangeOverflow
    | some fileEnd =>
      if fileEnd > size then .error .truncated
      else
        match checkedAdd header.virtualAddress header.memorySize with
        | none => .error .rangeOverflow
        | some virtualEnd =>
          if header.memorySize = 0 then .error .invalidSegment
          else
            let expandedStart := alignDown header.virtualAddress pageSize
            let expandedEnd := alignUp virtualEnd pageSize
            if expandedEnd = uint64Max ∨ expandedStart < userImageBase.toNat ∨
                expandedEnd > userImageLimit.toNat ∨ expandedStart ≥ expandedEnd then
              .error .addressOutOfRange
            else if found.segments.any (overlaps expandedStart expandedEnd) then
              .error .overlappingSegments
            else
              let segment : LoadSegment := ⟨header.virtualAddress, header.memorySize, header.offset,
                header.fileSize, header.flags⟩
              .ok ⟨found.segments ++ [(segment, expandedStart, expandedEnd)],
                found.entryInExecutableSegment || (header.flags.testBit 0 &&
                  decide (entry ≥ header.virtualAddress) && decide (entry < virtualEnd))⟩

/-- One turn of the loop over the program headers. -/
def inspectProgramHeader (data : Bytes) (size : Nat) (header : Elf64Header) (found : Found)
    (index : Nat) : Except ElfStatus Found :=
  match checkedMul index header.programHeaderSize with
  | none => .error .rangeOverflow
  | some relativeOffset =>
    match checkedAdd header.programHeaderOffset relativeOffset with
    | none => .error .rangeOverflow
    | some offset =>
      if !readable size offset programHeaderBytes then .error .truncated
      else
        let programHeader := programHeaderAt data offset
        if programHeader.type = 3 then .error .interpreterNotSupported
        else if programHeader.type = 2 then .error .unsupported
        else if programHeader.type ≠ 1 then .ok found
        else addSegment size header.entry found programHeader

def inspectProgramHeaders (data : Bytes) (size : Nat) (header : Elf64Header) :
    Except ElfStatus ElfImageInfo :=
  match (List.range header.programHeaderCount).foldlM (inspectProgramHeader data size header)
      .nothing with
  | .error status => .error status
  | .ok found =>
    if !found.entryInExecutableSegment then .error .invalidEntry
    else if found.segments = [] then .error .invalidSegment
    else .ok ⟨header.entry, found.segments.map Prod.fst⟩

def inspectHeader (data : Bytes) (size : Nat) (header : Elf64Header) :
    Except ElfStatus ElfImageInfo :=
  if header.ident.take 4 ≠ [0x7F, 0x45, 0x4C, 0x46] then .error .badMagic
  else if header.ident.getD 4 0 ≠ 2 ∨ header.ident.getD 5 0 ≠ 1 ∨ header.type ≠ 2 ∨
      header.machine ≠ 62 ∨ header.headerSize < elfHeaderSize then .error .unsupported
  else if header.programHeaderSize < programHeaderBytes then .error .truncated
  else
    match checkedMul header.programHeaderCount header.programHeaderSize with
    | none => .error .rangeOverflow
    | some headersBytes =>
      match checkedAdd header.programHeaderOffset headersBytes with
      | none => .error .rangeOverflow
      | some headersEnd =>
        if headersEnd > size then .error .truncated else inspectProgramHeaders data size header

def inspectElf64 (data : Bytes) (size : Nat) : Except ElfStatus ElfImageInfo :=
  if size < elfHeaderSize then .error .truncated else inspectHeader data size (headerOf data)

structure SegmentPagePlan where
  firstPage : Nat
  pageCount : Nat
  writable : Bool
  executable : Bool

def planOf (segment : LoadSegment) : Except ElfStatus SegmentPagePlan :=
  match checkedAdd segment.virtualAddress segment.memorySize with
  | none => .error .rangeOverflow
  | some virtualEnd =>
    let first := alignDown segment.virtualAddress pageSize
    let last := alignUp virtualEnd pageSize
    if last = uint64Max ∨ last ≤ first then .error .rangeOverflow
    else
      .ok ⟨first, (last - first) / pageSize, segment.flags.testBit 1, segment.flags.testBit 0⟩

def buildLoadPlan (data : Bytes) (size : Nat) : Except ElfStatus (List SegmentPagePlan) :=
  match inspectElf64 data size with
  | .error status => .error status
  | .ok image =>
    if image.segments.length > maxSegments then .error .invalidSegment
    else image.segments.mapM planOf

section Windows

def LoadSegment.InWindow (segment : LoadSegment) : Prop :=
  userImageBase.toNat ≤ alignDown segment.virtualAddress pageSize ∧
    ∀ virtualEnd, checkedAdd segment.virtualAddress segment.memorySize = some virtualEnd →
      alignUp virtualEnd pageSize ≤ userImageLimit.toNat

def Found.InWindow (found : Found) : Prop := ∀ entry ∈ found.segments, entry.1.InWindow

theorem nothing_inWindow : Found.nothing.InWindow := fun _ hentry => absurd hentry List.not_mem_nil

theorem addSegment_inWindow {size entry : Nat} {found found' : Found} {header : Elf64ProgramHeader}
    (hfound : found.InWindow) (h : addSegment size entry found header = .ok found') :
    found'.InWindow := by
  unfold addSegment at h
  split at h
  · cases h
  split at h
  · cases h
  split at h
  · cases h
  split at h
  · cases h
  split at h
  · cases h
  rename_i virtualEnd hend
  split at h
  · cases h
  dsimp only at h
  split at h
  · cases h
  rename_i hrange
  split at h
  · cases h
  obtain rfl := Except.ok.inj h
  intro entry hentry
  rcases List.mem_append.mp hentry with hold | hnew
  · exact hfound entry hold
  · rw [List.mem_singleton.mp hnew]
    simp only [not_or, not_lt] at hrange
    refine ⟨hrange.2.1, ?_⟩
    intro virtualEnd' hend'
    have hsame : checkedAdd header.virtualAddress header.memorySize = some virtualEnd' := hend'
    rw [hend] at hsame
    rw [← Option.some.inj hsame]
    exact hrange.2.2.1

theorem inspectProgramHeader_inWindow {data : Bytes} {size index : Nat} {header : Elf64Header}
    {found found' : Found} (hfound : found.InWindow)
    (h : inspectProgramHeader data size header found index = .ok found') : found'.InWindow := by
  unfold inspectProgramHeader at h
  split at h
  · cases h
  split at h
  · cases h
  split at h
  · cases h
  dsimp only at h
  split at h
  · cases h
  split at h
  · cases h
  split at h
  · rw [← Except.ok.inj h]
    exact hfound
  · exact addSegment_inWindow hfound h

theorem foldlM_inWindow {data : Bytes} {size : Nat} {header : Elf64Header}
    (indices : List Nat) {found found' : Found} (hfound : found.InWindow)
    (h : indices.foldlM (inspectProgramHeader data size header) found = .ok found') :
    found'.InWindow := by
  induction indices generalizing found with
  | nil =>
    rw [← Except.ok.inj h]
    exact hfound
  | cons index indices ih =>
    rw [List.foldlM_cons] at h
    cases hstep : inspectProgramHeader data size header found index with
    | error status =>
      rw [hstep] at h
      cases h
    | ok next =>
      rw [hstep] at h
      exact ih (inspectProgramHeader_inWindow hfound hstep) h

def ElfImageInfo.InWindow (image : ElfImageInfo) : Prop := ∀ segment ∈ image.segments, segment.InWindow

theorem inspectProgramHeaders_inWindow {data : Bytes} {size : Nat} {header : Elf64Header}
    {image : ElfImageInfo} (h : inspectProgramHeaders data size header = .ok image) :
    image.InWindow := by
  unfold inspectProgramHeaders at h
  split at h
  · cases h
  rename_i found hfold
  split at h
  · cases h
  split at h
  · cases h
  rw [← Except.ok.inj h]
  intro segment hsegment
  obtain ⟨entry, hentry, rfl⟩ := List.mem_map.mp hsegment
  exact foldlM_inWindow _ nothing_inWindow hfold entry hentry

theorem inspectHeader_inWindow {data : Bytes} {size : Nat} {header : Elf64Header}
    {image : ElfImageInfo} (h : inspectHeader data size header = .ok image) : image.InWindow := by
  unfold inspectHeader at h
  split at h
  · cases h
  split at h
  · cases h
  split at h
  · cases h
  split at h
  · cases h
  split at h
  · cases h
  split at h
  · cases h
  · exact inspectProgramHeaders_inWindow h

theorem inspectElf64_inWindow {data : Bytes} {size : Nat} {image : ElfImageInfo}
    (h : inspectElf64 data size = .ok image) : image.InWindow := by
  unfold inspectElf64 at h
  split at h
  · cases h
  · exact inspectHeader_inWindow h

def SegmentPagePlan.InWindow (plan : SegmentPagePlan) : Prop :=
  userImageBase.toNat ≤ plan.firstPage ∧
    plan.firstPage + plan.pageCount * pageSize ≤ userImageLimit.toNat

theorem planOf_inWindow {segment : LoadSegment} {plan : SegmentPagePlan} (hsegment : segment.InWindow)
    (h : planOf segment = .ok plan) : plan.InWindow := by
  unfold planOf at h
  split at h
  · cases h
  rename_i virtualEnd hend
  dsimp only at h
  split at h
  · cases h
  rename_i hrange
  obtain rfl := Except.ok.inj h
  have hlast := hsegment.2 virtualEnd hend
  refine ⟨hsegment.1, ?_⟩
  have hle := Nat.div_mul_le_self (alignUp virtualEnd pageSize - alignDown segment.virtualAddress pageSize) pageSize
  simp only [not_or, not_le] at hrange
  calc alignDown segment.virtualAddress pageSize +
        (alignUp virtualEnd pageSize - alignDown segment.virtualAddress pageSize) / pageSize * pageSize
      ≤ alignDown segment.virtualAddress pageSize +
          (alignUp virtualEnd pageSize - alignDown segment.virtualAddress pageSize) :=
        Nat.add_le_add_left hle _
    _ = alignUp virtualEnd pageSize := Nat.add_sub_cancel' hrange.2.le
    _ ≤ userImageLimit.toNat := hlast

theorem mapM_planOf {segments : List LoadSegment} {plans : List SegmentPagePlan}
    (h : segments.mapM planOf = .ok plans) :
    ∀ plan ∈ plans, ∃ segment ∈ segments, planOf segment = .ok plan := by
  induction segments generalizing plans with
  | nil =>
    obtain rfl := Except.ok.inj h
    exact fun _ hplan => (nomatch hplan)
  | cons segment segments ih =>
    rw [List.mapM_cons] at h
    cases hfirst : planOf segment with
    | error status =>
      rw [hfirst] at h
      cases h
    | ok first =>
      rw [hfirst] at h
      cases hrest : segments.mapM planOf with
      | error status =>
        rw [hrest] at h
        cases h
      | ok rest =>
        rw [hrest] at h
        obtain rfl := Except.ok.inj h
        intro plan hplan
        rcases List.mem_cons.mp hplan with rfl | hplan
        · exact ⟨segment, List.mem_cons_self, hfirst⟩
        · obtain ⟨other, hother, heq⟩ := ih hrest plan hplan
          exact ⟨other, List.mem_cons_of_mem segment hother, heq⟩

theorem buildLoadPlan_inWindow {data : Bytes} {size : Nat} {plans : List SegmentPagePlan}
    (h : buildLoadPlan data size = .ok plans) : ∀ plan ∈ plans, plan.InWindow := by
  unfold buildLoadPlan at h
  split at h
  · cases h
  rename_i image himage
  split at h
  · cases h
  intro plan hplan
  obtain ⟨segment, hsegment, hplanOf⟩ := mapM_planOf h plan hplan
  exact planOf_inWindow (inspectElf64_inWindow himage segment hsegment) hplanOf

end Windows

section Statuses
variable {data : Bytes} {size : Nat} {status : ElfStatus}

theorem addSegment_error {entry : Nat} {found : Found} {header : Elf64ProgramHeader}
    (h : addSegment size entry found header = .error status) : status ≠ .ok := by
  unfold addSegment at h
  split at h
  · cases h
    decide
  split at h
  · cases h
    decide
  split at h
  · cases h
    decide
  split at h
  · cases h
    decide
  split at h
  · cases h
    decide
  split at h
  · cases h
    decide
  dsimp only at h
  split at h
  · cases h
    decide
  split at h
  · cases h
    decide
  cases h

theorem inspectProgramHeader_error {header : Elf64Header} {found : Found} {index : Nat}
    (h : inspectProgramHeader data size header found index = .error status) : status ≠ .ok := by
  unfold inspectProgramHeader at h
  split at h
  · cases h
    decide
  split at h
  · cases h
    decide
  split at h
  · cases h
    decide
  dsimp only at h
  split at h
  · cases h
    decide
  split at h
  · cases h
    decide
  split at h
  · cases h
  · exact addSegment_error h

theorem foldlM_error {header : Elf64Header} (indices : List Nat) {found : Found}
    (h : indices.foldlM (inspectProgramHeader data size header) found = .error status) :
    status ≠ .ok := by
  induction indices generalizing found with
  | nil => cases h
  | cons index indices ih =>
    rw [List.foldlM_cons] at h
    cases hstep : inspectProgramHeader data size header found index with
    | error status' =>
      rw [hstep] at h
      obtain rfl : status' = status := Except.error.inj h
      exact inspectProgramHeader_error hstep
    | ok next =>
      rw [hstep] at h
      exact ih h

theorem inspectProgramHeaders_error {header : Elf64Header}
    (h : inspectProgramHeaders data size header = .error status) : status ≠ .ok := by
  unfold inspectProgramHeaders at h
  split at h
  · rename_i hfold
    obtain rfl := Except.error.inj h
    exact foldlM_error _ hfold
  split at h
  · cases h
    decide
  split at h
  · cases h
    decide
  cases h

theorem inspectHeader_error {header : Elf64Header}
    (h : inspectHeader data size header = .error status) : status ≠ .ok := by
  unfold inspectHeader at h
  split at h
  · cases h
    decide
  split at h
  · cases h
    decide
  split at h
  · cases h
    decide
  split at h
  · cases h
    decide
  split at h
  · cases h
    decide
  split at h
  · cases h
    decide
  · exact inspectProgramHeaders_error h

theorem inspectElf64_error (h : inspectElf64 data size = .error status) : status ≠ .ok := by
  unfold inspectElf64 at h
  split at h
  · cases h
    decide
  · exact inspectHeader_error h

theorem planOf_error {segment : LoadSegment} (h : planOf segment = .error status) : status ≠ .ok := by
  unfold planOf at h
  split at h
  · cases h
    decide
  dsimp only at h
  split at h
  · cases h
    decide
  cases h

theorem mapM_error {segments : List LoadSegment} (h : segments.mapM planOf = .error status) :
    status ≠ .ok := by
  induction segments with
  | nil => cases h
  | cons segment segments ih =>
    rw [List.mapM_cons] at h
    cases hfirst : planOf segment with
    | error status' =>
      rw [hfirst] at h
      obtain rfl : status' = status := Except.error.inj h
      exact planOf_error hfirst
    | ok first =>
      rw [hfirst] at h
      cases hrest : segments.mapM planOf with
      | error status' =>
        rw [hrest] at h
        obtain rfl : status' = status := Except.error.inj h
        exact ih hrest
      | ok rest =>
        rw [hrest] at h
        cases h

theorem buildLoadPlan_error (h : buildLoadPlan data size = .error status) : status ≠ .ok := by
  unfold buildLoadPlan at h
  split at h
  · rename_i hinspect
    obtain rfl := Except.error.inj h
    exact inspectElf64_error hinspect
  split at h
  · cases h
    decide
  · exact mapM_error h

end Statuses

end Linux95.User
