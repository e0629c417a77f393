import Linux95.User.ElfFormat

/-! `user/elf.cpp` over arithmetic that stops where the machine would wrap, and over reads that stop outside
the file. Nothing stops: these functions return what the plain ones do. -/

namespace Linux95.User
open Fat32 Memory

section Strict

def add64 (a b : Nat) : Option Nat := if a + b < 2 ^ 64 then some (a + b) else none

def sub64 (a b : Nat) : Option Nat := if b ≤ a then some (a - b) else none

def mul64 (a b : Nat) : Option Nat := if a * b < 2 ^ 64 then some (a * b) else none

def checkedAddStrict (left right : Nat) : Option (Option Nat) :=
  (sub64 uint64Max left).bind fun room => if right > room then some none else (add64 left right).map some

def checkedMulStrict (left right : Nat) : Option (Option Nat) :=
  if left ≠ 0 ∧ right > uint64Max / left then some none else (mul64 left right).map some

def alignUpStrict (value : Nat) : Option Nat :=
  (sub64 uint64Max (pageSize - 1)).bind fun room =>
    if value > room then some (alignDown uint64Max pageSize)
    else (add64 value (pageSize - 1)).map fun sum => alignDown sum pageSize

/-- `read_bytes`, which stops when a byte it copies lies outside the file. -/
def readBytesStrict (size offset length : Nat) : Option Bool :=
  if offset > size then some false
  else
    (sub64 size offset).bind fun room =>
      if length > room then some false else if offset + length ≤ size then some true else none

def addSegmentStrict (size entry : Nat) (found : Found) (header : Elf64ProgramHeader) :
    Option (Except ElfStatus Found) :=
  if found.segments.length = maxSegments then some (.error .invalidSegment)
  else if header.fileSize > header.memorySize then some (.error .invalidSegment)
  else
    (checkedAddStrict header.offset header.fileSize).bind fun fileEnd =>
      match fileEnd with
      | none => some (.error .rangeOverflow)
      | some fileEnd =>
        if fileEnd > size then some (.error .truncated)
        else
          (checkedAddStrict header.virtualAddress header.memorySize).bind fun virtualEnd =>
            match virtualEnd with
            | none => some (.error .rangeOverflow)
            | some virtualEnd =>
              if header.memorySize = 0 then some (.error .invalidSegment)
              else
                let expandedStart := alignDown header.virtualAddress pageSize
                (alignUpStrict virtualEnd).bind fun expandedEnd =>
                  if expandedEnd = uint64Max ∨ expandedStart < userImageBase.toNat ∨
                      expandedEnd > userImageLimit.toNat ∨ expandedStart ≥ expandedEnd then
                    some (.error .addressOutOfRange)
                  else if found.segments.any (overlaps expandedStart expandedEnd) then
                    some (.error .overlappingSegments)
                  else
                    let segment : LoadSegment := ⟨header.virtualAddress, header.memorySize, header.offset,
                      header.fileSize, header.flags⟩
                    some (.ok ⟨found.segments ++ [(segment, expandedStart, expandedEnd)],
                      found.entryInExecutableSegment || (header.flags.testBit 0 &&
                        decide (entry ≥ header.virtualAddress) && decide (entry < virtualEnd))⟩)

def inspectProgramHeaderStrict (data : Bytes) (size : Nat) (header : Elf64Header) (found : Found) (index : Nat) :
    Option (Except ElfStatus Found) :=
  (checkedMulStrict index header.programHeaderSize).bind fun relativeOffset =>
    match relativeOffset with
    | none => some (.error .rangeOverflow)
    | some relativeOffset =>
      (checkedAddStrict header.programHeaderOffset relativeOffset).bind fun offset =>
        match offset with
        | none => some (.error .rangeOverflow)
        | some offset =>
          (readBytesStrict size offset programHeaderBytes).bind fun read =>
            if !read then some (.error .truncated)
            else
              let programHeader := programHeaderAt data offset
              if programHeader.type = 3 then some (.error .interpreterNotSupported)
              else if programHeader.type = 2 then some (.error .unsupported)
              else if programHeader.type ≠ 1 then some (.ok found)
              else addSegmentStrict size header.entry found programHeader

def inspectLoopStrict (data : Bytes) (size : Nat) (header : Elf64Header) :
    List Nat → Found → Option (Except ElfStatus Found)
  | [], found => some (.ok found)
  | index :: indices, found =>
    (inspectProgramHeaderStrict data size header found index).bind fun result =>
      match result with
      | .error status => some (.error status)
      | .ok found => inspectLoopStrict data size header indices found

def inspectProgramHeadersStrict (data : Bytes) (size : Nat) (header : Elf64Header) :
    Option (Except ElfStatus ElfImageInfo) :=
  (inspectLoopStrict data size header (List.range header.programHeaderCount) .nothing).map fun result =>
    match result with
    | .error status => .error status
    | .ok found =>
      if !found.entryInExecutableSegment then .error .invalidEntry
      else if found.segments = [] then .error .invalidSegment
      else .ok ⟨header.entry, found.segments.map Prod.fst⟩

def inspectHeaderStrict (data : Bytes) (size : Nat) (header : Elf64Header) : Option (Except ElfStatus ElfImageInfo) :=
  if header.ident.take 4 ≠ [0x7F, 0x45, 0x4C, 0x46] then some (.error .badMagic)
  else if header.ident.getD 4 0 ≠ 2 ∨ header.ident.getD 5 0 ≠ 1 ∨ header.type ≠ 2 ∨
      header.machine ≠ 62 ∨ header.headerSize < elfHeaderSize then some (.error .unsupported)
  else if header.programHeaderSize < programHeaderBytes then some (.error .truncated)
  else
    (checkedMulStrict header.programHeaderCount header.programHeaderSize).bind fun headersBytes =>
      match headersBytes with
      | none => some (.error .rangeOverflow)
      | some headersBytes =>
        (checkedAddStrict header.programHeaderOffset headersBytes).bind fun headersEnd =>
          match headersEnd with
          | none => some (.error .rangeOverflow)
          | some headersEnd =>
            if headersEnd > size then some (.error .truncated) else inspectProgramHeadersStrict data size header

def inspectElf64Strict (data : Bytes) (size : Nat) : Option (Except ElfStatus ElfImageInfo) :=
  if size < elfHeaderSize then some (.error .truncated)
  else
    (readBytesStrict size 0 elfHeaderSize).bind fun read =>
      if !read then some (.error .truncated) else inspectHeaderStrict data size (headerOf data)

def planOfStrict (segment : LoadSegment) : Option (Except ElfStatus SegmentPagePlan) :=
  (checkedAddStrict segment.virtualAddress segment.memorySize).bind fun virtualEnd =>
    match virtualEnd with
    | none => some (.error .rangeOverflow)
    | some virtualEnd =>
      let first := alignDown segment.virtualAddress pageSize
      (alignUpStrict virtualEnd).bind fun last =>
        if last = uint64Max ∨ last ≤ first then some (.error .rangeOverflow)
        else
          (sub64 last first).map fun bytes =>
            .ok ⟨first, bytes / pageSize, segment.flags.testBit 1, segment.flags.testBit 0⟩

def planLoopStrict : List LoadSegment → Option (Except ElfStatus (List SegmentPagePlan))
  | [] => some (.ok [])
  | segment :: segments =>
    (planOfStrict segment).bind fun result =>
      match result with
      | .error status => some (.error status)
      | .ok plan => (planLoopStrict segments).map fun rest => rest.map (plan :: ·)

def buildLoadPlanStrict (data : Bytes) (size : Nat) : Option (Except ElfStatus (List SegmentPagePlan)) :=
  (inspectElf64Strict data size).bind fun result =>
    match result with
    | .error status => some (.error status)
    | .ok image =>
      if image.segments.length > maxSegments then some (.error .invalidSegment) else planLoopStrict image.segments

/-- One turn of the page loop of `load_process_image`: the address of the page and its bytes. A copy that leaves
the page or the file stops. -/
def pageStrict (elf : Bytes) (size : Nat) (segment : LoadSegment) (plan : SegmentPagePlan) (pageIndex : Nat) :
    Option (Except ElfStatus (Nat × Bytes)) :=
  (checkedAddStrict segment.virtualAddress segment.fileSize).bind fun fileEnd =>
    match fileEnd with
    | none => some (.error .rangeOverflow)
    | some fileEnd =>
      (mul64 pageIndex pageSize).bind fun shift =>
      (add64 plan.firstPage shift).bind fun virtualPage =>
      (add64 virtualPage pageSize).bind fun pageEnd =>
        let copyStart := if virtualPage > segment.virtualAddress then virtualPage else segment.virtualAddress
        let copyEnd := if pageEnd < fileEnd then pageEnd else fileEnd
        if copyEnd > copyStart then
          (sub64 copyStart segment.virtualAddress).bind fun skipped =>
          (add64 segment.fileOffset skipped).bind fun sourceOffset =>
          (sub64 copyEnd copyStart).bind fun copySize =>
            if sourceOffset > size then some (.error .rangeOverflow)
            else
              (sub64 size sourceOffset).bind fun room =>
                if copySize > room then some (.error .rangeOverflow)
                else
                  (sub64 copyStart virtualPage).bind fun start =>
                    if start + copySize ≤ pageSize ∧ sourceOffset + copySize ≤ size then
                      some (.ok (virtualPage, fun i =>
                        if start ≤ i ∧ i < start + copySize then elf (sourceOffset + (i - start)) else 0))
                    else none
        else some (.ok (virtualPage, fun _ => 0))

end Strict

section Sound
variable {data : Bytes} {size : Nat}

theorem sub64_eq {a b : Nat} (h : b ≤ a) : sub64 a b = some (a - b) := if_pos h

theorem add64_eq {a b : Nat} (h : a + b < 2 ^ 64) : add64 a b = some (a + b) := if_pos h

theorem checkedAddStrict_eq {left : Nat} (h : left < 2 ^ 64) (right : Nat) :
    checkedAddStrict left right = some (checkedAdd left right) := by
  have hle : left ≤ uint64Max := by
    unfold uint64Max
    omega
  unfold checkedAddStrict checkedAdd
  rw [sub64_eq hle, Option.bind_some]
  by_cases hover : right > uint64Max - left
  · rw [if_pos hover, if_pos hover]
  · rw [if_neg hover, if_neg hover, add64_eq (by unfold uint64Max at hover; omega)]
    rfl

theorem checkedMulStrict_eq {left right : Nat} (hleft : left < 2 ^ 16) (hright : right < 2 ^ 16) :
    checkedMulStrict left right = some (checkedMul left right) := by
  have hlt : left * right < 2 ^ 64 := by
    calc left * right ≤ 2 ^ 16 * 2 ^ 16 := Nat.mul_le_mul hleft.le hright.le
      _ < 2 ^ 64 := by decide
  unfold checkedMulStrict checkedMul mul64
  rw [if_pos hlt]
  split
  · rfl
  · rfl

theorem alignUpStrict_eq (value : Nat) : alignUpStrict value = some (alignUp value pageSize) := by
  unfold alignUpStrict alignUp
  rw [if_neg (by decide), sub64_eq (by decide), Option.bind_some]
  by_cases hover : value > uint64Max - (pageSize - 1)
  · rw [if_pos hover]
    dsimp only
    rw [if_pos hover]
  · rw [if_neg hover, add64_eq (by unfold uint64Max pageSize at hover; unfold pageSize; omega)]
    dsimp only
    rw [if_neg hover]
    rfl

theorem readBytesStrict_eq (size offset length : Nat) :
    readBytesStrict size offset length = some (readable size offset length) := by
  unfold readBytesStrict readable
  by_cases hbeyond : offset > size
  · rw [if_pos hbeyond, decide_eq_false (by omega)]
  · rw [if_neg hbeyond, sub64_eq (by omega), Option.bind_some]
    by_cases hlong : length > size - offset
    · rw [if_pos hlong, decide_eq_false (by omega)]
    · rw [if_neg hlong, if_pos (by omega), decide_eq_true (by omega)]

theorem addSegmentStrict_eq {h : Elf64ProgramHeader} (hfits : h.Fits) (entry : Nat) (found : Found) :
    addSegmentStrict size entry found h = some (addSegment size entry found h) := by
  unfold addSegmentStrict addSegment
  rw [checkedAddStrict_eq hfits.offset, Option.bind_some]
  split
  · rfl
  split
  · rfl
  cases checkedAdd h.offset h.fileSize with
  | none => rfl
  | some fileEnd =>
    dsimp only
    rw [checkedAddStrict_eq hfits.virtualAddress, Option.bind_some]
    split
    · rfl
    cases checkedAdd h.virtualAddress h.memorySize with
    | none => rfl
    | some virtualEnd =>
      dsimp only
      rw [alignUpStrict_eq, Option.bind_some]
      split
      · rfl
      split
      · rfl
      split
      · rfl
      · rfl

theorem inspectProgramHeaderStrict_eq {header : Elf64Header} (hlt : header.programHeaderSize < 2 ^ 16)
    (hoffset : header.programHeaderOffset < 2 ^ 64) {index : Nat} (hindex : index < 2 ^ 16) (found : Found) :
    inspectProgramHeaderStrict data size header found index = some (inspectProgramHeader data size header found index) := by
  unfold inspectProgramHeaderStrict inspectProgramHeader
  rw [checkedMulStrict_eq hindex hlt, Option.bind_some]
  cases checkedMul index header.programHeaderSize with
  | none => rfl
  | some relativeOffset =>
    dsimp only
    rw [checkedAddStrict_eq hoffset, Option.bind_some]
    cases checkedAdd header.programHeaderOffset relativeOffset with
    | none => rfl
    | some offset =>
      dsimp only
      rw [readBytesStrict_eq, Option.bind_some, addSegmentStrict_eq (programHeaderAt_fits data offset)]
      split
      · rfl
      split
      · rfl
      split
      · rfl
      split
      · rfl
      · rfl

theorem inspectLoopStrict_eq {header : Elf64Header} (hlt : header.programHeaderSize < 2 ^ 16)
    (hoffset : header.programHeaderOffset < 2 ^ 64) (indices : List Nat) (hindices : ∀ index ∈ indices, index < 2 ^ 16)
    (found : Found) : inspectLoopStrict data size header indices found =
      some (indices.foldlM (inspectProgramHeader data size header) found) := by
  induction indices generalizing found with
  | nil => rfl
  | cons index indices ih =>
    unfold inspectLoopStrict
    rw [inspectProgramHeaderStrict_eq hlt hoffset (hindices index List.mem_cons_self), Option.bind_some,
      List.foldlM_cons]
    cases inspectProgramHeader data size header found index with
    | error status => rfl
    | ok found₁ => exact ih (fun index' hmem => hindices index' (List.mem_cons_of_mem index hmem)) found₁

theorem inspectHeaderStrict_eq {header : Elf64Header} (hcount : header.programHeaderCount < 2 ^ 16)
    (hlt : header.programHeaderSize < 2 ^ 16) (hoffset : header.programHeaderOffset < 2 ^ 64) :
    inspectHeaderStrict data size header = some (inspectHeader data size header) := by
  have hheaders : inspectProgramHeadersStrict data size header = some (inspectProgramHeaders data size header) := by
    unfold inspectProgramHeadersStrict inspectProgramHeaders
    have hloop := @inspectLoopStrict_eq data size header hlt hoffset (List.range header.programHeaderCount)
      (fun index hindex => (List.mem_range.mp hindex).trans hcount) .nothing
    refine (congrArg (Option.map _) hloop).trans ?_
    cases (List.range header.programHeaderCount).foldlM (inspectProgramHeader data size header) .nothing with
    | error status => rfl
    | ok found => rfl
  unfold inspectHeaderStrict inspectHeader
  rw [checkedMulStrict_eq hcount hlt, Option.bind_some]
  split
  · rfl
  split
  · rfl
  split
  · rfl
  cases checkedMul header.programHeaderCount header.programHeaderSize with
  | none => rfl
  | some headersBytes =>
    dsimp only
    rw [checkedAddStrict_eq hoffset, Option.bind_some, hheaders]
    cases checkedAdd header.programHeaderOffset headersBytes with
    | none => rfl
    | some headersEnd =>
      dsimp only
      split
      · rfl
      · rfl

/-- No sum or product of the inspection wraps, and it reads no byte outside the file. -/
theorem inspectElf64Strict_eq (data : Bytes) (size : Nat) : inspectElf64Strict data size = some (inspectElf64 data size) := by
  obtain ⟨hcount, hlt, hoffset⟩ := headerOf_bounds data
  unfold inspectElf64Strict inspectElf64
  by_cases hsize : size < elfHeaderSize
  · rw [if_pos hsize, if_pos hsize]
  · have hreadable : readable size 0 elfHeaderSize = true := by
      unfold readable
      exact decide_eq_true (by omega)
    rw [if_neg hsize, if_neg hsize, readBytesStrict_eq, Option.bind_some, hreadable, inspectHeaderStrict_eq hcount hlt hoffset]
    rfl

theorem planOfStrict_eq {segment : LoadSegment} (h : segment.virtualAddress < 2 ^ 64) :
    planOfStrict segment = some (planOf segment) := by
  unfold planOfStrict planOf
  rw [checkedAddStrict_eq h, Option.bind_some]
  cases checkedAdd segment.virtualAddress segment.memorySize with
  | none => rfl
  | some virtualEnd =>
    dsimp only
    rw [alignUpStrict_eq, Option.bind_some]
    by_cases hrange : alignUp virtualEnd pageSize = uint64Max ∨
        alignUp virtualEnd pageSize ≤ alignDown segment.virtualAddress pageSize
    · rw [if_pos hrange, if_pos hrange]
    · rw [if_neg hrange, if_neg hrange, sub64_eq (by omega)]
      rfl

theorem planLoopStrict_eq (segments : List LoadSegment) (h : ∀ segment ∈ segments, segment.virtualAddress < 2 ^ 64) :
    planLoopStrict segments = some (segments.mapM planOf) := by
  induction segments with
  | nil => rfl
  | cons segment segments ih =>
    unfold planLoopStrict
    rw [planOfStrict_eq (h segment List.mem_cons_self), Option.bind_some, List.mapM_cons,
      ih fun segment' hmem => h segment' (List.mem_cons_of_mem segment hmem)]
    cases planOf segment with
    | error status => rfl
    | ok plan =>
      cases segments.mapM planOf with
      | error status => rfl
      | ok plans => rfl

theorem imageOf_fits (data : Bytes) : ∀ segment ∈ (imageOf data).segments, segment.virtualAddress < 2 ^ 64 := by
  intro segment hsegment
  obtain ⟨h, hh, rfl⟩ := List.mem_map.mp hsegment
  obtain ⟨index, -, rfl⟩ := List.mem_map.mp (List.mem_of_mem_filter hh)
  exact (programHeaderAt_fits data _).virtualAddress

theorem buildLoadPlanStrict_eq (hsize : size < 2 ^ 64) : buildLoadPlanStrict data size = some (buildLoadPlan data size) := by
  unfold buildLoadPlanStrict buildLoadPlan
  rw [inspectElf64Strict_eq, Option.bind_some]
  cases hinspect : inspectElf64 data size with
  | error status => rfl
  | ok image =>
    obtain ⟨-, rfl⟩ := (inspectElf64_iff hsize).mp hinspect
    dsimp only
    rw [planLoopStrict_eq _ (imageOf_fits data)]
    split
    · rfl
    · rfl

end Sound

section Pages
variable {size : Nat} {h : Elf64ProgramHeader}

def LoadSegment.byte (segment : LoadSegment) (elf : Bytes) (address : Nat) : UInt8 :=
  if segment.virtualAddress ≤ address ∧ address < segment.virtualAddress + segment.fileSize then
    elf (segment.fileOffset + (address - segment.virtualAddress))
  else 0

def LoadSegment.page (segment : LoadSegment) (elf : Bytes) (address : Nat) : Bytes := fun i =>
  if i < pageSize then segment.byte elf (address + i) else 0

section Copies
variable {elf : Bytes} {segment : LoadSegment} {v start stop : Nat}

theorem page_copied (hstart : start = if v > segment.virtualAddress then v else segment.virtualAddress)
    (hstop : stop = if v + pageSize < segment.virtualAddress + segment.fileSize then v + pageSize
      else segment.virtualAddress + segment.fileSize) (hlt : stop > start) :
    (fun i => if start - v ≤ i ∧ i < start - v + (stop - start) then
      elf (segment.fileOffset + (start - segment.virtualAddress) + (i - (start - v))) else 0) = segment.page elf v := by
  -- the part of the file that the loop copies to a page is what belongs there
  funext i
  unfold LoadSegment.page LoadSegment.byte
  by_cases hcopied : start - v ≤ i ∧ i < start - v + (stop - start)
  · have hpage : i < pageSize := by
      split at hstart <;> split at hstop <;> omega
    have hfile : segment.virtualAddress ≤ v + i ∧ v + i < segment.virtualAddress + segment.fileSize := by
      split at hstart <;> split at hstop <;> omega
    rw [if_pos hcopied, if_pos hpage, if_pos hfile]
    congr 1
    split at hstart <;> omega
  · rw [if_neg hcopied]
    by_cases hpage : i < pageSize
    · rw [if_pos hpage, if_neg]
      split at hstart <;> split at hstop <;> omega
    · rw [if_neg hpage]

theorem page_blank (hstart : start = if v > segment.virtualAddress then v else segment.virtualAddress)
    (hstop : stop = if v + pageSize < segment.virtualAddress + segment.fileSize then v + pageSize
      else segment.virtualAddress + segment.fileSize) (hle : ¬stop > start) : (fun _ => 0) = segment.page elf v := by
  funext i
  unfold LoadSegment.page LoadSegment.byte
  by_cases hpage : i < pageSize
  · rw [if_pos hpage, if_neg]
    split at hstart <;> split at hstop <;> omega
  · rw [if_neg hpage]

theorem pageStrict_of {size i : Nat} {plan : SegmentPagePlan} (hsize : size < 2 ^ 64) (hv : plan.firstPage + i * pageSize = v)
    (hpage : v + pageSize < 2 ^ 64) (hfile : segment.virtualAddress + segment.fileSize < 2 ^ 64)
    (hinside : segment.fileOffset + segment.fileSize ≤ size) :
    pageStrict elf size segment plan i = some (.ok (v, segment.page elf v)) := by
  -- one turn of the loop for a page and a file part that end before 2^64
  have hfileEnd : checkedAddStrict segment.virtualAddress segment.fileSize =
      some (some (segment.virtualAddress + segment.fileSize)) := by
    rw [checkedAddStrict_eq (by omega), checkedAdd_eq (by omega), if_pos hfile]
  have hshift : mul64 i pageSize = some (i * pageSize) := if_pos (by omega)
  have hvirtual : add64 plan.firstPage (i * pageSize) = some v := by
    rw [add64_eq (by omega), hv]
  unfold pageStrict
  rw [hfileEnd, Option.bind_some]
  dsimp only
  rw [hshift, Option.bind_some, hvirtual, Option.bind_some, add64_eq hpage, Option.bind_some]
  generalize hstart : (if v > segment.virtualAddress then v else segment.virtualAddress) = start
  generalize hstop : (if v + pageSize < segment.virtualAddress + segment.fileSize then v + pageSize
    else segment.virtualAddress + segment.fileSize) = stop
  by_cases hlt : stop > start
  · have hcopied := @page_copied elf segment v start stop hstart.symm hstop.symm hlt
    have hle : segment.virtualAddress ≤ start ∧ v ≤ start ∧ stop ≤ v + pageSize ∧
        stop ≤ segment.virtualAddress + segment.fileSize := by
      split at hstart <;> split at hstop <;> omega
    rw [if_pos hlt, sub64_eq hle.1, Option.bind_some, add64_eq (by omega), Option.bind_some, sub64_eq hlt.le,
      Option.bind_some, if_neg (by omega), sub64_eq (by omega), Option.bind_some, if_neg (by omega),
      sub64_eq hle.2.1, Option.bind_some, if_pos ⟨by omega, by omega⟩, hcopied]
  · rw [if_neg hlt, @page_blank elf segment v start stop hstart.symm hstop.symm hlt]

end Copies

namespace Elf64ProgramHeader

def plan (h : Elf64ProgramHeader) : SegmentPagePlan :=
  ⟨h.pagesStart, (h.pagesEnd - h.pagesStart) / pageSize, h.flags.testBit 1, h.flags.testBit 0⟩

theorem Loadable.fits (hload : h.Loadable size) : h.virtualAddress + h.memorySize ≤ h.pagesEnd ∧
    h.pagesEnd ≤ 0x400100000000 ∧ h.pagesStart ≤ h.virtualAddress ∧ h.pagesStart < h.pagesEnd ∧ h.pagesStart % pageSize = 0 ∧
    h.pagesEnd % pageSize = 0 := by
  have hle := hload.le_limit
  have hpositive := hload.positive
  have hlimit : userImageLimit.toNat = 0x400100000000 := by decide
  rw [hlimit] at hle
  unfold pagesEnd pagesStart pageSize at *
  omega

theorem Loadable.planOf (hload : h.Loadable size) : User.planOf h.segment = .ok h.plan := by
  obtain ⟨hend, hlimit, hstart, hlt, -⟩ := hload.fits
  have hup : alignUp (h.virtualAddress + h.memorySize) pageSize = h.pagesEnd := alignUp_eq hload.le_limit
  have hadd : checkedAdd h.virtualAddress h.memorySize = some (h.virtualAddress + h.memorySize) := by
    rw [checkedAdd_eq (by omega), if_pos (by omega)]
  change checkedAdd h.segment.virtualAddress h.segment.memorySize = _ at hadd
  unfold User.planOf
  rw [hadd]
  dsimp only
  rw [hup, if_neg]
  · rfl
  · unfold uint64Max
    change ¬(h.pagesEnd = 2 ^ 64 - 1 ∨ h.pagesEnd ≤ h.pagesStart)
    omega

theorem Loadable.page_le (hload : h.Loadable size) {i : Nat} (hi : i < h.plan.pageCount) :
    h.pagesStart + i * pageSize + pageSize ≤ h.pagesEnd := by
  obtain ⟨-, -, -, hlt, hstart, hend⟩ := hload.fits
  change i < (h.pagesEnd - h.pagesStart) / pageSize at hi
  unfold pageSize at *
  omega

end Elf64ProgramHeader

/-- In the page loop nothing wraps, no check fails, and each page gets its bytes. -/
theorem pageStrict_eq (elf : Bytes) (hsize : size < 2 ^ 64) (hload : h.Loadable size) {i : Nat} (hi : i < h.plan.pageCount) :
    pageStrict elf size h.segment h.plan i =
      some (.ok (h.pagesStart + i * pageSize, h.segment.page elf (h.pagesStart + i * pageSize))) := by
  obtain ⟨hend, hlimit, -⟩ := hload.fits
  have hpage := hload.page_le hi
  have hfile := hload.file_le
  refine pageStrict_of hsize rfl (by omega) ?_ hload.inside
  change h.virtualAddress + h.fileSize < 2 ^ 64
  omega

end Pages

end Linux95.User
