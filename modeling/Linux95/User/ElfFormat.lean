import Linux95.Fat32.Geometry
import Linux95.User.Elf

/-! The files that `inspect_elf64` accepts, stated without its loop and its checked arithmetic. -/

namespace Linux95.User
open Fat32 Memory

section Format

namespace Elf64ProgramHeader

def pagesStart (h : Elf64ProgramHeader) : Nat := h.virtualAddress / pageSize * pageSize

def pagesEnd (h : Elf64ProgramHeader) : Nat :=
  (h.virtualAddress + h.memorySize + (pageSize - 1)) / pageSize * pageSize

structure Loadable (size : Nat) (h : Elf64ProgramHeader) : Prop where
  file_le : h.fileSize ≤ h.memorySize
  positive : 0 < h.memorySize
  inside : h.offset + h.fileSize ≤ size
  base_le : userImageBase.toNat ≤ h.pagesStart
  le_limit : h.pagesEnd ≤ userImageLimit.toNat

def Apart (h h' : Elf64ProgramHeader) : Prop := h.pagesEnd ≤ h'.pagesStart ∨ h'.pagesEnd ≤ h.pagesStart

def segment (h : Elf64ProgramHeader) : LoadSegment :=
  ⟨h.virtualAddress, h.memorySize, h.offset, h.fileSize, h.flags⟩

def Executes (entry : Nat) (h : Elf64ProgramHeader) : Prop :=
  h.flags.testBit 0 = true ∧ h.virtualAddress ≤ entry ∧ entry < h.virtualAddress + h.memorySize

structure Fits (h : Elf64ProgramHeader) : Prop where
  offset : h.offset < 2 ^ 64
  virtualAddress : h.virtualAddress < 2 ^ 64
  fileSize : h.fileSize < 2 ^ 64
  memorySize : h.memorySize < 2 ^ 64

end Elf64ProgramHeader

def programHeaders (data : Bytes) : List Elf64ProgramHeader :=
  (List.range (headerOf data).programHeaderCount).map fun index =>
    programHeaderAt data ((headerOf data).programHeaderOffset + index * (headerOf data).programHeaderSize)

def loadHeaders (headers : List Elf64ProgramHeader) : List Elf64ProgramHeader :=
  headers.filter fun h => decide (h.type = 1)

structure Executable (data : Bytes) (size : Nat) : Prop where
  header_inside : 64 ≤ size
  magic : data 0 = 0x7F ∧ data 1 = 0x45 ∧ data 2 = 0x4C ∧ data 3 = 0x46
  class64 : data 4 = 2
  littleEndian : data 5 = 1
  executable : (headerOf data).type = 2
  x86_64 : (headerOf data).machine = 62
  headerSize : 64 ≤ (headerOf data).headerSize
  programHeaderSize : 56 ≤ (headerOf data).programHeaderSize
  table : (headerOf data).programHeaderOffset +
    (headerOf data).programHeaderCount * (headerOf data).programHeaderSize ≤ size
  static : ∀ h ∈ programHeaders data, h.type ≠ 3 ∧ h.type ≠ 2
  count : 1 ≤ (loadHeaders (programHeaders data)).length ∧ (loadHeaders (programHeaders data)).length ≤ 16
  loadable : ∀ h ∈ loadHeaders (programHeaders data), h.Loadable size
  apart : (loadHeaders (programHeaders data)).Pairwise Elf64ProgramHeader.Apart
  entry : ∃ h ∈ loadHeaders (programHeaders data), h.Executes (headerOf data).entry

def imageOf (data : Bytes) : ElfImageInfo :=
  ⟨(headerOf data).entry, (loadHeaders (programHeaders data)).map Elf64ProgramHeader.segment⟩

end Format

section Fields
variable (data : Bytes)

theorem le64_lt (offset : Nat) : le64 data offset < 2 ^ 64 := by
  have hlow := le32_lt data offset
  have hhigh := le32_lt data (offset + 4)
  unfold le64
  omega

theorem programHeaderAt_fits (offset : Nat) : (programHeaderAt data offset).Fits :=
  ⟨le64_lt data _, le64_lt data _, le64_lt data _, le64_lt data _⟩

end Fields

section Arithmetic

theorem checkedAdd_eq {left : Nat} (h : left < 2 ^ 64) (right : Nat) :
    checkedAdd left right = if left + right < 2 ^ 64 then some (left + right) else none := by
  unfold checkedAdd uint64Max
  by_cases hfits : left + right < 2 ^ 64
  · rw [if_neg (by omega), if_pos hfits]
  · rw [if_pos (by omega), if_neg hfits]

theorem checkedMul_eq {left right : Nat} (hleft : left < 2 ^ 16) (hright : right < 2 ^ 16) :
    checkedMul left right = some (left * right) := by
  unfold checkedMul uint64Max
  rw [if_neg]
  rintro ⟨hzero, hlarge⟩
  have hquotient : (2 ^ 64 - 1) / (2 ^ 16) ≤ (2 ^ 64 - 1) / left :=
    Nat.div_le_div_left (by omega) (by omega)
  omega

theorem alignUp_le_iff (value : Nat) :
    alignUp value pageSize ≤ userImageLimit.toNat ↔ (value + (pageSize - 1)) / pageSize * pageSize ≤ userImageLimit.toNat := by
  -- where `align_up` saturates, the value is far beyond the image window
  have hlimit : userImageLimit.toNat = 0x400100000000 := by decide
  rw [hlimit, alignUp_page]
  unfold uint64Max pageSize
  split <;> omega

theorem alignUp_eq {value : Nat} (h : (value + (pageSize - 1)) / pageSize * pageSize ≤ userImageLimit.toNat) :
    alignUp value pageSize = (value + (pageSize - 1)) / pageSize * pageSize := by
  have hlimit : userImageLimit.toNat = 0x400100000000 := by decide
  rw [hlimit] at h
  unfold pageSize at h
  rw [alignUp_page, if_neg (by unfold uint64Max; omega)]
  rfl

end Arithmetic

section Segments
variable {size entry : Nat} {found found' : Found} {h : Elf64ProgramHeader}

theorem error_iff {ε α : Type} {e : ε} {a : α} {p : Prop} (h : ¬p) : (Except.error e : Except ε α) = .ok a ↔ p := by
  constructor
  · intro heq
    cases heq
  · exact fun hp => absurd hp h

def Found.add (found : Found) (entry : Nat) (h : Elf64ProgramHeader) : Found :=
  ⟨found.segments ++ [(h.segment, h.pagesStart, h.pagesEnd)],
    found.entryInExecutableSegment || (h.flags.testBit 0 && decide (entry ≥ h.virtualAddress) &&
      decide (entry < h.virtualAddress + h.memorySize))⟩

def Found.Clear (found : Found) (h : Elf64ProgramHeader) : Prop :=
  ∀ previous ∈ found.segments, previous.2.2 ≤ h.pagesStart ∨ h.pagesEnd ≤ previous.2.1

theorem any_overlaps_iff (first last : Nat) : found.segments.any (overlaps first last) = true ↔
    ¬∀ previous ∈ found.segments, previous.2.2 ≤ first ∨ last ≤ previous.2.1 := by
  simp only [List.any_eq_true, overlaps, Bool.and_eq_true, decide_eq_true_eq, not_forall]
  constructor
  · rintro ⟨previous, hmem, hfirst, hlast⟩
    exact ⟨previous, hmem, by omega⟩
  · rintro ⟨previous, hmem, hmeets⟩
    exact ⟨previous, hmem, by omega, by omega⟩

theorem range_iff (hpositive : 0 < h.memorySize) :
    ¬(alignUp (h.virtualAddress + h.memorySize) pageSize = uint64Max ∨
        alignDown h.virtualAddress pageSize < userImageBase.toNat ∨
        alignUp (h.virtualAddress + h.memorySize) pageSize > userImageLimit.toNat ∨
        alignDown h.virtualAddress pageSize ≥ alignUp (h.virtualAddress + h.memorySize) pageSize) ↔
      userImageBase.toNat ≤ h.pagesStart ∧ h.pagesEnd ≤ userImageLimit.toNat := by
  have hlimit : userImageLimit.toNat = 0x400100000000 := by decide
  have hup := alignUp_le_iff (h.virtualAddress + h.memorySize)
  have hend : h.pagesEnd ≤ userImageLimit.toNat → alignUp (h.virtualAddress + h.memorySize) pageSize = h.pagesEnd :=
    alignUp_eq
  change _ ↔ h.pagesEnd ≤ _ at hup
  have hstart : alignDown h.virtualAddress pageSize = h.pagesStart := rfl
  have hlt : h.pagesStart < h.pagesEnd := by
    unfold Elf64ProgramHeader.pagesStart Elf64ProgramHeader.pagesEnd pageSize
    omega
  unfold uint64Max
  rw [hstart]
  constructor
  · intro hrange
    omega
  · rintro ⟨hbase, hle⟩
    rw [hend hle]
    omega

theorem addSegment_iff (hsize : size < 2 ^ 64) (hfits : h.Fits) : addSegment size entry found h = .ok found' ↔
    found.segments.length ≠ 16 ∧ h.Loadable size ∧ found.Clear h ∧ found' = found.add entry h := by
  have hoffset := hfits.offset
  have haddress := hfits.virtualAddress
  unfold addSegment
  by_cases hfull : found.segments.length = maxSegments
  · rw [if_pos hfull]
    exact error_iff fun hall => absurd hfull hall.1
  rw [if_neg hfull]
  by_cases hfile : h.fileSize > h.memorySize
  · rw [if_pos hfile]
    exact error_iff fun hall => absurd hall.2.1.file_le (by omega)
  rw [if_neg hfile, checkedAdd_eq hoffset]
  by_cases hinside : h.offset + h.fileSize ≤ size
  swap
  · by_cases hwrap : h.offset + h.fileSize < 2 ^ 64
    · rw [if_pos hwrap]
      dsimp only
      rw [if_pos (by omega)]
      exact error_iff fun hall => absurd hall.2.1.inside hinside
    · rw [if_neg hwrap]
      exact error_iff fun hall => absurd hall.2.1.inside hinside
  rw [if_pos (by omega)]
  dsimp only
  rw [if_neg (by omega), checkedAdd_eq haddress]
  by_cases hwrap : h.virtualAddress + h.memorySize < 2 ^ 64
  swap
  · rw [if_neg hwrap]
    refine error_iff fun hall => ?_
    have hle := hall.2.1.le_limit
    have hlimit : userImageLimit.toNat = 0x400100000000 := by decide
    rw [hlimit] at hle
    unfold Elf64ProgramHeader.pagesEnd pageSize at hle
    omega
  rw [if_pos hwrap]
  dsimp only
  by_cases hzero : h.memorySize = 0
  · rw [if_pos hzero]
    exact error_iff fun hall => absurd hall.2.1.positive (by omega)
  rw [if_neg hzero]
  have hrange := @range_iff h (by omega)
  by_cases hwindow : userImageBase.toNat ≤ h.pagesStart ∧ h.pagesEnd ≤ userImageLimit.toNat
  swap
  · rw [if_pos (not_not.mp fun hnot => hwindow (hrange.mp hnot))]
    exact error_iff fun hall => absurd ⟨hall.2.1.base_le, hall.2.1.le_limit⟩ hwindow
  have hend : alignUp (h.virtualAddress + h.memorySize) pageSize = h.pagesEnd := alignUp_eq hwindow.2
  have hstart : alignDown h.virtualAddress pageSize = h.pagesStart := rfl
  rw [if_neg (hrange.mpr hwindow), hend, hstart]
  have hloadable : h.Loadable size := ⟨by omega, by omega, hinside, hwindow.1, hwindow.2⟩
  by_cases hclear : found.Clear h
  · rw [if_neg fun hany => (any_overlaps_iff _ _).mp hany hclear]
    constructor
    · intro heq
      exact ⟨hfull, hloadable, hclear, (Except.ok.inj heq).symm⟩
    · rintro ⟨-, -, -, rfl⟩
      rfl
  · rw [if_pos ((any_overlaps_iff _ _).mpr hclear)]
    exact error_iff fun hall => absurd hall.2.2.1 hclear

end Segments

section Headers
variable {data : Bytes} {size entry : Nat} {found found' : Found} {h : Elf64ProgramHeader}

/-- A turn of the loop, once its header has been read. -/
def inspectLoaded (size entry : Nat) (found : Found) (h : Elf64ProgramHeader) : Except ElfStatus Found :=
  if h.type = 3 then .error .interpreterNotSupported
  else if h.type = 2 then .error .unsupported
  else if h.type ≠ 1 then .ok found
  else addSegment size entry found h

def Found.addAll (found : Found) (entry : Nat) (headers : List Elf64ProgramHeader) : Found :=
  (loadHeaders headers).foldl (fun found h => found.add entry h) found

theorem loadHeaders_cons (headers : List Elf64ProgramHeader) : loadHeaders (h :: headers) =
    if h.type = 1 then h :: loadHeaders headers else loadHeaders headers := by
  unfold loadHeaders
  rw [List.filter_cons]
  simp only [decide_eq_true_eq]

structure Acceptable (size : Nat) (found : Found) (headers : List Elf64ProgramHeader) : Prop where
  static : ∀ h ∈ headers, h.type ≠ 3 ∧ h.type ≠ 2
  count : found.segments.length + (loadHeaders headers).length ≤ 16
  loadable : ∀ h ∈ loadHeaders headers, h.Loadable size
  clear : ∀ h ∈ loadHeaders headers, found.Clear h
  apart : (loadHeaders headers).Pairwise Elf64ProgramHeader.Apart

theorem clear_add {h' : Elf64ProgramHeader} : (found.add entry h).Clear h' ↔ found.Clear h' ∧ h.Apart h' := by
  unfold Found.Clear Found.add
  simp only [List.mem_append, List.mem_singleton, or_imp, forall_and, forall_eq]
  rfl

theorem acceptable_skip {headers : List Elf64ProgramHeader} (hload : h.type ≠ 1) :
    Acceptable size found (h :: headers) ↔ (h.type ≠ 3 ∧ h.type ≠ 2) ∧ Acceptable size found headers := by
  have hloads : loadHeaders (h :: headers) = loadHeaders headers := by rw [loadHeaders_cons, if_neg hload]
  constructor
  · rintro ⟨hstatic, hcount, hloadable, hclear, hapart⟩
    rw [hloads] at hcount hloadable hclear hapart
    exact ⟨hstatic h List.mem_cons_self,
      fun h' hh' => hstatic h' (List.mem_cons_of_mem h hh'), hcount, hloadable, hclear, hapart⟩
  · rintro ⟨hh, hstatic, hcount, hloadable, hclear, hapart⟩
    rw [← hloads] at hcount hloadable hclear hapart
    exact ⟨List.forall_mem_cons.mpr ⟨hh, hstatic⟩, hcount, hloadable, hclear, hapart⟩

theorem acceptable_load {headers : List Elf64ProgramHeader} (hload : h.type = 1) :
    Acceptable size found (h :: headers) ↔ (found.segments.length ≠ 16 ∧ h.Loadable size ∧ found.Clear h) ∧
      Acceptable size (found.add entry h) headers := by
  have hloads : loadHeaders (h :: headers) = h :: loadHeaders headers := by rw [loadHeaders_cons, if_pos hload]
  have hlength : (found.add entry h).segments.length = found.segments.length + 1 := by
    unfold Found.add
    rw [List.length_append, List.length_singleton]
  constructor
  · rintro ⟨hstatic, hcount, hloadable, hclear, hapart⟩
    rw [hloads] at hcount hloadable hclear hapart
    rw [List.length_cons] at hcount
    rw [List.forall_mem_cons] at hloadable hclear
    rw [List.pairwise_cons] at hapart
    refine ⟨⟨by omega, hloadable.1, hclear.1⟩, fun h' hh' => hstatic h' (List.mem_cons_of_mem h hh'), by omega,
      hloadable.2, fun h' hh' => clear_add.mpr ⟨hclear.2 h' hh', hapart.1 h' hh'⟩, hapart.2⟩
  · rintro ⟨⟨hfull, hh, hhclear⟩, hstatic, hcount, hloadable, hclear, hapart⟩
    have hclear' := fun h' hh' => clear_add.mp (hclear h' hh')
    constructor
    case static =>
      refine List.forall_mem_cons.mpr ⟨?_, hstatic⟩
      rw [hload]
      decide
    case count =>
      rw [hloads, List.length_cons]
      omega
    case loadable =>
      rw [hloads]
      exact List.forall_mem_cons.mpr ⟨hh, hloadable⟩
    case clear =>
      rw [hloads]
      exact List.forall_mem_cons.mpr ⟨hhclear, fun h' hh' => (hclear' h' hh').1⟩
    case apart =>
      rw [hloads]
      exact List.pairwise_cons.mpr ⟨fun h' hh' => (hclear' h' hh').2, hapart⟩

theorem foldlM_inspect_iff (hsize : size < 2 ^ 64) (headers : List Elf64ProgramHeader) (hfits : ∀ h ∈ headers, h.Fits)
    (hle : found.segments.length ≤ 16) : headers.foldlM (inspectLoaded size entry) found = .ok found' ↔
      Acceptable size found headers ∧ found' = found.addAll entry headers := by
  induction headers generalizing found with
  | nil =>
    constructor
    · intro heq
      refine ⟨⟨fun _ hh => absurd hh List.not_mem_nil, hle, fun _ hh => absurd hh List.not_mem_nil,
        fun _ hh => absurd hh List.not_mem_nil, List.Pairwise.nil⟩, (Except.ok.inj heq).symm⟩
    · rintro ⟨-, rfl⟩
      rfl
  | cons h headers ih =>
    have hfits' := fun h' hh' => hfits h' (List.mem_cons_of_mem h hh')
    rw [List.foldlM_cons]
    unfold inspectLoaded
    by_cases hload : h.type = 1
    · rw [if_neg (by rw [hload]; decide), if_neg (by rw [hload]; decide), if_neg (by rw [hload]; decide),
        acceptable_load hload]
      have hadd := fun found₁ => @addSegment_iff size entry found found₁ h hsize (hfits h List.mem_cons_self)
      cases hstep : addSegment size entry found h with
      | error status =>
        refine error_iff fun hall => ?_
        have hok := (hadd _).mpr ⟨hall.1.1.1, hall.1.1.2.1, hall.1.1.2.2, rfl⟩
        rw [hstep] at hok
        cases hok
      | ok found₁ =>
        obtain ⟨hfull, hloadable, hclear, rfl⟩ := (hadd found₁).mp hstep
        have hall : (found.add entry h).addAll entry headers = found.addAll entry (h :: headers) := by
          unfold Found.addAll
          rw [loadHeaders_cons, if_pos hload]
          rfl
        change headers.foldlM (inspectLoaded size entry) (found.add entry h) = .ok found' ↔ _
        rw [ih hfits' (by unfold Found.add; rw [List.length_append, List.length_singleton]; omega), hall]
        exact ⟨fun hrest => ⟨⟨⟨hfull, hloadable, hclear⟩, hrest.1⟩, hrest.2⟩, fun hrest => ⟨hrest.1.2, hrest.2⟩⟩
    · rw [acceptable_skip hload]
      by_cases hinterp : h.type = 3
      · rw [if_pos hinterp]
        exact error_iff fun hall => hall.1.1.1 hinterp
      rw [if_neg hinterp]
      by_cases hdynamic : h.type = 2
      · rw [if_pos hdynamic]
        exact error_iff fun hall => hall.1.1.2 hdynamic
      have hall : found.addAll entry headers = found.addAll entry (h :: headers) := by
        unfold Found.addAll
        rw [loadHeaders_cons, if_neg hload]
      rw [if_neg hdynamic, if_pos hload, ← hall]
      change headers.foldlM (inspectLoaded size entry) found = .ok found' ↔ _
      rw [ih hfits' hle]
      exact ⟨fun hrest => ⟨⟨⟨hinterp, hdynamic⟩, hrest.1⟩, hrest.2⟩, fun hrest => ⟨hrest.1.2, hrest.2⟩⟩

end Headers

section Files
variable {data : Bytes} {size : Nat} {image : ElfImageInfo}

structure Elf64Header.Tabled (header : Elf64Header) (size : Nat) : Prop where
  count : header.programHeaderCount < 2 ^ 16
  stride_lt : header.programHeaderSize < 2 ^ 16
  offset : header.programHeaderOffset < 2 ^ 64
  stride : 56 ≤ header.programHeaderSize
  table : header.programHeaderOffset + header.programHeaderCount * header.programHeaderSize ≤ size

def Elf64Header.place (header : Elf64Header) (index : Nat) : Nat :=
  header.programHeaderOffset + index * header.programHeaderSize

theorem Elf64Header.Tabled.place_le {header : Elf64Header} (h : header.Tabled size) {index : Nat}
    (hindex : index < header.programHeaderCount) : header.place index + 56 ≤ size := by
  have hnext : (index + 1) * header.programHeaderSize ≤ header.programHeaderCount * header.programHeaderSize :=
    Nat.mul_le_mul_right header.programHeaderSize hindex
  have hstride := h.stride
  have htable := h.table
  rw [Nat.succ_mul] at hnext
  unfold place
  omega

theorem inspectProgramHeader_eq {header : Elf64Header} (hsize : size < 2 ^ 64) (h : header.Tabled size) {index : Nat}
    (hindex : index < header.programHeaderCount) (found : Found) :
    inspectProgramHeader data size header found index =
      inspectLoaded size header.entry found (programHeaderAt data (header.place index)) := by
  have hplace := h.place_le hindex
  have hmul := checkedMul_eq (hindex.trans h.count) h.stride_lt
  have hadd : checkedAdd header.programHeaderOffset (index * header.programHeaderSize) = some (header.place index) := by
    rw [checkedAdd_eq h.offset]
    exact if_pos (by unfold Elf64Header.place at hplace; omega)
  have hreadable : readable size (header.place index) programHeaderBytes = true := by
    unfold readable programHeaderBytes
    exact decide_eq_true (by omega)
  unfold inspectProgramHeader inspectLoaded
  simp only [hmul, hadd, hreadable, Bool.not_true, Bool.false_eq_true, if_false]

theorem foldlM_headers {header : Elf64Header} (hsize : size < 2 ^ 64) (h : header.Tabled size) (indices : List Nat)
    (hindices : ∀ index ∈ indices, index < header.programHeaderCount) (found : Found) :
    indices.foldlM (inspectProgramHeader data size header) found =
      (indices.map fun index => programHeaderAt data (header.place index)).foldlM (inspectLoaded size header.entry) found := by
  induction indices generalizing found with
  | nil => rfl
  | cons index indices ih =>
    have hrest := ih fun index' hmem => hindices index' (List.mem_cons_of_mem index hmem)
    rw [List.foldlM_cons, List.map_cons, List.foldlM_cons,
      inspectProgramHeader_eq hsize h (hindices index List.mem_cons_self)]
    congr 1
    funext found₁
    exact hrest found₁

theorem addAll_segments (found : Found) (entry : Nat) (headers : List Elf64ProgramHeader) :
    (found.addAll entry headers).segments =
      found.segments ++ (loadHeaders headers).map fun h => (h.segment, h.pagesStart, h.pagesEnd) := by
  unfold Found.addAll
  induction loadHeaders headers generalizing found with
  | nil => exact (List.append_nil _).symm
  | cons h headers ih =>
    rw [List.foldl_cons, ih, List.map_cons]
    exact List.append_assoc ..

theorem addAll_entry (found : Found) (entry : Nat) (headers : List Elf64ProgramHeader) :
    (found.addAll entry headers).entryInExecutableSegment = true ↔
      found.entryInExecutableSegment = true ∨ ∃ h ∈ loadHeaders headers, h.Executes entry := by
  unfold Found.addAll
  induction loadHeaders headers generalizing found with
  | nil => simp
  | cons h headers ih =>
    rw [List.foldl_cons, ih]
    simp only [Found.add, Elf64ProgramHeader.Executes, Bool.or_eq_true, Bool.and_eq_true, decide_eq_true_eq,
      List.exists_mem_cons_iff, ge_iff_le, and_assoc, or_assoc]

def StaticImage (data : Bytes) (size : Nat) : Prop :=
  Acceptable size .nothing (programHeaders data) ∧ 1 ≤ (loadHeaders (programHeaders data)).length ∧
    ∃ h ∈ loadHeaders (programHeaders data), h.Executes (headerOf data).entry

theorem inspectProgramHeaders_iff (hsize : size < 2 ^ 64) (h : (headerOf data).Tabled size) :
    inspectProgramHeaders data size (headerOf data) = .ok image ↔ StaticImage data size ∧ image = imageOf data := by
  have hloop : (List.range (headerOf data).programHeaderCount).foldlM (inspectProgramHeader data size (headerOf data))
      .nothing = (programHeaders data).foldlM (inspectLoaded size (headerOf data).entry) .nothing :=
    foldlM_headers hsize h _ (fun index => List.mem_range.mp) .nothing
  have hfits : ∀ h ∈ programHeaders data, h.Fits := by
    intro h hh
    obtain ⟨index, -, rfl⟩ := List.mem_map.mp hh
    exact programHeaderAt_fits data _
  have hiff := fun found => @foldlM_inspect_iff size (headerOf data).entry .nothing found hsize (programHeaders data)
    hfits (Nat.zero_le 16)
  have hentry := addAll_entry .nothing (headerOf data).entry (programHeaders data)
  have hsegments := addAll_segments .nothing (headerOf data).entry (programHeaders data)
  simp only [Found.nothing, Bool.false_eq_true, false_or, List.nil_append] at hentry hsegments
  unfold inspectProgramHeaders StaticImage
  rw [hloop]
  cases hfold : (programHeaders data).foldlM (inspectLoaded size (headerOf data).entry) .nothing with
  | error status =>
    refine error_iff fun hall => ?_
    have hok := (hiff _).mpr ⟨hall.1.1, rfl⟩
    rw [hfold] at hok
    cases hok
  | ok found =>
    obtain ⟨hacceptable, rfl⟩ := (hiff found).mp hfold
    have himage : (⟨(headerOf data).entry, (Found.nothing.addAll (headerOf data).entry (programHeaders data)).segments.map
        Prod.fst⟩ : ElfImageInfo) = imageOf data := by
      unfold imageOf Found.nothing
      rw [hsegments, List.map_map]
      rfl
    dsimp only
    by_cases hexecutes : ∃ h ∈ loadHeaders (programHeaders data), h.Executes (headerOf data).entry
    · have hsome : loadHeaders (programHeaders data) ≠ [] := by
        obtain ⟨h, hh, -⟩ := hexecutes
        exact List.ne_nil_of_mem hh
      have hnonempty : (Found.nothing.addAll (headerOf data).entry (programHeaders data)).segments ≠ [] := by
        unfold Found.nothing
        rw [hsegments]
        exact fun hnil => hsome (List.map_eq_nil_iff.mp hnil)
      have htrue : (Found.nothing.addAll (headerOf data).entry (programHeaders data)).entryInExecutableSegment = true :=
        hentry.mpr hexecutes
      rw [htrue, Bool.not_true, if_neg Bool.false_ne_true, if_neg hnonempty, himage]
      constructor
      · intro heq
        exact ⟨⟨hacceptable, List.length_pos_of_ne_nil hsome, hexecutes⟩, (Except.ok.inj heq).symm⟩
      · rintro ⟨-, rfl⟩
        rfl
    · have hfalse : (Found.nothing.addAll (headerOf data).entry (programHeaders data)).entryInExecutableSegment = false :=
        Bool.eq_false_iff.mpr fun htrue => hexecutes (hentry.mp htrue)
      rw [hfalse, Bool.not_false, if_pos rfl]
      exact error_iff fun hall => hexecutes hall.1.2.2

theorem ident_take (data : Bytes) : (headerOf data).ident.take 4 = [data 0, data 1, data 2, data 3] ∧
    (headerOf data).ident.getD 4 0 = data 4 ∧ (headerOf data).ident.getD 5 0 = data 5 := ⟨rfl, rfl, rfl⟩

theorem headerOf_bounds (data : Bytes) : (headerOf data).programHeaderCount < 2 ^ 16 ∧
    (headerOf data).programHeaderSize < 2 ^ 16 ∧ (headerOf data).programHeaderOffset < 2 ^ 64 :=
  ⟨le16_lt data 56, le16_lt data 54, le64_lt data 32⟩

theorem tabled_of (hstride : 56 ≤ (headerOf data).programHeaderSize) (htable : (headerOf data).programHeaderOffset +
    (headerOf data).programHeaderCount * (headerOf data).programHeaderSize ≤ size) : (headerOf data).Tabled size :=
  have hbounds := headerOf_bounds data
  ⟨hbounds.1, hbounds.2.1, hbounds.2.2, hstride, htable⟩

theorem staticImage_of (h : Executable data size) : StaticImage data size := by
  refine ⟨⟨h.static, ?_, h.loadable, fun _ _ _ hmem => absurd hmem List.not_mem_nil, h.apart⟩, h.count.1, h.entry⟩
  rw [Found.nothing, List.length_nil, Nat.zero_add]
  exact h.count.2

theorem executable_of (hheader : 64 ≤ size) (hmagic : data 0 = 0x7F ∧ data 1 = 0x45 ∧ data 2 = 0x4C ∧ data 3 = 0x46)
    (hkind : data 4 = 2 ∧ data 5 = 1 ∧ (headerOf data).type = 2 ∧ (headerOf data).machine = 62 ∧
      64 ≤ (headerOf data).headerSize)
    (htabled : (headerOf data).Tabled size) (himage : StaticImage data size) : Executable data size := by
  obtain ⟨hacceptable, hsome, hentry⟩ := himage
  have hcount := hacceptable.count
  rw [Found.nothing, List.length_nil, Nat.zero_add] at hcount
  exact ⟨hheader, hmagic, hkind.1, hkind.2.1, hkind.2.2.1, hkind.2.2.2.1, hkind.2.2.2.2, htabled.stride, htabled.table,
    hacceptable.static, ⟨hsome, hcount⟩, hacceptable.loadable, hacceptable.apart, hentry⟩

theorem inspectHeader_iff {header : Elf64Header} (hsize : size < 2 ^ 64) (hcount : header.programHeaderCount < 2 ^ 16)
    (hlt : header.programHeaderSize < 2 ^ 16) (hoffset : header.programHeaderOffset < 2 ^ 64) :
    inspectHeader data size header = .ok image ↔ header.ident.take 4 = [0x7F, 0x45, 0x4C, 0x46] ∧
      (header.ident.getD 4 0 = 2 ∧ header.ident.getD 5 0 = 1 ∧ header.type = 2 ∧ header.machine = 62 ∧
        64 ≤ header.headerSize) ∧
      header.Tabled size ∧ inspectProgramHeaders data size header = .ok image := by
  unfold inspectHeader
  by_cases hmagic : header.ident.take 4 = [0x7F, 0x45, 0x4C, 0x46]
  swap
  · rw [if_pos hmagic]
    exact error_iff fun hall => hmagic hall.1
  rw [if_neg (not_not.mpr hmagic)]
  by_cases hkind : header.ident.getD 4 0 ≠ 2 ∨ header.ident.getD 5 0 ≠ 1 ∨ header.type ≠ 2 ∨ header.machine ≠ 62 ∨
      header.headerSize < elfHeaderSize
  · rw [if_pos hkind]
    refine error_iff fun hall => ?_
    obtain ⟨h4, h5, htype, hmachine, hheader⟩ := hall.2.1
    rcases hkind with h | h | h | h | h
    · exact h h4
    · exact h h5
    · exact h htype
    · exact h hmachine
    · exact absurd hheader (Nat.not_le.mpr h)
  rw [if_neg hkind]
  by_cases hstride : header.programHeaderSize < programHeaderBytes
  · rw [if_pos hstride]
    exact error_iff fun hall => absurd hall.2.2.1.stride (Nat.not_le.mpr hstride)
  rw [if_neg hstride, checkedMul_eq hcount hlt]
  dsimp only
  rw [checkedAdd_eq hoffset]
  by_cases htable : header.programHeaderOffset + header.programHeaderCount * header.programHeaderSize ≤ size
  swap
  · by_cases hwrap : header.programHeaderOffset + header.programHeaderCount * header.programHeaderSize < 2 ^ 64
    · rw [if_pos hwrap]
      dsimp only
      rw [if_pos (Nat.not_le.mp htable)]
      exact error_iff fun hall => htable hall.2.2.1.table
    · rw [if_neg hwrap]
      exact error_iff fun hall => htable hall.2.2.1.table
  rw [if_pos (Nat.lt_of_le_of_lt htable hsize)]
  dsimp only
  rw [if_neg (Nat.not_lt.mpr htable)]
  simp only [not_or, not_not, Nat.not_lt] at hkind
  exact ⟨fun hok => ⟨hmagic, hkind, ⟨hcount, hlt, hoffset, Nat.not_lt.mp hstride, htable⟩, hok⟩, fun hall => hall.2.2.2⟩

/-- `inspect_elf64` accepts exactly the executables for this kernel. -/
theorem inspectElf64_iff (hsize : size < 2 ^ 64) :
    inspectElf64 data size = .ok image ↔ Executable data size ∧ image = imageOf data := by
  obtain ⟨htake, hclass, hendian⟩ := ident_take data
  obtain ⟨hcount, hlt, hoffset⟩ := headerOf_bounds data
  unfold inspectElf64
  by_cases hheader : size < elfHeaderSize
  · rw [if_pos hheader]
    exact error_iff fun hall => absurd hall.1.header_inside (Nat.not_le.mpr hheader)
  rw [if_neg hheader, inspectHeader_iff hsize hcount hlt hoffset, htake, hclass, hendian]
  simp only [List.cons.injEq, and_true]
  constructor
  · rintro ⟨hmagic, hkind, htabled, himage⟩
    obtain ⟨hstatic, rfl⟩ := (inspectProgramHeaders_iff hsize htabled).mp himage
    exact ⟨executable_of (Nat.not_lt.mp hheader) hmagic hkind htabled hstatic, rfl⟩
  · rintro ⟨h, rfl⟩
    have htabled := tabled_of h.programHeaderSize h.table
    exact ⟨h.magic, ⟨h.class64, h.littleEndian, h.executable, h.x86_64, h.headerSize⟩, htabled,
      (inspectProgramHeaders_iff hsize htabled).mpr ⟨staticImage_of h, rfl⟩⟩

end Files

end Linux95.User
