import Linux95.Fat32.FatTable
import Linux95.User.ImageContents

/-! What the user pages of a process are after its executable has been loaded. -/

namespace Linux95.User
open Base LinkedTables Fat32 Memory Machine

section Bytes

def physicalByte (memory : PhysicalMemory) (address : Word) : UInt8 :=
  let index : Index := ⟨address.toNat % pageSize / 8, by unfold pageSize; omega⟩
  UInt8.ofNat ((memory (BitVec.ofNat 64 (address.toNat / pageSize * pageSize)) index).toNat / 2 ^ (8 * (address.toNat % 8)))

theorem le64_byte (bytes : Bytes) (o : Nat) {j : Nat} (hj : j < 8) :
    le64 bytes o / 2 ^ (8 * j) % 256 = (bytes (o + j)).toNat := by
  have hlow := le32_byte bytes o
  have hhigh := le32_byte bytes (o + 4)
  unfold le64
  by_cases h : j < 4
  · rw [← hlow j h]
    obtain rfl | rfl | rfl | rfl : j = 0 ∨ j = 1 ∨ j = 2 ∨ j = 3 := by omega
    all_goals
      simp only [Nat.reduceMul, Nat.reducePow, Nat.div_one]
      omega
  · have hbyte := hhigh (j - 4) (by omega)
    rw [show o + 4 + (j - 4) = o + j by omega] at hbyte
    have hlt := le32_lt bytes o
    rw [← hbyte]
    obtain rfl | rfl | rfl | rfl : j = 4 ∨ j = 5 ∨ j = 6 ∨ j = 7 := by omega
    all_goals
      simp only [Nat.reduceMul, Nat.reduceSub, Nat.reducePow, Nat.div_one] at hlt ⊢
      omega

theorem physicalByte_page {memory : PhysicalMemory} {frame address : Word} {bytes : Bytes} {i : Nat}
    (hframe : frame.toNat % pageSize = 0) (hi : i < pageSize) (haddress : address.toNat = frame.toNat + i)
    (hholds : memory frame = pageWords bytes) : physicalByte memory address = bytes i := by
  have hpage : BitVec.ofNat 64 (address.toNat / pageSize * pageSize) = frame := by
    apply BitVec.eq_of_toNat_eq
    have hlt := frame.isLt
    rw [BitVec.toNat_ofNat, haddress]
    unfold pageSize at *
    omega
  have hindex : address.toNat % pageSize = i ∧ address.toNat % 8 = i % 8 := by
    rw [haddress]
    unfold pageSize at *
    omega
  unfold physicalByte
  dsimp only
  rw [hpage, hholds]
  unfold pageWords
  apply UInt8.toNat_inj.mp
  rw [UInt8.toNat_ofNat', BitVec.toNat_ofNat, Nat.mod_eq_of_lt (le64_lt bytes _), hindex.2]
  dsimp only
  rw [hindex.1, le64_byte bytes _ (Nat.mod_lt i (by decide)), Nat.div_add_mod]

end Bytes

section Queries
variable {m : Machine} {roots kernel : Set Word} {reference : PhysicalMemory} {r : Word} {pages : List ImagePage}
variable {frames : List Word} {page : ImagePage} {va : Word}

def Canonical (va : Word) : Prop := va.toNat < 2 ^ 47 ∨ 2 ^ 64 - 2 ^ 47 ≤ va.toNat

structure ImagePage.Aligned (page : ImagePage) : Prop where
  aligned : page.address % pageSize = 0
  low : page.address + pageSize ≤ 2 ^ 47

def ImagePage.Covers (page : ImagePage) (va : Word) : Prop :=
  page.address ≤ va.toNat ∧ va.toNat < page.address + pageSize

theorem key_eq_iff (hpage : page.Aligned) (hva : Canonical va) : page.key = pageKey va ↔ page.Covers va := by
  obtain ⟨haligned, hlow⟩ := hpage
  have hlt := va.isLt
  unfold ImagePage.key ImagePage.Covers
  rw [pageKey_eq_iff]
  unfold pageNumber
  rw [BitVec.toNat_ofNat]
  unfold Canonical at hva
  unfold pageSize at *
  omega

theorem covers_canonical (hpage : page.Aligned) (h : page.Covers va) : Canonical va := by
  obtain ⟨-, hlow⟩ := hpage
  obtain ⟨-, hlt⟩ := h
  exact Or.inl (by omega)

theorem covered (hshaped : Shaped m roots kernel reference) (hr : r ∈ roots) (hshows : Shows m.memory r pages frames)
    (hframes : ∀ f ∈ frames, f ∈ m.allocator.managed) (hmem : page ∈ pages) (hpage : page.Aligned) (hva : page.Covers va) :
    let info := (queryPage m.memory r va).2
    info.present = true ∧ info.user = true ∧ info.writable = page.writable ∧ info.executable = page.executable ∧
      physicalByte m.memory info.physical = page.bytes (va.toNat - page.address) := by
  obtain ⟨frame, hframe, hplaced⟩ : ∃ frame ∈ frames, Placed m.memory r page frame := by
    obtain ⟨i, hi, rfl⟩ := List.mem_iff_getElem.mp hmem
    have hlength := hshows.placed.length_eq
    exact ⟨frames[i], List.getElem_mem _, List.Forall₂.get hshows.placed hi (hlength ▸ hi)⟩
  have hkey := (key_eq_iff hpage (covers_canonical hpage hva)).mpr hva
  have hslot := hplaced.inUserSlot
  have hmapped := hplaced.mapped
  have hmanaged := hframes frame hframe
  have haligned := Allocator.isPageAligned_of_mask (Allocator.managed_mask hmanaged)
  have hlt := Allocator.managed_lt hmanaged
  rw [hkey] at hslot hmapped
  dsimp only
  rw [queryPage_user hshaped hr hslot, hmapped]
  obtain ⟨hpresent, huser, hwritable, hexecutable, hphysical⟩ :=
    AddressSpaces.leafInfo_entry va ⟨frame, page.writable, page.executable⟩ haligned
  refine ⟨hpresent, huser, hwritable, hexecutable, ?_⟩
  obtain ⟨hfirst, hlast⟩ := hva
  have hstart := hpage.aligned
  have hmod : frame.toNat % pageSize = 0 := by
    obtain ⟨i, hi, -, rfl⟩ := hmanaged
    rw [Allocator.pageAddress_toNat (hi.trans_le m.allocator.pageCount_le)]
    exact Nat.mul_mod_left i pageSize
  refine physicalByte_page hmod (by omega) ?_ hplaced.holds
  rw [hphysical]
  dsimp only
  unfold pageSize at *
  omega

theorem uncovered (hshaped : Shaped m roots kernel reference) (hr : r ∈ roots) (hshows : Shows m.memory r pages frames)
    (hva : ∀ page ∈ pages, page.key ≠ pageKey va) :
    ¬((queryPage m.memory r va).2.present = true ∧ (queryPage m.memory r va).2.user = true) := by
  rintro ⟨hpresent, huser⟩
  by_cases hslot : (pageKey va).InUserSlot
  · rw [queryPage_user hshaped hr hslot] at hpresent
    cases hview : view m.memory r (pageKey va) with
    | none =>
      rw [hview] at hpresent
      cases hpresent
    | some e =>
      obtain ⟨page, hmem, hkey⟩ := hshows.only _ e hslot hview
      exact hva page hmem hkey
  · have hnone : has (m.memory r (pml4Index va)) pageUser = false := by
      have himage : pml4Index va ≠ imageSlot := fun heq => hslot (Or.inl heq)
      have hstack : pml4Index va ≠ stackSlot := fun heq => hslot (Or.inr heq)
      rw [hshaped.shared r hr _ himage hstack]
      unfold has
      rw [BitVec.and_assoc, show ~~~pageUser &&& pageUser = 0#64 by decide, BitVec.and_zero]
      rfl
    rw [queryPage_no_user (hshaped.root_aligned hr) hnone] at huser
    cases huser

end Queries

section Images
variable {data : Bytes} {size : Nat} {h : Elf64ProgramHeader} {va : Word}

def Elf64ProgramHeader.Pages (h : Elf64ProgramHeader) (va : Word) : Prop :=
  h.pagesStart ≤ va.toNat ∧ va.toNat < h.pagesEnd

def InStack (va : Word) : Prop :=
  userStackTop.toNat - userStackPages * pageSize ≤ va.toNat ∧ va.toNat < userStackTop.toNat

def filePages (data : Bytes) : List ImagePage :=
  ((loadHeaders (programHeaders data)).map fun h => (h.segment, h.plan)).flatMap (partPages data) ++ stackPages

theorem mem_filePages {page : ImagePage} : page ∈ filePages data ↔
    (∃ h ∈ loadHeaders (programHeaders data), ∃ i < h.plan.pageCount, partPage data (h.segment, h.plan) i = page) ∨
    ∃ i < userStackPages, stackPage i = page := by
  unfold filePages partPages stackPages
  simp only [List.mem_append, List.mem_flatMap, List.mem_map, List.mem_range, exists_exists_and_eq_and]

theorem partPage_aligned (hload : h.Loadable size) {i : Nat} (hi : i < h.plan.pageCount) :
    (partPage data (h.segment, h.plan) i).Aligned := by
  obtain ⟨-, hlimit, -, -, haligned, -⟩ := hload.fits
  have hpage := hload.page_le hi
  constructor
  · change (h.pagesStart + i * pageSize) % pageSize = 0
    rw [Nat.add_mul_mod_self_right]
    exact haligned
  · change h.pagesStart + i * pageSize + pageSize ≤ 2 ^ 47
    omega

theorem stackPage_address (i : Nat) : (stackPage i).address = 0x7FFFFFF00000 - (8 - i) * 4096 := rfl

theorem stackPage_aligned (i : Nat) : (stackPage i).Aligned := by
  constructor
  · rw [stackPage_address]
    unfold pageSize
    omega
  · rw [stackPage_address]
    unfold pageSize
    omega

theorem filePages_aligned (hfile : Executable data size) : ∀ page ∈ filePages data, page.Aligned := by
  intro page hmem
  rcases mem_filePages.mp hmem with ⟨h, hh, i, hi, rfl⟩ | ⟨i, hi, rfl⟩
  · exact partPage_aligned (hfile.loadable h hh) hi
  · exact stackPage_aligned i

theorem stackPage_base {i : Nat} (hi : i < 8) : (stackPage i).address = 0x7FFFFFEF8000 + i * 4096 := by
  rw [stackPage_address]
  omega

theorem pages_iff (hload : h.Loadable size) : h.Pages va ↔
    ∃ i < h.plan.pageCount, (partPage data (h.segment, h.plan) i).Covers va := by
  obtain ⟨-, -, -, hlt, hstart, hend⟩ := hload.fits
  unfold Elf64ProgramHeader.Pages ImagePage.Covers
  change _ ↔ ∃ i < (h.pagesEnd - h.pagesStart) / pageSize,
    h.pagesStart + i * pageSize ≤ va.toNat ∧ va.toNat < h.pagesStart + i * pageSize + pageSize
  unfold pageSize at *
  constructor
  · rintro ⟨hfirst, hlast⟩
    exact ⟨(va.toNat - h.pagesStart) / 4096, by omega, by omega, by omega⟩
  · rintro ⟨i, hi, hfirst, hlast⟩
    omega

theorem inStack_iff : InStack va ↔ ∃ i < userStackPages, (stackPage i).Covers va := by
  have htop : userStackTop.toNat = 0x7FFFFFEF8000 + 8 * 4096 := by decide
  unfold InStack ImagePage.Covers
  rw [htop]
  unfold userStackPages pageSize
  rw [Nat.add_sub_cancel]
  constructor
  · rintro ⟨hfirst, hlast⟩
    obtain ⟨i, hi⟩ : ∃ i, i = (va.toNat - 0x7FFFFFEF8000) / 4096 := ⟨_, rfl⟩
    have hlt : i < 8 := by omega
    refine ⟨i, hlt, ?_⟩
    rw [stackPage_base hlt]
    omega
  · rintro ⟨i, hi, hcovers⟩
    rw [stackPage_base hi] at hcovers
    omega

/-- The user pages of a process are those of the segments of the file and of the stack, with their permissions and
their bytes. -/
structure ImageLoaded (memory : PhysicalMemory) (root : Word) (data : Bytes) : Prop where
  mapped : ∀ va, Canonical va →
    ((queryPage memory root va).2.present = true ∧ (queryPage memory root va).2.user = true ↔
      (∃ h ∈ loadHeaders (programHeaders data), h.Pages va) ∨ InStack va)
  segments : ∀ h ∈ loadHeaders (programHeaders data), ∀ va, h.Pages va →
    (queryPage memory root va).2.writable = h.flags.testBit 1 ∧
    (queryPage memory root va).2.executable = h.flags.testBit 0 ∧
    physicalByte memory (queryPage memory root va).2.physical =
      if h.virtualAddress ≤ va.toNat ∧ va.toNat < h.virtualAddress + h.fileSize then
        data (h.offset + (va.toNat - h.virtualAddress))
      else 0
  stack : ∀ va, InStack va → (queryPage memory root va).2.writable = true ∧
    (queryPage memory root va).2.executable = false ∧ physicalByte memory (queryPage memory root va).2.physical = 0

theorem imageLoaded_of {m : Machine} {roots kernel : Set Word} {reference : PhysicalMemory} {r : Word} {frames : List Word}
    (hfile : Executable data size) (hshaped : Shaped m roots kernel reference) (hr : r ∈ roots)
    (hshows : Shows m.memory r (filePages data) frames) (hframes : ∀ f ∈ frames, f ∈ m.allocator.managed) :
    ImageLoaded m.memory r data := by
  have haligned := filePages_aligned hfile
  have hcovered := fun page hmem va => @covered m roots kernel reference r (filePages data) frames page va hshaped hr
    hshows hframes hmem (haligned page hmem)
  constructor
  case mapped =>
    intro va hva
    constructor
    · intro haccess
      by_contra hnot
      refine uncovered hshaped hr hshows (fun page hmem hkey => hnot ?_) haccess
      have hcovers := (key_eq_iff (haligned page hmem) hva).mp hkey
      rcases mem_filePages.mp hmem with ⟨h, hh, i, hi, rfl⟩ | ⟨i, hi, rfl⟩
      · exact Or.inl ⟨h, hh, (pages_iff (hfile.loadable h hh)).mpr ⟨i, hi, hcovers⟩⟩
      · exact Or.inr (inStack_iff.mpr ⟨i, hi, hcovers⟩)
    · rintro (⟨h, hh, hpages⟩ | hstack)
      · obtain ⟨i, hi, hcovers⟩ := (@pages_iff data size h va (hfile.loadable h hh)).mp hpages
        have hinfo := hcovered _ (mem_filePages.mpr (Or.inl ⟨h, hh, i, hi, rfl⟩)) va hcovers
        exact ⟨hinfo.1, hinfo.2.1⟩
      · obtain ⟨i, hi, hcovers⟩ := inStack_iff.mp hstack
        have hinfo := hcovered _ (mem_filePages.mpr (Or.inr ⟨i, hi, rfl⟩)) va hcovers
        exact ⟨hinfo.1, hinfo.2.1⟩
  case segments =>
    intro h hh va hpages
    obtain ⟨i, hi, hcovers⟩ := (@pages_iff data size h va (hfile.loadable h hh)).mp hpages
    have hinfo := hcovered _ (mem_filePages.mpr (Or.inl ⟨h, hh, i, hi, rfl⟩)) va hcovers
    refine ⟨hinfo.2.2.1, hinfo.2.2.2.1, hinfo.2.2.2.2.trans ?_⟩
    obtain ⟨hfirst, hlast⟩ := hcovers
    change h.pagesStart + i * pageSize ≤ va.toNat at hfirst
    change va.toNat < h.pagesStart + i * pageSize + pageSize at hlast
    change h.segment.page data (h.pagesStart + i * pageSize) (va.toNat - (h.pagesStart + i * pageSize)) = _
    unfold LoadSegment.page LoadSegment.byte
    rw [if_pos (by omega), Nat.add_sub_cancel' hfirst]
    rfl
  case stack =>
    intro va hstack
    obtain ⟨i, hi, hcovers⟩ := inStack_iff.mp hstack
    exact (hcovered _ (mem_filePages.mpr (Or.inr ⟨i, hi, rfl⟩)) va hcovers).2.2

end Images

section Reading
open Vfs

theorem readAll_length (vfs : Nat → Backend) (fd : Int) (size turns call : Nat) (soFar : List UInt8) (t : Tables)
    {bytes : List UInt8} (hle : soFar.length ≤ size) (hturns : size ≤ soFar.length + turns)
    (h : (readAll vfs fd size turns call soFar t).1 = some bytes) : bytes.length = size := by
  induction turns generalizing call soFar t with
  | zero =>
    rw [← Option.some.inj h]
    omega
  | succ turns ih =>
    unfold readAll at h
    by_cases hdone : soFar.length ≥ size
    · rw [if_pos hdone] at h
      rw [← Option.some.inj h]
      omega
    rw [if_neg hdone] at h
    rcases read_cases (vfs call) fd true (size - soFar.length) t with ⟨status, hread⟩ | ⟨i, new, -, hfile, -, hread⟩
    · rw [hread] at h
      cases h
    · rw [hread] at h
      dsimp only at h
      by_cases hempty : new = []
      · rw [if_pos hempty] at h
        cases h
      rw [if_neg hempty] at h
      obtain ⟨_, _, -, -, -, hlength, -⟩ := readFile_ok hfile
      have hpositive := List.length_pos_of_ne_nil hempty
      exact ih (call + 1) (soFar ++ new) _ (by rw [List.length_append]; omega) (by rw [List.length_append]; omega) h

theorem readImage_some (vfs : Nat → Backend) (path : Option CString) (heap : Heap) (t : Tables) {bytes : List UInt8}
    {size : Nat} (h : (readImage vfs path heap t).1 = some (bytes, size)) : bytes.length = size ∧ size < 2 ^ 32 := by
  -- a file that was read has the size of its entry, a 32-bit number
  unfold readImage at h
  rcases openFile_cases (vfs 0) path t with ⟨status, hopen, -⟩ | ⟨fd, safePath, fileSize, hpath, hstat, hlowest, hopen⟩
  · rw [hopen] at h
    cases h
  obtain ⟨hlow, hhigh, -⟩ := lowestFree_some hlowest
  obtain ⟨g, entry, hvol, hentry, -, hsize⟩ := stat_file (copyPath_idem hpath) hstat
  have hlt : fileSize < 2 ^ 32 := hsize ▸ resolveEntry_size_lt (resolveEntry_value hvol hentry)
  have hfstat : fstat fd (t.setFile fd ⟨true, safePath, 0, fileSize⟩) = .ok (false, fileSize) := by
    unfold fstat
    rw [valid_setFile hlow (by omega) rfl]
    dsimp only
    rw [setFile_get]
  rw [hopen] at h
  dsimp only at h
  rw [hfstat] at h
  dsimp only at h
  split at h
  · cases h
  split at h
  · cases h
  split at h
  · cases h
  rename_i hread
  obtain ⟨rfl, rfl⟩ := Prod.mk.inj (Option.some.inj h)
  exact ⟨readAll_length vfs fd fileSize fileSize 1 [] _ (Nat.zero_le _) (Nat.le_add_left _ _) (by rw [hread]), hlt⟩

end Reading

section Loads
variable {k k' : Kernel} {slot : Slot} {roots kernel : Set Word} {reference : PhysicalMemory} {data : Bytes} {size : Nat}

theorem mapM_plan (headers : List Elf64ProgramHeader) (hload : ∀ h ∈ headers, h.Loadable size) :
    (headers.map Elf64ProgramHeader.segment).mapM planOf = .ok (headers.map Elf64ProgramHeader.plan) := by
  induction headers with
  | nil => rfl
  | cons h headers ih =>
    rw [List.map_cons, List.mapM_cons, (hload h List.mem_cons_self).planOf,
      ih fun h' hh' => hload h' (List.mem_cons_of_mem h hh')]
    rfl

theorem buildLoadPlan_of (hsize : size < 2 ^ 64) (h : Executable data size) :
    buildLoadPlan data size = .ok ((loadHeaders (programHeaders data)).map Elf64ProgramHeader.plan) := by
  unfold buildLoadPlan
  rw [(inspectElf64_iff hsize).mpr ⟨h, rfl⟩]
  have hcount : ¬(imageOf data).segments.length > maxSegments := by
    unfold imageOf
    rw [List.length_map]
    exact Nat.not_lt.mpr h.count.2
  dsimp only
  rw [if_neg hcount]
  exact mapM_plan _ h.loadable

theorem planImage_ok {heap : Heap} {image : ElfImageInfo} {plans : List SegmentPagePlan} (hsize : size < 2 ^ 64)
    (h : (planImage data size heap).1 = .ok (image, plans)) : Executable data size ∧ image = imageOf data ∧
      plans = (loadHeaders (programHeaders data)).map Elf64ProgramHeader.plan := by
  unfold planImage at h
  cases hplan : buildLoadPlan data size with
  | error status =>
    rw [hplan] at h
    cases h
  | ok plans' =>
    rw [hplan] at h
    cases hinspect : inspectElf64 data size with
    | error status =>
      rw [hinspect] at h
      cases h
    | ok image' =>
      obtain ⟨hfile, rfl⟩ := (inspectElf64_iff hsize).mp hinspect
      rw [buildLoadPlan_of hsize hfile] at hplan
      rw [hinspect] at h
      dsimp only at h
      split at h
      · cases h
      split at h
      · cases h
      split at h
      · cases h
      obtain ⟨rfl, rfl⟩ := Prod.mk.inj (Except.ok.inj h)
      exact ⟨hfile, rfl, (Except.ok.inj hplan).symm⟩

theorem partFits_of {h : Elf64ProgramHeader} (hload : h.Loadable size) : PartFits size (h.segment, h.plan) := by
  obtain ⟨hend, hlimit, hstart, hlt, hfirst, hlast⟩ := hload.fits
  have hfile := hload.file_le
  have hle := hload.le_limit
  refine ⟨⟨hload.base_le, ?_⟩, ?_, hload.inside⟩
  · change h.pagesStart + (h.pagesEnd - h.pagesStart) / pageSize * pageSize ≤ userImageLimit.toNat
    unfold pageSize at *
    omega
  · change h.virtualAddress + h.fileSize < 2 ^ 64
    omega

theorem Complete.holds {m m₀ : Machine} {r : Word} (h : Complete m₀ roots kernel reference r ⟨m, []⟩)
    (hempty : ∀ key : PageKey, key.InUserSlot → view m.memory r key = none) :
    Holds m₀ roots kernel reference r [] ⟨m, []⟩ := by
  -- a new space maps no page
  refine ⟨h.built, .nil, fun key e hkey he => ?_⟩
  rw [hempty key hkey] at he
  cases he

theorem zip_parts (data : Bytes) :
    (imageOf data).segments.zip ((loadHeaders (programHeaders data)).map Elf64ProgramHeader.plan) =
      (loadHeaders (programHeaders data)).map fun h => (h.segment, h.plan) := List.zip_map' ..

theorem buildProcess_ok {heap : Heap} {files : Vfs.Tables} (h₀ : Shaped k.machine roots kernel reference)
    (hsize : size < 2 ^ 64) (hfile : Executable data size)
    (h : buildProcess k slot data size (imageOf data) ((loadHeaders (programHeaders data)).map Elf64ProgramHeader.plan)
      heap files = (.ok, k')) :
    ImageLoaded k'.machine.memory (k'.table.processes slot).pageTablePhysical data := by
  have hzip := zip_parts data
  unfold buildProcess at h
  rcases createUserAddressSpace_spec h₀ with
    ⟨m', hcreate, -⟩ | ⟨c, m', hcreate, hc, hshaped, hsteady, hreleases, hfree, hheld, hempty⟩
  · rw [hcreate] at h
    cases h
  rw [hcreate] at h
  dsimp only at h
  have hstart := (complete_created h₀ hc hshaped hsteady hreleases hfree hheld hempty).holds hempty
  have hparts : ∀ part ∈ (imageOf data).segments.zip ((loadHeaders (programHeaders data)).map Elf64ProgramHeader.plan),
      PartFits size part := by
    rw [hzip]
    intro part hpart
    obtain ⟨header, hheader, rfl⟩ := List.mem_map.mp hpart
    exact partFits_of (hfile.loadable header hheader)
  have hbuild := (wp_iff.mp (@buildImage_holds _ _ _ _ _ _ data _ h₀ hsize _ _ hparts hstart)).1
  cases hexec : (buildImage data size c (imageOf data).segments
      ((loadHeaders (programHeaders data)).map Elf64ProgramHeader.plan)).exec ⟨m', []⟩ with
  | mk outcome s =>
    rw [hexec] at h hbuild
    cases outcome with
    | error status => exact absurd (congrArg Prod.fst h) (failureStatus_ne_ok status)
    | ok stack =>
      obtain ⟨-, rfl⟩ := Prod.mk.inj h
      have hpending := hbuild stack rfl
      rw [hzip] at hpending
      obtain ⟨old, hold, hshows⟩ := hpending.shows
      obtain rfl : s.userPages = old := List.append_cancel_right hold
      have hroot : ((k.table.set slot (readyProcess (k.table.processes slot) c stack (imageOf data).entry)).processes
          slot).pageTablePhysical = c := by
        unfold Table.set
        dsimp only
        rw [Function.update_self]
        rfl
      rw [hroot]
      refine imageLoaded_of hfile hpending.built.shaped (Set.mem_insert c roots) hshows fun f hf => ?_
      rw [hpending.built.managed]
      exact Allocator.free_subset_managed (hpending.built.mem_free (List.mem_append_left [stack] hf))

/-- A load that succeeds read an executable and placed it. -/
theorem loadProcessImage_ok (h₀ : Shaped k.machine roots kernel reference) (vfs : Nat → Vfs.Backend)
    {path : Option CString} (h : loadProcessImage vfs path slot k = (.ok, k')) :
    ∃ bytes heap files, readImage vfs path k.heap k.files = (some (bytes, bytes.length), heap, files) ∧
      Executable (fun i => bytes.getD i 0) bytes.length ∧
      ImageLoaded k'.machine.memory (k'.table.processes slot).pageTablePhysical fun i => bytes.getD i 0 := by
  unfold loadProcessImage at h
  dsimp only at h
  rw [ite_eq_iff] at h
  obtain ⟨-, h⟩ := h.resolve_left fun hbad => ElfStatus.noConfusion (congrArg Prod.fst hbad.2)
  rcases hread : readImage vfs path k.heap k.files with ⟨_ | ⟨bytes, size⟩, heap, files⟩
  · rw [hread] at h
    cases h
  rw [hread] at h
  dsimp only at h
  obtain ⟨rfl, hlt⟩ := readImage_some vfs path k.heap k.files (congrArg Prod.fst hread)
  have hsize : bytes.length < 2 ^ 64 := by omega
  rcases hplan : planImage (fun i => bytes.getD i 0) bytes.length heap with ⟨status | ⟨image, plans⟩, heap'⟩
  · rw [hplan] at h
    have hstatus := (planImage_spec (fun i => bytes.getD i 0) bytes.length (Heap.Extends.refl heap)).2.1 status
      (congrArg Prod.fst hplan)
    exact absurd (congrArg Prod.fst h) hstatus
  · rw [hplan] at h
    obtain ⟨hfile, rfl, rfl⟩ := planImage_ok hsize (congrArg Prod.fst hplan)
    exact ⟨bytes, heap, files, rfl, hfile, buildProcess_ok h₀ hsize hfile h⟩

end Loads

end Linux95.User
