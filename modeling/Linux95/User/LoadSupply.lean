import Linux95.Memory.PageSupply
import Linux95.User.LoadedImages

/-! A load succeeds: with four free pages for each page of the image no step of it can fail. -/

namespace Linux95.User
open Base LinkedTables Fat32 Memory Machine LoadM

variable {m₀ : Machine} {roots kernel : Set Word} {reference : PhysicalMemory} {r p : Word} {s : Loading} {n : Nat}

section Steps
variable {pages : List ImagePage}

theorem takePage_stocked (hstock : Stocked (n + 1) s.machine) :
    wp takePage (fun _ s' => Stocked n s'.machine) (fun _ _ => False) s := by
  obtain ⟨p, allocator, htaken, -, hleft⟩ := hstock.take
  have hexec : takePage.exec s = (.ok p, ⟨{ s.machine with allocator := allocator }, s.userPages ++ [p]⟩) := by
    unfold takePage Exec.exec
    simp only [ExceptT.run_mk, StateT.run, allocatePage_some htaken]
  unfold wp
  rw [hexec]
  exact hleft

theorem takeStack_stocked (hstock : Stocked (n + 1) s.machine) :
    wp takeStack (fun _ s' => Stocked n s'.machine) (fun _ _ => False) s := by
  obtain ⟨p, allocator, htaken, -, hleft⟩ := hstock.take
  have hexec : takeStack.exec s = (.ok p, { s with machine := { s.machine with allocator := allocator } }) := by
    unfold takeStack Exec.exec
    simp only [ExceptT.run_mk, StateT.run, allocatePage_some htaken]
  unfold wp
  rw [hexec]
  exact hleft

theorem fillPage_stocked (hstock : Stocked n s.machine) (contents : Index → Word) :
    wp (LoadM.fillPage p contents) (fun _ s' => Stocked n s'.machine) (fun _ _ => False) s :=
  ⟨hstock.counted, hstock.enough⟩

theorem copyFile_stocked {elf : Bytes} {size v : Nat} {segment : LoadSegment} (hstock : Stocked n s.machine)
    (hsize : size < 2 ^ 64) (hpage : v + pageSize < 2 ^ 64) (hinside : segment.fileOffset + segment.fileSize ≤ size) :
    wp (copyFile elf size segment (segment.virtualAddress + segment.fileSize) v p)
      (fun _ s' => Stocked n s'.machine) (fun _ _ => False) s := by
  -- the part of the file that belongs on a page lies inside the file
  unfold copyFile
  dsimp only
  rw [Nat.mod_eq_of_lt hpage]
  generalize hstart : (if v > segment.virtualAddress then v else segment.virtualAddress) = start
  generalize hstop : (if v + pageSize < segment.virtualAddress + segment.fileSize then v + pageSize
    else segment.virtualAddress + segment.fileSize) = stop
  apply wp_ite
  · intro hlt
    have hfirst : segment.virtualAddress ≤ start := by
      split at hstart <;> omega
    have hlast : stop ≤ segment.virtualAddress + segment.fileSize := by
      split at hstop <;> omega
    rw [Nat.mod_eq_of_lt (by omega)]
    apply wp_ite
    · intro hbad
      omega
    · exact fun _ => fillPage_stocked hstock _
  · exact fun _ => wp_pure hstock

theorem mapPage_stocked (page : ImagePage) {va : Word} (h : Pending m₀ roots kernel reference r pages p s)
    (hnxe : m₀.nxeEnabled = true) (haligned : page.Aligned) (hva : va = BitVec.ofNat 64 page.address)
    (hk : page.key.InUserSlot) (hnew : ∀ page' ∈ pages, page'.key ≠ page.key) (hstock : Stocked (n + 3) s.machine) :
    wp (mapPage r va p page.writable page.executable) (fun _ s' => Stocked n s'.machine) (fun _ _ => False) s := by
  subst hva
  have hr : r ∈ insert r roots := Set.mem_insert r roots
  obtain ⟨hpage, hlow⟩ := haligned
  have hmanaged : p ∈ s.machine.allocator.managed := by
    rw [h.built.managed]
    exact Allocator.free_subset_managed (h.built.mem_free h.mem)
  have htoNat : (BitVec.ofNat 64 page.address).toNat = page.address := by
    rw [BitVec.toNat_ofNat]
    omega
  have hva : isPageAligned (BitVec.ofNat 64 page.address) = true := by
    rw [isPageAligned_iff, htoNat]
    unfold pageAddress
    rw [Nat.div_mul_cancel (Nat.dvd_of_mod_eq_zero hpage)]
  have hcanonical : isCanonicalUserAddress (BitVec.ofNat 64 page.address) = true := by
    unfold isCanonicalUserAddress pageSize at *
    rw [htoNat]
    exact decide_eq_true (by omega)
  have hview : view s.machine.memory r page.key = none := by
    obtain ⟨old, -, hshows⟩ := h.shows
    cases hfound : view s.machine.memory r page.key with
    | none => rfl
    | some e =>
      obtain ⟨page', hmem, hkey⟩ := hshows.only _ e hk hfound
      exact absurd hkey (hnew page' hmem)
  obtain ⟨m', hmapped, hleft⟩ := mapUserPage_stocked h.built.shaped hr hk hva
    (Allocator.isPageAligned_of_mask (Allocator.managed_mask hmanaged)) hcanonical (h.built.nxeEnabled.trans hnxe)
    hview hstock page.writable page.executable
  unfold wp LoadM.mapPage Exec.exec
  simp only [ExceptT.run_mk, StateT.run, hmapped]
  exact hleft

structure Supplied (m₀ : Machine) (roots kernel : Set Word) (reference : PhysicalMemory) (r : Word)
    (pages : List ImagePage) (n : Nat) (s : Loading) : Prop where
  holds : Holds m₀ roots kernel reference r pages s
  stocked : Stocked n s.machine

theorem loadPage_supplied (h₀ : Shaped m₀ roots kernel reference) (hnxe : m₀.nxeEnabled = true) {elf : Bytes}
    {size : Nat} (hsize : size < 2 ^ 64) {part : LoadSegment × SegmentPagePlan} (hpart : PartFits size part) {i : Nat}
    (hi : i < part.2.pageCount) (haligned : (partPage elf part i).Aligned)
    (hnew : ∀ page ∈ pages, page.key ≠ (partPage elf part i).key)
    (h : Supplied m₀ roots kernel reference r pages (n + 4) s) :
    wp (loadPage elf size r part.1 part.2 (part.1.virtualAddress + part.1.fileSize) i)
      (fun _ s' => Supplied m₀ roots kernel reference r (pages ++ [partPage elf part i]) n s') (fun _ _ => False) s := by
  have hpage : part.2.firstPage + i * pageSize + pageSize < 2 ^ 64 := haligned.low.trans_lt (by decide)
  have hstocked : wp (loadPage elf size r part.1 part.2 (part.1.virtualAddress + part.1.fileSize) i)
      (fun _ s' => Stocked n s'.machine) (fun _ _ => False) s := by
    apply wp_bind (wp_and (takePage_holds h.holds) (takePage_stocked h.stocked)) _ fun _ _ hfalse => hfalse.2
    rintro p s₁ ⟨h₁, hstock₁⟩
    apply wp_bind (wp_and (fillPage_holds h₀ h₁ _) (fillPage_stocked hstock₁ _)) _ fun _ _ hfalse => hfalse.2
    rintro - s₂ ⟨⟨h₂, hzero⟩, hstock₂⟩
    rw [Nat.mod_eq_of_lt (show part.2.firstPage + i * pageSize < 2 ^ 64 by omega)]
    apply wp_bind (wp_and (copyFile_holds h₀ h₂ hzero hsize hpage hpart.inside)
      (copyFile_stocked hstock₂ hsize hpage hpart.inside)) _ fun _ _ hfalse => hfalse.2
    rintro - s₃ ⟨⟨h₃, -⟩, hstock₃⟩
    exact mapPage_stocked (partPage elf part i) h₃ hnxe haligned rfl (plan_page hpart.window hi).1 hnew hstock₃
  exact wp_mono (wp_and (loadPage_holds h₀ hsize hpart hi h.holds) hstocked)
    (fun _ _ hboth => ⟨hboth.1, hboth.2⟩) fun _ _ hfalse => hfalse.2

theorem loadStackPage_supplied (h₀ : Shaped m₀ roots kernel reference) (hnxe : m₀.nxeEnabled = true) {i : Nat}
    (hi : i < userStackPages) (hnew : ∀ page ∈ pages, page.key ≠ (stackPage i).key)
    (h : Supplied m₀ roots kernel reference r pages (n + 4) s) :
    wp (loadStackPage r i) (fun _ s' => Supplied m₀ roots kernel reference r (pages ++ [stackPage i]) n s')
      (fun _ _ => False) s := by
  have hstocked : wp (loadStackPage r i) (fun _ s' => Stocked n s'.machine) (fun _ _ => False) s := by
    apply wp_bind (wp_and (takePage_holds h.holds) (takePage_stocked h.stocked)) _ fun _ _ hfalse => hfalse.2
    rintro p s₁ ⟨h₁, hstock₁⟩
    apply wp_bind (wp_and (fillPage_holds h₀ h₁ _) (fillPage_stocked hstock₁ _)) _ fun _ _ hfalse => hfalse.2
    rintro - s₂ ⟨⟨h₂, -⟩, hstock₂⟩
    refine mapPage_stocked (stackPage i) h₂ hnxe (stackPage_aligned i) (stackPage_va hi) ?_ hnew hstock₂
    unfold ImagePage.key
    rw [← stackPage_va hi]
    exact (stack_page hi).1
  exact wp_mono (wp_and (loadStackPage_holds h₀ hi h.holds) hstocked)
    (fun _ _ hboth => ⟨hboth.1, hboth.2⟩) fun _ _ hfalse => hfalse.2

end Steps

section Loops
variable {pages : List ImagePage} {elf : Bytes} {size : Nat}

theorem key_ne_of_nodup {before after : List ImagePage} {page : ImagePage}
    (h : ((before ++ page :: after).map ImagePage.key).Nodup) : ∀ page' ∈ before, page'.key ≠ page.key := by
  rw [List.map_append, List.nodup_append] at h
  exact fun page' hmem => h.2.2 _ (List.mem_map_of_mem hmem) _ List.mem_cons_self

theorem forM_supplied {count : Nat} {turn : Nat → LoadM Unit} {page : Nat → ImagePage}
    (hturn : ∀ i < count, ∀ pages n s, (∀ page' ∈ pages, page'.key ≠ (page i).key) →
      Supplied m₀ roots kernel reference r pages (n + 4) s →
        wp (turn i) (fun _ s' => Supplied m₀ roots kernel reference r (pages ++ [page i]) n s') (fun _ _ => False) s)
    (hkeys : ((pages ++ (List.range count).map page).map ImagePage.key).Nodup)
    (h : Supplied m₀ roots kernel reference r pages (n + 4 * count) s) :
    wp ((List.range count).forM turn)
      (fun _ s' => Supplied m₀ roots kernel reference r (pages ++ (List.range count).map page) n s')
      (fun _ _ => False) s := by
  -- every turn of a loop takes at most four pages, so that the later ones have theirs
  refine wp_mono (wp_forM_progress (E := fun _ _ => False)
    (I := fun done s' => Supplied m₀ roots kernel reference r (pages ++ done.map page) (n + 4 * (count - done.length)) s')
    ?_ ?_) ?_ fun _ _ hfalse => hfalse
  · intro done i rest hsplit s' hs'
    have hi : i < count := by
      rw [← List.mem_range, hsplit]
      exact List.mem_append_right done List.mem_cons_self
    have hlength := congrArg List.length hsplit
    rw [List.length_range, List.length_append, List.length_cons] at hlength
    have hnew : ∀ page' ∈ pages ++ done.map page, page'.key ≠ (page i).key := by
      refine key_ne_of_nodup (?_ : ((pages ++ done.map page ++ page i :: rest.map page).map ImagePage.key).Nodup)
      rw [List.append_assoc, ← List.map_cons, ← List.map_append, ← hsplit]
      exact hkeys
    rw [List.map_append, List.map_singleton, ← List.append_assoc, List.length_append, List.length_singleton]
    exact hturn i hi _ _ s' hnew ⟨hs'.holds, hs'.stocked.mono (by omega)⟩
  · rw [List.map_nil, List.append_nil]
    exact h
  · exact fun _ s' hdone => ⟨hdone.holds, hdone.stocked.mono (Nat.le_add_right n _)⟩

structure PartLoads (elf : Bytes) (size : Nat) (part : LoadSegment × SegmentPagePlan) : Prop where
  fits : PartFits size part
  memory_lt : part.1.virtualAddress + part.1.memorySize < 2 ^ 64
  aligned : ∀ i < part.2.pageCount, (partPage elf part i).Aligned

theorem loadSegment_supplied (h₀ : Shaped m₀ roots kernel reference) (hnxe : m₀.nxeEnabled = true) (hsize : size < 2 ^ 64)
    {part : LoadSegment × SegmentPagePlan} (hpart : PartLoads elf size part)
    (hkeys : ((pages ++ partPages elf part).map ImagePage.key).Nodup)
    (h : Supplied m₀ roots kernel reference r pages (n + 4 * part.2.pageCount) s) :
    wp (loadSegment elf size r part.1 part.2)
      (fun _ s' => Supplied m₀ roots kernel reference r (pages ++ partPages elf part) n s') (fun _ _ => False) s := by
  obtain ⟨hfits, hmemory, haligned⟩ := hpart
  have hfile := hfits.file_lt
  unfold loadSegment
  rw [checkedAdd_eq (by omega), if_pos hmemory, checkedAdd_eq (by omega), if_pos hfile]
  exact forM_supplied (fun i hi _ _ _ hnew h' => loadPage_supplied h₀ hnxe hsize hfits hi (haligned i hi) hnew h') hkeys h

theorem partPages_length (part : LoadSegment × SegmentPagePlan) : (partPages elf part).length = part.2.pageCount := by
  unfold partPages
  rw [List.length_map, List.length_range]

theorem loadSegments_supplied (h₀ : Shaped m₀ roots kernel reference) (hnxe : m₀.nxeEnabled = true)
    (hsize : size < 2 ^ 64) {parts : List (LoadSegment × SegmentPagePlan)} (hparts : ∀ part ∈ parts, PartLoads elf size part)
    (hkeys : ((pages ++ parts.flatMap (partPages elf)).map ImagePage.key).Nodup)
    (h : Supplied m₀ roots kernel reference r pages (n + 4 * (parts.flatMap (partPages elf)).length) s) :
    wp (parts.forM fun part => loadSegment elf size r part.1 part.2)
      (fun _ s' => Supplied m₀ roots kernel reference r (pages ++ parts.flatMap (partPages elf)) n s')
      (fun _ _ => False) s := by
  induction parts generalizing pages s with
  | nil =>
    rw [List.flatMap_nil, List.append_nil]
    exact wp_pure h
  | cons part parts ih =>
    rw [List.flatMap_cons, ← List.append_assoc] at hkeys ⊢
    rw [List.flatMap_cons, List.length_append, partPages_length] at h
    have hfirst : ((pages ++ partPages elf part).map ImagePage.key).Nodup := by
      rw [List.map_append] at hkeys
      exact (List.nodup_append.mp hkeys).1
    apply wp_bind _ _ fun _ _ hfalse => hfalse
    · exact fun _ s' => Supplied m₀ roots kernel reference r (pages ++ partPages elf part)
        (n + 4 * (parts.flatMap (partPages elf)).length) s'
    · exact loadSegment_supplied h₀ hnxe hsize (hparts part List.mem_cons_self) hfirst
        ⟨h.holds, h.stocked.mono (by omega)⟩
    · intro _ s' hs'
      exact ih (fun part' hmem => hparts part' (List.mem_cons_of_mem part hmem)) hkeys hs'

theorem buildImage_supplied (h₀ : Shaped m₀ roots kernel reference) (hnxe : m₀.nxeEnabled = true)
    (hsize : size < 2 ^ 64) {segments : List LoadSegment} {plans : List SegmentPagePlan}
    (hparts : ∀ part ∈ segments.zip plans, PartLoads elf size part)
    (hkeys : (((segments.zip plans).flatMap (partPages elf) ++ stackPages).map ImagePage.key).Nodup)
    (h : Supplied m₀ roots kernel reference r []
      (4 * ((segments.zip plans).flatMap (partPages elf) ++ stackPages).length + 1) s) :
    wp (buildImage elf size r segments plans) (fun _ _ => True) (fun _ _ => False) s := by
  -- one page of the supply is for the kernel stack
  have hstack : stackPages.length = userStackPages := by
    unfold stackPages
    rw [List.length_map, List.length_range]
  have hfirst : (([] ++ (segments.zip plans).flatMap (partPages elf)).map ImagePage.key).Nodup := by
    rw [List.map_append] at hkeys
    exact (List.nodup_append.mp hkeys).1
  rw [List.length_append, hstack] at h
  apply wp_bind (loadSegments_supplied (n := 1 + 4 * userStackPages) h₀ hnxe hsize hparts hfirst
    ⟨h.holds, h.stocked.mono (by omega)⟩) _ fun _ _ hfalse => hfalse
  intro _ s₁ h₁
  apply wp_bind (forM_supplied (fun i hi _ _ _ hnew h' => loadStackPage_supplied h₀ hnxe hi hnew h') hkeys h₁) _
    fun _ _ hfalse => hfalse
  intro _ s₂ h₂
  apply wp_bind (takeStack_stocked (n := 0) h₂.stocked) _ fun _ _ hfalse => hfalse
  intro stack s₃ _
  exact trivial

end Loops

section Files
variable {data : Bytes} {size : Nat} {h : Elf64ProgramHeader} {k : Kernel} {slot : Slot}

theorem address_of_key {page page' : ImagePage} (hpage : page.Aligned) (hpage' : page'.Aligned)
    (hkey : page.key = page'.key) : page.address = page'.address := by
  have hlow := hpage'.low
  have htoNat : (BitVec.ofNat 64 page'.address).toNat = page'.address := by
    rw [BitVec.toNat_ofNat]
    omega
  have hcovers := (key_eq_iff hpage (Or.inl (by rw [htoNat]; unfold pageSize at hlow; omega))).mp hkey
  unfold ImagePage.Covers at hcovers
  rw [htoNat] at hcovers
  have haligned := hpage.aligned
  have haligned' := hpage'.aligned
  unfold pageSize at *
  omega

theorem partPages_bounds (hload : h.Loadable size) {page : ImagePage} (hmem : page ∈ partPages data (h.segment, h.plan)) :
    h.pagesStart ≤ page.address ∧ page.address < h.pagesEnd := by
  obtain ⟨i, hi, rfl⟩ := List.mem_map.mp hmem
  have hpage := hload.page_le (List.mem_range.mp hi)
  change h.pagesStart ≤ h.pagesStart + i * pageSize ∧ h.pagesStart + i * pageSize < h.pagesEnd
  unfold pageSize at *
  omega

theorem filePages_addresses (hfile : Executable data size) :
    (filePages data).Pairwise fun page page' => page.address ≠ page'.address := by
  -- no two pages of an accepted file have one address
  unfold filePages
  rw [List.pairwise_append, List.pairwise_flatMap]
  refine ⟨⟨?_, ?_⟩, ?_, ?_⟩
  · intro part hpart
    unfold partPages
    rw [List.pairwise_map]
    refine List.pairwise_lt_range.imp fun {i j} hij heq => ?_
    change part.2.firstPage + i * pageSize = part.2.firstPage + j * pageSize at heq
    unfold pageSize at heq
    omega
  · rw [List.pairwise_map]
    refine hfile.apart.imp_of_mem fun {a b} ha hb hapart page hpage page' hpage' heq => ?_
    have hbounds := partPages_bounds (hfile.loadable a ha) hpage
    have hbounds' := partPages_bounds (hfile.loadable b hb) hpage'
    unfold Elf64ProgramHeader.Apart at hapart
    omega
  · unfold stackPages
    rw [List.pairwise_map]
    refine List.pairwise_lt_range.imp_of_mem fun {i j} hi hj hij heq => ?_
    rw [stackPage_base (List.mem_range.mp hi), stackPage_base (List.mem_range.mp hj)] at heq
    omega
  · intro page hpage page' hpage' heq
    obtain ⟨part, hpart, hpage⟩ := List.mem_flatMap.mp hpage
    obtain ⟨header, hheader, rfl⟩ := List.mem_map.mp hpart
    obtain ⟨i, hi, rfl⟩ := List.mem_map.mp hpage'
    obtain ⟨-, hlimit, -⟩ := (hfile.loadable header hheader).fits
    have hbounds := partPages_bounds (hfile.loadable header hheader) hpage
    rw [stackPage_base (List.mem_range.mp hi)] at heq
    omega

theorem filePages_keys (hfile : Executable data size) : ((filePages data).map ImagePage.key).Nodup := by
  rw [List.Nodup, List.pairwise_map]
  exact (filePages_addresses hfile).imp_of_mem fun hpage hpage' hne hkey =>
    hne (address_of_key (filePages_aligned hfile _ hpage) (filePages_aligned hfile _ hpage') hkey)

theorem partLoads_of (hload : h.Loadable size) : PartLoads data size (h.segment, h.plan) := by
  obtain ⟨hend, hlimit, -⟩ := hload.fits
  refine ⟨partFits_of hload, ?_, fun i hi => partPage_aligned hload hi⟩
  change h.virtualAddress + h.memorySize < 2 ^ 64
  omega

/-- The kernel leaves the user slots of its root alone and can forbid execution. -/
structure Hosts (m : Machine) : Prop where
  imageAbsent : has (m.memory m.rootPhysical imageSlot) pagePresent = false
  stackAbsent : has (m.memory m.rootPhysical stackSlot) pagePresent = false
  nxeEnabled : m.nxeEnabled = true

/-- An accepted file is loaded when there are four pages for each page of its image, one for the root and one for the
kernel stack. -/
theorem buildProcess_succeeds {heap : Heap} {files : Vfs.Tables} (h₀ : Shaped k.machine roots kernel reference)
    (hhosts : Hosts k.machine) (hsize : size < 2 ^ 64) (hfile : Executable data size)
    (hstock : Stocked (4 * (filePages data).length + 2) k.machine) :
    (buildProcess k slot data size (imageOf data) ((loadHeaders (programHeaders data)).map Elf64ProgramHeader.plan)
      heap files).1 = .ok := by
  obtain ⟨c, m', hcreated, hleft⟩ := createUserAddressSpace_stocked (h₀.kept _ h₀.root).2 hhosts.imageAbsent
    hhosts.stackAbsent hstock
  have hparts : ∀ part ∈ (imageOf data).segments.zip ((loadHeaders (programHeaders data)).map Elf64ProgramHeader.plan),
      PartLoads data size part := by
    rw [zip_parts]
    intro part hpart
    obtain ⟨header, hheader, rfl⟩ := List.mem_map.mp hpart
    exact partLoads_of (hfile.loadable header hheader)
  unfold buildProcess
  rcases createUserAddressSpace_spec h₀ with
    ⟨m'', hcreate, -⟩ | ⟨c', m'', hcreate, hc, hshaped, hsteady, hreleases, hfree, hheld, hempty⟩
  · rw [hcreated] at hcreate
    cases hcreate
  obtain ⟨hroot, rfl⟩ := Prod.mk.inj (hcreated.symm.trans hcreate)
  obtain rfl := Option.some.inj hroot
  have hstart := (complete_created h₀ hc hshaped hsteady hreleases hfree hheld hempty).holds hempty
  have hbuild := buildImage_supplied h₀ hhosts.nxeEnabled hsize hparts (by
    rw [zip_parts]
    exact filePages_keys hfile) ⟨hstart, by rw [zip_parts]; exact hleft⟩
  rw [hcreated]
  dsimp only
  unfold wp at hbuild
  split at hbuild
  · rename_i stack s hexec
    rw [hexec]
  · exact hbuild.elim

theorem loadProcessImage_succeeds {vfs : Nat → Vfs.Backend} {path : CString} {bytes : List UInt8} {pid : BitVec 32}
    (h₀ : Shaped k.machine roots kernel reference) (hhosts : Hosts k.machine)
    (hstate : k.table.processes slot = { Process.unused with pid := pid, state := .created })
    (hread : (readImage vfs (some path) k.heap k.files).1 = some (bytes, bytes.length))
    (hplan : (planImage (fun i => bytes.getD i 0) bytes.length (readImage vfs (some path) k.heap k.files).2.1).1.toBool = true)
    (hstock : Stocked (4 * (filePages fun i => bytes.getD i 0).length + 2) k.machine) :
    (loadProcessImage vfs (some path) slot k).1 = .ok := by
  have hsize : bytes.length < 2 ^ 64 := by
    have hread' := readImage_some vfs (some path) k.heap k.files hread
    omega
  have hfresh : ¬(some path = none ∨ (k.table.processes slot).state ≠ .created ∨
      (k.table.processes slot).pageTablePhysical ≠ 0#64 ∨ (k.table.processes slot).kernelStackBase ≠ 0#64 ∨
      (k.table.processes slot).kernelStackTop ≠ 0#64) := by
    rw [hstate]
    simp [Process.unused]
  unfold loadProcessImage
  dsimp only
  rw [if_neg hfresh]
  rcases hresult : readImage vfs (some path) k.heap k.files with ⟨image, heap, files⟩
  rw [hresult] at hread hplan
  obtain rfl : image = _ := hread
  dsimp only at hplan ⊢
  rcases hplanned : planImage (fun i => bytes.getD i 0) bytes.length heap with ⟨status | ⟨image, plans⟩, heap'⟩
  · rw [hplanned] at hplan
    cases hplan
  · obtain ⟨hfile, rfl, rfl⟩ := planImage_ok hsize (congrArg Prod.fst hplanned)
    exact buildProcess_succeeds h₀ hhosts hsize hfile hstock

theorem buildProcess_ready {image : ElfImageInfo} {plans : List SegmentPagePlan} {heap : Heap} {files : Vfs.Tables}
    (hok : (buildProcess k slot data size image plans heap files).1 = .ok) :
    ((buildProcess k slot data size image plans heap files).2.table.processes slot).state = .ready := by
  unfold buildProcess at hok ⊢
  generalize k.machine.createUserAddressSpace = created at hok ⊢
  obtain ⟨_ | root, m'⟩ := created
  · cases hok
  dsimp only at hok ⊢
  generalize (buildImage data size root image.segments plans).exec ⟨m', []⟩ = built at hok ⊢
  obtain ⟨status | stack, s⟩ := built
  · exact absurd hok (failureStatus_ne_ok status)
  · change (Function.update k.table.processes slot _ slot).state = .ready
    rw [Function.update_self]
    rfl

theorem loadProcessImage_ready {vfs : Nat → Vfs.Backend} {path : Option CString}
    (hok : (loadProcessImage vfs path slot k).1 = .ok) :
    ((loadProcessImage vfs path slot k).2.table.processes slot).state = .ready := by
  unfold loadProcessImage at hok ⊢
  dsimp only at hok ⊢
  split at hok
  · cases hok
  rename_i hfresh
  rw [if_neg hfresh]
  generalize readImage vfs path k.heap k.files = image at hok ⊢
  obtain ⟨_ | ⟨bytes, size⟩, heap, files⟩ := image
  · cases hok
  dsimp only at hok ⊢
  have hstatus := (planImage_spec (fun i => bytes.getD i 0) size (Heap.Extends.refl heap)).2.1
  generalize planImage (fun i => bytes.getD i 0) size heap = plan at hok hstatus ⊢
  obtain ⟨status | ⟨image, plans⟩, heap'⟩ := plan
  · exact absurd hok (hstatus status rfl)
  · exact buildProcess_ready hok

end Files

section Orderly
variable {k : Kernel} {slot : Slot} {elf : Bytes} {size : Nat} {m : Machine}

theorem takePage_machine (s : Loading) : (takePage.exec s).2.machine = s.machine.allocatePage.2 := by
  unfold takePage Exec.exec
  simp only [ExceptT.run_mk, StateT.run]
  rcases s.machine.allocatePage with ⟨_ | p, m'⟩ <;> rfl

theorem takeStack_machine (s : Loading) : (takeStack.exec s).2.machine = s.machine.allocatePage.2 := by
  unfold takeStack Exec.exec
  simp only [ExceptT.run_mk, StateT.run]
  rcases s.machine.allocatePage with ⟨_ | p, m'⟩ <;> rfl

theorem keeps_of_allocates {take : LoadM Word} (htake : ∀ s, (take.exec s).2.machine = s.machine.allocatePage.2) :
    Keeps (fun s : Loading => Orderly m s.machine) take := by
  intro s hs
  rw [htake s]
  exact hs.trans (allocatePage_orderly s.machine)

theorem fillPage_keeps (p : Word) (contents : Index → Word) :
    Keeps (fun s : Loading => Orderly m s.machine) (LoadM.fillPage p contents) :=
  fun s hs => hs.trans (writeTable_orderly s.machine p contents)

theorem mapPage_keeps (va p : Word) (writable executable : Bool) :
    Keeps (fun s : Loading => Orderly m s.machine) (mapPage r va p writable executable) := by
  intro s hs
  have hmapped := hs.trans (mapUserPage_orderly s.machine r va p writable executable)
  unfold LoadM.mapPage Exec.exec
  simp only [ExceptT.run_mk, StateT.run]
  generalize s.machine.mapUserPage r va p writable executable = result at hmapped
  obtain ⟨answer, m'⟩ := result
  cases answer <;> exact hmapped

theorem copyFile_keeps (segment : LoadSegment) (fileEnd v : Nat) (p : Word) :
    Keeps (fun s : Loading => Orderly m s.machine) (copyFile elf size segment fileEnd v p) := by
  unfold copyFile
  exact keeps_ite (fun _ => keeps_ite (fun _ => keeps_throw _) fun _ => fillPage_keeps p _) fun _ => keeps_pure _

theorem loadPage_keeps (segment : LoadSegment) (plan : SegmentPagePlan) (fileEnd i : Nat) :
    Keeps (fun s : Loading => Orderly m s.machine) (loadPage elf size r segment plan fileEnd i) :=
  keeps_bind (keeps_of_allocates takePage_machine) fun p => keeps_bind (fillPage_keeps p _) fun _ =>
    keeps_bind (copyFile_keeps segment fileEnd _ p) fun _ => mapPage_keeps _ p _ _

theorem loadStackPage_keeps (i : Nat) : Keeps (fun s : Loading => Orderly m s.machine) (loadStackPage r i) :=
  keeps_bind (keeps_of_allocates takePage_machine) fun p => keeps_bind (fillPage_keeps p _) fun _ =>
    mapPage_keeps _ p _ _

theorem loadSegment_keeps (segment : LoadSegment) (plan : SegmentPagePlan) :
    Keeps (fun s : Loading => Orderly m s.machine) (loadSegment elf size r segment plan) := by
  unfold loadSegment
  split
  · exact keeps_throw _
  split
  · exact keeps_throw _
  · exact keeps_of_wp fun s hs => wp_forM (fun i _ s' hs' => (loadPage_keeps segment plan _ i).wp hs') hs

theorem buildImage_keeps (segments : List LoadSegment) (plans : List SegmentPagePlan) :
    Keeps (fun s : Loading => Orderly m s.machine) (buildImage elf size r segments plans) := by
  refine keeps_bind (keeps_of_wp fun s hs => wp_forM (fun part _ s' hs' => (loadSegment_keeps part.1 part.2).wp hs') hs)
    fun _ => keeps_bind (keeps_of_wp fun s hs => wp_forM (fun i _ s' hs' => (loadStackPage_keeps i).wp hs') hs)
      fun _ => keeps_bind (keeps_of_allocates takeStack_machine) fun p => keeps_bind (fillPage_keeps p _) fun _ =>
        keeps_pure p

theorem cleanUp_orderly (s : Loading) : Orderly s.machine (cleanUp r s) :=
  (foldl_orderly freePage_orderly s.userPages s.machine).trans (destroyUserAddressSpace_orderly r _)

theorem buildProcess_orderly (image : ElfImageInfo) (plans : List SegmentPagePlan) (heap : Heap) (files : Vfs.Tables) :
    Orderly k.machine (buildProcess k slot elf size image plans heap files).2.machine := by
  have hcreate := createUserAddressSpace_orderly k.machine
  unfold buildProcess
  generalize k.machine.createUserAddressSpace = result at hcreate
  obtain ⟨root, m'⟩ := result
  cases root with
  | none => exact hcreate
  | some root =>
    have hkeeps : Keeps (fun s : Loading => Orderly k.machine s.machine) (buildImage elf size root image.segments plans) :=
      buildImage_keeps image.segments plans
    have hbuild := hkeeps ⟨m', []⟩ hcreate
    dsimp only
    generalize (buildImage elf size root image.segments plans).exec ⟨m', []⟩ = result at hbuild
    obtain ⟨outcome, s⟩ := result
    cases outcome with
    | error status => exact hbuild.trans (cleanUp_orderly s)
    | ok stack => exact hbuild

theorem loadProcessImage_orderly (vfs : Nat → Vfs.Backend) (path : Option CString) :
    Orderly k.machine (loadProcessImage vfs path slot k).2.machine := by
  unfold loadProcessImage
  dsimp only
  split
  · exact .refl k.machine
  split
  · exact .refl k.machine
  split
  · exact .refl k.machine
  · exact buildProcess_orderly ..

theorem reapMachine_orderly (p : Process) (m : Machine) : Orderly m (reapMachine p m) := by
  have hpage : ∀ root m va, Orderly m (releaseMappedPage root m va) := by
    intro root m va
    unfold releaseMappedPage
    split
    · exact .refl m
    · exact freePage_orderly m _
  have hrange : ∀ root first count m, Orderly m (releaseMappedRange root first count m) := by
    intro root first count m
    unfold releaseMappedRange
    split
    · exact .refl m
    · exact foldl_orderly (hpage root) _ m
  have hranges := (hrange p.pageTablePhysical userImageBase imagePageCount m).trans
    (hrange p.pageTablePhysical userStackBase userStackPages _)
  unfold reapMachine
  dsimp only
  split
  · split
    · exact hranges
    · exact hranges.trans (destroyUserAddressSpace_orderly _ _)
  · split
    · exact hranges.trans (freePage_orderly _ _)
    · exact (hranges.trans (destroyUserAddressSpace_orderly _ _)).trans (freePage_orderly _ _)

theorem reapExited_orderly (t : Table) (m : Machine) : Orderly m (reapExited t m).2 := by
  suffices hfold : ∀ (slots : List Slot) (state : Table × Machine), Orderly state.2 (slots.foldl reapOne state).2 from
    hfold _ (t, m)
  intro slots
  induction slots with
  | nil => exact fun state => .refl state.2
  | cons slot slots ih =>
    intro state
    refine Orderly.trans ?_ (ih (reapOne state slot))
    unfold reapOne
    split
    · exact reapMachine_orderly _ state.2
    · exact .refl state.2

end Orderly

section Example
open Vfs

/-- A program of two bytes after its headers, in one page. -/
def tinyElf : List UInt8 :=
  [0x7F, 0x45, 0x4C, 0x46, 2, 1, 1, 0, 0, 0, 0, 0, 0, 0, 0, 0, 2, 0, 62, 0, 1, 0, 0, 0] ++
  [0x78, 0, 0, 0, 0, 0x40, 0, 0] ++ [64, 0, 0, 0, 0, 0, 0, 0] ++ List.replicate 12 0 ++
  [64, 0, 56, 0, 1, 0, 0, 0, 0, 0, 0, 0] ++
  [1, 0, 0, 0, 5, 0, 0, 0] ++ List.replicate 8 0 ++ [0, 0, 0, 0, 0, 0x40, 0, 0] ++ List.replicate 8 0 ++
  [122, 0, 0, 0, 0, 0, 0, 0] ++ [122, 0, 0, 0, 0, 0, 0, 0] ++ List.replicate 8 0 ++ [0xEB, 0xFE]

def tinyDisk (lba : Nat) : Sector :=
  if lba = 1056 then
    fun j => [0x41, 0x20, 0x20, 0x20, 0x20, 0x20, 0x20, 0x20, 0x20, 0x20, 0x20, 0x20, 0, 0, 0, 0,
      0, 0, 0, 0, 0, 0, 0, 0, 0, 0, 3, 0, 122, 0, 0, 0].getD j.val 0
  else if lba = 1057 then fun j => tinyElf.getD j.val 0
  else helloDisk lba

def tinyBackend : Backend where
  vol := some smallGeometry
  dev := ⟨tinyDisk, 66586, true, fun _ => .none, []⟩
  accepted := smallGeometry_accepted

def tinyPath : CString := [0x2F, 0x41]

end Example

end Linux95.User
