import Linux95.User.ImagePages
import Linux95.Vfs.Runs

/-! A load as a whole: it gives every page back, or the new process has them all. -/

namespace Linux95.User
open Base LinkedTables Memory Machine LoadM

variable {m m₀ : Machine} {roots kernel : Set Word} {reference : PhysicalMemory} {r p : Word}
variable {s : Loading}

structure Complete (m₀ : Machine) (roots kernel : Set Word) (reference : PhysicalMemory) (r : Word)
    (s : Loading) : Prop where
  built : Built m₀ roots kernel reference r s
  furnished : Furnished s.machine.memory r s.userPages

structure Taken (m₀ : Machine) (roots kernel : Set Word) (reference : PhysicalMemory) (r p : Word)
    (s : Loading) : Prop where
  built : Built m₀ roots kernel reference r s
  furnished : ∃ old, s.userPages = old ++ [p] ∧ Furnished s.machine.memory r old

theorem Taken.mem (h : Taken m₀ roots kernel reference r p s) : p ∈ s.userPages := by
  obtain ⟨old, hpages, -⟩ := h.furnished
  rw [hpages]
  exact List.mem_append_right old (List.mem_singleton_self p)

theorem allocatePage_none (h : m.allocator.allocatePage = (none, m.allocator)) :
    m.allocatePage = (none, m) := by
  unfold Machine.allocatePage
  rw [h]

theorem allocatePage_some {allocator : Allocator} (h : m.allocator.allocatePage = (some p, allocator)) :
    m.allocatePage = (some p, { m with allocator := allocator }) := by
  unfold Machine.allocatePage
  rw [h]

theorem wp_takePage {Q : Word → Loading → Prop} {E : ElfStatus → Loading → Prop} (hnone : E .invalidSegment s)
    (hsome : ∀ p allocator, p ∈ s.machine.allocator.free → allocator.free = s.machine.allocator.free \ {p} →
      allocator.managed = s.machine.allocator.managed → allocator.releases = s.machine.allocator.releases →
        Q p ⟨{ s.machine with allocator := allocator }, s.userPages ++ [p]⟩) : wp takePage Q E s := by
  unfold wp
  rcases s.machine.allocator.allocatePage_cases with
    hempty | ⟨p, a, htaken, hp, hfree, hmanaged, hreleases⟩
  · have hexec : takePage.exec s = (.error .invalidSegment, s) := by
      unfold takePage Exec.exec
      simp only [ExceptT.run_mk, StateT.run, allocatePage_none hempty]
    rw [hexec]
    exact hnone
  · have hexec : takePage.exec s =
        (.ok p, ⟨{ s.machine with allocator := a }, s.userPages ++ [p]⟩) := by
      unfold takePage Exec.exec
      simp only [ExceptT.run_mk, StateT.run, allocatePage_some htaken]
    rw [hexec]
    exact hsome p a hp hfree hmanaged hreleases

theorem wp_takeStack {Q : Word → Loading → Prop} {E : ElfStatus → Loading → Prop} (hnone : E .invalidSegment s)
    (hsome : ∀ p allocator, p ∈ s.machine.allocator.free → allocator.free = s.machine.allocator.free \ {p} →
      allocator.managed = s.machine.allocator.managed → allocator.releases = s.machine.allocator.releases →
        Q p { s with machine := { s.machine with allocator := allocator } }) : wp takeStack Q E s := by
  -- the page of the kernel stack is not one of the image's pages
  unfold wp
  rcases s.machine.allocator.allocatePage_cases with
    hempty | ⟨p, a, htaken, hp, hfree, hmanaged, hreleases⟩
  · have hexec : takeStack.exec s = (.error .invalidSegment, s) := by
      unfold takeStack Exec.exec
      simp only [ExceptT.run_mk, StateT.run, allocatePage_none hempty]
    rw [hexec]
    exact hnone
  · have hexec : takeStack.exec s = (.ok p, { s with machine := { s.machine with allocator := a } }) := by
      unfold takeStack Exec.exec
      simp only [ExceptT.run_mk, StateT.run, allocatePage_some htaken]
    rw [hexec]
    exact hsome p a hp hfree hmanaged hreleases

theorem takePage_wp (h : Complete m₀ roots kernel reference r s) :
    wp takePage (fun p s' => Taken m₀ roots kernel reference r p s')
      (fun _ s' => Built m₀ roots kernel reference r s') s := by
  obtain ⟨hbuilt, hfurnished⟩ := h
  apply wp_takePage hbuilt
  intro p a hp hfree hmanaged hreleases
  exact ⟨hbuilt.take hp hfree hmanaged hreleases, s.userPages, rfl, hfurnished⟩

theorem fillPage_wp (h₀ : Shaped m₀ roots kernel reference) (h : Taken m₀ roots kernel reference r p s)
    (contents : Index → Word) :
    wp (LoadM.fillPage p contents) (fun _ s' => Taken m₀ roots kernel reference r p s')
      (fun _ s' => Built m₀ roots kernel reference r s') s := by
  obtain ⟨hbuilt, hviews⟩ := h.built.fill h₀ h.mem contents
  obtain ⟨old, hpages, hfurnished⟩ := h.furnished
  have hviews' := hviews r (Set.mem_insert r roots)
  exact ⟨hbuilt, old, hpages, hfurnished.congr hviews'⟩

theorem copyFile_wp (h₀ : Shaped m₀ roots kernel reference) (h : Taken m₀ roots kernel reference r p s)
    (elf : Fat32.Bytes) (size : Nat) (segment : LoadSegment) (fileEnd virtualPage : Nat) :
    wp (copyFile elf size segment fileEnd virtualPage p)
      (fun _ s' => Taken m₀ roots kernel reference r p s')
      (fun _ s' => Built m₀ roots kernel reference r s') s := by
  unfold copyFile
  apply wp_ite
  · intro _
    apply wp_ite
    · exact fun _ => wp_throw h.built
    · exact fun _ => fillPage_wp h₀ h _
  · exact fun _ => wp_pure h

theorem mapPage_wp {va : Word} (h : Taken m₀ roots kernel reference r p s)
    (hk : (pageKey va).InUserSlot) (hva : ∃ va' ∈ scanned, pageKey va' = pageKey va)
    (writable executable : Bool) :
    wp (mapPage r va p writable executable) (fun _ s' => Complete m₀ roots kernel reference r s')
      (fun _ s' => Built m₀ roots kernel reference r s') s := by
  have hr : r ∈ insert r roots := Set.mem_insert r roots
  have houtcome := mapUserPage_spec h.built.shaped hr hk p writable executable
  have hbuilt := h.built.map houtcome
  obtain ⟨old, hpages, hfurnished⟩ := h.furnished
  have hnodup := h.built.nodup
  rw [hpages, List.nodup_append] at hnodup
  have hnew : p ∉ old := fun hmem => hnodup.2.2 p hmem p (List.mem_singleton_self p) rfl
  have hmanaged : p ∈ s.machine.allocator.managed := by
    rw [h.built.managed]
    exact Allocator.free_subset_managed (h.built.mem_free h.mem)
  have hviews := houtcome.views
  unfold wp LoadM.mapPage Exec.exec
  simp only [ExceptT.run_mk, StateT.run]
  generalize s.machine.mapUserPage r va p writable executable = result at hbuilt hviews
  obtain ⟨answer, m'⟩ := result
  cases answer with
  | false => exact hbuilt
  | true =>
    refine ⟨hbuilt, ?_⟩
    show Furnished m'.memory r s.userPages
    rw [hpages]
    exact hfurnished.maps hr hk hva (Allocator.managed_mask hmanaged) hnew hviews

section Addresses

theorem mem_pagesFrom {first va : Word} {count i : Nat} (hi : i < count)
    (hva : va = first + BitVec.ofNat 64 (i * pageSize)) : va ∈ pagesFrom first count := by
  rw [hva]
  exact List.mem_map.mpr ⟨i, List.mem_range.mpr hi, rfl⟩

theorem plan_page {plan : SegmentPagePlan} (hplan : plan.InWindow) {i : Nat} (hi : i < plan.pageCount) :
    (pageKey (BitVec.ofNat 64 (plan.firstPage + i * pageSize))).InUserSlot ∧
      ∃ va' ∈ scanned, pageKey va' = pageKey (BitVec.ofNat 64 (plan.firstPage + i * pageSize)) := by
  -- the pages of a plan lie under the image slot, where the reaper looks
  obtain ⟨hfirst, hlast⟩ := hplan
  have hbase : userImageBase.toNat = 0x400000000000 := by decide
  have hlimit : userImageLimit.toNat = 0x400100000000 := by decide
  have hcount : imagePageCount = 0x100000 := by decide
  rw [hbase] at hfirst
  rw [hlimit] at hlast
  unfold pageSize at hlast ⊢
  have hmul : i * 4096 + 4096 ≤ plan.pageCount * 4096 := by omega
  have hnat : (BitVec.ofNat 64 (plan.firstPage + i * 4096)).toNat = plan.firstPage + i * 4096 := by
    rw [BitVec.toNat_ofNat]
    omega
  refine ⟨?_, ?_⟩
  · rw [inUserSlot_iff, hnat]
    omega
  · let j := (plan.firstPage + i * 4096 - 0x400000000000) / 4096
    refine ⟨userImageBase + BitVec.ofNat 64 (j * pageSize), ?_, ?_⟩
    · apply List.mem_append_left
      have hj : j < imagePageCount := by
        rw [hcount]
        omega
      exact mem_pagesFrom hj rfl
    · rw [pageKey_eq_iff]
      unfold pageNumber pageSize
      rw [hnat, BitVec.toNat_add, BitVec.toNat_ofNat, hbase]
      omega

theorem stack_page {i : Nat} (hi : i < userStackPages) :
    (pageKey (userStackTop - BitVec.ofNat 64 ((userStackPages - i) * pageSize))).InUserSlot ∧
      ∃ va' ∈ scanned, pageKey va' =
        pageKey (userStackTop - BitVec.ofNat 64 ((userStackPages - i) * pageSize)) := by
  -- the pages of the stack lie under the other slot, where the reaper looks too
  have hpages : userStackPages = 8 := rfl
  have hsame : userStackTop - BitVec.ofNat 64 ((userStackPages - i) * pageSize) =
      userStackBase + BitVec.ofNat 64 (i * pageSize) := by
    have htop : userStackTop.toNat = 0x7FFFFFF00000 := by decide
    have hbase : userStackBase.toNat = 0x7FFFFFEF8000 := by decide
    apply BitVec.eq_of_toNat_eq
    rw [BitVec.toNat_sub, BitVec.toNat_add, BitVec.toNat_ofNat, BitVec.toNat_ofNat, htop, hbase]
    unfold pageSize
    omega
  have hnat : (userStackTop - BitVec.ofNat 64 ((userStackPages - i) * pageSize)).toNat =
      0x7FFFFFF00000 - (8 - i) * 4096 := by
    have htop : userStackTop.toNat = 0x7FFFFFF00000 := by decide
    rw [BitVec.toNat_sub, BitVec.toNat_ofNat, htop, hpages]
    unfold pageSize
    omega
  refine ⟨?_, ?_⟩
  · rw [inUserSlot_iff, hnat]
    omega
  · exact ⟨_, List.mem_append_right _ (mem_pagesFrom hi hsame), rfl⟩

end Addresses

theorem loadPage_wp (h₀ : Shaped m₀ roots kernel reference) (elf : Fat32.Bytes) (size : Nat)
    (segment : LoadSegment) {plan : SegmentPagePlan} (hplan : plan.InWindow) (fileEnd : Nat) {i : Nat}
    (hi : i < plan.pageCount) (h : Complete m₀ roots kernel reference r s) :
    wp (loadPage elf size r segment plan fileEnd i)
      (fun _ s' => Complete m₀ roots kernel reference r s')
      (fun _ s' => Built m₀ roots kernel reference r s') s := by
  obtain ⟨hk, hva⟩ := plan_page hplan hi
  apply wp_bind (takePage_wp h) _ (fun _ _ hbuilt => hbuilt)
  intro p s₁ h₁
  apply wp_bind (fillPage_wp h₀ h₁ _) _ (fun _ _ hbuilt => hbuilt)
  intro _ s₂ h₂
  apply wp_bind (copyFile_wp h₀ h₂ elf size segment fileEnd _) _ (fun _ _ hbuilt => hbuilt)
  intro _ s₃ h₃
  exact mapPage_wp h₃ hk hva plan.writable plan.executable

theorem loadSegment_wp (h₀ : Shaped m₀ roots kernel reference) (elf : Fat32.Bytes) (size : Nat)
    (segment : LoadSegment) {plan : SegmentPagePlan} (hplan : plan.InWindow)
    (h : Complete m₀ roots kernel reference r s) :
    wp (loadSegment elf size r segment plan) (fun _ s' => Complete m₀ roots kernel reference r s')
      (fun _ s' => Built m₀ roots kernel reference r s') s := by
  unfold loadSegment
  split
  · exact wp_throw h.built
  · split
    · exact wp_throw h.built
    · apply wp_forM _ h
      intro i hi s' h'
      exact loadPage_wp h₀ elf size segment hplan _ (List.mem_range.mp hi) h'

theorem loadStackPage_wp (h₀ : Shaped m₀ roots kernel reference) {i : Nat} (hi : i < userStackPages)
    (h : Complete m₀ roots kernel reference r s) :
    wp (loadStackPage r i) (fun _ s' => Complete m₀ roots kernel reference r s')
      (fun _ s' => Built m₀ roots kernel reference r s') s := by
  obtain ⟨hk, hva⟩ := stack_page hi
  apply wp_bind (takePage_wp h) _ (fun _ _ hbuilt => hbuilt)
  intro p s₁ h₁
  apply wp_bind (fillPage_wp h₀ h₁ _) _ (fun _ _ hbuilt => hbuilt)
  intro _ s₂ h₂
  exact mapPage_wp h₂ hk hva true false

/-- The image with the kernel stack: the stack is taken like a page of the list, and not mapped. -/
def Finished (m₀ : Machine) (roots kernel : Set Word) (reference : PhysicalMemory) (r stack : Word)
    (s : Loading) : Prop :=
  Taken m₀ roots kernel reference r stack ⟨s.machine, s.userPages ++ [stack]⟩

theorem takeStack_wp (h : Complete m₀ roots kernel reference r s) :
    wp takeStack (fun stack s' => Taken m₀ roots kernel reference r stack
        ⟨s'.machine, s'.userPages ++ [stack]⟩)
      (fun _ s' => Built m₀ roots kernel reference r s') s := by
  obtain ⟨hbuilt, hfurnished⟩ := h
  apply wp_takeStack hbuilt
  intro p a hp hfree hmanaged hreleases
  exact ⟨hbuilt.take hp hfree hmanaged hreleases, s.userPages, rfl, hfurnished⟩

theorem buildImage_wp (h₀ : Shaped m₀ roots kernel reference) (elf : Fat32.Bytes) (size : Nat)
    (segments : List LoadSegment) {plans : List SegmentPagePlan} (hplans : ∀ plan ∈ plans, plan.InWindow)
    (h : Complete m₀ roots kernel reference r s) :
    wp (buildImage elf size r segments plans)
      (fun stack s' => Finished m₀ roots kernel reference r stack s')
      (fun _ s' => Built m₀ roots kernel reference r s') s := by
  apply wp_bind _ _ (fun _ _ hbuilt => hbuilt)
  · exact fun _ s' => Complete m₀ roots kernel reference r s'
  · apply wp_forM _ h
    intro part hpart s' h'
    exact loadSegment_wp h₀ elf size part.1 (hplans part.2 (List.of_mem_zip hpart).2) h'
  intro _ s₁ h₁
  apply wp_bind _ _ (fun _ _ hbuilt => hbuilt)
  · exact fun _ s' => Complete m₀ roots kernel reference r s'
  · apply wp_forM _ h₁
    intro i hi s' h'
    exact loadStackPage_wp h₀ (List.mem_range.mp hi) h'
  intro _ s₂ h₂
  apply wp_bind (takeStack_wp h₂) _ (fun _ _ hbuilt => hbuilt)
  intro stack s₃ h₃
  obtain ⟨hbuilt, hviews⟩ := h₃.built.fill h₀ h₃.mem fun _ => 0#64
  obtain ⟨old, hpages, hfurnished⟩ := h₃.furnished
  exact ⟨hbuilt, old, hpages, hfurnished.congr (hviews r (Set.mem_insert r roots))⟩

section CleanUp

theorem releasePages_spec (pages : List Word) (hnodup : pages.Nodup)
    (hmanaged : ∀ p ∈ pages, p ∈ m.allocator.managed) (hused : ∀ p ∈ pages, p ∉ m.allocator.free) :
    Frees { p | p ∈ pages } m (releasePages pages m) := by
  induction pages generalizing m with
  | nil =>
    have hempty : { p : Word | p ∈ ([] : List Word) } = ∅ := by
      rw [Set.eq_empty_iff_forall_notMem]
      intro p hp
      cases hp
    rw [hempty]
    exact .refl m
  | cons p pages ih =>
    obtain ⟨hp, hnodup⟩ := List.nodup_cons.mp hnodup
    have hfirst := frees_freePage (hmanaged p List.mem_cons_self) (hused p List.mem_cons_self)
    have hrest := ih hnodup (m := m.freePage p)
      (fun q hq => hfirst.managed.symm ▸ hmanaged q (List.mem_cons_of_mem p hq))
      (fun q hq hfree => by
        rw [hfirst.free] at hfree
        rcases hfree with hfree | hfree
        · exact hused q (List.mem_cons_of_mem p hq) hfree
        · exact hp (Set.mem_singleton_iff.mp hfree ▸ hq))
    have hunion : { q | q ∈ p :: pages } = {p} ∪ { q | q ∈ pages } := by
      ext q
      exact List.mem_cons
    rw [hunion]
    exact hfirst.trans hrest

theorem cleanUp_spec (h₀ : Shaped m₀ roots kernel reference) (h : Built m₀ roots kernel reference r s) :
    Shaped (cleanUp r s) roots kernel reference ∧ Steady roots m₀ (cleanUp r s) ∧
      (cleanUp r s).allocator.free = m₀.allocator.free := by
  have hr : r ∈ insert r roots := Set.mem_insert r roots
  have hpages := releasePages_spec s.userPages h.nodup
    (fun p hp => h.managed.symm ▸ Allocator.free_subset_managed (h.mem_free hp))
    (fun p hp => (h.apart p hp).1)
  have hshaped := hpages.shaped h.shaped subset_rfl
    (fun p hp => (h.of_free h₀ (h.mem_free hp)).1)
    (fun p hp r' hr' => by
      rcases hr' with rfl | hr'
      · exact (h.apart p hp).2
      · exact (h.of_free h₀ (h.mem_free hp)).2 r' hr')
  have hdestroy := destroyUserAddressSpace_spec hshaped hr
  have hfrees := hpages.trans hdestroy
  rw [hpages.memory] at hfrees
  have hset : { p | p ∈ s.userPages } ∪ held s.machine.memory r ⊆ m₀.allocator.free := by
    rw [← h.ledger]
    rintro p (hp | hp)
    · exact Or.inr hp
    · exact Or.inl (Or.inr hp)
  refine ⟨?_, ?_, ?_⟩
  · apply hfrees.shaped h.shaped (Set.subset_insert r roots)
    · exact fun p hp => (h.of_free h₀ (hset hp)).1
    · exact fun p hp => (h.of_free h₀ (hset hp)).2
  · constructor
    case kernelRoot => exact hfrees.kernelRoot.trans h.kernelRoot
    case nxeEnabled => exact hfrees.nxeEnabled.trans h.nxeEnabled
    case managed => exact hfrees.managed.trans h.managed
    case answered => exact (Answered.of_eq _ h.releases).trans (hfrees.answered.mono hset)
    case views => exact h.views.trans (hfrees.views roots)
    case tables =>
      intro r' hr'
      unfold cleanUp
      rw [hfrees.memory]
      exact h.tables r' hr'
  · show (destroyUserAddressSpace r (releasePages s.userPages s.machine)).allocator.free = _
    rw [hfrees.free, ← h.ledger, Set.union_assoc, Set.union_comm { p | p ∈ s.userPages }]

end CleanUp

section Files
open Vfs

def Tidy (t : Tables) : Prop := ∀ i, (t.files i).inUse = false → t.files i = .empty

theorem setFile_setFile (t : Tables) (fd : Nat) (slot slot' : FileDescriptor) :
    (t.setFile fd slot).setFile fd slot' = t.setFile fd slot' := by
  unfold Tables.setFile
  rw [Function.update_idem]

theorem setFile_self {t : Tables} {fd : Nat} {slot : FileDescriptor} (h : t.files fd = slot) :
    t.setFile fd slot = t := by
  unfold Tables.setFile
  rw [← h, Function.update_eq_self]

theorem setFile_get (t : Tables) (fd : Nat) (slot : FileDescriptor) :
    (t.setFile fd slot).files fd = slot := Function.update_self ..

theorem valid_setFile {t : Tables} {fd : Nat} {slot : FileDescriptor} (hlow : 3 ≤ fd) (hhigh : fd < 64)
    (hslot : slot.inUse = true) : validFileDescriptor (t.setFile fd slot) fd = some fd := by
  have hrange : ¬ ((fd : Int) < 3 ∨ (fd : Int) ≥ 64) := by omega
  have huse : ((t.setFile fd slot).files fd).inUse = true := by
    rw [setFile_get]
    exact hslot
  unfold validFileDescriptor
  rw [if_neg hrange, Int.toNat_natCast, if_pos huse]

theorem readAll_files (vfs : Nat → Backend) {t : Tables} {fd : Nat} (hlow : 3 ≤ fd) (hhigh : fd < 64)
    (size turns call : Nat) (soFar : List UInt8) {slot : FileDescriptor} (hslot : slot.inUse = true) :
    ∃ slot' : FileDescriptor, slot'.inUse = true ∧
      (readAll vfs fd size turns call soFar (t.setFile fd slot)).2 = t.setFile fd slot' := by
  -- reading moves the offset of the descriptor and nothing else
  induction turns generalizing call soFar slot with
  | zero => exact ⟨slot, hslot, rfl⟩
  | succ turns ih =>
    unfold readAll
    split
    · exact ⟨slot, hslot, rfl⟩
    rcases read_cases (vfs call) fd true (size - soFar.length) (t.setFile fd slot) with
      ⟨status, hread⟩ | ⟨i, bytes, hvalid, -, -, hread⟩
    · rw [hread]
      exact ⟨slot, hslot, rfl⟩
    · rw [valid_setFile hlow hhigh hslot] at hvalid
      obtain rfl := Option.some.inj hvalid
      rw [hread, setFile_setFile]
      have huse : (FileDescriptor.mk ((t.setFile fd slot).files fd).inUse
          ((t.setFile fd slot).files fd).path
          ((((t.setFile fd slot).files fd).offset + bytes.length) % 2 ^ 32)
          ((t.setFile fd slot).files fd).size).inUse = true := by
        show ((t.setFile fd slot).files fd).inUse = true
        rw [setFile_get]
        exact hslot
      dsimp only
      split
      · exact ⟨_, huse, rfl⟩
      · exact ih (call + 1) (soFar ++ bytes) huse

theorem close_setFile {t : Tables} {fd : Nat} {slot : FileDescriptor} (hlow : 3 ≤ fd) (hhigh : fd < 64)
    (hslot : slot.inUse = true) (hempty : t.files fd = .empty) :
    (close fd (t.setFile fd slot)).2 = t := by
  unfold close
  rw [valid_setFile hlow hhigh hslot]
  show (t.setFile fd slot).setFile fd .empty = t
  rw [setFile_setFile, setFile_self hempty]

theorem readImage_spec (vfs : Nat → Backend) (path : Option Fat32.CString) (heap : Heap) {t : Tables}
    (ht : Tidy t) :
    heap.Extends (readImage vfs path heap t).2.1 ∧ (readImage vfs path heap t).2.2 = t := by
  unfold readImage
  rcases openFile_cases (vfs 0) path t with ⟨status, hopen, -⟩ | ⟨fd, safePath, size, -, -, hlowest, hopen⟩
  · rw [hopen]
    exact ⟨.refl heap, rfl⟩
  · rw [hopen]
    obtain ⟨hlow, hhigh, hunused, -⟩ := lowestFree_some hlowest
    have hempty := ht fd hunused
    have hslot : (FileDescriptor.mk true safePath 0 size).inUse = true := rfl
    dsimp only
    split
    · exact ⟨.refl heap, close_setFile hlow (by omega) hslot hempty⟩
    split
    · exact ⟨.refl heap, close_setFile hlow (by omega) hslot hempty⟩
    rename_i isDirectory fileSize _ _
    have hextends := (Heap.Extends.refl heap).allocate fileSize
    split
    · rename_i hallocate
      rw [hallocate] at hextends
      exact ⟨hextends, close_setFile hlow (by omega) hslot hempty⟩
    rename_i hallocate
    rw [hallocate] at hextends
    obtain ⟨slot', hslot', hfiles⟩ := readAll_files vfs (t := t) hlow (by omega) fileSize fileSize 1 []
      hslot
    split
    · rename_i hread
      rw [hread] at hfiles
      refine ⟨hextends, ?_⟩
      dsimp only at hfiles ⊢
      rw [hfiles]
      exact close_setFile hlow (by omega) hslot' hempty
    · rename_i hread
      rw [hread] at hfiles
      refine ⟨hextends, ?_⟩
      dsimp only at hfiles ⊢
      rw [hfiles]
      exact close_setFile hlow (by omega) hslot' hempty

end Files

section Load
variable {k : Kernel} {slot : Slot}

theorem planImage_spec (elf : Fat32.Bytes) (size : Nat) {heap heap' : Heap} (h : heap.Extends heap') :
    heap.Extends (planImage elf size heap').2 ∧
      (∀ status, (planImage elf size heap').1 = .error status → status ≠ .ok) ∧
      ∀ image plans, (planImage elf size heap').1 = .ok (image, plans) → ∀ plan ∈ plans, plan.InWindow := by
  unfold planImage
  split
  · rename_i status hplan
    refine ⟨h, ?_, fun _ _ hok => (nomatch hok)⟩
    intro status' hstatus
    obtain rfl := Except.error.inj hstatus
    exact buildLoadPlan_error hplan
  rename_i plans hplans
  split
  · rename_i status hinspect
    refine ⟨h, ?_, fun _ _ hok => (nomatch hok)⟩
    intro status' hstatus
    obtain rfl := Except.error.inj hstatus
    exact inspectElf64_error hinspect
  split
  · refine ⟨h, ?_, fun _ _ hok => (nomatch hok)⟩
    rintro status' ⟨⟩
    decide
  rename_i count hcount
  split
  · refine ⟨h, ?_, fun _ _ hok => (nomatch hok)⟩
    rintro status' ⟨⟩
    decide
  have hextends := h.allocate (count * 8)
  split
  · rename_i hallocate
    rw [hallocate] at hextends
    refine ⟨hextends, ?_, fun _ _ hok => (nomatch hok)⟩
    rintro status' ⟨⟩
    decide
  · rename_i hallocate
    rw [hallocate] at hextends
    refine ⟨hextends, fun _ herror => (nomatch herror), ?_⟩
    intro image' plans' hok
    obtain ⟨-, rfl⟩ := Prod.mk.inj (Except.ok.inj hok)
    exact buildLoadPlan_inWindow hplans

theorem failureStatus_ne_ok (status : ElfStatus) : failureStatus status ≠ .ok := by
  unfold failureStatus
  split
  · decide
  · assumption

def LoadFailed (roots kernel : Set Word) (reference : PhysicalMemory) (k : Kernel) (slot : Slot)
    (result : ElfStatus × Kernel) : Prop :=
  ∃ status m', status ≠ .ok ∧ result = (status, ⟨m', k.heap, k.files, k.table.set slot .unused⟩) ∧
    Shaped m' roots kernel reference ∧ Steady roots k.machine m' ∧
    m'.allocator.free = k.machine.allocator.free

def LoadDone (roots kernel : Set Word) (reference : PhysicalMemory) (k : Kernel) (slot : Slot)
    (result : ElfStatus × Kernel) : Prop :=
  ∃ root stack entry s,
    result = (.ok, ⟨s.machine, k.heap, k.files,
      k.table.set slot (readyProcess (k.table.processes slot) root stack entry)⟩) ∧
    Finished k.machine roots kernel reference root stack s

theorem failLoad_failed {heap : Heap} {status : ElfStatus} {m' : Machine} (hheap : k.heap.Extends heap)
    (hstatus : status ≠ .ok) (hshaped : Shaped m' roots kernel reference)
    (hsteady : Steady roots k.machine m') (hfree : m'.allocator.free = k.machine.allocator.free) :
    LoadFailed roots kernel reference k slot (failLoad k slot status m' heap k.files) := by
  refine ⟨status, m', hstatus, ?_, hshaped, hsteady, hfree⟩
  unfold failLoad
  rw [hheap.rewind]

theorem complete_created {c : Word} (h₀ : Shaped m₀ roots kernel reference) (hc : c ∈ m₀.allocator.free)
    (hshaped : Shaped m (insert c roots) kernel reference) (hsteady : Steady roots m₀ m)
    (hreleases : m.allocator.releases = m₀.allocator.releases)
    (hfree : m.allocator.free = m₀.allocator.free \ {c}) (hheld : held m.memory c = {c})
    (hempty : ∀ k : PageKey, k.InUserSlot → view m.memory c k = none) :
    Complete m₀ roots kernel reference c ⟨m, []⟩ := by
  refine ⟨?_, .empty hempty⟩
  constructor
  case shaped => exact hshaped
  case fresh =>
    intro hmem
    exact (h₀.taken c hmem c (h₀.mem_held c)).2.1 hc
  case kernelRoot => exact hsteady.kernelRoot
  case nxeEnabled => exact hsteady.nxeEnabled
  case managed => exact hsteady.managed
  case releases => exact hreleases
  case views => exact hsteady.views
  case tables => exact hsteady.tables
  case ledger =>
    ext q
    show (q ∈ m.allocator.free ∨ q ∈ held m.memory c) ∨ q ∈ ([] : List Word) ↔ q ∈ m₀.allocator.free
    rw [hfree, hheld]
    constructor
    · rintro ((hq | hq) | hq)
      · exact hq.1
      · rw [Set.mem_singleton_iff.mp hq]
        exact hc
      · cases hq
    · intro hq
      by_cases hqc : q = c
      · exact Or.inl (Or.inr hqc)
      · exact Or.inl (Or.inl ⟨hq, hqc⟩)
  case nodup => exact List.nodup_nil
  case apart => exact fun p hp => (nomatch hp)

theorem buildProcess_cases (h₀ : Shaped k.machine roots kernel reference) (elf : Fat32.Bytes)
    (size : Nat) (image : ElfImageInfo) {plans : List SegmentPagePlan}
    (hplans : ∀ plan ∈ plans, plan.InWindow) {heap : Heap} (hheap : k.heap.Extends heap) :
    LoadFailed roots kernel reference k slot (buildProcess k slot elf size image plans heap k.files) ∨
      LoadDone roots kernel reference k slot (buildProcess k slot elf size image plans heap k.files) := by
  unfold buildProcess
  rcases createUserAddressSpace_spec h₀ with
    ⟨m', hcreate, hshaped, hsteady, hfree⟩ |
      ⟨c, m', hcreate, hc, hshaped, hsteady, hreleases, hfree, hheld, hempty⟩
  · rw [hcreate]
    exact Or.inl (failLoad_failed hheap (by decide) hshaped hsteady hfree)
  · rw [hcreate]
    have hcomplete := complete_created h₀ hc hshaped hsteady hreleases hfree hheld hempty
    have hbuild := wp_iff.mp (buildImage_wp h₀ elf size image.segments hplans hcomplete)
    dsimp only
    generalize (buildImage elf size c image.segments plans).exec ⟨m', []⟩ = result at hbuild
    obtain ⟨outcome, s⟩ := result
    cases outcome with
    | error status =>
      obtain ⟨hshaped', hsteady', hfree'⟩ := cleanUp_spec h₀ (hbuild.2 status rfl)
      exact Or.inl (failLoad_failed hheap (failureStatus_ne_ok status) hshaped' hsteady' hfree')
    | ok stack =>
      refine Or.inr ⟨c, stack, image.entry, s, ?_, hbuild.1 stack rfl⟩
      dsimp only
      rw [hheap.rewind]

/-- `load_process_image` on a process that `allocate` has just handed out. -/
theorem loadProcessImage_cases (h₀ : Shaped k.machine roots kernel reference) (hfiles : Tidy k.files)
    (vfs : Nat → Vfs.Backend) {path : Option Fat32.CString} (hpath : path ≠ none)
    (hstate : (k.table.processes slot).state = .created)
    (hroot : (k.table.processes slot).pageTablePhysical = 0#64)
    (hbase : (k.table.processes slot).kernelStackBase = 0#64)
    (htop : (k.table.processes slot).kernelStackTop = 0#64) :
    LoadFailed roots kernel reference k slot (loadProcessImage vfs path slot k) ∨
      LoadDone roots kernel reference k slot (loadProcessImage vfs path slot k) := by
  have hfresh : ¬ (path = none ∨ (k.table.processes slot).state ≠ .created ∨
      (k.table.processes slot).pageTablePhysical ≠ 0#64 ∨
      (k.table.processes slot).kernelStackBase ≠ 0#64 ∨
      (k.table.processes slot).kernelStackTop ≠ 0#64) := by
    rintro (h | h | h | h | h)
    · exact hpath h
    · exact h hstate
    · exact h hroot
    · exact h hbase
    · exact h htop
  have hsteady := Steady.refl roots k.machine
  unfold loadProcessImage
  dsimp only
  rw [if_neg hfresh]
  obtain ⟨hheap, htables⟩ := readImage_spec vfs path k.heap hfiles
  generalize readImage vfs path k.heap k.files = image at hheap htables
  obtain ⟨bytes, heap, files⟩ := image
  dsimp only at hheap htables
  subst htables
  cases bytes with
  | none => exact Or.inl (failLoad_failed hheap (by decide) h₀ hsteady rfl)
  | some file =>
    obtain ⟨bytes, size⟩ := file
    obtain ⟨hheap', herror, hplans⟩ := planImage_spec (fun i => bytes.getD i 0) size hheap
    dsimp only
    generalize planImage (fun i => bytes.getD i 0) size heap = plan at hheap' herror hplans
    obtain ⟨outcome, heap'⟩ := plan
    cases outcome with
    | error status => exact Or.inl (failLoad_failed hheap' (herror status rfl) h₀ hsteady rfl)
    | ok parts => exact buildProcess_cases h₀ _ size parts.1 (hplans parts.1 parts.2 rfl) hheap'

end Load

end Linux95.User
