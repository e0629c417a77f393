import Linux95.User.ElfArithmetic
import Linux95.User.Loads
import Mathlib.Data.List.Forall2

/-! What a loaded image maps, and what its pages hold. -/

namespace Linux95.User
open Base LinkedTables Fat32 Memory Machine LoadM

variable {m₀ : Machine} {roots kernel : Set Word} {reference : PhysicalMemory} {r p : Word} {s : Loading}

structure ImagePage where
  address : Nat
  writable : Bool
  executable : Bool
  bytes : Bytes

def ImagePage.key (page : ImagePage) : PageKey := pageKey (BitVec.ofNat 64 page.address)

structure Placed (memory : PhysicalMemory) (r : Word) (page : ImagePage) (frame : Word) : Prop where
  inUserSlot : page.key.InUserSlot
  mapped : view memory r page.key = some (Leaf.entry ⟨frame, page.writable, page.executable⟩)
  holds : memory frame = pageWords page.bytes

structure Shows (memory : PhysicalMemory) (r : Word) (pages : List ImagePage) (frames : List Word) : Prop where
  placed : List.Forall₂ (Placed memory r) pages frames
  only : ∀ k e, k.InUserSlot → view memory r k = some e → ∃ page ∈ pages, page.key = k

theorem placed_congr {memory memory' : PhysicalMemory} {pages : List ImagePage} {frames : List Word}
    (h : List.Forall₂ (Placed memory r) pages frames)
    (hkeep : ∀ page frame, frame ∈ frames → Placed memory r page frame → Placed memory' r page frame) :
    List.Forall₂ (Placed memory' r) pages frames := by
  rw [List.forall₂_iff_zip] at h ⊢
  exact ⟨h.1, fun hmem => hkeep _ _ (List.of_mem_zip hmem).2 (h.2 hmem)⟩

theorem Shows.congr {memory memory' : PhysicalMemory} {pages : List ImagePage} {frames : List Word}
    (h : Shows memory r pages frames) (hviews : ∀ k : PageKey, k.InUserSlot → view memory' r k = view memory r k)
    (hholds : ∀ f ∈ frames, memory' f = memory f) : Shows memory' r pages frames := by
  constructor
  · refine placed_congr h.placed fun page frame hframe hplaced => ⟨hplaced.inUserSlot, ?_, ?_⟩
    · rw [hviews _ hplaced.inUserSlot]
      exact hplaced.mapped
    · rw [hholds frame hframe]
      exact hplaced.holds
  · intro k e hk he
    exact h.only k e hk ((hviews k hk).symm.trans he)

theorem forall₂_snoc {α β : Type} {R : α → β → Prop} {as : List α} {bs : List β} {a : α} {b : β}
    (h : List.Forall₂ R as bs) (hlast : R a b) : List.Forall₂ R (as ++ [a]) (bs ++ [b]) :=
  List.rel_append h (.cons hlast .nil)

structure Holds (m₀ : Machine) (roots kernel : Set Word) (reference : PhysicalMemory) (r : Word)
    (pages : List ImagePage) (s : Loading) : Prop where
  built : Built m₀ roots kernel reference r s
  shows : Shows s.machine.memory r pages s.userPages

structure Pending (m₀ : Machine) (roots kernel : Set Word) (reference : PhysicalMemory) (r : Word)
    (pages : List ImagePage) (p : Word) (s : Loading) : Prop where
  built : Built m₀ roots kernel reference r s
  shows : ∃ old, s.userPages = old ++ [p] ∧ Shows s.machine.memory r pages old

section Steps
variable {pages : List ImagePage}

theorem Pending.mem (h : Pending m₀ roots kernel reference r pages p s) : p ∈ s.userPages := by
  obtain ⟨old, hpages, -⟩ := h.shows
  rw [hpages]
  exact List.mem_append_right old (List.mem_singleton_self p)

theorem Holds.take {allocator : Allocator} (h : Holds m₀ roots kernel reference r pages s)
    (hp : p ∈ s.machine.allocator.free) (hfree : allocator.free = s.machine.allocator.free \ {p})
    (hmanaged : allocator.managed = s.machine.allocator.managed)
    (hreleases : allocator.releases = s.machine.allocator.releases) :
    Pending m₀ roots kernel reference r pages p ⟨{ s.machine with allocator := allocator }, s.userPages ++ [p]⟩ :=
  ⟨h.built.take hp hfree hmanaged hreleases, s.userPages, rfl, h.shows⟩

theorem takePage_holds (h : Holds m₀ roots kernel reference r pages s) :
    wp takePage (fun p s' => Pending m₀ roots kernel reference r pages p s') (fun _ _ => True) s := by
  exact wp_takePage trivial fun _ _ hp hfree hmanaged hreleases => h.take hp hfree hmanaged hreleases

theorem Pending.fill (h₀ : Shaped m₀ roots kernel reference) (h : Pending m₀ roots kernel reference r pages p s)
    (contents : Index → Word) :
    Pending m₀ roots kernel reference r pages p { s with machine := s.machine.writeTable p contents } := by
  -- the taken page is none of those that are mapped
  obtain ⟨hbuilt, hviews⟩ := h.built.fill h₀ h.mem contents
  obtain ⟨old, hpages, hshows⟩ := h.shows
  refine ⟨hbuilt, old, hpages, hshows.congr (hviews r (Set.mem_insert r roots)) fun f hf => ?_⟩
  have hnodup := h.built.nodup
  rw [hpages, List.nodup_append] at hnodup
  exact Function.update_of_ne (hnodup.2.2 f hf p (List.mem_singleton_self p)) _ _

theorem fillPage_holds (h₀ : Shaped m₀ roots kernel reference) (h : Pending m₀ roots kernel reference r pages p s)
    (contents : Index → Word) :
    wp (LoadM.fillPage p contents)
      (fun _ s' => Pending m₀ roots kernel reference r pages p s' ∧ s'.machine.memory p = contents) (fun _ _ => True) s :=
  ⟨h.fill h₀ contents, Function.update_self ..⟩

theorem Pending.map {page : ImagePage} {result : Bool × Machine} (h : Pending m₀ roots kernel reference r pages p s)
    (hk : page.key.InUserSlot) (hholds : s.machine.memory p = pageWords page.bytes)
    (houtcome : Outcome (insert r roots) kernel reference r page.key ⟨p, page.writable, page.executable⟩ s.machine result)
    (hkept : ∀ q, q ∉ s.machine.allocator.free ∪ held s.machine.memory r → result.2.memory q = s.machine.memory q)
    (hok : result.1 = true) :
    Holds m₀ roots kernel reference r (pages ++ [page]) { s with machine := result.2 } := by
  have hr : r ∈ insert r roots := Set.mem_insert r roots
  have hbuilt := h.built.map houtcome
  obtain ⟨old, hpages, hshows⟩ := h.shows
  have hviews := houtcome.views
  rw [hok] at hviews
  obtain ⟨hnone, hviews⟩ := hviews
  have hsame : ∀ f ∈ s.userPages, result.2.memory f = s.machine.memory f := by
    intro f hf
    obtain ⟨hfree, hheld⟩ := h.built.apart f hf
    exact hkept f fun hmem => hmem.elim hfree hheld
  have hold : ∀ k : PageKey, k.InUserSlot → k ≠ page.key → view result.2.memory r k = view s.machine.memory r k := by
    intro k hk' hne
    rw [hviews r hr k hk', if_neg fun hat => hne hat.2]
  refine ⟨hbuilt, ?_⟩
  show Shows result.2.memory r (pages ++ [page]) s.userPages
  rw [hpages]
  constructor
  · refine forall₂_snoc (placed_congr hshows.placed fun page' frame hframe hplaced => ?_) ?_
    · have hne : page'.key ≠ page.key := by
        intro heq
        have hmapped := hplaced.mapped
        rw [heq, hnone] at hmapped
        cases hmapped
      have hmem : frame ∈ s.userPages := by
        rw [hpages]
        exact List.mem_append_left [p] hframe
      exact ⟨hplaced.inUserSlot, (hold _ hplaced.inUserSlot hne).trans hplaced.mapped,
        (hsame frame hmem).trans hplaced.holds⟩
    · refine ⟨hk, ?_, (hsame p h.mem).trans hholds⟩
      rw [hviews r hr _ hk, if_pos ⟨rfl, rfl⟩]
  · intro k e hk' he
    by_cases hkey : k = page.key
    · exact ⟨page, List.mem_append_right pages (List.mem_singleton_self page), hkey.symm⟩
    · rw [hold k hk' hkey] at he
      obtain ⟨page', hmem, hkey'⟩ := hshows.only k e hk' he
      exact ⟨page', List.mem_append_left [page] hmem, hkey'⟩

theorem mapPage_holds (page : ImagePage) {va : Word} (h : Pending m₀ roots kernel reference r pages p s)
    (hva : va = BitVec.ofNat 64 page.address) (hk : page.key.InUserSlot)
    (hholds : s.machine.memory p = pageWords page.bytes) :
    wp (mapPage r va p page.writable page.executable)
      (fun _ s' => Holds m₀ roots kernel reference r (pages ++ [page]) s') (fun _ _ => True) s := by
  subst hva
  have hr : r ∈ insert r roots := Set.mem_insert r roots
  have houtcome := mapUserPage_spec h.built.shaped hr hk p page.writable page.executable
  have hkept := fun q => @mapUserPage_memory s.machine (insert r roots) kernel reference r q h.built.shaped hr _ hk p
    page.writable page.executable
  have hmap := fun hok => h.map hk hholds houtcome hkept hok
  unfold wp LoadM.mapPage Exec.exec
  simp only [ExceptT.run_mk, StateT.run]
  generalize s.machine.mapUserPage r (BitVec.ofNat 64 page.address) p page.writable page.executable = result at hmap
  obtain ⟨answer, m'⟩ := result
  cases answer with
  | false => trivial
  | true => exact hmap rfl

end Steps

section Loops
variable {pages : List ImagePage} {elf : Bytes} {size : Nat}

def partPage (elf : Bytes) (part : LoadSegment × SegmentPagePlan) (i : Nat) : ImagePage :=
  ⟨part.2.firstPage + i * pageSize, part.2.writable, part.2.executable,
    part.1.page elf (part.2.firstPage + i * pageSize)⟩

def partPages (elf : Bytes) (part : LoadSegment × SegmentPagePlan) : List ImagePage :=
  (List.range part.2.pageCount).map (partPage elf part)

def stackPage (i : Nat) : ImagePage :=
  ⟨userStackTop.toNat - (userStackPages - i) * pageSize, true, false, fun _ => 0⟩

def stackPages : List ImagePage := (List.range userStackPages).map stackPage

structure PartFits (size : Nat) (part : LoadSegment × SegmentPagePlan) : Prop where
  window : part.2.InWindow
  file_lt : part.1.virtualAddress + part.1.fileSize < 2 ^ 64
  inside : part.1.fileOffset + part.1.fileSize ≤ size

theorem pageWords_zero : pageWords (fun _ => 0) = fun _ => 0#64 := by
  funext i
  simp [pageWords, le64, le32]

theorem copyFile_holds (h₀ : Shaped m₀ roots kernel reference) (h : Pending m₀ roots kernel reference r pages p s)
    (hzero : s.machine.memory p = fun _ => 0#64) (hsize : size < 2 ^ 64) {segment : LoadSegment} {v : Nat}
    (hpage : v + pageSize < 2 ^ 64) (hinside : segment.fileOffset + segment.fileSize ≤ size) :
    wp (copyFile elf size segment (segment.virtualAddress + segment.fileSize) v p)
      (fun _ s' => Pending m₀ roots kernel reference r pages p s' ∧
        s'.machine.memory p = pageWords (segment.page elf v)) (fun _ _ => True) s := by
  -- the zeroed page gets the part of the file that belongs there
  unfold copyFile
  dsimp only
  rw [Nat.mod_eq_of_lt hpage]
  generalize hstart : (if v > segment.virtualAddress then v else segment.virtualAddress) = start
  generalize hstop : (if v + pageSize < segment.virtualAddress + segment.fileSize then v + pageSize
    else segment.virtualAddress + segment.fileSize) = stop
  apply wp_ite
  · intro hlt
    have hsource : segment.fileOffset + (start - segment.virtualAddress) < 2 ^ 64 := by
      split at hstart <;> split at hstop <;> omega
    rw [Nat.mod_eq_of_lt hsource]
    apply wp_ite
    · exact fun _ => wp_throw trivial
    · intro _
      rw [← @page_copied elf segment v start stop hstart.symm hstop.symm hlt]
      exact fillPage_holds h₀ h _
  · intro hle
    refine wp_pure ⟨h, ?_⟩
    rw [hzero, ← @page_blank elf segment v start stop hstart.symm hstop.symm hle, pageWords_zero]

theorem loadPage_holds (h₀ : Shaped m₀ roots kernel reference) (hsize : size < 2 ^ 64)
    {part : LoadSegment × SegmentPagePlan} (hpart : PartFits size part) {i : Nat} (hi : i < part.2.pageCount)
    (h : Holds m₀ roots kernel reference r pages s) :
    wp (loadPage elf size r part.1 part.2 (part.1.virtualAddress + part.1.fileSize) i)
      (fun _ s' => Holds m₀ roots kernel reference r (pages ++ [partPage elf part i]) s') (fun _ _ => True) s := by
  obtain ⟨hbase, hlimit⟩ := hpart.window
  have hlast : userImageLimit.toNat = 0x400100000000 := by decide
  have hpage : part.2.firstPage + i * pageSize + pageSize < 2 ^ 64 := by
    rw [hlast] at hlimit
    unfold pageSize at *
    omega
  apply wp_bind (takePage_holds h) _ fun _ _ _ => trivial
  intro p s₁ h₁
  apply wp_bind (fillPage_holds h₀ h₁ _) _ fun _ _ _ => trivial
  rintro - s₂ ⟨h₂, hzero⟩
  rw [Nat.mod_eq_of_lt (show part.2.firstPage + i * pageSize < 2 ^ 64 by omega)]
  apply wp_bind (copyFile_holds h₀ h₂ hzero hsize hpage hpart.inside) _ fun _ _ _ => trivial
  rintro - s₃ ⟨h₃, hholds⟩
  exact mapPage_holds (partPage elf part i) h₃ rfl (plan_page hpart.window hi).1 hholds

theorem loadSegment_holds (h₀ : Shaped m₀ roots kernel reference) (hsize : size < 2 ^ 64)
    {part : LoadSegment × SegmentPagePlan} (hpart : PartFits size part) (h : Holds m₀ roots kernel reference r pages s) :
    wp (loadSegment elf size r part.1 part.2)
      (fun _ s' => Holds m₀ roots kernel reference r (pages ++ partPages elf part) s') (fun _ _ => True) s := by
  have hfile := hpart.file_lt
  unfold loadSegment
  split
  · exact wp_throw trivial
  · rw [checkedAdd_eq (by omega), if_pos hfile]
    dsimp only
    refine wp_forM_progress (I := fun done s' => Holds m₀ roots kernel reference r (pages ++ done.map (partPage elf part)) s')
      ?_ (by rw [List.map_nil, List.append_nil]; exact h)
    intro done i rest hsplit s' hs'
    have hi : i < part.2.pageCount := by
      rw [← List.mem_range, hsplit]
      exact List.mem_append_right done List.mem_cons_self
    rw [List.map_append, List.map_singleton, ← List.append_assoc]
    exact loadPage_holds h₀ hsize hpart hi hs'

theorem stackPage_va {i : Nat} (hi : i < userStackPages) :
    userStackTop - BitVec.ofNat 64 ((userStackPages - i) * pageSize) = BitVec.ofNat 64 (stackPage i).address := by
  have htop : userStackTop.toNat = 0x7FFFFFF00000 := by decide
  apply BitVec.eq_of_toNat_eq
  rw [BitVec.toNat_sub, BitVec.toNat_ofNat, BitVec.toNat_ofNat]
  change _ = (userStackTop.toNat - (userStackPages - i) * pageSize) % 2 ^ 64
  unfold userStackPages at hi ⊢
  unfold pageSize
  rw [htop]
  omega

theorem loadStackPage_holds (h₀ : Shaped m₀ roots kernel reference) {i : Nat} (hi : i < userStackPages)
    (h : Holds m₀ roots kernel reference r pages s) :
    wp (loadStackPage r i) (fun _ s' => Holds m₀ roots kernel reference r (pages ++ [stackPage i]) s')
      (fun _ _ => True) s := by
  have haddress := stackPage_va hi
  apply wp_bind (takePage_holds h) _ fun _ _ _ => trivial
  intro p s₁ h₁
  apply wp_bind (fillPage_holds h₀ h₁ _) _ fun _ _ _ => trivial
  rintro - s₂ ⟨h₂, hzero⟩
  refine mapPage_holds (stackPage i) h₂ haddress ?_ (hzero.trans pageWords_zero.symm)
  unfold ImagePage.key
  rw [← haddress]
  exact (stack_page hi).1

theorem takeStack_holds (h : Holds m₀ roots kernel reference r pages s) :
    wp takeStack (fun stack s' => Pending m₀ roots kernel reference r pages stack ⟨s'.machine, s'.userPages ++ [stack]⟩)
      (fun _ _ => True) s := by
  exact wp_takeStack trivial fun _ _ hp hfree hmanaged hreleases => h.take hp hfree hmanaged hreleases

theorem buildImage_holds (h₀ : Shaped m₀ roots kernel reference) (hsize : size < 2 ^ 64) {segments : List LoadSegment}
    {plans : List SegmentPagePlan} (hparts : ∀ part ∈ segments.zip plans, PartFits size part)
    (h : Holds m₀ roots kernel reference r [] s) :
    wp (buildImage elf size r segments plans)
      (fun stack s' => Pending m₀ roots kernel reference r ((segments.zip plans).flatMap (partPages elf) ++ stackPages) stack
        ⟨s'.machine, s'.userPages ++ [stack]⟩) (fun _ _ => True) s := by
  apply wp_bind _ _ fun _ _ h => h
  · exact fun _ s' => Holds m₀ roots kernel reference r ((segments.zip plans).flatMap (partPages elf)) s'
  · refine wp_forM_progress (I := fun done s' => Holds m₀ roots kernel reference r (done.flatMap (partPages elf)) s') ?_ h
    intro done part rest hsplit s' hs'
    have hmem : part ∈ segments.zip plans := by
      rw [hsplit]
      exact List.mem_append_right done List.mem_cons_self
    rw [List.flatMap_append, List.flatMap_singleton]
    exact loadSegment_holds h₀ hsize (hparts part hmem) hs'
  intro _ s₁ h₁
  apply wp_bind _ _ fun _ _ h => h
  · exact fun _ s' => Holds m₀ roots kernel reference r ((segments.zip plans).flatMap (partPages elf) ++ stackPages) s'
  · refine wp_forM_progress (I := fun done s' => Holds m₀ roots kernel reference r
      ((segments.zip plans).flatMap (partPages elf) ++ done.map stackPage) s') ?_
      (by rw [List.map_nil, List.append_nil]; exact h₁)
    intro done i rest hsplit s' hs'
    have hi : i < userStackPages := by
      rw [← List.mem_range, hsplit]
      exact List.mem_append_right done List.mem_cons_self
    rw [List.map_append, List.map_singleton, ← List.append_assoc]
    exact loadStackPage_holds h₀ hi hs'
  intro _ s₂ h₂
  apply wp_bind (takeStack_holds h₂) _ fun _ _ _ => trivial
  intro stack s₃ h₃
  exact h₃.fill h₀ fun _ => 0#64

end Loops

end Linux95.User
