import Linux95.Memory.FreePages
import Linux95.Memory.Spaces

/-! `map_user_page` succeeds on a page that is not mapped, as long as three pages are free for its tables. -/

namespace Linux95.Memory
open Base LinkedTables Machine

structure Stocked (n : Nat) (m : Machine) : Prop where
  counted : m.allocator.Counted
  enough : n ≤ m.allocator.freeCount

variable {m : Machine} {roots kernel : Set Word} {reference : PhysicalMemory} {r p pt va physical : Word}
variable {path : List Index} {i : Index} {n : Nat}

theorem Stocked.mono {n' : Nat} (h : Stocked n m) (hle : n' ≤ n) : Stocked n' m := ⟨h.counted, hle.trans h.enough⟩

theorem Stocked.take (h : Stocked (n + 1) m) : ∃ p allocator, m.allocator.allocatePage = (some p, allocator) ∧
    p ∈ m.allocator.free ∧ Stocked n { m with allocator := allocator } := by
  have henough := h.enough
  rcases h.counted.allocatePage with ⟨hzero, -⟩ | ⟨p, allocator, htaken, hp, -, -, hcounted, hless⟩
  · omega
  · refine ⟨p, allocator, htaken, hp, hcounted, ?_⟩
    change n ≤ allocator.freeCount
    omega

theorem child_stocked (h : Shaped m roots kernel reference) (hr : r ∈ roots) (hpath : UserPath (path ++ [i]))
    (hp : node m.memory r path = some p) (hstock : Stocked (n + 1) m) :
    ∃ c m', m.child p i = (some c, m') ∧ Stocked n m' := by
  by_cases hpresent : has (m.memory p i) pagePresent = true
  · rcases h.inner r hr path i p hpath hp with hzero | ⟨c, hc, hentry⟩
    · rw [hzero] at hpresent
      exact absurd hpresent (by decide)
    · refine ⟨c, m, ?_, hstock.mono (Nat.le_succ n)⟩
      rw [child_present hpresent, hentry, link_tableEntry (Allocator.managed_mask hc)]
  · obtain ⟨c, allocator, htaken, -, hleft⟩ := hstock.take
    refine ⟨c, attach m allocator p i c, ?_, hleft.counted, hleft.enough⟩
    unfold child allocateTable Machine.allocatePage
    rw [if_neg hpresent, htaken]
    rfl

theorem writePte_stocked {flags : Word} (hpt : node m.memory r (pageKey va).path = some pt)
    (hview : view m.memory r (pageKey va) = none) (hstock : Stocked n m) :
    ∃ m', m.writePte pt va physical flags = (true, m') ∧ Stocked n m' := by
  -- the entry of a page that is not mapped is free
  unfold view at hview
  rw [hpt] at hview
  have hempty : m.memory pt (ptIndex va) = 0#64 := by
    by_contra hfull
    exact Option.some_ne_none _ ((if_neg hfull).symm.trans hview)
  have habsent : ¬ has (m.memory pt (ptIndex va)) pagePresent = true := by
    rw [hempty]
    decide
  unfold writePte
  rw [if_neg habsent]
  exact ⟨_, rfl, hstock.counted, hstock.enough⟩

theorem Shaped.root_ne_invalid (h : Shaped m roots kernel reference) (hr : r ∈ roots) : r ≠ invalidAddress := by
  rintro rfl
  have hmanaged := (h.taken _ hr _ (h.mem_held invalidAddress)).1
  exact absurd (Allocator.managed_mask hmanaged) (by decide)

theorem mapUserPage_stocked (h : Shaped m roots kernel reference) (hr : r ∈ roots) (hk : (pageKey va).InUserSlot)
    (hva : isPageAligned va = true) (hphysical : isPageAligned physical = true)
    (hcanonical : isCanonicalUserAddress va = true) (hnxe : m.nxeEnabled = true)
    (hview : view m.memory r (pageKey va) = none) (hstock : Stocked (n + 3) m) (writable executable : Bool) :
    ∃ m', m.mapUserPage r va physical writable executable = (true, m') ∧ Stocked n m' := by
  have hpath : UserPath [pml4Index va, pdptIndex va, pdIndex va] := PageKey.userPath hk
  have hpath₂ : UserPath [pml4Index va, pdptIndex va] := UserPath.initial (i := pdIndex va) hpath
  have hpath₁ : UserPath [pml4Index va] := UserPath.initial (i := pdptIndex va) hpath₂
  have hguard : ¬(r = invalidAddress ∨ (!isPageAligned va) = true ∨ (!isPageAligned physical) = true ∨
      (!isCanonicalUserAddress va) = true) := by
    rw [hva, hphysical, hcanonical]
    exact fun hbad => h.root_ne_invalid hr (hbad.resolve_right (by decide))
  have hflags : makeUserPageFlags writable executable m.nxeEnabled = some (leafFlags writable executable) := by
    unfold makeUserPageFlags
    rw [hnxe, Bool.not_true, Bool.and_false]
    rfl
  -- one page for each of the three levels below the root
  have hroot : node m.memory r [] = some r := rfl
  obtain ⟨pdpt, m₁, hchild₁, hstock₁⟩ := child_stocked h hr hpath₁ hroot hstock
  have step₁ := child_spec h hr hpath₁ hroot
  rw [hchild₁] at step₁
  obtain ⟨h₁, -, hviews₁, hnode₁⟩ := step₁
  obtain ⟨pd, m₂, hchild₂, hstock₂⟩ := child_stocked h₁ hr hpath₂ (hnode₁ pdpt rfl) hstock₁
  have step₂ := child_spec h₁ hr hpath₂ (hnode₁ pdpt rfl)
  rw [hchild₂] at step₂
  obtain ⟨h₂, -, hviews₂, hnode₂⟩ := step₂
  obtain ⟨pt, m₃, hchild₃, hstock₃⟩ := child_stocked h₂ hr hpath (hnode₂ pd rfl) hstock₂
  have step₃ := child_spec h₂ hr hpath (hnode₂ pd rfl)
  rw [hchild₃] at step₃
  obtain ⟨-, -, hviews₃, hnode₃⟩ := step₃
  have hviews := (hviews₁.trans hviews₂).trans hviews₃
  have hwritten : ∃ m', m₃.writePte pt va physical (leafFlags writable executable) = (true, m') ∧ Stocked n m' :=
    writePte_stocked (hnode₃ pt rfl) ((hviews r hr _ hk).trans hview) hstock₃
  unfold mapUserPage
  rw [if_neg hguard, hflags]
  dsimp only
  rw [hchild₁]
  dsimp only
  rw [hchild₂]
  dsimp only
  rw [hchild₃]
  exact hwritten

theorem createUserAddressSpace_stocked (hroot : m.rootPhysical ∉ m.allocator.free)
    (himage : has (m.memory m.rootPhysical imageSlot) pagePresent = false)
    (hstack : has (m.memory m.rootPhysical stackSlot) pagePresent = false) (hstock : Stocked (n + 1) m) :
    ∃ c m', m.createUserAddressSpace = (some c, m') ∧ Stocked n m' := by
  obtain ⟨c, allocator, htaken, hc, hleft⟩ := hstock.take
  refine ⟨c, fillPage m allocator c (rootPage (m.memory m.rootPhysical)), ?_, hleft.counted, hleft.enough⟩
  unfold rootPhysical at hroot himage hstack
  have hne : m.kernelRoot &&& addressMask ≠ c := fun heq => hroot (heq ▸ hc)
  have hslots : ¬(has (m.memory (m.kernelRoot &&& addressMask) imageSlot) pagePresent ||
      has (m.memory (m.kernelRoot &&& addressMask) stackSlot) pagePresent) = true := by
    rw [himage, hstack]
    decide
  unfold createUserAddressSpace allocateTable Machine.allocatePage
  rw [htaken]
  simp only [writeTable, rootPhysical, Function.update_of_ne hne, Function.update_idem]
  rw [if_neg hslots]
  rfl

structure Orderly (m m' : Machine) : Prop where
  counted : m.allocator.Counted → m'.allocator.Counted
  kernelRoot : m'.kernelRoot = m.kernelRoot
  nxeEnabled : m'.nxeEnabled = m.nxeEnabled

section Orderly
variable {m' m'' : Machine}

theorem Orderly.refl (m : Machine) : Orderly m m := ⟨id, rfl, rfl⟩

theorem Orderly.trans (h : Orderly m m') (h' : Orderly m' m'') : Orderly m m'' :=
  ⟨fun hm => h'.counted (h.counted hm), h'.kernelRoot.trans h.kernelRoot, h'.nxeEnabled.trans h.nxeEnabled⟩

theorem foldl_orderly {α : Type} {f : Machine → α → Machine} (h : ∀ m a, Orderly m (f m a)) (l : List α) (m : Machine) :
    Orderly m (l.foldl f m) := by
  induction l generalizing m with
  | nil => exact .refl m
  | cons a l ih => exact (h m a).trans (ih (f m a))

theorem allocatePage_orderly (m : Machine) : Orderly m m.allocatePage.2 := by
  refine ⟨fun hcounted => ?_, rfl, rfl⟩
  change m.allocator.allocatePage.2.Counted
  rcases hcounted.allocatePage with ⟨-, hnone⟩ | ⟨p, allocator, hsome, -, -, -, hcounted', -⟩
  · rw [hnone]
    exact hcounted
  · rw [hsome]
    exact hcounted'

theorem freePage_orderly (m : Machine) (p : Word) : Orderly m (m.freePage p) := ⟨fun h => h.freePage p, rfl, rfl⟩

theorem writeTable_orderly (m : Machine) (table : Word) (entries : Index → Word) :
    Orderly m (m.writeTable table entries) := ⟨id, rfl, rfl⟩

theorem allocateTable_orderly (m : Machine) : Orderly m m.allocateTable.2 := by
  have hpage := allocatePage_orderly m
  unfold allocateTable
  generalize m.allocatePage = result at hpage
  obtain ⟨page, m'⟩ := result
  cases page with
  | none => exact hpage
  | some p => exact hpage.trans (writeTable_orderly m' p _)

theorem child_orderly (m : Machine) (p : Word) (i : Index) : Orderly m (m.child p i).2 := by
  have htable := allocateTable_orderly m
  unfold child
  dsimp only
  split
  · exact .refl m
  · generalize m.allocateTable = result at htable
    obtain ⟨table, m'⟩ := result
    cases table with
    | none => exact htable
    | some c => exact htable.trans ⟨id, rfl, rfl⟩

theorem writePte_orderly (m : Machine) (pt va physical flags : Word) : Orderly m (m.writePte pt va physical flags).2 := by
  unfold writePte
  split
  · exact .refl m
  · exact ⟨id, rfl, rfl⟩

theorem mapUserPage_orderly (m : Machine) (r va physical : Word) (writable executable : Bool) :
    Orderly m (m.mapUserPage r va physical writable executable).2 := by
  unfold mapUserPage
  split
  · exact .refl m
  cases makeUserPageFlags writable executable m.nxeEnabled with
  | none => exact .refl m
  | some flags =>
    have hchild₁ := child_orderly m r (pml4Index va)
    dsimp only
    generalize m.child r (pml4Index va) = result₁ at hchild₁
    obtain ⟨found₁, m₁⟩ := result₁
    cases found₁ with
    | none => exact hchild₁
    | some pdpt =>
      have hchild₂ := hchild₁.trans (child_orderly m₁ pdpt (pdptIndex va))
      dsimp only
      generalize m₁.child pdpt (pdptIndex va) = result₂ at hchild₂
      obtain ⟨found₂, m₂⟩ := result₂
      cases found₂ with
      | none => exact hchild₂
      | some pd =>
        have hchild₃ := hchild₂.trans (child_orderly m₂ pd (pdIndex va))
        dsimp only
        generalize m₂.child pd (pdIndex va) = result₃ at hchild₃
        obtain ⟨found₃, m₃⟩ := result₃
        cases found₃ with
        | none => exact hchild₃
        | some pt => exact hchild₃.trans (writePte_orderly m₃ pt va physical flags)

theorem releaseTable_orderly (level : Nat) (p : Word) (m : Machine) : Orderly m (releaseTable level p m) := by
  induction level using Nat.strong_induction_on generalizing p m with
  | _ level ih =>
    unfold releaseTable
    split
    · exact .refl m
    rcases level with _ | _ | level
    · exact freePage_orderly m p
    · exact freePage_orderly m p
    · refine Orderly.trans (foldl_orderly (fun m' i => ?_) (List.finRange 512) m) (freePage_orderly _ p)
      dsimp only
      split
      · exact ih (level + 1) (by omega) _ m'
      · exact .refl m'

theorem createUserAddressSpace_orderly (m : Machine) : Orderly m m.createUserAddressSpace.2 := by
  have htable := allocateTable_orderly m
  unfold createUserAddressSpace
  generalize m.allocateTable = result at htable
  obtain ⟨table, m'⟩ := result
  cases table with
  | none => exact htable
  | some c =>
    dsimp only
    split
    · exact htable.trans ((writeTable_orderly m' c _).trans (freePage_orderly _ c))
    · exact htable.trans (writeTable_orderly m' c _)

theorem releaseSlot_orderly (m : Machine) (entry : Word) (here : Bool) :
    Orderly m (if here then releaseTable 3 (entry &&& addressMask) m else m) := by
  split
  · exact releaseTable_orderly 3 _ m
  · exact .refl m

theorem destroyUserAddressSpace_orderly (r : Word) (m : Machine) : Orderly m (m.destroyUserAddressSpace r) := by
  unfold destroyUserAddressSpace
  split
  · exact .refl m
  · exact ((releaseSlot_orderly m _ _).trans (releaseSlot_orderly _ _ _)).trans (freePage_orderly _ r)

end Orderly

end Linux95.Memory
