import Linux95.User.Loads

/-! What `reap_one` gives back: the frames that the range scan finds, the tables, and the kernel
stack. -/

namespace Linux95.User
open Base LinkedTables Memory Machine

variable {m : Machine} {roots kernel : Set Word} {reference : PhysicalMemory} {r : Word}

section Lookup

theorem Shaped.view_leaf (h : Shaped m roots kernel reference) (hr : r ∈ roots) {k : PageKey}
    (hk : k.InUserSlot) {e : Word} (he : view m.memory r k = some e) : ∃ l : Leaf, e = l.entry := by
  unfold view at he
  obtain ⟨pt, hpt, hentry⟩ := Option.bind_eq_some_iff.mp he
  rcases h.leaf r hr k.path pt (PageKey.userPath hk) rfl hpt k.pt with hzero | ⟨l, hl⟩
  · rw [if_pos hzero] at hentry
    cases hentry
  · rw [hl, if_neg l.entry_ne_zero] at hentry
    exact ⟨l, (Option.some.inj hentry).symm⟩

theorem lookupUserPage_spec (h : Shaped m roots kernel reference) (hr : r ∈ roots) {m₁ : Machine}
    (hmemory : m₁.memory = m.memory) {va : Word} (hk : (pageKey va).InUserSlot)
    (haligned : va &&& 0xFFF#64 = 0#64) :
    lookupUserPage m₁ r va = (view m.memory r (pageKey va)).map (· &&& addressMask) := by
  unfold lookupUserPage
  rw [hmemory, queryPage_user h hr hk]
  cases he : view m.memory r (pageKey va) with
  | none => rfl
  | some e =>
    obtain ⟨l, rfl⟩ := Shaped.view_leaf h hr hk he
    have hphysical : (l.entry &&& addressMask ||| va &&& 0xFFF#64) = l.entry &&& addressMask := by
      rw [haligned, BitVec.or_zero]
    unfold leafInfo
    dsimp only
    rw [l.restrict]
    show some (l.entry &&& addressMask ||| va &&& 0xFFF#64) = some (l.entry &&& addressMask)
    rw [hphysical]

end Lookup

def framesAt (memory : PhysicalMemory) (r : Word) (addresses : List Word) : Set Word :=
  { f | ∃ va ∈ addresses, ∃ e, view memory r (pageKey va) = some e ∧ f = e &&& addressMask }

theorem releaseMappedPages_spec (h : Shaped m roots kernel reference) (hr : r ∈ roots)
    {pages : List Word} (hfurnished : Furnished m.memory r pages)
    (hmanaged : ∀ f ∈ frames m.memory r, f ∈ m.allocator.managed) (addresses : List Word)
    (hslots : ∀ va ∈ addresses, (pageKey va).InUserSlot ∧ va &&& 0xFFF#64 = 0#64)
    (hkeys : addresses.Pairwise fun va va' => pageKey va ≠ pageKey va') (m₁ : Machine)
    (hmemory : m₁.memory = m.memory) (hsame : m₁.allocator.managed = m.allocator.managed)
    (hused : ∀ f ∈ framesAt m.memory r addresses, f ∉ m₁.allocator.free) :
    Frees (framesAt m.memory r addresses) m₁ (addresses.foldl (releaseMappedPage r) m₁) := by
  -- the loop of `release_mapped_range` frees each frame that it finds, once
  induction addresses generalizing m₁ with
  | nil =>
    have hempty : framesAt m.memory r [] = ∅ := by
      rw [Set.eq_empty_iff_forall_notMem]
      rintro f ⟨va, hva, -⟩
      cases hva
    rw [hempty]
    exact .refl m₁
  | cons va addresses ih =>
    obtain ⟨hfirst, hkeys⟩ := List.pairwise_cons.mp hkeys
    obtain ⟨hk, haligned⟩ := hslots va List.mem_cons_self
    have hsplit : framesAt m.memory r (va :: addresses) =
        framesAt m.memory r [va] ∪ framesAt m.memory r addresses := by
      ext f
      constructor
      · rintro ⟨va', hva', e, he, rfl⟩
        rcases List.mem_cons.mp hva' with rfl | hva'
        · exact Or.inl ⟨va', List.mem_singleton_self va', e, he, rfl⟩
        · exact Or.inr ⟨va', hva', e, he, rfl⟩
      · rintro (⟨va', hva', e, he, rfl⟩ | ⟨va', hva', e, he, rfl⟩)
        · rw [List.mem_singleton.mp hva'] at he
          exact ⟨va, List.mem_cons_self, e, he, rfl⟩
        · exact ⟨va', List.mem_cons_of_mem va hva', e, he, rfl⟩
    -- an address without a frame is passed over
    have hstep : Frees (framesAt m.memory r [va]) m₁ (releaseMappedPage r m₁ va) := by
      unfold releaseMappedPage
      rw [lookupUserPage_spec h hr hmemory hk haligned]
      cases he : view m.memory r (pageKey va) with
      | none =>
        have hempty : framesAt m.memory r [va] = ∅ := by
          rw [Set.eq_empty_iff_forall_notMem]
          rintro f ⟨va', hva', e, he', -⟩
          rw [List.mem_singleton.mp hva', he] at he'
          cases he'
        rw [hempty]
        exact .refl m₁
      | some e =>
        have hmem : e &&& addressMask ∈ framesAt m.memory r (va :: addresses) :=
          ⟨va, List.mem_cons_self, e, he, rfl⟩
        have hone : framesAt m.memory r [va] = {e &&& addressMask} := by
          ext f
          constructor
          · rintro ⟨va', hva', e', he', rfl⟩
            rw [List.mem_singleton.mp hva', he] at he'
            rw [Option.some.inj he']
            rfl
          · intro hf
            exact ⟨va, List.mem_singleton_self va, e, he, hf⟩
        rw [hone]
        apply frees_freePage
        · rw [hsame]
          exact hmanaged _ ⟨pageKey va, hk, e, he, rfl⟩
        · exact hused _ hmem
    have hrest := ih (fun va' hva' => hslots va' (List.mem_cons_of_mem va hva')) hkeys
      (releaseMappedPage r m₁ va) (hstep.memory.trans hmemory) (hstep.managed.trans hsame) (by
        rintro f ⟨va', hva', e', he', rfl⟩ hfree
        rw [hstep.free] at hfree
        rcases hfree with hfree | ⟨va'', hva'', e'', he'', heq⟩
        · exact hused _ ⟨va', List.mem_cons_of_mem va hva', e', he', rfl⟩ hfree
        · -- The frame of another page is another frame.
          rw [List.mem_singleton.mp hva''] at he''
          have hk' := (hslots va' (List.mem_cons_of_mem va hva')).1
          exact hfirst va' hva' (hfurnished.single _ _ e'' e' hk hk' he'' he' heq.symm))
    rw [hsplit]
    exact hstep.trans hrest

section Scanned

theorem pagesFrom_toNat (first : Word) {count i : Nat} (hroom : first.toNat + count * pageSize < 2 ^ 64)
    (hi : i < count) :
    (first + BitVec.ofNat 64 (i * pageSize)).toNat = first.toNat + i * pageSize := by
  unfold pageSize at hroom ⊢
  rw [BitVec.toNat_add, BitVec.toNat_ofNat]
  omega

theorem scanned_slots : ∀ va ∈ scanned, (pageKey va).InUserSlot ∧ va &&& 0xFFF#64 = 0#64 := by
  have hmask : ∀ va : Word, va.toNat % 4096 = 0 → va &&& 0xFFF#64 = 0#64 := by
    intro va hva
    apply BitVec.eq_of_toNat_eq
    rw [BitVec.toNat_and]
    exact (Nat.and_two_pow_sub_one_eq_mod va.toNat 12).trans hva
  have hbase : userImageBase.toNat = 0x400000000000 := by decide
  have hcount : imagePageCount = 0x100000 := by decide
  have hstack : userStackBase.toNat = 0x7FFFFFEF8000 := by decide
  have hpages : userStackPages = 8 := rfl
  intro va hva
  rcases List.mem_append.mp hva with hva | hva <;> obtain ⟨i, hi, rfl⟩ := List.mem_map.mp hva <;>
    rw [List.mem_range] at hi
  · have hnat := pagesFrom_toNat userImageBase (by rw [hbase, hcount]; decide) hi
    rw [hbase] at hnat
    unfold pageSize at hnat ⊢
    rw [hcount] at hi
    refine ⟨?_, hmask _ (by omega)⟩
    rw [inUserSlot_iff, hnat]
    omega
  · have hnat := pagesFrom_toNat userStackBase (by rw [hstack, hpages]; decide) hi
    rw [hstack] at hnat
    unfold pageSize at hnat ⊢
    rw [hpages] at hi
    refine ⟨?_, hmask _ (by omega)⟩
    rw [inUserSlot_iff, hnat]
    omega

theorem pagesFrom_pairwise (first : Word) {count : Nat}
    (hroom : first.toNat + count * pageSize < 2 ^ 48) :
    (pagesFrom first count).Pairwise fun va va' => pageKey va ≠ pageKey va' := by
  unfold pagesFrom
  rw [List.pairwise_map]
  apply List.Pairwise.imp_of_mem _ List.pairwise_lt_range
  intro i j hi hj hij heq
  rw [List.mem_range] at hi hj
  have hroom' : first.toNat + count * pageSize < 2 ^ 64 := by omega
  rw [pageKey_eq_iff] at heq
  unfold pageNumber at heq
  rw [pagesFrom_toNat first hroom' hi, pagesFrom_toNat first hroom' hj] at heq
  unfold pageSize at hroom heq
  omega

theorem scanned_pairwise : scanned.Pairwise fun va va' => pageKey va ≠ pageKey va' := by
  have hbase : userImageBase.toNat = 0x400000000000 := by decide
  have hcount : imagePageCount = 0x100000 := by decide
  have hstack : userStackBase.toNat = 0x7FFFFFEF8000 := by decide
  have hpages : userStackPages = 8 := rfl
  unfold scanned
  rw [List.pairwise_append]
  refine ⟨pagesFrom_pairwise _ (by rw [hbase, hcount]; decide),
    pagesFrom_pairwise _ (by rw [hstack, hpages]; decide), ?_⟩
  intro va hva va' hva' heq
  obtain ⟨i, hi, rfl⟩ := List.mem_map.mp hva
  obtain ⟨j, hj, rfl⟩ := List.mem_map.mp hva'
  rw [List.mem_range] at hi hj
  rw [pageKey_eq_iff] at heq
  unfold pageNumber at heq
  rw [pagesFrom_toNat userImageBase (by rw [hbase, hcount]; decide) hi,
    pagesFrom_toNat userStackBase (by rw [hstack, hpages]; decide) hj, hbase, hstack] at heq
  rw [hcount] at hi
  rw [hpages] at hj
  unfold pageSize at heq
  omega

end Scanned

/-- The pages that belong to a process: the tables of its space, the frames it maps and its kernel
stack. -/
def Process.pages (memory : PhysicalMemory) (p : Process) : Set Word :=
  { q | p.pageTablePhysical ≠ 0#64 ∧ (q ∈ held memory p.pageTablePhysical ∨
    q ∈ frames memory p.pageTablePhysical ∨ q = hhdmToPhysical p.kernelStackBase) }

/-- A loaded process: the mappings are where the reaper looks, and no page serves twice. -/
structure Loaded (memory : PhysicalMemory) (p : Process) : Prop where
  furnished : ∃ pages, Furnished memory p.pageTablePhysical pages
  frames_held : ∀ f ∈ frames memory p.pageTablePhysical, f ∉ held memory p.pageTablePhysical
  stack_held : hhdmToPhysical p.kernelStackBase ∉ held memory p.pageTablePhysical
  stack_frames : hhdmToPhysical p.kernelStackBase ∉ frames memory p.pageTablePhysical
  stack : p.kernelStackBase ≠ 0#64

/-- Reaping a process frees its pages, each of them once. -/
theorem reapMachine_spec {p : Process} (h : Shaped m roots kernel reference)
    (hr : p.pageTablePhysical ∈ roots) (hzero : p.pageTablePhysical ≠ 0#64) (hloaded : Loaded m.memory p)
    (hused : ∀ q ∈ p.pages m.memory, q ∈ m.allocator.managed ∧ q ∉ m.allocator.free ∧ q ∉ kernel)
    (hothers : ∀ f ∈ frames m.memory p.pageTablePhysical, ∀ r' ∈ roots, f ∉ held m.memory r') :
    Frees (p.pages m.memory) m (reapMachine p m) := by
  obtain ⟨pages, hfurnished⟩ := hloaded.furnished
  have hframe : ∀ f ∈ frames m.memory p.pageTablePhysical, f ∈ p.pages m.memory :=
    fun f hf => ⟨hzero, Or.inr (Or.inl hf)⟩
  have hstack : hhdmToPhysical p.kernelStackBase ∈ p.pages m.memory := ⟨hzero, Or.inr (Or.inr rfl)⟩
  have hall : framesAt m.memory p.pageTablePhysical scanned = frames m.memory p.pageTablePhysical := by
    ext f
    constructor
    · rintro ⟨va, hva, e, he, rfl⟩
      exact ⟨pageKey va, (scanned_slots va hva).1, e, he, rfl⟩
    · rintro ⟨k, hk, e, he, rfl⟩
      obtain ⟨va, hva, rfl⟩ := hfurnished.scanned k e hk he
      exact ⟨va, hva, e, he, rfl⟩
  have hscan := releaseMappedPages_spec h hr hfurnished (fun f hf => (hused f (hframe f hf)).1) scanned
    scanned_slots scanned_pairwise m rfl rfl
    (fun f hf => (hused f (hframe f (hall ▸ hf))).2.1)
  rw [hall] at hscan
  have hranges : releaseMappedRange p.pageTablePhysical userStackBase userStackPages
      (releaseMappedRange p.pageTablePhysical userImageBase imagePageCount m) =
      scanned.foldl (releaseMappedPage p.pageTablePhysical) m := by
    unfold releaseMappedRange scanned
    rw [if_neg hzero, if_neg hzero, List.foldl_append]
  have hshaped := hscan.shaped h subset_rfl (fun f hf => (hused f (hframe f hf)).2.2) hothers
  have hdestroy := destroyUserAddressSpace_spec hshaped hr
  have htables := hscan.trans hdestroy
  rw [hscan.memory] at htables
  unfold reapMachine
  dsimp only
  rw [hranges, if_neg hzero, if_neg hloaded.stack]
  have hset : p.pages m.memory = frames m.memory p.pageTablePhysical ∪
      held m.memory p.pageTablePhysical ∪ {hhdmToPhysical p.kernelStackBase} := by
    ext q
    constructor
    · rintro ⟨-, hq | hq | hq⟩
      · exact Or.inl (Or.inr hq)
      · exact Or.inl (Or.inl hq)
      · exact Or.inr hq
    · rintro ((hq | hq) | hq)
      · exact ⟨hzero, Or.inr (Or.inl hq)⟩
      · exact ⟨hzero, Or.inl hq⟩
      · exact ⟨hzero, Or.inr (Or.inr hq)⟩
  rw [hset]
  apply htables.trans
  apply frees_freePage
  · rw [htables.managed]
    exact (hused _ hstack).1
  · rw [htables.free]
    rintro (hfree | hfree | hfree)
    · exact (hused _ hstack).2.1 hfree
    · exact hloaded.stack_frames hfree
    · exact hloaded.stack_held hfree

end Linux95.User
