import Linux95.Memory.BootstrapWalk
import Linux95.Memory.PhysicalRuns

/-! The pages that the allocator hands out are memory: they come from the map of the boot loader. -/

namespace Linux95.Memory
open User (hhdmBase)

def E820Entry.Contains (entry : E820Entry) (i : Nat) : Prop :=
  entry.base.toNat ≤ i * pageSize ∧ (i + 1) * pageSize ≤ entry.limit

namespace PhysicalPages

variable {p : PhysicalPages} {allocated : Set Word} {info : BootInfo} {ram : Nat → UInt8}

theorem foldl_markFreeAt {list : List Nat} {i : Nat}
    (h : (list.foldl PhysicalPages.markFreeAt p).reserved.isUsed i = false) :
    p.reserved.isUsed i = false ∨ ∃ address ∈ list, i = address / pageSize := by
  induction list generalizing p with
  | nil => exact Or.inl h
  | cons address list ih =>
    rcases ih h with hfree | ⟨address', hmem, heq⟩
    · rcases (PageBitmap.markFree_isUsed p.reserved (address / pageSize) i).mp hfree with ⟨heq, -⟩ | hfree
      · exact Or.inr ⟨address, List.mem_cons_self, heq⟩
      · exact Or.inl hfree
    · exact Or.inr ⟨address', List.mem_cons_of_mem _ hmem, heq⟩

theorem freeEntry_reserved {managedEnd : Nat} (hmanaged : managedEnd % pageSize = 0) {entry : E820Entry} {i : Nat}
    (h : (p.freeEntry managedEnd entry).reserved.isUsed i = false) :
    p.reserved.isUsed i = false ∨ entry.usable = true ∧ entry.Contains i := by
  unfold freeEntry at h
  by_cases husable : entry.usable = true
  · rw [husable, Bool.not_true, if_neg Bool.false_ne_true] at h
    dsimp only at h
    rw [alignUp_page, alignDown_page] at h
    have hfirst : ∃ first, (if entry.base.toNat > uint64Max - 4095 then 2 ^ 64 - pageSize
        else (entry.base.toNat + 4095) / pageSize * pageSize) = first ∧ first % pageSize = 0 ∧
        (first < 2 ^ 64 - pageSize → entry.base.toNat ≤ first) := by
      refine ⟨_, rfl, ?_, ?_⟩
      · unfold pageSize uint64Max
        split_ifs <;> omega
      · unfold pageSize uint64Max
        split_ifs <;> omega
    have hlast : ∃ last, saturatingEnd entry.base.toNat entry.length.toNat / pageSize * pageSize = last ∧
        last % pageSize = 0 ∧ last ≤ entry.limit ∧ last ≤ 2 ^ 64 - pageSize := by
      refine ⟨_, rfl, Nat.mul_mod_left _ _, ?_, ?_⟩
      · unfold saturatingEnd E820Entry.limit pageSize uint64Max
        split_ifs <;> omega
      · unfold saturatingEnd pageSize uint64Max
        split_ifs <;> omega
    obtain ⟨first, hfirst, haligned, hbase⟩ := hfirst
    obtain ⟨last, hlast, haligned', hlimit, hmax⟩ := hlast
    rw [hfirst, hlast] at h
    have hpages : ∀ last', last' % pageSize = 0 → last' ≤ last →
        (p.markRangeFree first last').reserved.isUsed i = false → p.reserved.isUsed i = false ∨ entry.Contains i := by
      intro last' hmod hle hfree
      unfold markRangeFree at hfree
      split at hfree
      · exact Or.inl hfree
      · refine (foldl_markFreeAt hfree).imp id fun hin => ?_
        obtain ⟨hfrom, hto⟩ := (mem_addresses haligned hmod).mp hin
        unfold E820Entry.Contains
        unfold pageSize at *
        omega
    split_ifs at h
    · exact Or.inl h
    · exact (hpages managedEnd hmanaged (by omega) h).imp id fun hin => ⟨husable, hin⟩
    · exact Or.inl h
    · exact (hpages last haligned' (Nat.le_refl _) h).imp id fun hin => ⟨husable, hin⟩
    · exact Or.inl h
  · rw [Bool.not_eq_true] at husable
    rw [husable, Bool.not_false, if_pos rfl] at h
    exact Or.inl h

theorem freeEntries_reserved {managedEnd : Nat} (hmanaged : managedEnd % pageSize = 0) {entries : List E820Entry}
    {i : Nat} (h : (entries.foldl (freeEntry managedEnd) p).reserved.isUsed i = false) :
    p.reserved.isUsed i = false ∨ ∃ entry ∈ entries, entry.usable = true ∧ entry.Contains i := by
  induction entries generalizing p with
  | nil => exact Or.inl h
  | cons entry entries ih =>
    rcases ih h with hfree | ⟨entry', hmem, hin⟩
    · rcases freeEntry_reserved hmanaged hfree with hfree | hin
      · exact Or.inl hfree
      · exact Or.inr ⟨entry, List.mem_cons_self, hin⟩
    · exact Or.inr ⟨entry', List.mem_cons_of_mem _ hmem, hin⟩

section Storage

def layout (p : PhysicalPages) : Nat × Nat × Nat × Nat :=
  (p.bitmapPhysical, p.bitmapBytes, p.pageCount, p.used.pageCount)

theorem foldl_layout {A : Type} {f : PhysicalPages → A → PhysicalPages}
    (hf : ∀ p a, (f p a).layout = p.layout) (list : List A) (p : PhysicalPages) :
    (list.foldl f p).layout = p.layout := by
  induction list generalizing p with
  | nil => rfl
  | cons a list ih => exact (ih (f p a)).trans (hf p a)

theorem markUsedAt_layout (p : PhysicalPages) (address : Nat) : (p.markUsedAt address).layout = p.layout :=
  congrArg (fun pages => (p.bitmapPhysical, p.bitmapBytes, p.pageCount, pages)) (PageBitmap.markUsed_shape _ _).1

theorem markFreeAt_layout (p : PhysicalPages) (address : Nat) : (p.markFreeAt address).layout = p.layout :=
  congrArg (fun pages => (p.bitmapPhysical, p.bitmapBytes, p.pageCount, pages)) (PageBitmap.markFree_shape _ _).1

theorem reserveRangeInternal_layout (p : PhysicalPages) (start length : Nat) :
    (p.reserveRangeInternal start length).layout = p.layout := by
  have hfold := fun list => foldl_layout markUsedAt_layout list p
  unfold reserveRangeInternal
  dsimp only
  split
  · rfl
  split
  · rfl
  · exact hfold _

theorem freeEntry_layout (managedEnd : Nat) (p : PhysicalPages) (entry : E820Entry) :
    (p.freeEntry managedEnd entry).layout = p.layout := by
  have hfold := fun list => foldl_layout markFreeAt_layout list p
  have hrange : ∀ first last, (p.markRangeFree first last).layout = p.layout := by
    intro first last
    unfold markRangeFree
    split
    · rfl
    · exact hfold _
  unfold freeEntry
  dsimp only
  split_ifs
  all_goals first | rfl | exact hrange _ _

end Storage

theorem freeMap_layout (info : BootInfo) (p : PhysicalPages) :
    (p.freeMap info).layout = p.layout := by
  unfold freeMap
  rw [reserveRangeInternal_layout, reserveRangeInternal_layout]
  exact foldl_layout (freeEntry_layout _) _ _

theorem unreserved_init (h : (boot.init info ram).1 = true) :
    (maximumUsablePhysicalAddress info ≠ 0 ∧ maximumUsablePhysicalAddress info ≤ bootstrapHhdmLimit) ∧
    ∀ i, (boot.init info ram).2.reserved.isUsed i = false →
      (∃ entry ∈ info.entries, entry.usable = true ∧ entry.Contains i) ∧ lowReservedEnd ≤ i * pageSize ∧
      ¬Meets (boot.init info ram).2.bitmapPhysical
        (alignUp (boot.init info ram).2.bitmapBytes pageSize * 2) i := by
  rcases init_cases info ram with ⟨pageCount, bitmapBytes, -, heq⟩ | ⟨start, hnonzero, hmax, hstart, hused, hplace, -, heq⟩
  · rw [heq] at h
    cases h
  refine ⟨⟨hnonzero, hmax⟩, fun i hfree => ?_⟩
  rw [heq] at hfree ⊢
  have hstorage := freeMap_layout info start
  rw [show (start.freeMap info).bitmapPhysical = start.bitmapPhysical from congrArg Prod.fst hstorage,
    show (start.freeMap info).bitmapBytes = start.bitmapBytes from congrArg (·.2.1) hstorage]
  have hfreed := hstart.freeEntries (alignUp (maximumUsablePhysicalAddress info) pageSize) info.entries
  obtain ⟨hlowBits, -, hlow⟩ := hfreed.reserveRangeInternal (Nat.two_pow_pos 64) lowReservedEnd
  obtain ⟨hbits, -, -⟩ := hlow.reserveRangeInternal hplace (alignUp start.bitmapBytes pageSize * 2)
  have hnot := Bool.eq_false_iff.mp hfree
  unfold freeMap at hnot
  rw [ne_eq, hbits, hlowBits, not_or, not_or] at hnot
  obtain ⟨hmetadata, hbelow, hmap⟩ := hnot
  have hmanaged : alignUp (maximumUsablePhysicalAddress info) pageSize % pageSize = 0 := by
    rw [alignUp_page]
    unfold pageSize
    split_ifs <;> omega
  refine ⟨?_, ?_, hmetadata⟩
  · rcases freeEntries_reserved hmanaged (Bool.eq_false_iff.mpr hmap) with hfalse | hentry
    · rw [hused] at hfalse
      cases hfalse
    · exact hentry
  · rw [meets_iff] at hbelow
    unfold lowReservedEnd pageSize at *
    omega

end PhysicalPages

def E820Entry.Apart (entry other : E820Entry) : Prop :=
  entry.limit ≤ other.base.toNat ∨ other.limit ≤ entry.base.toNat

open PhysicalPages Bootstrap in
/-- A page that the allocator hands out is memory that nothing else is in, and the direct map reaches it. Where an
entry of another type overlaps memory, the map counts as memory, so the clause on the other types says no more than
the one before it: an entry apart from all memory is apart from the page. -/
theorem allocated_page_is_memory {info : BootInfo} {ram : Nat → UInt8} (pool : Pool) (b : Bootstrap)
    (h : (boot.init info ram).1 = true) (ops : List PageOp) {w : Word}
    (hw : (ops.foldl PageOp.exec ((boot.init info ram).2, ∅)).1.allocatePage.1 = some w) :
    let p := (boot.init info ram).2
    let b' := (b.prepareBootstrap pool info).2
    (∃ entry ∈ info.entries, entry.type = 1#32 ∧ entry.base.toNat ≤ w.toNat ∧ w.toNat + pageSize ≤ entry.limit) ∧
    (∀ other ∈ info.entries, other.type ≠ 1#32 →
      (∀ entry ∈ info.entries, entry.type = 1#32 → other.Apart entry) →
      w.toNat + pageSize ≤ other.base.toNat ∨ other.limit ≤ w.toNat) ∧
    lowReservedEnd ≤ w.toNat ∧
    (∀ a, w.toNat ≤ a → a < w.toNat + pageSize →
      ¬(p.bitmapPhysical ≤ a ∧ a < p.bitmapPhysical + alignUp p.bitmapBytes pageSize * 2)) ∧
    w.toNat + pageSize ≤ b'.hhdmLimit ∧
    ∀ a, w.toNat ≤ a → a < w.toNat + pageSize →
      (queryPage b'.memory b'.bootstrapCr3 (hhdmBase + BitVec.ofNat 64 a)).2.translation = some a := by
  intro p b'
  obtain ⟨⟨hnonzero, hmax⟩, hunreserved⟩ := unreserved_init h
  obtain ⟨hinv, -, hreserved⟩ := (inv_init info ram).run ops
  obtain ⟨⟨i, hi, rfl, hfree, -⟩, -⟩ := hinv.allocatePage_least hw
  have hstart : (boot.init info ram).2.reserved.isUsed i = false := by
    by_contra hused
    have hstill := hreserved i (Bool.not_eq_false _ ▸ hused)
    rw [hfree] at hstill
    cases hstill
  obtain ⟨⟨entry, hmem, husable, hbase, hlimit⟩, hlow, hmeets⟩ := hunreserved i hstart
  have haddress : (pageAddress i).toNat = i * pageSize := by
    have hle := hinv.limit
    have hi : i < _ := hi
    exact Allocator.pageAddress_toNat (Nat.lt_of_lt_of_le hi hle)
  rw [Nat.succ_mul] at hlimit
  have htype : entry.type = 1#32 := by
    unfold E820Entry.usable at husable
    rw [Bool.and_eq_true, decide_eq_true_eq] at husable
    exact husable.1
  have hend := usable_end_le hnonzero (Nat.lt_of_le_of_lt hmax (by decide)) hmem husable
  obtain ⟨j, b₁, hpositive, hj, heq, hroot, hhhdm, hcovers, hholds⟩ := prepareBootstrap_holds pool b hnonzero hmax
  have hb' : b' = b₁ := congrArg Prod.snd heq
  rw [haddress, hb', hroot, hhhdm]
  refine ⟨⟨entry, hmem, htype, hbase, hlimit⟩, fun other hother hne hapart => ?_, hlow, fun a hfrom hto hin => ?_,
    by omega, fun a hfrom hto => walk_hhdm hholds hpositive hj (by omega)⟩
  · have hsplit := hapart entry hmem htype
    unfold E820Entry.Apart at hsplit
    omega
  · refine hmeets ⟨a, hin.1, hin.2, ?_⟩
    unfold pageSize at *
    omega

namespace PhysicalPages

/-- A reserved page in the middle of memory. -/
def overlapping : BootInfo := ⟨bootInfoMagic, 2#32, 0x500#64, fun i =>
  if i = 0 then ⟨0x200000#64, 0x3000#64, 1#32⟩ else ⟨0x202000#64, 0x1000#64, 2#32⟩⟩

theorem allocated_page_is_memory_overlapping :
    lowReservedEnd ≤ (0x202000#64).toNat :=
  (@allocated_page_is_memory overlapping (fun _ => 0) ⟨0x180000#64, by decide, by decide, by decide⟩
    ⟨fun _ _ => 0#64, 0#64, [], 0#64, 0⟩ (by decide +kernel) [] 0x202000#64 (by decide +kernel)).2.2.1

/-- The allocator hands out a page that an entry of another type covers. -/
theorem reserved_page_allocated : ∃ (info : BootInfo) (ram : Nat → UInt8) (w : Word), (boot.init info ram).1 = true ∧
    (boot.init info ram).2.allocatePage.1 = some w ∧
    ∃ other ∈ info.entries, other.type ≠ 1#32 ∧
      ¬(w.toNat + pageSize ≤ other.base.toNat ∨ other.limit ≤ w.toNat) :=
  ⟨overlapping, fun _ => 0, 0x202000#64, by decide +kernel, by decide +kernel, overlapping.e820At 1,
    List.mem_map_of_mem (List.mem_range.mpr (by decide)), by decide, by decide⟩

end PhysicalPages

end Linux95.Memory
