import Linux95.Memory.PhysicalPages

/-! Runs of the page allocator: the bitmaps hold the pages that are reserved, and those that are allocated at the
moment. -/

namespace Linux95.Memory

namespace PhysicalPages

def Meets (start length i : Nat) : Prop := ∃ a, start ≤ a ∧ a < start + length ∧ a / pageSize = i

theorem meets_iff {start length i : Nat} :
    Meets start length i ↔ length ≠ 0 ∧ start / pageSize ≤ i ∧ i * pageSize < start + length := by
  unfold Meets pageSize
  constructor
  · rintro ⟨a, hfrom, hto, rfl⟩
    omega
  · rintro ⟨hlength, hfrom, hto⟩
    exact ⟨max start (i * 4096), by omega, by omega, by omega⟩

variable {p p' : PhysicalPages}

theorem Marked.congr {pages pages' : Nat → Prop} (h : Marked p p' pages) (hcapacity : p.used.pageCount ≤ p.pageCount)
    (hpaired : p.Paired) (hpages : ∀ i < p.pageCount, pages i ↔ pages' i) : Marked p p' pages' := by
  have hpast : ∀ i, ¬i < p.pageCount → p.used.isUsed i = true ∧ p.reserved.isUsed i = true := by
    intro i hi
    constructor
    · by_contra hfree
      have hlt := PageBitmap.lt_of_isUsed_eq_false (Bool.eq_false_iff.mpr hfree)
      omega
    · by_contra hfree
      have hlt := PageBitmap.lt_of_isUsed_eq_false (Bool.eq_false_iff.mpr hfree)
      have heq := hpaired.pageCount
      omega
  refine ⟨fun i => ?_, fun i => ?_, h.capacity, h.pageCount, h.paired, h.sound⟩
  · rw [h.used]
    by_cases hi : i < p.pageCount
    · rw [hpages i hi]
    · simp [(hpast i hi).1]
  · rw [h.reserved]
    by_cases hi : i < p.pageCount
    · rw [hpages i hi]
    · simp [(hpast i hi).2]

theorem reserveRangeInternal_marked {start length : Nat} (hcapacity : p.used.pageCount ≤ p.pageCount)
    (hpaired : p.Paired) (hlimit : p.pageCount ≤ 2 ^ 24) (hstart : start < 2 ^ 64) :
    Marked p (p.reserveRangeInternal start length) (Meets start length) := by
  have hnone : (∀ i < p.pageCount, ¬Meets start length i) → Marked p p (Meets start length) := by
    intro h
    have hsame : Marked p p fun _ => False := ⟨fun i => by simp, fun i => by simp, rfl, rfl, id, id⟩
    exact hsame.congr hcapacity hpaired fun i hi => by simp [h i hi]
  unfold reserveRangeInternal
  dsimp only
  split
  · rename_i hempty
    refine hnone fun i hi hmeets => ?_
    obtain ⟨hlength, -⟩ := meets_iff.mp hmeets
    omega
  rename_i hlength
  rw [alignDown_page, alignUp_page]
  split
  · rename_i hpast
    refine hnone fun i hi hmeets => ?_
    obtain ⟨-, hfrom, -⟩ := meets_iff.mp hmeets
    unfold pageSize at *
    omega
  rename_i hinside
  have hlast : ∃ last, last % pageSize = 0 ∧ (if (if saturatingEnd start length > uint64Max - 4095 then 2 ^ 64 - pageSize
      else (saturatingEnd start length + 4095) / pageSize * pageSize) > p.pageCount * pageSize ∨
      (if saturatingEnd start length > uint64Max - 4095 then 2 ^ 64 - pageSize
        else (saturatingEnd start length + 4095) / pageSize * pageSize) = uint64Max then p.pageCount * pageSize
      else if saturatingEnd start length > uint64Max - 4095 then 2 ^ 64 - pageSize
        else (saturatingEnd start length + 4095) / pageSize * pageSize) = last ∧
      ∀ i < p.pageCount, i < last / pageSize ↔ i * pageSize < start + length := by
    refine ⟨_, ?_, rfl, fun i hi => ?_⟩
    · unfold saturatingEnd uint64Max pageSize at *
      split_ifs <;> omega
    · unfold saturatingEnd uint64Max pageSize at *
      split_ifs <;> omega
  obtain ⟨last, haligned, heq, hpages⟩ := hlast
  rw [heq]
  refine (foldl_marked _ p).congr hcapacity hpaired fun i hi => ?_
  rw [mem_addresses (Nat.mul_mod_left _ _) haligned, meets_iff, hpages i hi, Nat.mul_div_cancel _ (by decide)]
  have hne : length ≠ 0 := fun h => hlength (Or.inl h)
  exact ⟨fun h => ⟨hne, h⟩, And.right⟩

/-- The bitmaps between two calls, with the pages that were allocated and not freed since. -/
structure Inv (p : PhysicalPages) (allocated : Set Word) : Prop where
  sound : p.used.Sound
  used_iff : ∀ i < p.pageCount, p.used.isUsed i = true ↔ p.reserved.isUsed i = true ∨ pageAddress i ∈ allocated
  paired : p.Paired
  capacity : p.used.pageCount ≤ p.pageCount
  limit : p.pageCount ≤ 2 ^ 24
  inside : ∀ w ∈ allocated, ∃ i < p.pageCount, w = pageAddress i

variable {allocated : Set Word}

theorem Inv.page_inj (h : p.Inv allocated) {i j : Nat} (hi : i < p.pageCount) (hj : j < p.pageCount)
    (heq : pageAddress i = pageAddress j) : i = j := by
  have hlimit := h.limit
  exact Allocator.pageAddress_inj (by omega) (by omega) heq

theorem Inv.lt_of_unreserved (h : p.Inv allocated) {i : Nat} (hfree : p.reserved.isUsed i = false) :
    i < p.pageCount ∧ i < p.used.pageCount ∧ p.used.storage ≠ none := by
  have hlt := PageBitmap.lt_of_isUsed_eq_false hfree
  rw [← h.paired.pageCount] at hlt
  refine ⟨Nat.lt_of_lt_of_le hlt h.capacity, hlt, fun hnone => ?_⟩
  have hstorage := h.paired.storage.mp hnone
  unfold PageBitmap.isUsed at hfree
  rw [hstorage] at hfree
  cases hfree

theorem Inv.allocatePage (h : p.Inv allocated) :
    p.allocatePage = (none, p) ∧
      (∀ i < p.pageCount, p.reserved.isUsed i = true ∨ pageAddress i ∈ allocated) ∨
    ∃ i p', p.allocatePage = (some (pageAddress i), p') ∧ p.reserved.isUsed i = false ∧ i < p.pageCount ∧
      pageAddress i ∉ allocated ∧
      (∀ j < p.pageCount, p.reserved.isUsed j = false → pageAddress j ∉ allocated → i ≤ j) ∧
      p'.reserved = p.reserved ∧ p'.pageCount = p.pageCount ∧ p'.Inv (insert (pageAddress i) allocated) := by
  -- a free page is not reserved, so the loop ends at its first turn
  unfold PhysicalPages.allocatePage
  rw [allocateFrom]
  rcases h.sound.allocate with ⟨heq, hused⟩ | ⟨i, used, heq, hfree, hleast, hbits, hpages, hstorage, hsound⟩
  · rw [heq]
    exact Or.inl ⟨rfl, fun i hi => (h.used_iff i hi).mp (hused i)⟩
  · have hi : i < p.pageCount := Nat.lt_of_lt_of_le (PageBitmap.lt_of_isUsed_eq_false hfree) h.capacity
    have hnot : ¬(p.reserved.isUsed i = true ∨ pageAddress i ∈ allocated) := by
      rw [← h.used_iff i hi, hfree]
      exact Bool.false_ne_true
    obtain ⟨hreserved, hnew⟩ := not_or.mp hnot
    rw [Bool.not_eq_true] at hreserved
    rw [heq]
    dsimp only
    rw [hreserved, Bool.not_false, if_pos rfl]
    refine Or.inr ⟨i, _, rfl, hreserved, hi, hnew, fun j hj hunreserved hfresh => hleast j ?_, rfl, rfl, ?_⟩
    · rw [← Bool.not_eq_true, h.used_iff j hj, hunreserved]
      exact fun hor => hor.elim (fun hfalse => Bool.false_ne_true hfalse) hfresh
    · refine ⟨hsound, fun j hj => ?_, ⟨hpages.trans h.paired.pageCount, hstorage.trans h.paired.storage⟩,
        hpages.le.trans h.capacity, h.limit, fun w hw => ?_⟩
      · change used.isUsed j = true ↔ _
        rw [hbits]
        by_cases heq : j = i
        · rw [if_pos heq, heq]
          exact ⟨fun _ => Or.inr (Set.mem_insert _ _), fun _ => rfl⟩
        · rw [if_neg heq, h.used_iff j hj, Set.mem_insert_iff]
          have hne : pageAddress j ≠ pageAddress i := fun hpage => heq (h.page_inj hj hi hpage)
          exact ⟨Or.imp_right Or.inr, Or.imp_right fun hor => hor.resolve_left hne⟩
      · rcases Set.mem_insert_iff.mp hw with rfl | hw
        · exact ⟨i, hi, rfl⟩
        · exact h.inside w hw

theorem Inv.freePage (h : p.Inv allocated) (w : Word) :
    p.freePage w = (false, p) ∧ (w ∈ allocated → p.reserved.isUsed (w.toNat / pageSize) = true) ∨
    ∃ p', p.freePage w = (true, p') ∧ w ∈ allocated ∧ p.reserved.isUsed (w.toNat / pageSize) = false ∧
      p'.reserved = p.reserved ∧ p'.pageCount = p.pageCount ∧ p'.Inv (allocated \ {w}) := by
  have hlimit := h.limit
  have hindex : w ∈ allocated → w.toNat / pageSize < p.pageCount ∧ pageAddress (w.toNat / pageSize) = w := by
    intro hmem
    obtain ⟨i, hi, rfl⟩ := h.inside w hmem
    have hi' : (pageAddress i).toNat / pageSize = i := by
      rw [Allocator.pageAddress_toNat (by omega)]
      exact Nat.mul_div_cancel i (by decide)
    rw [hi']
    exact ⟨hi, rfl⟩
  unfold PhysicalPages.freePage
  by_cases hbad : (!isPageAligned w || decide (p.pageCount = 0)) = true
  · rw [if_pos hbad]
    refine Or.inl ⟨rfl, fun hmem => ?_⟩
    obtain ⟨hlt, heq⟩ := hindex hmem
    rw [isPageAligned_iff.mpr heq, Bool.not_true, Bool.false_or, decide_eq_true_eq] at hbad
    rw [hbad] at hlt
    exact absurd hlt (Nat.not_lt_zero _)
  rw [if_neg hbad]
  dsimp only
  by_cases hrefused : (decide (w.toNat / pageSize ≥ p.pageCount) || p.reserved.isUsed (w.toNat / pageSize)) = true
  · rw [if_pos hrefused]
    refine Or.inl ⟨rfl, fun hmem => ?_⟩
    rw [decide_eq_false (Nat.not_le.mpr (hindex hmem).1), Bool.false_or] at hrefused
    exact hrefused
  rw [if_neg hrefused]
  simp only [Bool.or_eq_true, Bool.not_eq_true', decide_eq_true_eq, not_or, Bool.not_eq_true, Bool.not_eq_false] at hbad hrefused
  have hpage := isPageAligned_iff.mp hbad.1
  obtain ⟨hlt, hroom, hstorage⟩ := h.lt_of_unreserved hrefused.2
  rcases PageBitmap.markFree_cases p.used (w.toNat / pageSize) with
    ⟨heq, hfree | hge | hnone⟩ | ⟨used, heq, -, hused, hbits, hpages, -, -, hstorage'⟩
  · rw [heq]
    refine Or.inl ⟨rfl, fun hmem => absurd ?_ (Bool.eq_false_iff.mp hfree)⟩
    rw [h.used_iff _ hlt, hpage]
    exact Or.inr hmem
  · exact absurd hge (Nat.not_le.mpr hroom)
  · exact absurd hnone hstorage
  · rw [heq]
    have hmem : w ∈ allocated := by
      have hor := (h.used_iff _ hlt).mp hused
      rw [hpage, hrefused.2] at hor
      exact hor.resolve_left Bool.false_ne_true
    refine Or.inr ⟨_, rfl, hmem, hrefused.2, rfl, rfl, ?_⟩
    have hsound := h.sound.markFree (w.toNat / pageSize)
    rw [heq] at hsound
    refine ⟨hsound, fun j hj => ?_, ⟨hpages.trans h.paired.pageCount, hstorage'.trans h.paired.storage⟩,
      hpages.le.trans h.capacity, h.limit, fun w' hw => h.inside w' hw.1⟩
    change used.isUsed j = true ↔ _ ∨ pageAddress j ∈ allocated ∧ pageAddress j ≠ w
    rw [hbits]
    by_cases hj' : j = w.toNat / pageSize
    · rw [if_pos hj', hj', hpage, hrefused.2]
      exact ⟨fun hfalse => absurd hfalse Bool.false_ne_true,
        fun hor => hor.elim id fun hand => absurd rfl hand.2⟩
    · rw [if_neg hj', h.used_iff j hj]
      have hne : pageAddress j ≠ w := fun heq => hj' (h.page_inj hj hlt (heq.trans hpage.symm))
      exact ⟨Or.imp_right fun hin => ⟨hin, hne⟩, Or.imp_right And.left⟩

theorem Inv.reserveRangeInternal (h : p.Inv allocated) {start : Nat} (hstart : start < 2 ^ 64) (length : Nat) :
    (∀ i, (p.reserveRangeInternal start length).reserved.isUsed i = true ↔
      Meets start length i ∨ p.reserved.isUsed i = true) ∧
    (p.reserveRangeInternal start length).pageCount = p.pageCount ∧
    (p.reserveRangeInternal start length).Inv allocated := by
  have hmarked := @reserveRangeInternal_marked p start length h.capacity h.paired h.limit hstart
  refine ⟨hmarked.reserved, hmarked.pageCount, hmarked.sound h.sound, fun i hi => ?_, hmarked.paired h.paired, ?_, ?_, ?_⟩
  · have hi : i < p.pageCount := hmarked.pageCount ▸ hi
    rw [hmarked.used, h.used_iff i hi, hmarked.reserved, or_assoc]
  · exact hmarked.capacity.le.trans (h.capacity.trans hmarked.pageCount.ge)
  · exact hmarked.pageCount.le.trans h.limit
  · intro w hw
    obtain ⟨i, hi, heq⟩ := h.inside w hw
    exact ⟨i, hi.trans_le hmarked.pageCount.ge, heq⟩

section Start

theorem inv_unset {pageCount : Nat} (hlimit : pageCount ≤ 2 ^ 24) (bitmapPhysical bitmapBytes : Nat) :
    Inv ⟨.new, .new, pageCount, bitmapPhysical, bitmapBytes⟩ ∅ := by
  have hused : ∀ i, PageBitmap.new.isUsed i = true := fun _ => rfl
  refine ⟨⟨rfl, fun i hi => ?_⟩, fun i _ => ?_, ⟨rfl, Iff.rfl⟩, Nat.zero_le _, hlimit,
    fun w hw => absurd hw (Set.notMem_empty w)⟩
  · dsimp only at hi
    rw [hused] at hi
    cases hi
  · rw [or_iff_left (Set.notMem_empty _)]

theorem Inv.markFreeAt (h : p.Inv ∅) (address : Nat) : (p.markFreeAt address).Inv ∅ := by
  -- what a change of the map may do, as long as nothing was allocated
  have hpaired := h.paired
  have hbits : ∀ i < p.pageCount, (p.used.isUsed i = false ↔ p.reserved.isUsed i = false) := by
    intro i hi
    rw [← Bool.not_eq_true, ← Bool.not_eq_true, h.used_iff i hi]
    simp
  refine ⟨h.sound.markFree _, fun i hi => ?_, hpaired.markFreeAt address, ?_, h.limit, h.inside⟩
  · rw [or_iff_left (Set.notMem_empty _)]
    have hi : i < p.pageCount := hi
    change (p.used.markFree (address / pageSize)).2.isUsed i = true ↔
      (p.reserved.markFree (address / pageSize)).2.isUsed i = true
    rw [← not_iff_not, Bool.not_eq_true, Bool.not_eq_true, PageBitmap.markFree_isUsed, PageBitmap.markFree_isUsed,
      hbits i hi, hpaired.pageCount, ne_eq, ne_eq, hpaired.storage]
  · exact (PageBitmap.markFree_shape _ _).1.le.trans h.capacity

theorem Inv.markRangeFree (h : p.Inv ∅) (first last : Nat) : (p.markRangeFree first last).Inv ∅ := by
  have hfold : ∀ (list : List Nat) (p : PhysicalPages), p.Inv ∅ → (list.foldl PhysicalPages.markFreeAt p).Inv ∅ := by
    intro list
    induction list with
    | nil => exact fun p h => h
    | cons address list ih => exact fun p h => ih _ (h.markFreeAt address)
  unfold PhysicalPages.markRangeFree
  split
  · exact h
  · exact hfold _ p h

theorem Inv.freeEntry (h : p.Inv ∅) (managedEnd : Nat) (entry : E820Entry) : (p.freeEntry managedEnd entry).Inv ∅ := by
  unfold PhysicalPages.freeEntry
  dsimp only
  split_ifs
  all_goals first | exact h | exact h.markRangeFree _ _

theorem Inv.freeEntries (h : p.Inv ∅) (managedEnd : Nat) (entries : List E820Entry) :
    (entries.foldl (PhysicalPages.freeEntry managedEnd) p).Inv ∅ := by
  induction entries generalizing p with
  | nil => exact h
  | cons entry entries ih => exact ih (h.freeEntry managedEnd entry)

theorem storageIn_eq_some {metadataBytes place : Nat} {entry : E820Entry}
    (h : storageIn metadataBytes entry = some place) :
    lowReservedEnd ≤ place ∧ place + metadataBytes ≤ bootstrapHhdmLimit := by
  unfold storageIn at h
  dsimp only at h
  generalize hfirst : (if alignUp entry.base.toNat pageSize < lowReservedEnd then lowReservedEnd
    else alignUp entry.base.toNat pageSize) = first at h
  generalize hlast : (if alignDown (saturatingEnd entry.base.toNat entry.length.toNat) pageSize > bootstrapHhdmLimit
    then bootstrapHhdmLimit else alignDown (saturatingEnd entry.base.toNat entry.length.toNat) pageSize) = last at h
  split_ifs at h with hentry hrange hroom
  obtain rfl := Option.some.inj h
  rw [not_or] at hrange
  constructor
  · rw [← hfirst]
    split <;> omega
  · have hle : last ≤ bootstrapHhdmLimit := by
      rw [← hlast]
      split <;> omega
    omega

/-- The end of `initialize`, from bitmaps with all bits set. -/
def freeMap (info : BootInfo) (p : PhysicalPages) : PhysicalPages :=
  ((info.entries.foldl (PhysicalPages.freeEntry (alignUp (maximumUsablePhysicalAddress info) pageSize)) p
    |>.reserveRangeInternal 0 lowReservedEnd).reserveRangeInternal p.bitmapPhysical
      (alignUp p.bitmapBytes pageSize * 2))

theorem init_cases (info : BootInfo) (ram : Nat → UInt8) :
    (∃ pageCount bitmapBytes, pageCount ≤ 2 ^ 24 ∧
      boot.init info ram = (false, ⟨.new, .new, pageCount, 0, bitmapBytes⟩)) ∨
    ∃ start : PhysicalPages, maximumUsablePhysicalAddress info ≠ 0 ∧
      maximumUsablePhysicalAddress info ≤ bootstrapHhdmLimit ∧ start.Inv ∅ ∧
      (∀ i, start.reserved.isUsed i = true) ∧ start.bitmapPhysical < 2 ^ 64 ∧ start.used.pageCount = start.pageCount ∧
      (boot.init info ram).2 = start.freeMap info := by
  unfold init
  dsimp only
  split
  · exact Or.inl ⟨0, 0, Nat.zero_le _, rfl⟩
  split
  · exact Or.inl ⟨0, 0, Nat.zero_le _, rfl⟩
  rename_i hmaximum
  obtain ⟨hnonzero, hmax⟩ := not_or.mp hmaximum
  split
  · exact Or.inl ⟨0, 0, Nat.zero_le _, rfl⟩
  rename_i hmanaged
  have hlimit : alignUp (maximumUsablePhysicalAddress info) pageSize / pageSize ≤ 2 ^ 24 := by
    unfold bootstrapHhdmLimit at hmanaged
    unfold pageSize at *
    omega
  split
  · exact Or.inl ⟨_, _, hlimit, rfl⟩
  split
  · exact Or.inl ⟨_, _, hlimit, rfl⟩
  · rename_i place hplace
    obtain ⟨entry, -, hentry⟩ := List.exists_of_findSome?_eq_some hplace
    have hroom := (storageIn_eq_some hentry).2
    unfold bootstrapHhdmLimit at hroom
    generalize hcount : alignUp (maximumUsablePhysicalAddress info) pageSize / pageSize = pageCount at *
    refine Or.inr ⟨⟨.init (some fun i => ram (place + i)) pageCount,
      .init (some fun i => ram (place + alignUp ((pageCount + 7) / 8) pageSize + i)) pageCount, pageCount, place,
      (pageCount + 7) / 8⟩, hnonzero, Nat.not_lt.mp hmax, ?_, ?_, show place < 2 ^ 64 by omega,
      (PageBitmap.init_shape _ _).1, rfl⟩
    · have hbits : pageCount ≤ 8 * 2 ^ 48 := hlimit.trans (by decide)
      obtain ⟨hsound, hused⟩ := @PageBitmap.sound_init (some fun i => ram (place + i)) pageCount hbits
      obtain ⟨-, hreserved⟩ := @PageBitmap.sound_init
        (some fun i => ram (place + alignUp ((pageCount + 7) / 8) pageSize + i)) pageCount hbits
      obtain ⟨hpages, hstorage⟩ := PageBitmap.init_shape (fun i => ram (place + i)) pageCount
      obtain ⟨hpages', hstorage'⟩ := PageBitmap.init_shape
        (fun i => ram (place + alignUp ((pageCount + 7) / 8) pageSize + i)) pageCount
      refine ⟨hsound, fun i _ => ?_, ⟨hpages.trans hpages'.symm, iff_of_false hstorage hstorage'⟩, hpages.le, hlimit,
        fun w hw => absurd hw (Set.notMem_empty w)⟩
      exact iff_of_true (hused i) (Or.inl (hreserved i))
    · exact (@PageBitmap.sound_init (some fun i => ram (place + alignUp ((pageCount + 7) / 8) pageSize + i)) pageCount
        (hlimit.trans (by decide))).2

theorem inv_init (info : BootInfo) (ram : Nat → UInt8) : (boot.init info ram).2.Inv ∅ := by
  rcases init_cases info ram with ⟨pageCount, bitmapBytes, hlimit, heq⟩ | ⟨start, -, -, hstart, -, hplace, -, heq⟩
  · rw [heq]
    exact inv_unset hlimit 0 bitmapBytes
  · rw [heq]
    have hfreed := hstart.freeEntries (alignUp (maximumUsablePhysicalAddress info) pageSize) info.entries
    have hlow := (hfreed.reserveRangeInternal (Nat.two_pow_pos 64) lowReservedEnd).2.2
    exact (hlow.reserveRangeInternal hplace _).2.2

end Start

inductive PageOp where
  | allocatePage
  | freePage (physical : Word)
  | reserveRange (start length : Word)

def PageOp.exec (s : PhysicalPages × Set Word) : PageOp → PhysicalPages × Set Word
  | .allocatePage =>
    (s.1.allocatePage.2,
      match s.1.allocatePage.1 with
      | none => s.2
      | some physical => insert physical s.2)
  | .freePage physical =>
    ((s.1.freePage physical).2, if (s.1.freePage physical).1 then s.2 \ {physical} else s.2)
  | .reserveRange start length => (s.1.reserveRange start length, s.2)

theorem Inv.exec (h : p.Inv allocated) (op : PageOp) :
    (op.exec (p, allocated)).1.Inv (op.exec (p, allocated)).2 ∧
    (op.exec (p, allocated)).1.pageCount = p.pageCount ∧
    ∀ i, p.reserved.isUsed i = true → (op.exec (p, allocated)).1.reserved.isUsed i = true := by
  cases op with
  | allocatePage =>
    dsimp only [PageOp.exec]
    rcases h.allocatePage with ⟨heq, -⟩ | ⟨i, p', heq, -, -, -, -, hreserved, hpages, hinv⟩
    · rw [heq]
      exact ⟨h, rfl, fun _ => id⟩
    · rw [heq]
      refine ⟨hinv, hpages, fun i => ?_⟩
      rw [hreserved]
      exact id
  | freePage physical =>
    dsimp only [PageOp.exec]
    rcases h.freePage physical with ⟨heq, -⟩ | ⟨p', heq, -, -, hreserved, hpages, hinv⟩
    · rw [heq]
      exact ⟨h, rfl, fun _ => id⟩
    · rw [heq]
      refine ⟨hinv, hpages, fun i => ?_⟩
      rw [hreserved]
      exact id
  | reserveRange start length =>
    obtain ⟨hbits, hpages, hinv⟩ := h.reserveRangeInternal start.isLt length.toNat
    exact ⟨hinv, hpages, fun i hi => (hbits i).mpr (Or.inr hi)⟩

theorem Inv.run (h : p.Inv allocated) (ops : List PageOp) :
    (ops.foldl PageOp.exec (p, allocated)).1.Inv (ops.foldl PageOp.exec (p, allocated)).2 ∧
    (ops.foldl PageOp.exec (p, allocated)).1.pageCount = p.pageCount ∧
    ∀ i, p.reserved.isUsed i = true → (ops.foldl PageOp.exec (p, allocated)).1.reserved.isUsed i = true := by
  induction ops generalizing p allocated with
  | nil => exact ⟨h, rfl, fun _ => id⟩
  | cons op ops ih =>
    obtain ⟨hinv, hpages, hreserved⟩ := h.exec op
    obtain ⟨hinv', hpages', hreserved'⟩ := ih hinv
    exact ⟨hinv', hpages'.trans hpages, fun i hi => hreserved' i (hreserved i hi)⟩

def available (p : PhysicalPages) (allocated : Set Word) : Set Word :=
  { w | ∃ i < p.totalPages, w = pageAddress i ∧ p.reserved.isUsed i = false ∧ w ∉ allocated }

theorem Inv.allocatePage_eq_none (h : p.Inv allocated) : p.allocatePage.1 = none ↔ p.available allocated = ∅ := by
  rcases h.allocatePage with ⟨heq, htaken⟩ | ⟨i, p', heq, hreserved, hi, hnew, -⟩
  · rw [heq, Set.eq_empty_iff_forall_notMem]
    refine iff_of_true rfl fun w ⟨i, hi, hw, hfree, hnew⟩ => ?_
    rcases htaken i hi with hreserved | hmem
    · rw [hfree] at hreserved
      cases hreserved
    · exact hnew (hw ▸ hmem)
  · rw [heq]
    refine iff_of_false (Option.some_ne_none _) fun hempty => ?_
    exact Set.eq_empty_iff_forall_notMem.mp hempty _ ⟨i, hi, rfl, hreserved, hnew⟩

theorem Inv.allocatePage_least (h : p.Inv allocated) {w : Word} (heq : p.allocatePage.1 = some w) :
    w ∈ p.available allocated ∧ ∀ w' ∈ p.available allocated, w.toNat ≤ w'.toNat := by
  have hlimit := h.limit
  rcases h.allocatePage with ⟨hnone, -⟩ | ⟨i, p', hsome, hreserved, hi, hnew, hleast, -⟩
  · rw [hnone] at heq
    cases heq
  · rw [hsome] at heq
    obtain rfl := Option.some.inj heq
    refine ⟨⟨i, hi, rfl, hreserved, hnew⟩, fun w' ⟨j, hj, hw', hfree, hnew'⟩ => ?_⟩
    have hj : j < p.pageCount := hj
    have hle := hleast j hj hfree (hw' ▸ hnew')
    rw [hw', Allocator.pageAddress_toNat (by omega), Allocator.pageAddress_toNat (by omega)]
    exact Nat.mul_le_mul_right pageSize hle

theorem Inv.freePage_iff (h : p.Inv allocated) (w : Word) : ((p.freePage w).1 = true ↔
    w ∈ allocated ∧ p.reserved.isUsed (w.toNat / pageSize) = false) ∧
    ((p.freePage w).1 = false → (p.freePage w).2 = p) := by
  rcases h.freePage w with ⟨heq, hrefused⟩ | ⟨p', heq, hmem, hfree, -⟩
  · rw [heq]
    refine ⟨iff_of_false Bool.false_ne_true fun ⟨hmem, hfree⟩ => ?_, fun _ => rfl⟩
    rw [hrefused hmem] at hfree
    cases hfree
  · rw [heq]
    exact ⟨iff_of_true rfl ⟨hmem, hfree⟩, fun hfalse => absurd hfalse.symm Bool.false_ne_true⟩

theorem Inv.counts (h : p.Inv allocated) : p.freePages + p.usedPages = p.totalPages := by
  have hcard : p.used.freeCount ≤ p.used.pageCount := by
    rw [h.sound.freeCount]
    calc p.used.clear.card ≤ (Finset.range p.used.pageCount).card := Finset.card_filter_le _ _
      _ = p.used.pageCount := Finset.card_range _
  have hcapacity := h.capacity
  have hlimit := h.limit
  unfold freePages usedPages totalPages
  omega

end PhysicalPages

open PhysicalPages in
/-- The bitmap under any marks, and the page allocator under any calls after `initialize`. -/
theorem page_allocator :
    (∀ (storage : Option (Nat → UInt8)) (size pageCount : Nat) (ops : List PageBitmap.Op),
      size ≤ 2 ^ 48 → pageCount ≤ 8 * size →
      let b := ops.foldl PageBitmap.Op.exec (.init storage pageCount)
      (storage ≠ none → b.pageCount = pageCount) ∧
      b.freeCount = ((Finset.range b.pageCount).filter fun i => b.isUsed i = false).card ∧
      (∀ i, b.isUsed i = false → b.nextHint ≤ i) ∧
      b.allocate.1 = (List.range b.pageCount).find? (fun i => !b.isUsed i) ∧
      (b.allocate.1 = none ↔ ∀ i < b.pageCount, b.isUsed i = true)) ∧
    ∀ (info : BootInfo) (ram : Nat → UInt8) (ops : List PageOp),
      let s := ops.foldl PageOp.exec ((boot.init info ram).2, ∅)
      let p := s.1
      let allocated := s.2
      (∀ i < p.totalPages, p.reserved.isUsed i = true → p.used.isUsed i = true) ∧
      (∀ start length i, (p.reserveRange start length).reserved.isUsed i = true ↔
        Meets start.toNat length.toNat i ∨ p.reserved.isUsed i = true) ∧
      (p.allocatePage.1 = none ↔ p.available allocated = ∅) ∧
      (∀ w, p.allocatePage.1 = some w →
        w ∈ p.available allocated ∧ ∀ w' ∈ p.available allocated, w.toNat ≤ w'.toNat) ∧
      (∀ w, (p.freePage w).1 = true ↔ w ∈ allocated ∧ p.reserved.isUsed (w.toNat / pageSize) = false) ∧
      (∀ w, (p.freePage w).1 = false → (p.freePage w).2 = p) ∧
      p.freePages + p.usedPages = p.totalPages := by
  refine ⟨fun storage size pageCount ops hsize hroom => ?_, fun info ram ops => ?_⟩
  · intro b
    have hsound : b.Sound := (PageBitmap.sound_init (by omega)).1.run ops
    refine ⟨fun hstorage => ?_, hsound.freeCount, hsound.nextHint, hsound.allocate_fst, ?_⟩
    · obtain ⟨bytes, rfl⟩ := Option.ne_none_iff_exists'.mp hstorage
      exact (PageBitmap.run_pageCount _ ops).trans (PageBitmap.init_shape bytes pageCount).1
    · rw [hsound.allocate_fst, PageBitmap.lowest_eq_none]
      refine ⟨fun h i _ => h i, fun h i => ?_⟩
      by_contra hfree
      exact hfree (h i (PageBitmap.lt_of_isUsed_eq_false (Bool.eq_false_iff.mpr hfree)))
  · intro s p allocated
    have h : p.Inv allocated := ((inv_init info ram).run ops).1
    exact ⟨fun i hi hreserved => (h.used_iff i hi).mpr (Or.inl hreserved),
      fun start length => (h.reserveRangeInternal start.isLt length.toNat).1, h.allocatePage_eq_none,
      fun w heq => h.allocatePage_least heq, fun w => (h.freePage_iff w).1, fun w => (h.freePage_iff w).2, h.counts⟩

end Linux95.Memory
