import Linux95.Memory.FreePages
import Linux95.Memory.RealMemory

/-! The allocator of the paging code is `memory/physical.cpp` over its bitmaps: the bits are a set of pages, and every
call has the same answer. -/

namespace Linux95.Memory

structure Allocator.Stands (a : Allocator) (p : PhysicalPages) : Prop where
  pageCount : a.pageCount = p.pageCount
  capacity : p.used.pageCount = p.pageCount
  storage : p.used.storage ≠ none
  used : ∀ i, a.isUsed i = p.used.isUsed i
  reserved : ∀ i, a.isReserved i = p.reserved.isUsed i
  freeCount : a.freeCount = p.used.freeCount
  nextHint : a.nextHint = p.used.nextHint

inductive PageRequest where
  | allocatePage
  | freePage (physical : Word)

inductive PageAnswer where
  | allocated (physical : Option Word)
  | freed (success : Bool)

def PhysicalPages.answer (p : PhysicalPages) : PageRequest → PageAnswer × PhysicalPages
  | .allocatePage => (.allocated p.allocatePage.1, p.allocatePage.2)
  | .freePage physical => (.freed (p.freePage physical).1, (p.freePage physical).2)

def Allocator.answer (a : Allocator) : PageRequest → PageAnswer × Allocator
  | .allocatePage => (.allocated a.allocatePage.1, a.allocatePage.2)
  | .freePage physical => (.freed (a.frees physical), a.freePage physical)

def answers {σ : Type} (answer : σ → PageRequest → PageAnswer × σ) : σ → List PageRequest → List PageAnswer × σ
  | s, [] => ([], s)
  | s, request :: requests =>
    ((answer s request).1 :: (answers answer (answer s request).2 requests).1,
      (answers answer (answer s request).2 requests).2)

namespace Allocator
variable {a : Allocator} {p : PhysicalPages} {allocated : Set Word} {info : BootInfo} {ram : Nat → UInt8}

section Steps

theorem Stands.firstFree (h : a.Stands p) : a.firstFree = p.used.search := by
  unfold Allocator.firstFree PageBitmap.search
  rw [h.pageCount, h.capacity, h.nextHint]
  exact congrArg (List.find? · _) (funext fun i => congrArg (!·) (h.used i))

theorem Stands.change {a' : Allocator} {used : PageBitmap} {i : Nat} {value : Bool} (h : a.Stands p)
    (hshape : a'.pageCount = a.pageCount ∧ a'.reserved = a.reserved) (hbit : a'.used = Function.update a.used i value)
    (hi : i < a.pageCount) (hbits : ∀ j, used.isUsed j = if j = i then value else p.used.isUsed j)
    (hpages : used.pageCount = p.used.pageCount) (hstorage : used.storage = none ↔ p.used.storage = none)
    (hfree : a'.freeCount = used.freeCount) (hhint : a'.nextHint = used.nextHint) :
    a'.Stands { p with used := used } := by
  obtain ⟨hcount, hreserved⟩ := hshape
  refine ⟨hcount.trans h.pageCount, hpages.trans h.capacity, fun hnone => h.storage (hstorage.mp hnone), fun j => ?_,
    fun j => ?_, hfree, hhint⟩
  · show (decide (a'.pageCount ≤ j) || a'.used j) = used.isUsed j
    rw [hbits, hcount, hbit]
    by_cases hj : j = i
    · rw [if_pos hj, hj, Function.update_self, decide_eq_false (Nat.not_le.mpr hi), Bool.false_or]
    · rw [if_neg hj, Function.update_of_ne hj]
      exact h.used j
  · show (decide (a'.pageCount ≤ j) || a'.reserved j) = p.reserved.isUsed j
    rw [hcount, hreserved]
    exact h.reserved j

theorem Stands.allocatePage (h : a.Stands p) :
    a.allocatePage.1 = p.allocatePage.1 ∧ a.allocatePage.2.Stands p.allocatePage.2 := by
  have hstorage : p.used.storage.isNone = false := by
    rw [Option.isNone_eq_false_iff, Option.isSome_iff_ne_none]
    exact h.storage
  unfold PhysicalPages.allocatePage PhysicalPages.allocateFrom PageBitmap.allocate
  rw [hstorage, Bool.false_or, ← h.freeCount, ← h.firstFree]
  rcases a.allocatePage_take with ⟨hnone, hempty⟩ | ⟨i, hfirst, hi, hunused, hcount, hsome⟩
  · rw [hnone]
    rcases hempty with hzero | hfirst
    · rw [if_pos (decide_eq_true hzero)]
      exact ⟨rfl, h⟩
    · rw [hfirst, ite_self]
      exact ⟨rfl, h⟩
  have hbit : a.isUsed i = false := by
    unfold isUsed
    rw [hunused, decide_eq_false (Nat.not_le.mpr hi), Bool.false_or]
  rw [hsome, if_neg (by simpa using hcount), hfirst]
  dsimp only
  rw [← h.reserved, isReserved_of_unused hi hunused, Bool.not_false, if_pos rfl]
  refine ⟨rfl, ?_⟩
  rcases p.used.markUsed_cases i with ⟨-, hused⟩ | ⟨used, heq, -, hbits, hpages, hfreeCount, -, hstorage'⟩
  · rw [← h.used, hbit] at hused
    cases hused
  · rw [heq]
    refine h.change ⟨rfl, rfl⟩ rfl hi hbits hpages hstorage' ?_ ?_
    · show a.freeCount - 1 = used.freeCount
      rw [hfreeCount, h.freeCount]
    · show (if i + 1 ≥ a.pageCount then 0 else i + 1) = if i + 1 ≥ p.used.pageCount then 0 else i + 1
      rw [h.pageCount, h.capacity]

theorem Stands.frees_iff (h : a.Stands p) (physical : Word) :
    a.frees physical = true ↔ isPageAligned physical = true ∧ physical.toNat / pageSize < p.pageCount ∧
      p.reserved.isUsed (physical.toNat / pageSize) = false ∧ p.used.isUsed (physical.toNat / pageSize) = true := by
  rw [← h.reserved, ← h.used, ← h.pageCount, Allocator.frees_iff]
  unfold isReserved isUsed
  generalize physical.toNat / pageSize = index
  refine and_congr_right fun _ => and_congr_right fun hlt => ?_
  rw [decide_eq_false (Nat.not_le.mpr hlt), Bool.false_or, Bool.false_or]

theorem Stands.freePage_refused (h : a.Stands p) {physical : Word} (hfrees : a.frees physical = false) :
    p.freePage physical = (false, p) := by
  rw [← Bool.not_eq_true, h.frees_iff] at hfrees
  unfold PhysicalPages.freePage
  dsimp only
  split
  · rfl
  rename_i hbad
  split
  · rfl
  rename_i hrefused
  simp only [Bool.or_eq_true, Bool.not_eq_true', decide_eq_true_eq, not_or, Bool.not_eq_true, Bool.not_eq_false,
    Nat.not_le] at hbad hrefused
  rcases p.used.markFree_cases (physical.toNat / pageSize) with ⟨heq, -⟩ | ⟨used, -, -, hused, -⟩
  · rw [heq]
  · exact absurd ⟨hbad.1, hrefused.1, hrefused.2, hused⟩ hfrees

theorem Stands.freePage (h : a.Stands p) (physical : Word) :
    a.frees physical = (p.freePage physical).1 ∧ (a.freePage physical).Stands (p.freePage physical).2 := by
  have hlogged : ∀ releases, Stands { a with releases := releases } p :=
    fun _ => ⟨h.pageCount, h.capacity, h.storage, h.used, h.reserved, h.freeCount, h.nextHint⟩
  unfold Allocator.freePage
  dsimp only
  split
  · rename_i hfrees
    obtain ⟨haligned, hlt, hreserved, hused⟩ := (h.frees_iff physical).mp hfrees
    have hbad : ¬ (!isPageAligned physical || decide (p.pageCount = 0)) = true := by
      rw [haligned, decide_eq_false (Nat.ne_of_gt (Nat.zero_lt_of_lt hlt))]
      decide
    have hrefused : ¬ (decide (physical.toNat / pageSize ≥ p.pageCount) ||
        p.reserved.isUsed (physical.toNat / pageSize)) = true := by
      rw [hreserved, decide_eq_false (Nat.not_le.mpr hlt)]
      decide
    unfold PhysicalPages.freePage
    dsimp only
    rw [if_neg hbad, if_neg hrefused, hfrees]
    rcases p.used.markFree_cases (physical.toNat / pageSize) with
      ⟨-, hfree | hge | hnone⟩ | ⟨used, heq, -, -, hbits, hpages, hfreeCount, hhint, hstorage⟩
    · rw [hused] at hfree
      cases hfree
    · rw [h.capacity] at hge
      exact absurd hlt (Nat.not_lt.mpr hge)
    · exact absurd hnone h.storage
    · rw [heq]
      refine ⟨rfl, (hlogged _).change ⟨rfl, rfl⟩ rfl (h.pageCount ▸ hlt) hbits hpages hstorage ?_ ?_⟩
      · rw [hfreeCount, ← h.freeCount]
        rfl
      · rw [hhint, ← h.nextHint]
        rfl
  · rename_i hfrees
    rw [h.freePage_refused (Bool.eq_false_iff.mpr hfrees)]
    exact ⟨Bool.eq_false_iff.mpr hfrees, hlogged _⟩

theorem Stands.answers (h : a.Stands p) (requests : List PageRequest) :
    (Memory.answers answer a requests).1 = (Memory.answers PhysicalPages.answer p requests).1 ∧
      (Memory.answers answer a requests).2.Stands (Memory.answers PhysicalPages.answer p requests).2 := by
  induction requests generalizing a p with
  | nil => exact ⟨rfl, h⟩
  | cons request requests ih =>
    have hstep : (a.answer request).1 = (p.answer request).1 ∧ (a.answer request).2.Stands (p.answer request).2 := by
      cases request with
      | allocatePage => exact ⟨congrArg PageAnswer.allocated h.allocatePage.1, h.allocatePage.2⟩
      | freePage physical =>
        exact ⟨congrArg PageAnswer.freed (h.freePage physical).1, (h.freePage physical).2⟩
    obtain ⟨hanswers, hstands⟩ := ih hstep.2
    exact ⟨congrArg₂ List.cons hstep.1 hanswers, hstands⟩

end Steps

theorem Stands.used_iff (h : a.Stands p) {i : Nat} (hi : i < a.pageCount) : a.used i = p.used.isUsed i := by
  rw [← h.used]
  unfold isUsed
  rw [decide_eq_false (Nat.not_le.mpr hi), Bool.false_or]

theorem Stands.clear (h : a.Stands p) : a.clear = p.used.clear := by
  ext i
  rw [mem_clear, PageBitmap.mem_clear]
  constructor
  · rintro ⟨hi, hfree⟩
    rw [← h.used_iff hi]
    exact hfree
  · intro hfree
    have hi := PageBitmap.lt_of_isUsed_eq_false hfree
    rw [h.capacity, ← h.pageCount] at hi
    exact ⟨hi, (h.used_iff hi).trans hfree⟩

theorem Stands.free (h : a.Stands p) (hinv : p.Inv allocated) : a.free = p.available allocated ∧ a.Counted := by
  refine ⟨?_, ?_⟩
  · ext w
    refine exists_congr fun i => ?_
    rw [PhysicalPages.totalPages, h.pageCount, and_congr_right_iff]
    intro hi
    rw [h.used_iff (h.pageCount.symm ▸ hi), ← Bool.not_eq_true, hinv.used_iff i hi, not_or, Bool.not_eq_true]
    constructor
    · rintro ⟨⟨hreserved, hnew⟩, rfl⟩
      exact ⟨rfl, hreserved, hnew⟩
    · rintro ⟨rfl, hreserved, hnew⟩
      exact ⟨⟨hreserved, hnew⟩, rfl⟩
  · unfold Counted
    rw [h.freeCount, hinv.sound.freeCount, h.clear]

section Start

theorem isUsed_of_reserved (hinv : p.Inv allocated) {i : Nat} (h : p.reserved.isUsed i = true) :
    p.used.isUsed i = true := by
  by_contra hfree
  have hlt := PageBitmap.lt_of_isUsed_eq_false (Bool.eq_false_iff.mpr hfree)
  exact hfree ((hinv.used_iff i (Nat.lt_of_lt_of_le hlt hinv.capacity)).mpr (Or.inl h))

/-- The allocator with the bits of bitmaps that agree. -/
def ofBitmaps (p : PhysicalPages) (hinv : p.Inv ∅) (hzero : p.reserved.isUsed 0 = true) : Allocator where
  pageCount := p.pageCount
  used := p.used.isUsed
  reserved := p.reserved.isUsed
  freeCount := p.used.freeCount
  nextHint := p.used.nextHint
  releases := []
  pageCount_le := hinv.limit
  reserved_used := fun _ h => isUsed_of_reserved hinv h
  zero_reserved := hzero

theorem ofBitmaps_stands (hinv : p.Inv ∅) (hzero : p.reserved.isUsed 0 = true)
    (hcapacity : p.used.pageCount = p.pageCount) (hstorage : p.used.storage ≠ none) :
    (ofBitmaps p hinv hzero).Stands p := by
  have hpast : ∀ b : PageBitmap, b.pageCount = p.pageCount → ∀ i, (decide (p.pageCount ≤ i) || b.isUsed i) = b.isUsed i := by
    intro b hb i
    by_cases hi : p.pageCount ≤ i
    · have hused : b.isUsed i = true := by
        by_contra hfree
        have hlt := PageBitmap.lt_of_isUsed_eq_false (Bool.eq_false_iff.mpr hfree)
        omega
      rw [hused, Bool.or_true]
    · rw [decide_eq_false hi, Bool.false_or]
  exact ⟨rfl, hcapacity, hstorage, hpast p.used hcapacity, hpast p.reserved (hinv.paired.pageCount.symm.trans hcapacity),
    rfl, rfl⟩

theorem init_free (h : (PhysicalPages.boot.init info ram).1 = true) :
    0 < (PhysicalPages.boot.init info ram).2.used.freeCount := by
  unfold PhysicalPages.init at h ⊢
  dsimp only at h ⊢
  split_ifs at h ⊢
  split at h
  · cases h
  · exact of_decide_eq_true h

end Start

open PhysicalPages in
/-- After `initialize` the two allocators answer every sequence of calls alike. -/
theorem refines_bitmaps (h : (boot.init info ram).1 = true) : ∃ a : Allocator, a.releases = [] ∧ a.Counted ∧
    a.free = (boot.init info ram).2.available ∅ ∧ ∀ requests,
      (answers answer a requests).1 = (answers PhysicalPages.answer (boot.init info ram).2 requests).1 ∧
      (answers answer a requests).2.Stands (answers PhysicalPages.answer (boot.init info ram).2 requests).2 := by
  have hinv := inv_init info ram
  have hunreserved := (unreserved_init h).2
  have hzero : (boot.init info ram).2.reserved.isUsed 0 = true := by
    by_contra hfree
    have hlow := (hunreserved 0 (Bool.eq_false_iff.mpr hfree)).2.1
    unfold lowReservedEnd at hlow
    omega
  have hstorage : (boot.init info ram).2.used.storage ≠ none := by
    intro hnone
    have hcount := init_free h
    rw [hinv.sound.freeCount, Finset.card_pos] at hcount
    obtain ⟨i, hi⟩ := hcount
    have hused : (boot.init info ram).2.used.isUsed i = true := by
      unfold PageBitmap.isUsed
      rw [hnone]
    rw [PageBitmap.mem_clear, hused] at hi
    cases hi
  have hcapacity : (boot.init info ram).2.used.pageCount = (boot.init info ram).2.pageCount := by
    rcases init_cases info ram with ⟨pageCount, bitmapBytes, -, heq⟩ | ⟨start, -, -, -, -, -, hcapacity, heq⟩
    · rw [heq] at h
      cases h
    · have hlayout := freeMap_layout info start
      rw [heq, show (start.freeMap info).used.pageCount = start.used.pageCount from congrArg (·.2.2.2) hlayout,
        hcapacity]
      exact (congrArg (·.2.2.1) hlayout).symm
  have hstands := ofBitmaps_stands hinv hzero hcapacity hstorage
  exact ⟨_, rfl, (hstands.free hinv).2, (hstands.free hinv).1, hstands.answers⟩

end Allocator
end Linux95.Memory
