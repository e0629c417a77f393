import Mathlib.Algebra.Group.Int.Defs
import Mathlib.Algebra.Group.Nat.Defs
import Mathlib.Data.Set.Insert
import Mathlib.Logic.Function.Basic
import Mathlib.Tactic.Common

/-! The arithmetic of `memory/address.hpp`, and the allocator of physical pages: `memory/physical.cpp` over the
bitmaps of `memory/page_bitmap.hpp`. -/

namespace Linux95.Memory

abbrev Word := BitVec 64

def pageSize : Nat := 4096

def uint64Max : Nat := 2 ^ 64 - 1

def alignDown (value alignment : Nat) : Nat := if alignment = 0 then value else value / alignment * alignment

def alignUp (value alignment : Nat) : Nat :=
  if alignment = 0 then value
  else
    let mask := alignment - 1
    if value > uint64Max - mask then alignDown uint64Max alignment else alignDown (value + mask) alignment

theorem alignDown_page (value : Nat) : alignDown value pageSize = value / pageSize * pageSize := rfl

theorem alignUp_page (value : Nat) : alignUp value pageSize =
    if value > uint64Max - 4095 then 2 ^ 64 - pageSize else (value + 4095) / pageSize * pageSize := rfl

def addressMask : Word := 0x000FFFFFFFFFF000#64

def invalidAddress : Word := BitVec.allOnes 64

def isPageAligned (value : Word) : Bool := value &&& 0xFFF#64 == 0#64

def pageAddress (index : Nat) : Word := BitVec.ofNat 64 (index * pageSize)

theorem isPageAligned_iff {w : Word} : isPageAligned w = true ↔ pageAddress (w.toNat / pageSize) = w := by
  have hlow : (w &&& 0xFFF#64).toNat = w.toNat % 4096 := by
    rw [BitVec.toNat_and]
    exact Nat.and_two_pow_sub_one_eq_mod w.toNat 12
  have hpage : pageAddress (w.toNat / pageSize) = w ↔ w.toNat % 4096 = 0 := by
    rw [← BitVec.toNat_inj]
    unfold pageAddress pageSize
    rw [BitVec.toNat_ofNat]
    omega
  rw [hpage, ← hlow]
  unfold isPageAligned
  rw [beq_iff_eq]
  exact ⟨fun h => by rw [h]; rfl, fun h => BitVec.eq_of_toNat_eq h⟩

/-- The bitmaps `g_used` and `g_reserved`, with the counter and the hint of `g_used`. The last three
fields are what `initialize` leaves and nothing changes: at most 64 GiB are managed, a reserved page
is also marked as used, and low memory is reserved. `releases` records the calls of `free_page`
with their answers. `PhysicalPages` has the bitmaps byte by byte, and `refines_bitmaps` says that both
answer alike. -/
structure Allocator where
  pageCount : Nat
  used : Nat → Bool
  reserved : Nat → Bool
  freeCount : Nat
  nextHint : Nat
  releases : List (Word × Bool)
  pageCount_le : pageCount ≤ 2 ^ 24
  reserved_used : ∀ i, reserved i = true → used i = true
  zero_reserved : reserved 0 = true

namespace Allocator

def isUsed (a : Allocator) (index : Nat) : Bool := decide (a.pageCount ≤ index) || a.used index

def isReserved (a : Allocator) (index : Nat) : Bool :=
  decide (a.pageCount ≤ index) || a.reserved index

def firstFree (a : Allocator) : Option Nat :=
  (List.range' a.nextHint (a.pageCount - a.nextHint) ++ List.range a.nextHint).find? fun i =>
    !a.isUsed i

def take (a : Allocator) (index : Nat) : Allocator :=
  { a with
    used := Function.update a.used index true
    freeCount := a.freeCount - 1
    nextHint := if index + 1 ≥ a.pageCount then 0 else index + 1
    reserved_used := fun i hi => by
      by_cases h : i = index
      · rw [h, Function.update_self]
      · rw [Function.update_of_ne h]
        exact a.reserved_used i hi }

/-- `allocate_page`: a reserved page that the bitmap hands out is skipped. -/
def allocateFrom : Nat → Allocator → Option Word × Allocator
  | 0, a => (none, a)
  | turns + 1, a =>
    if a.freeCount = 0 then (none, a)
    else
      match a.firstFree with
      | none => (none, a)
      | some i =>
        if a.isReserved i then allocateFrom turns (a.take i) else (some (pageAddress i), a.take i)

/-- Every turn of the loop takes another page. -/
def allocatePage (a : Allocator) : Option Word × Allocator := allocateFrom (a.pageCount + 1) a

def release (a : Allocator) (index : Nat) (hindex : a.reserved index = false) : Allocator :=
  { a with
    used := Function.update a.used index false
    freeCount := a.freeCount + 1
    nextHint := if index < a.nextHint then index else a.nextHint
    reserved_used := fun i hi => by
      have h : i ≠ index := by
        intro h
        rw [h, hindex] at hi
        cases hi
      rw [Function.update_of_ne h]
      exact a.reserved_used i hi }

def frees (a : Allocator) (physical : Word) : Bool :=
  let index := physical.toNat / pageSize
  isPageAligned physical && decide (a.pageCount ≠ 0) && decide (index < a.pageCount) &&
    !a.isReserved index && a.isUsed index

theorem frees_iff {a : Allocator} {physical : Word} :
    a.frees physical = true ↔ isPageAligned physical = true ∧
      physical.toNat / pageSize < a.pageCount ∧ a.reserved (physical.toNat / pageSize) = false ∧
      a.used (physical.toNat / pageSize) = true := by
  unfold frees isReserved isUsed
  generalize physical.toNat / pageSize = index
  simp only [Bool.and_eq_true, decide_eq_true_eq, Bool.not_eq_true', Bool.or_eq_true,
    Bool.or_eq_false_iff, decide_eq_false_iff_not, and_assoc]
  constructor
  · rintro ⟨h₁, -, h₂, -, h₃, h₄⟩
    exact ⟨h₁, h₂, h₃, h₄.resolve_left (by omega)⟩
  · rintro ⟨h₁, h₂, h₃, h₄⟩
    exact ⟨h₁, by omega, h₂, by omega, h₃, Or.inr h₄⟩

def freePage (a : Allocator) (physical : Word) : Allocator :=
  let a' := { a with releases := a.releases ++ [(physical, a.frees physical)] }
  if h : a.frees physical = true then
    a'.release (physical.toNat / pageSize) (frees_iff.mp h).2.2.1
  else a'

def free (a : Allocator) : Set Word :=
  { p | ∃ i, i < a.pageCount ∧ a.used i = false ∧ p = pageAddress i }

def managed (a : Allocator) : Set Word :=
  { p | ∃ i, i < a.pageCount ∧ a.reserved i = false ∧ p = pageAddress i }

section Addresses

theorem pageAddress_toNat {i : Nat} (h : i < 2 ^ 24) : (pageAddress i).toNat = i * pageSize := by
  unfold pageAddress pageSize
  rw [BitVec.toNat_ofNat]
  omega

theorem pageAddress_inj {i j : Nat} (hi : i < 2 ^ 24) (hj : j < 2 ^ 24)
    (h : pageAddress i = pageAddress j) : i = j := by
  have h := congrArg BitVec.toNat h
  rw [pageAddress_toNat hi, pageAddress_toNat hj] at h
  unfold pageSize at h
  omega

theorem pageAddress_mask {i : Nat} (h : i < 2 ^ 24) : pageAddress i &&& addressMask = pageAddress i := by
  have hbit : ∀ k, 12 ≤ k → k < 52 → addressMask.getLsbD k = true := by decide
  apply BitVec.eq_of_getLsbD_eq
  intro k hk
  rw [BitVec.getLsbD_and]
  by_cases hinside : 12 ≤ k ∧ k < 52
  · rw [hbit k hinside.1 hinside.2, Bool.and_true]
  · have hzero : (pageAddress i).getLsbD k = false := by
      unfold pageAddress pageSize
      rw [BitVec.getLsbD_ofNat, show 4096 = 2 ^ 12 from rfl]
      by_cases hlow : k < 12
      · have hbelow : decide (k ≥ 12) = false := decide_eq_false (by omega)
        rw [Nat.mul_comm, Nat.testBit_two_pow_mul, hbelow, Bool.false_and, Bool.and_false]
      · have hsmall : i * 2 ^ 12 < 2 ^ k := by
          calc i * 2 ^ 12 < 2 ^ 24 * 2 ^ 12 := by omega
            _ ≤ 2 ^ k := by
              rw [← Nat.pow_add]
              exact Nat.pow_le_pow_right (by decide) (by omega)
        rw [Nat.testBit_lt_two_pow hsmall, Bool.and_false]
    rw [hzero, Bool.false_and]

theorem isPageAligned_of_mask {p : Word} (h : p &&& addressMask = p) : isPageAligned p = true := by
  have hzero : addressMask &&& 0xFFF#64 = 0#64 := by decide
  unfold isPageAligned
  rw [← h, BitVec.and_assoc, hzero, BitVec.and_zero]
  rfl

end Addresses

section Sets
variable {a : Allocator} {p : Word}

theorem mem_free_pageAddress {i : Nat} (hi : i < a.pageCount) :
    pageAddress i ∈ a.free ↔ a.used i = false := by
  have hle := a.pageCount_le
  constructor
  · rintro ⟨j, hj, hfree, heq⟩
    rw [pageAddress_inj (by omega) (by omega) heq]
    exact hfree
  · intro hfree
    exact ⟨i, hi, hfree, rfl⟩

theorem free_subset_managed : a.free ⊆ a.managed := by
  rintro p ⟨i, hi, hfree, rfl⟩
  refine ⟨i, hi, ?_, rfl⟩
  rw [Bool.eq_false_iff]
  intro hreserved
  rw [a.reserved_used i hreserved] at hfree
  cases hfree

theorem managed_mask (hp : p ∈ a.managed) : p &&& addressMask = p := by
  obtain ⟨i, hi, -, rfl⟩ := hp
  have hle := a.pageCount_le
  exact pageAddress_mask (by omega)

theorem managed_lt (hp : p ∈ a.managed) : p.toNat < 2 ^ 36 := by
  obtain ⟨i, hi, -, rfl⟩ := hp
  have hle := a.pageCount_le
  rw [pageAddress_toNat (by omega)]
  unfold pageSize
  omega

theorem managed_ne_zero (hp : p ∈ a.managed) : p ≠ 0#64 := by
  obtain ⟨i, hi, hreserved, rfl⟩ := hp
  have hle := a.pageCount_le
  intro hzero
  have h := congrArg BitVec.toNat hzero
  rw [pageAddress_toNat (by omega)] at h
  have hi0 : i = 0 := by
    unfold pageSize at h
    rw [BitVec.toNat_ofNat] at h
    omega
  rw [hi0, a.zero_reserved] at hreserved
  cases hreserved

theorem managed_ne_invalid (hp : p ∈ a.managed) : p ≠ invalidAddress := by
  intro h
  have hmask := managed_mask hp
  rw [h] at hmask
  revert hmask
  decide

theorem isReserved_of_unused {i : Nat} (hi : i < a.pageCount) (h : a.used i = false) : a.isReserved i = false := by
  unfold isReserved
  rw [decide_eq_false (Nat.not_le.mpr hi), Bool.false_or, Bool.eq_false_iff]
  intro hreserved
  rw [a.reserved_used i hreserved] at h
  cases h

theorem allocatePage_take (a : Allocator) :
    a.allocatePage = (none, a) ∧ (a.freeCount = 0 ∨ a.firstFree = none) ∨
      ∃ i, a.firstFree = some i ∧ i < a.pageCount ∧ a.used i = false ∧ a.freeCount ≠ 0 ∧
        a.allocatePage = (some (pageAddress i), a.take i) := by
  -- a free page is never reserved, so the loop of `allocate_page` ends at its first turn
  unfold allocatePage allocateFrom
  split_ifs with hcount
  · exact Or.inl ⟨rfl, Or.inl hcount⟩
  · cases hfirst : a.firstFree with
    | none => exact Or.inl ⟨rfl, Or.inr rfl⟩
    | some i =>
      have hfree := List.find?_some hfirst
      simp only [isUsed, Bool.not_eq_true', Bool.or_eq_false_iff, decide_eq_false_iff_not,
        Nat.not_le] at hfree
      obtain ⟨hi, hunused⟩ := hfree
      dsimp only
      rw [isReserved_of_unused hi hunused]
      exact Or.inr ⟨i, rfl, hi, hunused, hcount, rfl⟩

theorem take_free {i : Nat} (hi : i < a.pageCount) : (a.take i).free = a.free \ {pageAddress i} := by
  have hle := a.pageCount_le
  ext q
  constructor
  · rintro ⟨j, hj, hfree, rfl⟩
    have hne : j ≠ i := by
      intro h
      subst h
      simp [take] at hfree
    have hj' : j < a.pageCount := hj
    refine ⟨⟨j, hj, ?_, rfl⟩, fun h => hne (pageAddress_inj (by omega) (by omega) h)⟩
    simpa [take, Function.update_of_ne hne] using hfree
  · rintro ⟨⟨j, hj, hfree, rfl⟩, hne⟩
    refine ⟨j, hj, ?_, rfl⟩
    have hne : j ≠ i := fun h => hne (by rw [h]; rfl)
    simpa [take, Function.update_of_ne hne] using hfree

theorem allocatePage_cases (a : Allocator) :
    a.allocatePage = (none, a) ∨ ∃ p a', a.allocatePage = (some p, a') ∧ p ∈ a.free ∧
      a'.free = a.free \ {p} ∧ a'.managed = a.managed ∧ a'.releases = a.releases := by
  rcases a.allocatePage_take with ⟨hnone, -⟩ | ⟨i, -, hi, hunused, -, hsome⟩
  · exact Or.inl hnone
  · exact Or.inr ⟨_, _, hsome, ⟨i, hi, hunused, rfl⟩, take_free hi, rfl, rfl⟩

theorem frees_of_managed (hp : p ∈ a.managed) (hused : p ∉ a.free) : a.frees p = true := by
  obtain ⟨i, hi, hreserved, rfl⟩ := hp
  have hle := a.pageCount_le
  have hindex : (pageAddress i).toNat / pageSize = i := by
    rw [pageAddress_toNat (by omega)]
    unfold pageSize
    omega
  rw [frees_iff, hindex]
  refine ⟨isPageAligned_of_mask (pageAddress_mask (by omega)), hi, hreserved, ?_⟩
  rw [mem_free_pageAddress hi, Bool.not_eq_false] at hused
  exact hused

theorem freePage_spec (hp : p ∈ a.managed) (hused : p ∉ a.free) :
    (a.freePage p).free = insert p a.free ∧ (a.freePage p).managed = a.managed ∧
      (a.freePage p).releases = a.releases ++ [(p, true)] := by
  have hfrees := frees_of_managed hp hused
  obtain ⟨i, hi, hreserved, rfl⟩ := hp
  have hle := a.pageCount_le
  have hindex : (pageAddress i).toNat / pageSize = i := by
    rw [pageAddress_toNat (by omega)]
    unfold pageSize
    omega
  unfold freePage
  rw [dif_pos hfrees]
  refine ⟨?_, rfl, by rw [hfrees]; rfl⟩
  ext q
  have hupdate : ∀ j, Function.update a.used ((pageAddress i).toNat / pageSize) false j = false ↔
      j = i ∨ a.used j = false := by
    intro j
    rw [hindex]
    by_cases hj : j = i
    · subst hj
      simp
    · simp [hj]
  constructor
  · rintro ⟨j, hj, hfree, rfl⟩
    rcases (hupdate j).mp hfree with rfl | hfree
    · exact Set.mem_insert _ _
    · exact Set.mem_insert_of_mem _ ⟨j, hj, hfree, rfl⟩
  · intro hq
    rcases Set.mem_insert_iff.mp hq with rfl | ⟨j, hj, hfree, rfl⟩
    · exact ⟨i, hi, (hupdate i).mpr (Or.inl rfl), rfl⟩
    · exact ⟨j, hj, (hupdate j).mpr (Or.inr hfree), rfl⟩

theorem freePage_keeps (a : Allocator) (p : Word) :
    (a.freePage p).managed = a.managed ∧ (a.freePage p).free ⊆ insert p a.free := by
  unfold freePage
  dsimp only
  split
  · rename_i hfrees
    have haddress := isPageAligned_iff.mp (frees_iff.mp hfrees).1
    refine ⟨rfl, ?_⟩
    rintro q ⟨i, hi, hfree, rfl⟩
    by_cases hindex : i = p.toNat / pageSize
    · left
      rw [hindex]
      exact haddress
    · right
      refine ⟨i, hi, ?_, rfl⟩
      simpa [release, Function.update_of_ne hindex] using hfree
  · exact ⟨rfl, Set.subset_insert p a.free⟩

end Sets

end Allocator

end Linux95.Memory
