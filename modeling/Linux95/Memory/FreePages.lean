import Linux95.Memory.Physical
import Mathlib.Data.Set.Card

/-! The counter of the page allocator: `initialize` sets it to the number of free pages, and every call keeps it so. -/

namespace Linux95.Memory.Allocator

def clear (a : Allocator) : Finset Nat := (Finset.range a.pageCount).filter fun i => a.used i = false

def Counted (a : Allocator) : Prop := a.freeCount = a.clear.card

instance (a : Allocator) : Decidable a.Counted := inferInstanceAs (Decidable (a.freeCount = a.clear.card))

variable {a a' : Allocator} {i : Nat} {p : Word}

theorem mem_clear : i ∈ a.clear ↔ i < a.pageCount ∧ a.used i = false := by
  unfold clear
  rw [Finset.mem_filter, Finset.mem_range]

theorem Counted.ncard_free (h : a.Counted) : a.free.ncard = a.freeCount := by
  have hle := a.pageCount_le
  have himage : a.free = a.clear.image pageAddress := by
    ext q
    rw [Finset.mem_coe, Finset.mem_image]
    constructor
    · rintro ⟨i, hi, hfree, rfl⟩
      exact ⟨i, mem_clear.mpr ⟨hi, hfree⟩, rfl⟩
    · rintro ⟨i, hi, rfl⟩
      obtain ⟨hi, hfree⟩ := mem_clear.mp hi
      exact ⟨i, hi, hfree, rfl⟩
  rw [himage, Set.ncard_coe_finset, Finset.card_image_of_injOn, h]
  intro i hi j hj heq
  have hi := (mem_clear.mp hi).1
  have hj := (mem_clear.mp hj).1
  exact pageAddress_inj (by omega) (by omega) heq

theorem firstFree_none (h : a.firstFree = none) : a.clear = ∅ := by
  rw [Finset.eq_empty_iff_forall_notMem]
  intro i hi
  obtain ⟨hi, hfree⟩ := mem_clear.mp hi
  have hused := List.find?_eq_none.mp h i
  have hmem : i ∈ List.range' a.nextHint (a.pageCount - a.nextHint) ++ List.range a.nextHint := by
    rw [List.mem_append, List.mem_range'_1, List.mem_range]
    omega
  have hused := hused hmem
  unfold isUsed at hused
  rw [hfree, decide_eq_false (Nat.not_le.mpr hi)] at hused
  exact hused rfl

theorem take_clear (a : Allocator) (i : Nat) : (a.take i).clear = a.clear.erase i := by
  ext j
  rw [Finset.mem_erase, mem_clear, mem_clear]
  show j < a.pageCount ∧ Function.update a.used i true j = false ↔ _
  by_cases hj : j = i
  · subst hj
    simp
  · rw [Function.update_of_ne hj]
    simp [hj]

/-- A call of `allocate_page` finds a page exactly when one is free. -/
theorem Counted.allocatePage (h : a.Counted) : a.freeCount = 0 ∧ a.allocatePage = (none, a) ∨
    ∃ p a', a.allocatePage = (some p, a') ∧ p ∈ a.free ∧ a'.free = a.free \ {p} ∧ a'.managed = a.managed ∧
      a'.Counted ∧ a'.freeCount + 1 = a.freeCount := by
  rcases a.allocatePage_take with ⟨hnone, hempty⟩ | ⟨i, -, hi, hunused, hcount, hsome⟩
  · refine Or.inl ⟨?_, hnone⟩
    rcases hempty with hzero | hfirst
    · exact hzero
    · rw [h, firstFree_none hfirst, Finset.card_empty]
  · have hmem : i ∈ a.clear := mem_clear.mpr ⟨hi, hunused⟩
    have htaken : (a.take i).freeCount + 1 = a.freeCount := Nat.succ_pred_eq_of_ne_zero hcount
    refine Or.inr ⟨_, _, hsome, ⟨i, hi, hunused, rfl⟩, take_free hi, rfl, ?_, htaken⟩
    unfold Counted
    rw [take_clear, Finset.card_erase_of_mem hmem, ← h]
    rfl

theorem release_clear (a : Allocator) (hi : i < a.pageCount) (hreserved : a.reserved i = false) :
    (a.release i hreserved).clear = insert i a.clear := by
  ext j
  rw [Finset.mem_insert, mem_clear, mem_clear]
  show j < a.pageCount ∧ Function.update a.used i false j = false ↔ _
  by_cases hj : j = i
  · rw [hj, Function.update_self]
    exact ⟨fun _ => Or.inl rfl, fun _ => ⟨hi, rfl⟩⟩
  · rw [Function.update_of_ne hj]
    exact ⟨Or.inr, fun hclear => hclear.resolve_left hj⟩

theorem Counted.release (h : a.Counted) (hi : i < a.pageCount) (hreserved : a.reserved i = false)
    (hused : a.used i = true) : (a.release i hreserved).Counted := by
  have hmem : i ∉ a.clear := by
    rw [mem_clear, hused]
    exact fun hclear => Bool.noConfusion hclear.2
  unfold Counted
  rw [release_clear a hi hreserved, Finset.card_insert_of_notMem hmem, ← h]
  rfl

theorem Counted.freePage (h : a.Counted) (p : Word) : (a.freePage p).Counted := by
  unfold Allocator.freePage
  dsimp only
  split
  · rename_i hfrees
    obtain ⟨-, hi, hreserved, hused⟩ := frees_iff.mp hfrees
    let a' := { a with releases := a.releases ++ [(p, a.frees p)] }
    have h' : a'.Counted := h
    exact h'.release hi hreserved hused
  · exact h

end Linux95.Memory.Allocator
