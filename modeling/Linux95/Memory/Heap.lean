import Mathlib.Algebra.Group.Int.Defs
import Mathlib.Algebra.Group.Nat.Defs
import Mathlib.Tactic.Common

/-! The bump allocator of `memory/heap.cpp`. -/

namespace Linux95.Memory

/-- `g_start`, `g_current` and `g_end`: all zero before `initialize` has succeeded, and afterwards in
this order, the first two 16-byte aligned. -/
structure Heap where
  start : Nat
  current : Nat
  limit : Nat
  ready : start = 0 ∧ current = 0 ∧ limit = 0 ∨
    0 < start ∧ start ≤ current ∧ current ≤ limit ∧ limit < 2 ^ 64 ∧ start % 16 = 0 ∧ current % 16 = 0

namespace Heap

def alignedSize (bytes : Nat) : Nat := (bytes + 15) / 16 * 16

def fits (h : Heap) (bytes : Nat) : Prop :=
  bytes ≠ 0 ∧ h.current ≠ 0 ∧ bytes ≤ 2 ^ 64 - 1 - 15 ∧ alignedSize bytes ≤ h.limit - h.current

instance (h : Heap) (bytes : Nat) : Decidable (h.fits bytes) :=
  inferInstanceAs (Decidable (_ ∧ _ ∧ _ ∧ _))

def advance (h : Heap) (bytes : Nat) (hfits : h.fits bytes) : Heap where
  start := h.start
  current := h.current + alignedSize bytes
  limit := h.limit
  ready := by
    have hready := h.ready
    obtain ⟨-, hcurrent, -, hroom⟩ := hfits
    have haligned : alignedSize bytes % 16 = 0 := Nat.mul_mod_left _ 16
    omega

/-- `heap::allocate`: the address, or `none` for the null pointer. -/
def allocate (h : Heap) (bytes : Nat) : Option Nat × Heap :=
  if hfits : h.fits bytes then (some h.current, h.advance bytes hfits) else (none, h)

def checkpoint (h : Heap) : Nat := h.current

def accepts (h : Heap) (checkpoint : Nat) : Prop :=
  h.current ≠ 0 ∧ h.start ≤ checkpoint ∧ checkpoint ≤ h.current ∧ checkpoint % 16 = 0

instance (h : Heap) (checkpoint : Nat) : Decidable (h.accepts checkpoint) :=
  inferInstanceAs (Decidable (_ ∧ _ ∧ _ ∧ _))

def rewind (h : Heap) (checkpoint : Nat) : Heap :=
  if haccepts : h.accepts checkpoint then
    { start := h.start
      current := checkpoint
      limit := h.limit
      ready := by
        have hready := h.ready
        obtain ⟨hcurrent, hstart, hle, haligned⟩ := haccepts
        omega }
  else h

structure Extends (h h' : Heap) : Prop where
  start : h'.start = h.start
  limit : h'.limit = h.limit
  current : h.current ≤ h'.current
  used : h'.current ≠ 0 → h.current ≠ 0

theorem Extends.refl (h : Heap) : Extends h h := ⟨rfl, rfl, Nat.le_refl _, id⟩

theorem Extends.allocate {h h' : Heap} (hext : Extends h h') (bytes : Nat) :
    Extends h (h'.allocate bytes).2 := by
  obtain ⟨hstart, hlimit, hcurrent, hused⟩ := hext
  unfold Heap.allocate
  split
  · rename_i hfits
    refine ⟨hstart, hlimit, Nat.le_trans hcurrent (Nat.le_add_right _ _), fun _ => hused hfits.2.1⟩
  · exact ⟨hstart, hlimit, hcurrent, hused⟩

theorem Extends.rewind {h h' : Heap} (hext : Extends h h') : h'.rewind h.checkpoint = h := by
  obtain ⟨start, current, limit, ready⟩ := h
  obtain ⟨start', current', limit', ready'⟩ := h'
  obtain ⟨hstart, hlimit, hcurrent, hused⟩ := hext
  dsimp only at hstart hlimit hcurrent hused
  subst hstart hlimit
  unfold Heap.rewind checkpoint
  by_cases haccepts : Heap.accepts ⟨start', current', limit', ready'⟩ current
  · rw [dif_pos haccepts]
  · rw [dif_neg haccepts]
    unfold accepts at haccepts
    dsimp only at haccepts
    have hsame : current' = current := by omega
    subst hsame
    rfl

end Heap

end Linux95.Memory
