import Linux95.User.PageRuns

/-! What loading, reaping and the writes of programs do to the process table: which slots change, and how. -/

namespace Linux95.User
open Base LinkedTables Memory Machine

namespace Kernel
variable {k : Kernel} {free₀ kernel : Set Word} {reference : PhysicalMemory} {slot : Slot}

theorem reap_process (k : Kernel) (slot : Slot) :
    k.reap.process slot = if (k.process slot).state = .exited then .unused else k.process slot := by
  have hfold : ∀ (slots : List Slot) (k : Kernel), (slots.foldl reapSlot k).process slot =
      if slot ∈ slots ∧ (k.process slot).state = .exited then .unused else k.process slot := by
    intro slots
    induction slots with
    | nil => exact fun k => (if_neg fun h => absurd h.1 List.not_mem_nil).symm
    | cons slot' slots ih =>
      intro k
      rw [List.foldl_cons, ih]
      by_cases hexited : (k.process slot').state = .exited
      · rw [reapSlot_exited hexited]
        by_cases hsame : slot = slot'
        · rw [hsame, process_set, if_neg (fun h => nomatch h.2), if_pos ⟨List.mem_cons_self, hexited⟩]
        · rw [process_set_of_ne k.table hsame]
          simp only [List.mem_cons, hsame, false_or]
          rfl
      · rw [reapSlot_of_ne hexited]
        by_cases hsame : slot = slot'
        · rw [← hsame] at hexited
          rw [if_neg (fun h => hexited h.2), if_neg (fun h => hexited h.2)]
        · simp only [List.mem_cons, hsame, false_or]
  rw [reap_eq, hfold]
  simp only [List.mem_finRange, true_and]

theorem reap_nextPid (k : Kernel) : k.reap.table.nextPid = k.table.nextPid := by
  have hfold : ∀ (slots : List Slot) (k : Kernel), (slots.foldl reapSlot k).table.nextPid = k.table.nextPid := by
    intro slots
    induction slots with
    | nil => exact fun _ => rfl
    | cons slot slots ih =>
      intro k
      rw [List.foldl_cons, ih]
      by_cases hexited : (k.process slot).state = .exited
      · rw [reapSlot_exited hexited]
        rfl
      · rw [reapSlot_of_ne hexited]
  rw [reap_eq, hfold]

theorem stackTop_ne_zero {a : Allocator} {p : Word} (hp : p ∈ a.managed) :
    physicalToHhdm p + BitVec.ofNat 64 pageSize ≠ 0#64 := by
  have hlt := Allocator.managed_lt hp
  have hbase : hhdmBase.toNat = 0xFFFF800000000000 := by decide
  have hsize : (BitVec.ofNat 64 pageSize).toNat = 4096 := by decide
  intro h
  have hnat := congrArg BitVec.toNat h
  unfold physicalToHhdm at hnat
  rw [BitVec.toNat_add, BitVec.toNat_add, hbase, hsize] at hnat
  simp only [BitVec.toNat_ofNat] at hnat
  omega

structure Fresh (pid : BitVec 32) (p : Process) : Prop where
  ready : ∃ old : Process, old.pid = pid ∧ ∃ root stack entry, p = readyProcess old root stack entry
  root : p.pageTablePhysical ≠ 0#64
  top : p.kernelStackTop ≠ 0#64

/-- A load fills a slot that was not in use, or leaves it out of use. -/
theorem load_cases (h : k.Conserved free₀ kernel reference) (vfs : Nat → Vfs.Backend) (path : Fat32.CString) :
    k.load vfs path = k ∨ ∃ slot, (k.process slot).state = .unused ∧
      (k.load vfs path).table.nextPid = k.table.nextPid + 1 ∧
      (((k.load vfs path).process slot).state = .unused ∨ Fresh k.table.nextPid ((k.load vfs path).process slot)) ∧
      ∀ slot', slot' ≠ slot → (k.load vfs path).process slot' = k.process slot' := by
  unfold Kernel.load
  cases hallocate : k.table.allocate with
  | none => exact Or.inl rfl
  | some taken =>
    obtain ⟨slot, table⟩ := taken
    obtain ⟨hunused, htable⟩ := allocate_some hallocate
    obtain ⟨hconserved, -⟩ := h.allocate hallocate
    have hnext : table.nextPid = k.table.nextPid + 1 := by
      unfold Table.allocate at hallocate
      obtain ⟨_, -, heq⟩ := Option.map_eq_some_iff.mp hallocate
      rw [← (Prod.mk.inj heq).2]
    have hfresh : table.processes slot = { Process.unused with pid := k.table.nextPid, state := .created } := by
      rw [htable, Function.update_self]
    have hother : ∀ slot', slot' ≠ slot → table.processes slot' = k.process slot' := by
      intro slot' hne
      rw [htable, Function.update_of_ne hne]
      rfl
    refine Or.inr ⟨slot, hunused, ?_⟩
    have hpath : some path ≠ none := fun hnone => nomatch hnone
    have hcases := loadProcessImage_cases hconserved.shaped hconserved.tidy vfs hpath
      (congrArg Process.state hfresh) (congrArg Process.pageTablePhysical hfresh)
      (congrArg Process.kernelStackBase hfresh) (congrArg Process.kernelStackTop hfresh)
    dsimp only
    rcases hcases with ⟨status, m', -, hresult, -⟩ | ⟨root, stack, entry, s, hresult, hfinished⟩
    · rw [hresult]
      refine ⟨hnext, Or.inl ?_, fun slot' hne => (process_set_of_ne table hne ..).trans (hother slot' hne)⟩
      rw [process_set]
      rfl
    · rw [hresult]
      have hnew : NewProcess kernel reference _ _ slot root stack s.userPages := .of_finished entry hfinished
      have hmem : stack ∈ k.machine.allocator.managed := by
        refine Allocator.free_subset_managed ?_
        rw [show k.machine.allocator.free = ({ k with table := table } : Kernel).machine.allocator.free from rfl,
          ← hnew.built.ledger]
        exact Or.inr (List.mem_append_right _ List.mem_cons_self)
      refine ⟨hnext, Or.inr ⟨?_, ?_, ?_⟩, fun slot' hne => (process_set_of_ne table hne ..).trans (hother slot' hne)⟩
      · refine ⟨table.processes slot, ?_, root, stack, entry, process_set ..⟩
        rw [hfresh]
      · exact fun hzero => hnew.root_ne_zero (hnew.pageTable.symm.trans hzero)
      · rw [process_set]
        exact stackTop_ne_zero hmem

theorem store_table (k : Kernel) (slot : Slot) (address : Word) (contents : Index → Word) :
    (k.store slot address contents).table = k.table := by
  unfold Kernel.store
  split
  · dsimp only
    split <;> rfl
  · rfl

theorem stores_table (stores : List (Word × (Index → Word))) (k : Kernel) (slot : Slot) :
    (stores.foldl (fun k write => k.store slot write.1 write.2) k).table = k.table := by
  induction stores generalizing k with
  | nil => rfl
  | cons write stores ih => exact (ih _).trans (store_table k slot write.1 write.2)

theorem Conserved.stores (h : k.Conserved free₀ kernel reference) (stores : List (Word × (Index → Word))) (slot : Slot) :
    (stores.foldl (fun k write => k.store slot write.1 write.2) k).Conserved free₀ kernel reference := by
  induction stores generalizing k with
  | nil => exact h
  | cons write stores ih => exact ih (h.store slot write.1 write.2).1

end Kernel

end Linux95.User
