import Linux95.User.Reaping

/-! Physical pages over any sequence of loads, exits and reaps. -/

namespace Linux95.User
open Base LinkedTables Memory Machine

namespace Kernel

def process (k : Kernel) (slot : Slot) : Process := k.table.processes slot

def free (k : Kernel) : Set Word := k.machine.allocator.free

def pagesOf (k : Kernel) (slot : Slot) : Set Word := (k.process slot).pages k.machine.memory

def roots (k : Kernel) : Set Word :=
  { r | r ≠ 0#64 ∧ ∃ slot, (k.process slot).pageTablePhysical = r }

/-- Every page that was free at first is free, or one process has it. -/
structure Conserved (free₀ kernel : Set Word) (reference : PhysicalMemory) (k : Kernel) : Prop where
  shaped : Shaped k.machine k.roots kernel reference
  loaded : ∀ slot, (k.process slot).pageTablePhysical ≠ 0#64 → Loaded k.machine.memory (k.process slot)
  bare : ∀ slot, (k.process slot).pageTablePhysical = 0#64 → (k.process slot).kernelStackBase = 0#64
  unused : ∀ slot, (k.process slot).state = .unused → (k.process slot).pageTablePhysical = 0#64
  apart : ∀ slot slot', slot ≠ slot' → ∀ q ∈ k.pagesOf slot, q ∉ k.pagesOf slot'
  used : ∀ slot, ∀ q ∈ k.pagesOf slot, q ∈ k.machine.allocator.managed ∧ q ∉ k.free ∧ q ∉ kernel
  ledger : ∀ q, q ∈ free₀ ↔ q ∈ k.free ∨ ∃ slot, q ∈ k.pagesOf slot
  tidy : Tidy k.files

variable {k k' : Kernel} {free₀ kernel : Set Word} {reference : PhysicalMemory} {slot : Slot}

theorem mem_roots (h : (k.process slot).pageTablePhysical ≠ 0#64) :
    (k.process slot).pageTablePhysical ∈ k.roots := ⟨h, slot, rfl⟩

theorem held_subset_pagesOf (h : (k.process slot).pageTablePhysical ≠ 0#64) :
    held k.machine.memory (k.process slot).pageTablePhysical ⊆ k.pagesOf slot :=
  fun _ hq => ⟨h, Or.inl hq⟩

theorem pages_unused (memory : PhysicalMemory) {p : Process} (h : p.pageTablePhysical = 0#64) :
    p.pages memory = ∅ := by
  rw [Set.eq_empty_iff_forall_notMem]
  rintro q ⟨hzero, -⟩
  exact hzero h

theorem pages_congr (memory memory' : PhysicalMemory) {p p' : Process}
    (hroot : p'.pageTablePhysical = p.pageTablePhysical) (hstack : p'.kernelStackBase = p.kernelStackBase)
    (hheld : p.pageTablePhysical ≠ 0#64 →
      held memory' p.pageTablePhysical = held memory p.pageTablePhysical)
    (hviews : p.pageTablePhysical ≠ 0#64 → ∀ key : PageKey, key.InUserSlot →
      view memory' p.pageTablePhysical key = view memory p.pageTablePhysical key) :
    p'.pages memory' = p.pages memory ∧
      (p.pageTablePhysical ≠ 0#64 → Loaded memory p → Loaded memory' p') := by
  have hframes : p.pageTablePhysical ≠ 0#64 →
      frames memory' p.pageTablePhysical = frames memory p.pageTablePhysical := by
    intro hzero
    ext f
    constructor
    · rintro ⟨key, hkey, e, he, rfl⟩
      exact ⟨key, hkey, e, (hviews hzero key hkey).symm.trans he, rfl⟩
    · rintro ⟨key, hkey, e, he, rfl⟩
      exact ⟨key, hkey, e, (hviews hzero key hkey).trans he, rfl⟩
  constructor
  · unfold Process.pages
    rw [hroot, hstack]
    ext q
    constructor
    · rintro ⟨hzero, hq⟩
      rw [hheld hzero, hframes hzero] at hq
      exact ⟨hzero, hq⟩
    · rintro ⟨hzero, hq⟩
      rw [← hheld hzero, ← hframes hzero] at hq
      exact ⟨hzero, hq⟩
  · intro hzero hloaded
    obtain ⟨⟨pages, hfurnished⟩, h₁, h₂, h₃, h₄⟩ := hloaded
    constructor
    · rw [hroot]
      exact ⟨pages, hfurnished.congr (hviews hzero)⟩
    · rw [hroot, hheld hzero, hframes hzero]
      exact h₁
    · rw [hroot, hstack, hheld hzero]
      exact h₂
    · rw [hroot, hstack, hframes hzero]
      exact h₃
    · rw [hstack]
      exact h₄

theorem Conserved.still (h : k.Conserved free₀ kernel reference)
    (hroot : ∀ slot, (k'.process slot).pageTablePhysical = (k.process slot).pageTablePhysical)
    (hstack : ∀ slot, (k'.process slot).kernelStackBase = (k.process slot).kernelStackBase)
    (hunused : ∀ slot, (k'.process slot).state = .unused → (k'.process slot).pageTablePhysical = 0#64)
    (hshaped : Shaped k'.machine k.roots kernel reference)
    (hmanaged : k'.machine.allocator.managed = k.machine.allocator.managed)
    (hviews : SameViews k.roots k.machine k'.machine)
    (htables : ∀ r ∈ k.roots, held k'.machine.memory r = held k.machine.memory r)
    (hfree : k'.free = k.free) (htidy : Tidy k'.files) :
    k'.Conserved free₀ kernel reference ∧ ∀ slot, k'.pagesOf slot = k.pagesOf slot := by
  -- steps that move no page
  have hcongr := fun slot => pages_congr k.machine.memory k'.machine.memory
    (hroot slot) (hstack slot) (fun hzero => htables _ (mem_roots hzero))
    (fun hzero => hviews _ (mem_roots hzero))
  have hpages : ∀ slot, k'.pagesOf slot = k.pagesOf slot := fun slot => (hcongr slot).1
  have hroots : k'.roots = k.roots := by
    ext r
    unfold roots
    simp only [hroot]
  refine ⟨?_, hpages⟩
  constructor
  case shaped =>
    rw [hroots]
    exact hshaped
  case loaded =>
    intro slot hzero
    rw [hroot slot] at hzero
    exact (hcongr slot).2 hzero (h.loaded slot hzero)
  case bare =>
    intro slot hzero
    rw [hroot slot] at hzero
    rw [hstack slot]
    exact h.bare slot hzero
  case unused => exact hunused
  case apart =>
    intro slot slot' hne
    rw [hpages slot, hpages slot']
    exact h.apart slot slot' hne
  case used =>
    intro slot
    rw [hpages slot, hmanaged, hfree]
    exact h.used slot
  case ledger =>
    intro q
    rw [hfree]
    simp only [hpages]
    exact h.ledger q
  case tidy => exact htidy

theorem Conserved.replace (h : k.Conserved free₀ kernel reference) (slot : Slot)
    (hother : ∀ slot', slot' ≠ slot → k'.process slot' = k.process slot')
    (hroot : (k'.process slot).pageTablePhysical = (k.process slot).pageTablePhysical)
    (hstack : (k'.process slot).kernelStackBase = (k.process slot).kernelStackBase)
    (hunused : (k'.process slot).state = .unused → (k'.process slot).pageTablePhysical = 0#64)
    (hshaped : Shaped k'.machine k.roots kernel reference) (hsteady : Steady k.roots k.machine k'.machine)
    (hfree : k'.free = k.free) (hfiles : k'.files = k.files) :
    k'.Conserved free₀ kernel reference ∧ ∀ slot, k'.pagesOf slot = k.pagesOf slot := by
  have hfields : ∀ slot',
      (k'.process slot').pageTablePhysical = (k.process slot').pageTablePhysical ∧
      (k'.process slot').kernelStackBase = (k.process slot').kernelStackBase ∧
      ((k'.process slot').state = .unused → (k'.process slot').pageTablePhysical = 0#64) := by
    intro slot'
    by_cases hne : slot' = slot
    · rw [hne]
      exact ⟨hroot, hstack, hunused⟩
    · rw [hother slot' hne]
      exact ⟨rfl, rfl, h.unused slot'⟩
  exact h.still (fun slot' => (hfields slot').1) (fun slot' => (hfields slot').2.1)
    (fun slot' => (hfields slot').2.2) hshaped hsteady.managed hsteady.views hsteady.tables hfree
    (hfiles.symm ▸ h.tidy)

theorem process_set (t : Table) (slot : Slot) (p : Process) (machine : Machine) (heap : Heap)
    (files : Vfs.Tables) : (Kernel.mk machine heap files (t.set slot p)).process slot = p :=
  Function.update_self ..

theorem process_set_of_ne (t : Table) {slot slot' : Slot} (hne : slot' ≠ slot) (p : Process)
    (machine : Machine) (heap : Heap) (files : Vfs.Tables) :
    (Kernel.mk machine heap files (t.set slot p)).process slot' = t.processes slot' :=
  Function.update_of_ne hne ..

section Hhdm

theorem hhdmToPhysical_physicalToHhdm (p : Word) : hhdmToPhysical (physicalToHhdm p) = p := by
  unfold hhdmToPhysical physicalToHhdm
  rw [BitVec.add_comm, BitVec.add_sub_cancel]

theorem physicalToHhdm_ne_zero {a : Allocator} {p : Word} (hp : p ∈ a.managed) :
    physicalToHhdm p ≠ 0#64 := by
  have hlt := Allocator.managed_lt hp
  have hbase : hhdmBase.toNat = 0xFFFF800000000000 := by decide
  intro h
  have hnat := congrArg BitVec.toNat h
  unfold physicalToHhdm at hnat
  rw [BitVec.toNat_add, hbase] at hnat
  simp only [BitVec.toNat_ofNat] at hnat
  omega

end Hhdm

structure NewProcess (kernel : Set Word) (reference : PhysicalMemory) (k k' : Kernel) (slot : Slot)
    (root stack : Word) (pages : List Word) : Prop where
  pageTable : (k'.process slot).pageTablePhysical = root
  stackBase : (k'.process slot).kernelStackBase = physicalToHhdm stack
  state : (k'.process slot).state = .ready
  others : ∀ slot', slot' ≠ slot → k'.process slot' = k.process slot'
  files : k'.files = k.files
  built : Built k.machine k.roots kernel reference root ⟨k'.machine, pages ++ [stack]⟩
  furnished : Furnished k'.machine.memory root pages

section NewProcess
variable {root stack : Word} {pages : List Word}

theorem NewProcess.of_finished (entry : Nat) {s : Loading}
    (h : Finished k.machine k.roots kernel reference root stack s) :
    NewProcess kernel reference k ⟨s.machine, k.heap, k.files,
      k.table.set slot (readyProcess (k.process slot) root stack entry)⟩ slot root stack s.userPages := by
  obtain ⟨hbuilt, old, hold, hfurnished⟩ := h
  obtain rfl : s.userPages = old := List.append_cancel_right hold
  constructor
  case pageTable => rw [process_set]; rfl
  case stackBase => rw [process_set]; rfl
  case state => rw [process_set]; rfl
  case others => exact fun slot' hne => process_set_of_ne k.table hne ..
  case files => rfl
  case built => exact hbuilt
  case furnished => exact hfurnished

variable (h : NewProcess kernel reference k k' slot root stack pages)
include h

theorem NewProcess.held_free {q : Word} (hq : q ∈ held k'.machine.memory root) : q ∈ k.free := by
  show q ∈ k.machine.allocator.free
  rw [← h.built.ledger]
  exact Or.inl (Or.inr hq)

theorem NewProcess.root_ne_zero : root ≠ 0#64 :=
  Allocator.managed_ne_zero
    (Allocator.free_subset_managed (h.held_free (h.built.shaped.mem_held root)))

theorem NewProcess.stack_physical : hhdmToPhysical (k'.process slot).kernelStackBase = stack := by
  rw [h.stackBase]
  exact hhdmToPhysical_physicalToHhdm stack

theorem NewProcess.mem_pages {q : Word} :
    q ∈ k'.pagesOf slot ↔ q ∈ held k'.machine.memory root ∨ q ∈ pages ++ [stack] := by
  unfold pagesOf Process.pages
  rw [h.stack_physical, h.pageTable, List.mem_append, List.mem_singleton, h.furnished.listed q]
  exact ⟨fun hq => hq.2, fun hq => ⟨h.root_ne_zero, hq⟩⟩

theorem NewProcess.pages_free {q : Word} (hq : q ∈ k'.pagesOf slot) : q ∈ k.free := by
  rcases h.mem_pages.mp hq with hq | hq
  · exact h.held_free hq
  · exact h.built.mem_free hq

theorem NewProcess.ledger : k.free = k'.free ∪ k'.pagesOf slot := by
  ext q
  show q ∈ k.machine.allocator.free ↔ q ∈ k'.machine.allocator.free ∨ q ∈ k'.pagesOf slot
  rw [← h.built.ledger, h.mem_pages]
  constructor
  · rintro ((hq | hq) | hq)
    · exact Or.inl hq
    · exact Or.inr (Or.inl hq)
    · exact Or.inr (Or.inr hq)
  · rintro (hq | hq | hq)
    · exact Or.inl (Or.inl hq)
    · exact Or.inl (Or.inr hq)
    · exact Or.inr hq

theorem NewProcess.pages_others {slot' : Slot} (hne : slot' ≠ slot) :
    k'.pagesOf slot' = k.pagesOf slot' ∧ ((k.process slot').pageTablePhysical ≠ 0#64 →
      Loaded k.machine.memory (k.process slot') → Loaded k'.machine.memory (k'.process slot')) := by
  have hsame := h.others slot' hne
  exact pages_congr k.machine.memory k'.machine.memory (by rw [hsame]) (by rw [hsame])
    (fun hzero => h.built.tables _ (mem_roots hzero)) (fun hzero => h.built.views _ (mem_roots hzero))

theorem NewProcess.loaded : Loaded k'.machine.memory (k'.process slot) := by
  have hframes : ∀ f, f ∈ frames k'.machine.memory root → f ∈ pages ++ [stack] :=
    fun f hf => List.mem_append_left _ ((h.furnished.listed f).mpr hf)
  have hnodup := h.built.nodup
  rw [List.nodup_append] at hnodup
  constructor
  case furnished =>
    rw [h.pageTable]
    exact ⟨pages, h.furnished⟩
  case frames_held =>
    rw [h.pageTable]
    exact fun f hf => (h.built.apart f (hframes f hf)).2
  case stack_held =>
    rw [h.pageTable, h.stack_physical]
    exact (h.built.apart stack (List.mem_append_right _ (List.mem_singleton_self stack))).2
  case stack_frames =>
    rw [h.pageTable, h.stack_physical]
    intro hmem
    exact hnodup.2.2 stack ((h.furnished.listed stack).mpr hmem) stack (List.mem_singleton_self stack) rfl
  case stack =>
    rw [h.stackBase]
    exact physicalToHhdm_ne_zero (Allocator.free_subset_managed (h.built.mem_free (List.mem_append_right _ (List.mem_singleton_self stack))))

theorem NewProcess.used (h₀ : Shaped k.machine k.roots kernel reference) {q : Word}
    (hq : q ∈ k'.pagesOf slot) :
    q ∈ k'.machine.allocator.managed ∧ q ∉ k'.free ∧ q ∉ kernel := by
  have hfree := h.pages_free hq
  refine ⟨?_, ?_, h₀.free_not_kernel hfree⟩
  · rw [show k'.machine.allocator.managed = k.machine.allocator.managed from h.built.managed]
    exact Allocator.free_subset_managed hfree
  · rcases h.mem_pages.mp hq with hq | hq
    · exact (h.built.shaped.taken root (Set.mem_insert root k.roots) q hq).2.1
    · exact (h.built.apart q hq).1

theorem NewProcess.conserved (h₀ : k.Conserved free₀ kernel reference)
    (hbare : (k.process slot).pageTablePhysical = 0#64) : k'.Conserved free₀ kernel reference := by
  have hold : k.pagesOf slot = ∅ := pages_unused k.machine.memory hbare
  constructor
  case shaped =>
    apply AddressSpaces.shaped_mono h.built.shaped
    rintro r ⟨hzero, slot', hslot'⟩
    by_cases hne : slot' = slot
    · rw [hne, h.pageTable] at hslot'
      exact Or.inl hslot'.symm
    · rw [h.others slot' hne] at hslot'
      exact Or.inr ⟨hzero, slot', hslot'⟩
  case loaded =>
    intro slot' hzero
    by_cases hne : slot' = slot
    · rw [hne]
      exact h.loaded
    · rw [h.others slot' hne] at hzero
      exact (h.pages_others hne).2 hzero (h₀.loaded slot' hzero)
  case bare =>
    intro slot' hzero
    by_cases hne : slot' = slot
    · rw [hne, h.pageTable] at hzero
      exact absurd hzero h.root_ne_zero
    · rw [h.others slot' hne] at hzero ⊢
      exact h₀.bare slot' hzero
  case unused =>
    intro slot' hstate
    by_cases hne : slot' = slot
    · rw [hne, h.state] at hstate
      cases hstate
    · rw [h.others slot' hne] at hstate ⊢
      exact h₀.unused slot' hstate
  -- the pages of the new process were free, and no other process has a free page
  case apart =>
    intro slot₁ slot₂ hne q hq hq'
    by_cases h₁ : slot₁ = slot <;> by_cases h₂ : slot₂ = slot
    · exact hne (h₁.trans h₂.symm)
    · rw [h₁] at hq
      rw [(h.pages_others h₂).1] at hq'
      exact (h₀.used slot₂ q hq').2.1 (h.pages_free hq)
    · rw [h₂] at hq'
      rw [(h.pages_others h₁).1] at hq
      exact (h₀.used slot₁ q hq).2.1 (h.pages_free hq')
    · rw [(h.pages_others h₁).1] at hq
      rw [(h.pages_others h₂).1] at hq'
      exact h₀.apart slot₁ slot₂ hne q hq hq'
  case used =>
    intro slot' q hq
    by_cases hne : slot' = slot
    · rw [hne] at hq
      exact h.used h₀.shaped hq
    · rw [(h.pages_others hne).1] at hq
      obtain ⟨hm, hf, hk⟩ := h₀.used slot' q hq
      refine ⟨?_, ?_, hk⟩
      · rw [show k'.machine.allocator.managed = k.machine.allocator.managed from h.built.managed]
        exact hm
      · intro hmem
        rw [h.ledger] at hf
        exact hf (Or.inl hmem)
  -- the pages go from the free ones to those of the slot
  case ledger =>
    intro q
    rw [h₀.ledger q, h.ledger]
    constructor
    · rintro ((hq | hq) | ⟨slot', hq⟩)
      · exact Or.inl hq
      · exact Or.inr ⟨slot, hq⟩
      · have hne : slot' ≠ slot := by
          rintro rfl
          rw [hold] at hq
          exact hq
        exact Or.inr ⟨slot', by rw [(h.pages_others hne).1]; exact hq⟩
    · rintro (hq | ⟨slot', hq⟩)
      · exact Or.inl (Or.inl hq)
      · by_cases hne : slot' = slot
        · rw [hne] at hq
          exact Or.inl (Or.inr hq)
        · rw [(h.pages_others hne).1] at hq
          exact Or.inr ⟨slot', hq⟩
  case tidy =>
    rw [h.files]
    exact h₀.tidy

end NewProcess

section Reap

def reapSlot (k : Kernel) (slot : Slot) : Kernel :=
  { k with
    table := (reapOne (k.table, k.machine) slot).1
    machine := (reapOne (k.table, k.machine) slot).2 }

def exitedPages (k : Kernel) (slot : Slot) : Set Word :=
  { q | (k.process slot).state = .exited ∧ q ∈ k.pagesOf slot }

theorem reapSlot_of_ne (h : (k.process slot).state ≠ .exited) : k.reapSlot slot = k := by
  have hreap : reapOne (k.table, k.machine) slot = (k.table, k.machine) := if_neg h
  unfold reapSlot
  rw [hreap]

theorem reapSlot_exited (h : (k.process slot).state = .exited) :
    k.reapSlot slot = ⟨reapMachine (k.process slot) k.machine, k.heap, k.files,
      k.table.set slot .unused⟩ := by
  have hreap : reapOne (k.table, k.machine) slot =
      (k.table.set slot .unused, reapMachine (k.process slot) k.machine) := if_pos h
  unfold reapSlot
  rw [hreap]

theorem Conserved.frees (h : k.Conserved free₀ kernel reference) (slot : Slot) :
    Frees (k.pagesOf slot) k.machine (reapMachine (k.process slot) k.machine) := by
  by_cases hzero : (k.process slot).pageTablePhysical = 0#64
  · have hnone : k.pagesOf slot = ∅ := pages_unused k.machine.memory hzero
    have hreap : reapMachine (k.process slot) k.machine = k.machine := by
      unfold reapMachine releaseMappedRange
      rw [hzero, h.bare slot hzero]
      rfl
    rw [hnone, hreap]
    exact .refl k.machine
  · apply reapMachine_spec h.shaped (mem_roots hzero) hzero (h.loaded slot hzero) (h.used slot)
    rintro f hf r ⟨hr, slot', rfl⟩ hheld
    by_cases hne : slot' = slot
    · rw [hne] at hheld
      exact (h.loaded slot hzero).frames_held f hf hheld
    · exact h.apart slot slot' (fun heq => hne heq.symm) f ⟨hzero, Or.inr (Or.inl hf)⟩
        (held_subset_pagesOf hr hheld)

structure Dropped (slot : Slot) (k k' : Kernel) : Prop where
  gone : k'.process slot = .unused
  others : ∀ slot', slot' ≠ slot → k'.process slot' = k.process slot'
  frees : Frees (k.pagesOf slot) k.machine k'.machine
  files : k'.files = k.files

theorem dropped_set {m' : Machine} (hfrees : Frees (k.pagesOf slot) k.machine m') :
    Dropped slot k ⟨m', k.heap, k.files, k.table.set slot .unused⟩ :=
  ⟨process_set .., fun _ hne => process_set_of_ne k.table hne .., hfrees, rfl⟩

section Dropped
variable (hdropped : Dropped slot k k')
include hdropped

theorem Dropped.forall {P : Process → Prop} (hunused : P .unused) (h : ∀ slot', P (k.process slot')) (slot' : Slot) :
    P (k'.process slot') := by
  by_cases hne : slot' = slot
  · rw [hne, hdropped.gone]
    exact hunused
  · rw [hdropped.others slot' hne]
    exact h slot'

theorem Dropped.pagesOf_gone : k'.pagesOf slot = ∅ := pages_unused _ (by rw [hdropped.gone]; rfl)

theorem Dropped.pagesOf_others {slot' : Slot} (hne : slot' ≠ slot) : k'.pagesOf slot' = k.pagesOf slot' := by
  unfold pagesOf
  rw [hdropped.others slot' hne, hdropped.frees.memory]

theorem Dropped.mem_pagesOf {slot' : Slot} {q : Word} (hq : q ∈ k'.pagesOf slot') :
    slot' ≠ slot ∧ q ∈ k.pagesOf slot' := by
  -- a page that a process has now it had before, and it is not the one that is gone
  by_cases hne : slot' = slot
  · rw [hne, hdropped.pagesOf_gone] at hq
    exact absurd hq (Set.notMem_empty q)
  · exact ⟨hne, hdropped.pagesOf_others hne ▸ hq⟩

theorem Dropped.mem_free {q : Word} : q ∈ k'.free ↔ q ∈ k.free ∨ q ∈ k.pagesOf slot := by
  unfold free
  rw [hdropped.frees.free]
  exact Iff.rfl

theorem Dropped.shaped (h : k.Conserved free₀ kernel reference) : Shaped k'.machine k'.roots kernel reference := by
  -- the dropped tree is the only one with the freed pages
  have hroots : ∀ slot', (k'.process slot').pageTablePhysical ≠ 0#64 →
      slot' ≠ slot ∧ k'.process slot' = k.process slot' := by
    intro slot' hzero
    by_cases hne : slot' = slot
    · rw [hne, hdropped.gone] at hzero
      exact absurd rfl hzero
    · exact ⟨hne, hdropped.others slot' hne⟩
  apply hdropped.frees.shaped h.shaped
  · rintro r ⟨hzero, slot', rfl⟩
    obtain ⟨-, hsame⟩ := hroots slot' hzero
    rw [hsame] at hzero ⊢
    exact mem_roots hzero
  · exact fun q hq => (h.used slot q hq).2.2
  · rintro q hq r ⟨hzero, slot', rfl⟩ hheld
    obtain ⟨hne, hsame⟩ := hroots slot' hzero
    rw [hsame] at hzero hheld
    exact h.apart slot slot' (fun heq => hne heq.symm) q hq (held_subset_pagesOf hzero hheld)

theorem Conserved.drop (h : k.Conserved free₀ kernel reference) : k'.Conserved free₀ kernel reference := by
  constructor
  case shaped => exact hdropped.shaped h
  case loaded =>
    rw [hdropped.frees.memory]
    exact hdropped.forall (P := fun p => p.pageTablePhysical ≠ 0#64 → Loaded k.machine.memory p)
      (fun hzero => absurd rfl hzero) h.loaded
  case bare =>
    exact hdropped.forall (P := fun p => p.pageTablePhysical = 0#64 → p.kernelStackBase = 0#64) (fun _ => rfl) h.bare
  case unused =>
    exact hdropped.forall (P := fun p => p.state = .unused → p.pageTablePhysical = 0#64) (fun _ => rfl) h.unused
  case apart =>
    intro slot₁ slot₂ hne q hq hq'
    exact h.apart slot₁ slot₂ hne q (hdropped.mem_pagesOf hq).2 (hdropped.mem_pagesOf hq').2
  case used =>
    intro slot' q hq
    obtain ⟨hne, hq⟩ := hdropped.mem_pagesOf hq
    obtain ⟨hm, hf, hk⟩ := h.used slot' q hq
    rw [hdropped.frees.managed, hdropped.mem_free]
    exact ⟨hm, fun hmem => hmem.elim hf (h.apart slot' slot hne q hq), hk⟩
  -- the pages of the slot go back to the free ones
  case ledger =>
    intro q
    rw [h.ledger q, hdropped.mem_free]
    constructor
    · rintro (hq | ⟨slot', hq⟩)
      · exact Or.inl (Or.inl hq)
      · by_cases hne : slot' = slot
        · exact Or.inl (Or.inr (hne ▸ hq))
        · exact Or.inr ⟨slot', hdropped.pagesOf_others hne ▸ hq⟩
    · rintro ((hq | hq) | ⟨slot', hq⟩)
      · exact Or.inl hq
      · exact Or.inr ⟨slot, hq⟩
      · exact Or.inr ⟨slot', (hdropped.mem_pagesOf hq).2⟩
  case tidy =>
    rw [hdropped.files]
    exact h.tidy

end Dropped

theorem reapSlot_spec (h : k.Conserved free₀ kernel reference) (slot : Slot) :
    (k.reapSlot slot).Conserved free₀ kernel reference ∧
      Frees (k.exitedPages slot) k.machine (k.reapSlot slot).machine ∧
      ∀ slot', slot' ≠ slot → (k.reapSlot slot).process slot' = k.process slot' := by
  by_cases hstate : (k.process slot).state = .exited
  · have hpages : k.exitedPages slot = k.pagesOf slot := by
      ext q
      exact ⟨fun hq => hq.2, fun hq => ⟨hstate, hq⟩⟩
    have hdropped := dropped_set (h.frees slot)
    rw [reapSlot_exited hstate, hpages]
    exact ⟨h.drop hdropped, hdropped.frees, hdropped.others⟩
  · have hpages : k.exitedPages slot = ∅ := by
      rw [Set.eq_empty_iff_forall_notMem]
      exact fun q hq => hstate hq.1
    rw [reapSlot_of_ne hstate, hpages]
    exact ⟨h, .refl k.machine, fun _ _ => rfl⟩

def reap (k : Kernel) : Kernel :=
  { k with
    table := (reapExited k.table k.machine).1
    machine := (reapExited k.table k.machine).2 }

theorem reap_eq (k : Kernel) : k.reap = (List.finRange 16).foldl reapSlot k := by
  have hfold : ∀ (slots : List Slot) (k : Kernel),
      slots.foldl reapSlot k = { k with
        table := (slots.foldl reapOne (k.table, k.machine)).1
        machine := (slots.foldl reapOne (k.table, k.machine)).2 } := by
    intro slots
    induction slots with
    | nil => exact fun _ => rfl
    | cons slot slots ih => exact fun k => ih (k.reapSlot slot)
  exact (hfold _ k).symm

theorem reapSlots_spec (h : k.Conserved free₀ kernel reference) (slots : List Slot)
    (hnodup : slots.Nodup) :
    (slots.foldl reapSlot k).Conserved free₀ kernel reference ∧
      Frees { q | ∃ slot ∈ slots, q ∈ k.exitedPages slot } k.machine (slots.foldl reapSlot k).machine ∧
      ∀ slot', (k.process slot').state ≠ .exited →
        (slots.foldl reapSlot k).process slot' = k.process slot' := by
  induction slots generalizing k with
  | nil =>
    have hempty : { q | ∃ slot ∈ ([] : List Slot), q ∈ k.exitedPages slot } = ∅ := by
      rw [Set.eq_empty_iff_forall_notMem]
      rintro q ⟨slot, hslot, -⟩
      cases hslot
    rw [hempty]
    exact ⟨h, .refl k.machine, fun _ _ => rfl⟩
  | cons slot slots ih =>
    obtain ⟨hslot, hnodup⟩ := List.nodup_cons.mp hnodup
    obtain ⟨hconserved, hfrees, hothers⟩ := reapSlot_spec h slot
    obtain ⟨hconserved', hfrees', hkept⟩ := ih hconserved hnodup
    have hsame : { q | ∃ slot' ∈ slots, q ∈ (k.reapSlot slot).exitedPages slot' } =
        { q | ∃ slot' ∈ slots, q ∈ k.exitedPages slot' } := by
      ext q
      apply exists_congr
      intro slot'
      apply and_congr_right
      intro hslot'
      have hne : slot' ≠ slot := by
        rintro rfl
        exact hslot hslot'
      unfold exitedPages pagesOf
      rw [hothers slot' hne, hfrees.memory]
    have hsplit : { q | ∃ slot' ∈ slot :: slots, q ∈ k.exitedPages slot' } =
        k.exitedPages slot ∪ { q | ∃ slot' ∈ slots, q ∈ k.exitedPages slot' } := by
      ext q
      simp only [List.mem_cons, exists_eq_or_imp, Set.mem_union, Set.mem_ofPred_eq]
    rw [hsame] at hfrees'
    rw [hsplit]
    refine ⟨hconserved', hfrees.trans hfrees', ?_⟩
    intro slot' hstate
    have hsame : (k.reapSlot slot).process slot' = k.process slot' := by
      by_cases hne : slot' = slot
      · rw [hne] at hstate ⊢
        rw [reapSlot_of_ne hstate]
      · exact hothers slot' hne
    rw [← hsame] at hstate
    exact (hkept slot' hstate).trans hsame

theorem reap_spec (h : k.Conserved free₀ kernel reference) :
    k.reap.Conserved free₀ kernel reference ∧
      Frees { q | ∃ slot, q ∈ k.exitedPages slot } k.machine k.reap.machine ∧
      ∀ slot, (k.process slot).state ≠ .exited → k.reap.process slot = k.process slot := by
  have hall := reapSlots_spec h (List.finRange 16) (List.nodup_finRange 16)
  have hset : { q | ∃ slot ∈ List.finRange 16, q ∈ k.exitedPages slot } =
      { q | ∃ slot, q ∈ k.exitedPages slot } := by
    ext q
    simp only [List.mem_finRange, true_and]
  rw [hset] at hall
  rw [reap_eq]
  exact hall

end Reap

end Kernel

end Linux95.User
