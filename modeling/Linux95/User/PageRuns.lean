import Linux95.User.Conservation
import Linux95.User.LoadSupply

/-! Loads, exits and reaps of several processes in any order. -/

namespace Linux95.User
open Base LinkedTables Memory Machine

namespace Kernel

/-- What happens between two looks at the pages: a process is allocated and loaded, the scheduler runs a
process or takes the CPU from it, its program writes a page of its own memory, it exits or faults, and
the exited processes are reaped. -/
inductive Op
  | load (vfs : Nat → Vfs.Backend) (path : Fat32.CString)
  | schedule (slot : Slot) (running : Bool) (context : UserContext)
  | store (slot : Slot) (address : Word) (contents : Index → Word)
  | exit (slot : Slot) (code : Word)
  | fault (slot : Slot) (vector : BitVec 32) (errorCode address : Word) (context : UserContext)
  | reap

def set (k : Kernel) (slot : Slot) (p : Process) : Kernel := { k with table := k.table.set slot p }

def Alive (p : Process) : Prop :=
  p.pageTablePhysical ≠ 0#64 ∧ (p.state = .ready ∨ p.state = .running)

instance (p : Process) : Decidable (Alive p) := inferInstanceAs (Decidable (_ ∧ (_ ∨ _)))

def onAlive (k : Kernel) (slot : Slot) (change : Process → Process) : Kernel :=
  if Alive (k.process slot) then k.set slot (change (k.process slot)) else k

def scheduled (running : Bool) (context : UserContext) (p : Process) : Process :=
  { p with
    context := context
    state := if running then .running else .ready }

def faulted (vector : BitVec 32) (errorCode address : Word) (context : UserContext) (p : Process) :
    Process :=
  markExited
    { p with
      context := context
      faultVector := vector
      faultErrorCode := errorCode
      faultAddress := address }
    (-(BitVec.setWidth 64 vector))

def store (k : Kernel) (slot : Slot) (address : Word) (contents : Index → Word) : Kernel :=
  if Alive (k.process slot) then
    let info := (queryPage k.machine.memory (k.process slot).pageTablePhysical address).2
    if info.present && info.user && info.writable then
      { k with machine := k.machine.writeTable (info.physical &&& addressMask) contents }
    else k
  else k

def load (k : Kernel) (vfs : Nat → Vfs.Backend) (path : Fat32.CString) : Kernel :=
  match k.table.allocate with
  | none => k
  | some (slot, table) => (loadProcessImage vfs (some path) slot { k with table := table }).2

def step (k : Kernel) : Op → Kernel
  | .load vfs path => k.load vfs path
  | .schedule slot running context => k.onAlive slot (scheduled running context)
  | .store slot address contents => k.store slot address contents
  | .exit slot code => k.onAlive slot fun p => markExited p code
  | .fault slot vector errorCode address context =>
    k.onAlive slot (faulted vector errorCode address context)
  | .reap => k.reap

def run (k : Kernel) (ops : List Op) : Kernel := ops.foldl step k

variable {k k' : Kernel} {free₀ kernel : Set Word} {reference : PhysicalMemory} {slot : Slot}

theorem set_process (k : Kernel) (slot : Slot) (p : Process) : (k.set slot p).process slot = p :=
  Function.update_self ..

theorem set_process_of_ne (k : Kernel) {slot slot' : Slot} (hne : slot' ≠ slot) (p : Process) :
    (k.set slot p).process slot' = k.process slot' := Function.update_of_ne hne ..

theorem Conserved.set {p : Process} (h : k.Conserved free₀ kernel reference)
    (hroot : p.pageTablePhysical = (k.process slot).pageTablePhysical)
    (hstack : p.kernelStackBase = (k.process slot).kernelStackBase)
    (hunused : p.state = .unused → p.pageTablePhysical = 0#64) :
    (k.set slot p).Conserved free₀ kernel reference ∧
      ∀ slot', (k.set slot p).pagesOf slot' = k.pagesOf slot' := by
  apply h.replace slot (fun slot' hne => set_process_of_ne k hne p) _ _ _ h.shaped
    (.refl k.roots k.machine) rfl rfl
  · rw [set_process]
    exact hroot
  · rw [set_process]
    exact hstack
  · rw [set_process]
    exact hunused

theorem Conserved.onAlive {change : Process → Process} (h : k.Conserved free₀ kernel reference)
    (slot : Slot)
    (hroot : ∀ p, (change p).pageTablePhysical = p.pageTablePhysical)
    (hstack : ∀ p, (change p).kernelStackBase = p.kernelStackBase)
    (hstate : ∀ p, (change p).state ≠ .unused) :
    (k.onAlive slot change).Conserved free₀ kernel reference ∧
      (k.onAlive slot change).machine = k.machine := by
  unfold Kernel.onAlive
  split
  · exact ⟨(h.set (hroot _) (hstack _) fun hunused => absurd hunused (hstate _)).1, rfl⟩
  · exact ⟨h, rfl⟩

section Load

theorem allocate_some {t : Table} {slot : Slot} {table : Table} (h : t.allocate = some (slot, table)) :
    (t.processes slot).state = .unused ∧
      table.processes = Function.update t.processes slot
        { Process.unused with pid := t.nextPid, state := .created } := by
  unfold Table.allocate at h
  obtain ⟨slot', hslot', heq⟩ := Option.map_eq_some_iff.mp h
  unfold Table.firstUnused at hslot'
  obtain ⟨rfl, rfl⟩ := Prod.mk.inj heq
  have hstate := List.find?_some hslot'
  exact ⟨of_decide_eq_true hstate, rfl⟩

theorem Conserved.allocate {table : Table} (h : k.Conserved free₀ kernel reference)
    (hallocate : k.table.allocate = some (slot, table)) :
    ({ k with table := table } : Kernel).Conserved free₀ kernel reference ∧
      ∀ slot', ({ k with table := table } : Kernel).pagesOf slot' = k.pagesOf slot' := by
  obtain ⟨hunused, htable⟩ := allocate_some hallocate
  have hzero := h.unused slot hunused
  have hself : ({ k with table := table } : Kernel).process slot =
      { Process.unused with pid := k.table.nextPid, state := .created } := by
    show table.processes slot = _
    rw [htable, Function.update_self]
  have hother : ∀ slot', slot' ≠ slot →
      ({ k with table := table } : Kernel).process slot' = k.process slot' := by
    intro slot' hne
    show table.processes slot' = _
    rw [htable, Function.update_of_ne hne]
    rfl
  apply h.replace slot hother _ _ _ h.shaped (.refl k.roots k.machine) rfl rfl
  · rw [hself, hzero]
    rfl
  · rw [hself, h.bare slot hzero]
    rfl
  · rw [hself]
    exact fun _ => rfl

/-- What a load does to the kernel, whatever its result. -/
theorem Conserved.load {table : Table} (h : k.Conserved free₀ kernel reference)
    (hallocate : k.table.allocate = some (slot, table)) (vfs : Nat → Vfs.Backend)
    (path : Fat32.CString) :
    (∃ status k', loadProcessImage vfs (some path) slot { k with table := table } = (status, k') ∧
      status ≠ .ok ∧ k'.Conserved free₀ kernel reference ∧ Answered k.free k.machine k'.machine ∧
      k'.free = k.free ∧ k'.heap = k.heap ∧ k'.files = k.files ∧ k'.process slot = .unused ∧
      ∀ slot', slot' ≠ slot → k'.process slot' = k.process slot' ∧
        k'.pagesOf slot' = k.pagesOf slot') ∨
    ∃ k', loadProcessImage vfs (some path) slot { k with table := table } = (.ok, k') ∧
      k'.Conserved free₀ kernel reference ∧ k'.machine.allocator.releases = k.machine.allocator.releases ∧
      k'.heap = k.heap ∧ k'.files = k.files ∧ k.free = k'.free ∪ k'.pagesOf slot ∧
      Alive (k'.process slot) ∧
      ∀ slot', slot' ≠ slot → k'.process slot' = k.process slot' ∧
        k'.pagesOf slot' = k.pagesOf slot' := by
  obtain ⟨hunused, htable⟩ := allocate_some hallocate
  obtain ⟨hconserved, hpages⟩ := h.allocate hallocate
  generalize hk₁ : ({ k with table := table } : Kernel) = k₁ at hconserved hpages ⊢
  have hmachine : k₁.machine = k.machine := by rw [← hk₁]
  have hfresh : k₁.process slot = { Process.unused with pid := k.table.nextPid, state := .created } := by
    rw [← hk₁]
    show table.processes slot = _
    rw [htable]
    exact Function.update_self ..
  have hother : ∀ slot', slot' ≠ slot → k₁.process slot' = k.process slot' := by
    intro slot' hne
    rw [← hk₁]
    show table.processes slot' = _
    rw [htable]
    exact Function.update_of_ne hne ..
  have hbare : (k₁.process slot).pageTablePhysical = 0#64 := by rw [hfresh]; rfl
  have hfree₁ : k₁.free = k.free := by rw [← hk₁]; rfl
  have hheap₁ : k₁.heap = k.heap := by rw [← hk₁]
  have hfiles₁ : k₁.files = k.files := by rw [← hk₁]
  have hpath : some path ≠ none := fun hnone => (nomatch hnone)
  have hcases := loadProcessImage_cases hconserved.shaped hconserved.tidy vfs hpath
    (congrArg Process.state hfresh) hbare (congrArg Process.kernelStackBase hfresh)
    (congrArg Process.kernelStackTop hfresh)
  -- a failed load has given back what it took; a finished one is a new process
  rcases hcases with ⟨status, m', hstatus, hresult, hshaped, hsteady, hfree⟩ |
    ⟨root, stack, entry, s, hresult, hfinished⟩
  · left
    have hreplaced : Conserved free₀ kernel reference
          ⟨m', k₁.heap, k₁.files, k₁.table.set slot .unused⟩ ∧
        ∀ slot', pagesOf ⟨m', k₁.heap, k₁.files, k₁.table.set slot .unused⟩ slot' =
          k₁.pagesOf slot' := by
      refine hconserved.replace slot ?_ ?_ ?_ ?_ hshaped hsteady hfree rfl
      · exact fun slot' hne => process_set_of_ne k₁.table hne ..
      · rw [process_set, hbare]
        rfl
      · rw [process_set, hconserved.bare slot hbare]
        rfl
      · rw [process_set]
        exact fun _ => rfl
    refine ⟨status, _, hresult, hstatus, hreplaced.1, ?_, hfree.trans hfree₁, hheap₁, hfiles₁,
      process_set .., ?_⟩
    rotate_left
    · intro slot' hne
      exact ⟨(process_set_of_ne k₁.table hne ..).trans (hother slot' hne),
        (hreplaced.2 slot').trans (hpages slot')⟩
    · have hanswered := hsteady.answered
      rw [hmachine] at hanswered
      exact hanswered
  · right
    have hnew : NewProcess kernel reference k₁ _ slot root stack s.userPages :=
      NewProcess.of_finished entry hfinished
    refine ⟨_, hresult, hnew.conserved hconserved hbare, ?_, hheap₁, hfiles₁, ?_, ?_, ?_⟩
    · rw [← hmachine]
      exact hnew.built.releases
    · rw [← hfree₁]
      exact hnew.ledger
    · refine ⟨?_, Or.inl hnew.state⟩
      exact fun hzero => hnew.root_ne_zero (hnew.pageTable.symm.trans hzero)
    · intro slot' hne
      refine ⟨(hnew.others slot' hne).trans (hother slot' hne), ?_⟩
      exact (hnew.pages_others hne).1.trans (hpages slot')

end Load

section Store

theorem offset_mask {e va : Word} : (e &&& addressMask ||| va &&& 0xFFF#64) &&& addressMask = e &&& addressMask := by
  rw [BitVec.and_or_distrib_right, BitVec.and_assoc, BitVec.and_self, BitVec.and_assoc,
    show 0xFFF#64 &&& addressMask = 0#64 by decide, BitVec.and_zero, BitVec.or_zero]

theorem writable_frame {m : Machine} {roots : Set Word} {r va : Word}
    (h : Shaped m roots kernel reference) (hr : r ∈ roots)
    (hinfo : (queryPage m.memory r va).2.present = true ∧ (queryPage m.memory r va).2.user = true) :
    (queryPage m.memory r va).2.physical &&& addressMask ∈ frames m.memory r := by
  -- a page that the program can write is a frame of its own space
  by_cases hva : (pageKey va).InUserSlot
  · rw [queryPage_user h hr hva] at hinfo ⊢
    cases hview : view m.memory r (pageKey va) with
    | none =>
      rw [hview] at hinfo
      cases hinfo.1
    | some e => exact ⟨pageKey va, hva, e, hview, offset_mask⟩
  · have hslots : ¬ (pml4Index va = imageSlot ∨ pml4Index va = stackSlot) := hva
    push Not at hslots
    have hentry := h.shared r hr (pml4Index va) hslots.1 hslots.2
    have hnone : has (m.memory r (pml4Index va)) pageUser = false := by
      rw [hentry]
      unfold has
      rw [BitVec.and_assoc, show ~~~pageUser &&& pageUser = 0#64 by decide, BitVec.and_zero]
      rfl
    have huser := queryPage_no_user (h.root_aligned hr) hnone
    rw [huser] at hinfo
    cases hinfo.2

theorem store_process (slot : Slot) (address : Word) (contents : Index → Word) (slot' : Slot) :
    (k.store slot address contents).process slot' = k.process slot' := by
  unfold Kernel.store
  split
  · dsimp only
    split <;> rfl
  · rfl

theorem Conserved.store (h : k.Conserved free₀ kernel reference) (slot : Slot) (address : Word)
    (contents : Index → Word) :
    (k.store slot address contents).Conserved free₀ kernel reference ∧
      (k.store slot address contents).machine.allocator = k.machine.allocator ∧
      ∀ slot', (k.store slot address contents).pagesOf slot' = k.pagesOf slot' := by
  -- a write of a program reaches neither a table nor the kernel
  unfold Kernel.store
  split
  case isFalse => exact ⟨h, rfl, fun _ => rfl⟩
  case isTrue halive =>
    dsimp only
    split
    case isFalse => exact ⟨h, rfl, fun _ => rfl⟩
    case isTrue hinfo =>
      rw [Bool.and_eq_true, Bool.and_eq_true] at hinfo
      have hframe := writable_frame h.shaped (mem_roots halive.1) hinfo.1
      generalize hc : (queryPage k.machine.memory (k.process slot).pageTablePhysical
        address).2.physical &&& addressMask = c at hframe
      have hmine : c ∈ k.pagesOf slot := ⟨halive.1, Or.inr (Or.inl hframe)⟩
      have hkernel : c ∉ kernel := (h.used slot c hmine).2.2
      have hfresh : ∀ r ∈ k.roots, c ∉ held k.machine.memory r := by
        rintro r ⟨hr, slot', rfl⟩ hheld
        by_cases hne : slot' = slot
        · rw [hne] at hheld
          exact (h.loaded slot halive.1).frames_held c hframe hheld
        · exact h.apart slot slot' (fun heq => hne heq.symm) c hmine (held_subset_pagesOf hr hheld)
      have hwrite : k.machine.writeTable c contents = fillPage k.machine k.machine.allocator c contents :=
        rfl
      rw [hwrite]
      have hstill : Conserved free₀ kernel reference
            ⟨fillPage k.machine k.machine.allocator c contents, k.heap, k.files, k.table⟩ ∧
          ∀ slot', pagesOf ⟨fillPage k.machine k.machine.allocator c contents, k.heap, k.files,
            k.table⟩ slot' = k.pagesOf slot' := h.still (fun _ => rfl) (fun _ => rfl) h.unused
        (fillPage_shaped h.shaped hfresh hkernel rfl subset_rfl) rfl (fillPage_views hfresh)
        (fun r hr => held_fillPage hfresh hr) rfl h.tidy
      exact ⟨hstill.1, rfl, hstill.2⟩

end Store

def Op.Ends (slot : Slot) : Op → Prop
  | .exit slot' _ => slot' = slot
  | .fault slot' _ _ _ _ => slot' = slot
  | _ => False

def Op.Moves : Op → Prop
  | .load _ _ | .reap => True
  | _ => False

structure Stepped (free₀ kernel : Set Word) (reference : PhysicalMemory) (k : Kernel) (op : Op) : Prop where
  conserved : (k.step op).Conserved free₀ kernel reference
  answered : op ≠ .reap → Answered k.free k.machine (k.step op).machine
  still : ¬ op.Moves → (k.step op).free = k.free ∧ ∀ slot, (k.step op).pagesOf slot = k.pagesOf slot
  alive : ∀ slot, Alive (k.process slot) → ¬ op.Ends slot →
    Alive ((k.step op).process slot) ∧ (k.step op).pagesOf slot = k.pagesOf slot

section Steps

theorem onAlive_process (slot : Slot) (change : Process → Process) {slot' : Slot} (hne : slot' ≠ slot) :
    (k.onAlive slot change).process slot' = k.process slot' := by
  unfold Kernel.onAlive
  split
  · exact set_process_of_ne k hne _
  · rfl

theorem stepped_onAlive {op : Op} (h : k.Conserved free₀ kernel reference) (slot : Slot)
    (change : Process → Process) (hstep : k.step op = k.onAlive slot change)
    (hroot : ∀ p, (change p).pageTablePhysical = p.pageTablePhysical)
    (hstack : ∀ p, (change p).kernelStackBase = p.kernelStackBase)
    (hstate : ∀ p, (change p).state ≠ .unused)
    (hends : ¬ op.Ends slot → ∀ p, Alive p → Alive (change p)) :
    Stepped free₀ kernel reference k op := by
  obtain ⟨hconserved, hmachine⟩ := h.onAlive slot hroot hstack hstate
  have hpages : ∀ slot', (k.onAlive slot change).pagesOf slot' = k.pagesOf slot' := by
    intro slot'
    unfold Kernel.onAlive
    split
    · exact (h.set (hroot _) (hstack _) fun hunused => absurd hunused (hstate _)).2 slot'
    · rfl
  constructor
  case conserved => rw [hstep]; exact hconserved
  case answered => exact fun _ => by rw [hstep, hmachine]; exact .of_eq _ rfl
  case still =>
    intro _
    unfold Kernel.free
    rw [hstep, hmachine]
    exact ⟨rfl, hpages⟩
  case alive =>
    intro slot' halive hne
    rw [hstep]
    refine ⟨?_, hpages slot'⟩
    by_cases heq : slot' = slot
    · rw [heq] at halive hne ⊢
      unfold Kernel.onAlive
      rw [if_pos halive, set_process]
      exact hends hne _ halive
    · rw [onAlive_process slot change heq]
      exact halive

theorem stepped_load (h : k.Conserved free₀ kernel reference) (vfs : Nat → Vfs.Backend)
    (path : Fat32.CString) : Stepped free₀ kernel reference k (.load vfs path) := by
  have hstep : k.step (.load vfs path) = k.load vfs path := rfl
  cases hallocate : k.table.allocate with
  | none =>
    have hload : k.load vfs path = k := by
      unfold Kernel.load
      rw [hallocate]
    rw [hload] at hstep
    constructor
    case conserved => rw [hstep]; exact h
    case answered => exact fun _ => by rw [hstep]; exact .of_eq _ rfl
    case still => exact fun _ => by rw [hstep]; exact ⟨rfl, fun _ => rfl⟩
    case alive => exact fun slot halive _ => by rw [hstep]; exact ⟨halive, rfl⟩
  | some taken =>
    obtain ⟨slot, table⟩ := taken
    have hload : k.load vfs path =
        (loadProcessImage vfs (some path) slot { k with table := table }).2 := by
      unfold Kernel.load
      rw [hallocate]
    have hunused := (allocate_some hallocate).1
    have hdead : ∀ slot', Alive (k.process slot') → slot' ≠ slot := by
      rintro slot' ⟨-, hstate⟩ rfl
      have hsame : (k.process slot').state = .unused := hunused
      rw [hsame] at hstate
      rcases hstate with hstate | hstate <;> cases hstate
    rcases h.load hallocate vfs path with
      ⟨status, k', hresult, -, hconserved, hanswered, -, -, -, -, hothers⟩ |
      ⟨k', hresult, hconserved, hreleases, -, -, -, -, hothers⟩
    all_goals
      rw [hresult] at hload
      rw [hload] at hstep
    · constructor
      case conserved => rw [hstep]; exact hconserved
      case answered => exact fun _ => by rw [hstep]; exact hanswered
      case still => exact fun hstays => absurd trivial hstays
      case alive =>
        intro slot' halive _
        obtain ⟨hsame, hpages⟩ := hothers slot' (hdead slot' halive)
        rw [hstep, hsame]
        exact ⟨halive, hpages⟩
    · constructor
      case conserved => rw [hstep]; exact hconserved
      case answered => exact fun _ => by rw [hstep]; exact .of_eq _ hreleases
      case still => exact fun hstays => absurd trivial hstays
      case alive =>
        intro slot' halive _
        obtain ⟨hsame, hpages⟩ := hothers slot' (hdead slot' halive)
        rw [hstep, hsame]
        exact ⟨halive, hpages⟩

theorem stepped_reap (h : k.Conserved free₀ kernel reference) :
    Stepped free₀ kernel reference k .reap := by
  obtain ⟨hconserved, hfrees, hothers⟩ := reap_spec h
  constructor
  case conserved => exact hconserved
  case answered => exact fun hreap => absurd rfl hreap
  case still => exact fun hstays => absurd trivial hstays
  case alive =>
    intro slot halive _
    have hstate : (k.process slot).state ≠ .exited := by
      intro hexited
      rw [Alive, hexited] at halive
      rcases halive.2 with hstate | hstate <;> cases hstate
    have hsame : (k.step .reap).process slot = k.process slot := hothers slot hstate
    refine ⟨by rw [hsame]; exact halive, ?_⟩
    unfold pagesOf
    rw [hsame]
    show Process.pages k.reap.machine.memory _ = _
    rw [hfrees.memory]

theorem step_spec (h : k.Conserved free₀ kernel reference) (op : Op) :
    Stepped free₀ kernel reference k op := by
  cases op with
  | load vfs path => exact stepped_load h vfs path
  | schedule slot running context =>
    refine stepped_onAlive h slot (scheduled running context) rfl (fun _ => rfl) (fun _ => rfl) ?_ ?_
    · intro p hunused
      cases running <;> cases hunused
    · rintro - p ⟨hroot, -⟩
      refine ⟨hroot, ?_⟩
      cases running
      · exact Or.inl rfl
      · exact Or.inr rfl
  | store slot address contents =>
    obtain ⟨hconserved, hallocator, hpages⟩ := h.store slot address contents
    constructor
    case conserved => exact hconserved
    case answered => exact fun _ => .of_eq _ (congrArg Allocator.releases hallocator)
    case still => exact fun _ => ⟨congrArg Allocator.free hallocator, hpages⟩
    case alive =>
      intro slot' halive _
      refine ⟨?_, hpages slot'⟩
      show Alive ((k.store slot address contents).process slot')
      rw [store_process]
      exact halive
  | exit slot code =>
    exact stepped_onAlive h slot (markExited · code) rfl (fun _ => rfl) (fun _ => rfl) (fun _ hunused => (nomatch hunused))
      fun hends => absurd rfl hends
  | fault slot vector errorCode address context =>
    exact stepped_onAlive h slot _ rfl (fun _ => rfl) (fun _ => rfl) (fun _ hunused => (nomatch hunused))
      fun hends => absurd rfl hends
  | reap => exact stepped_reap h

end Steps

section Runs

theorem run_conserved (h : k.Conserved free₀ kernel reference) (ops : List Op) :
    (k.run ops).Conserved free₀ kernel reference := by
  induction ops generalizing k with
  | nil => exact h
  | cons op ops ih => exact ih (step_spec h op).conserved

theorem run_alive (h : k.Conserved free₀ kernel reference) {ops : List Op}
    (hops : ∀ op ∈ ops, ¬ op.Ends slot) (halive : Alive (k.process slot)) :
    Alive ((k.run ops).process slot) ∧ (k.run ops).pagesOf slot = k.pagesOf slot := by
  -- a process keeps its pages until it ends
  induction ops generalizing k with
  | nil => exact ⟨halive, rfl⟩
  | cons op ops ih =>
    have hstep := step_spec h op
    obtain ⟨halive', hpages⟩ := hstep.alive slot halive (hops op List.mem_cons_self)
    obtain ⟨hrest, hpages'⟩ := ih hstep.conserved (fun op' hop' => hops op' (List.mem_cons_of_mem op hop')) halive'
    exact ⟨hrest, hpages'.trans hpages⟩

theorem run_free (h : k.Conserved free₀ kernel reference) {ops : List Op}
    (hops : ∀ op ∈ ops, ¬ op.Moves) : (k.run ops).free = k.free := by
  induction ops generalizing k with
  | nil => rfl
  | cons op ops ih =>
    have hstep := step_spec h op
    have hrest := ih hstep.conserved fun op' hop' => hops op' (List.mem_cons_of_mem op hop')
    exact hrest.trans (hstep.still (hops op List.mem_cons_self)).1

theorem step_ends {ending : Op} (hends : ending.Ends slot) (halive : Alive (k.process slot)) :
    ¬ ending.Moves ∧ ((k.step ending).process slot).state = .exited := by
  cases ending with
  | exit slot' code =>
    obtain rfl : slot' = slot := hends
    refine ⟨id, ?_⟩
    show ((k.onAlive slot' (markExited · code)).process slot').state = .exited
    unfold Kernel.onAlive
    rw [if_pos halive, set_process]
    rfl
  | fault slot' vector errorCode address context =>
    obtain rfl : slot' = slot := hends
    refine ⟨id, ?_⟩
    show ((k.onAlive slot' (faulted vector errorCode address context)).process slot').state = .exited
    unfold Kernel.onAlive
    rw [if_pos halive, set_process]
    rfl
  | load => exact hends.elim
  | schedule => exact hends.elim
  | store => exact hends.elim
  | reap => exact hends.elim

end Runs

/-- No process is loaded, the slots of the tables are in order, and the allocator has none of the pages
that hold the kernel's own tables. -/
structure Idle (k : Kernel) : Prop where
  unused : ∀ slot, k.process slot = .unused
  tidy : Tidy k.files
  kept : ∀ p ∈ kernelPages k.machine.memory k.machine.rootPhysical, p ∉ k.free

theorem Idle.conserved (h : k.Idle) : k.Conserved k.free
    (kernelPages k.machine.memory k.machine.rootPhysical) k.machine.memory := by
  have hbare : ∀ slot, (k.process slot).pageTablePhysical = 0#64 := by
    intro slot
    rw [h.unused slot]
    rfl
  have hnone : ∀ slot, k.pagesOf slot = ∅ := fun slot => pages_unused k.machine.memory (hbare slot)
  have hempty : ∀ r, r ∉ k.roots := by
    rintro r ⟨hzero, slot, rfl⟩
    exact hzero (hbare slot)
  constructor
  case shaped =>
    constructor
    case unshared => exact fun hpath => absurd hpath.1 (hempty _)
    case taken => exact fun r hr => absurd hr (hempty r)
    case inner => exact fun r hr => absurd hr (hempty r)
    case leaf => exact fun r hr => absurd hr (hempty r)
    case shared => exact fun r hr => absurd hr (hempty r)
    case kept => exact fun p hp => ⟨rfl, h.kept p hp⟩
    case root => exact kernelPages_root ..
  case loaded => exact fun slot hzero => absurd (hbare slot) hzero
  case bare =>
    intro slot _
    rw [h.unused slot]
    rfl
  case unused => exact fun slot _ => hbare slot
  case apart =>
    intro slot slot' _ q hq
    rw [hnone slot] at hq
    exact hq.elim
  case used =>
    intro slot q hq
    rw [hnone slot] at hq
    exact hq.elim
  case ledger =>
    intro q
    simp only [hnone, Set.mem_empty_iff_false, exists_false, or_false]
  case tidy => exact h.tidy

/-- What holds of the pages after any run `k` from `k₀`, and for the loads that may come next. -/
structure PagesKept (k₀ k : Kernel) : Prop where
  ledger : ∀ q, q ∈ k₀.free ↔ q ∈ k.free ∨ ∃ slot, q ∈ k.pagesOf slot
  apart : ∀ slot slot', slot ≠ slot' → ∀ q ∈ k.pagesOf slot, q ∉ k.pagesOf slot'
  used : ∀ slot, ∀ q ∈ k.pagesOf slot, q ∉ k.free
  /-- Every `free_page` of the next step is of a page in use, which no process has or an exited one. -/
  released : ∀ op, ∃ log, (k.step op).machine.allocator.releases = k.machine.allocator.releases ++ log ∧
    ∀ e ∈ log, e.2 = true ∧
      ∀ slot, e.1 ∈ k.pagesOf slot → (k.process slot).state = .exited ∧ op = .reap
  failed : ∀ vfs path slot table status k', k.table.allocate = some (slot, table) →
    loadProcessImage vfs (some path) slot { k with table := table } = (status, k') → status ≠ .ok →
    k'.free = k.free ∧ k'.heap = k.heap ∧ k'.files = k.files ∧ (k'.process slot).state = .unused
  /-- The process runs among others until it ends. -/
  reaped : ∀ vfs path slot table k' ops ending, k.table.allocate = some (slot, table) →
    loadProcessImage vfs (some path) slot { k with table := table } = (.ok, k') →
    (∀ op ∈ ops, ¬ op.Ends slot) → ending.Ends slot →
    ((k'.run ops).step ending).pagesOf slot = k.free \ k'.free ∧
    ((k'.run ops).step ending).reap.free = ((k'.run ops).step ending).free ∪ (k.free \ k'.free) ∪
      { q | ∃ slot', slot' ≠ slot ∧ q ∈ ((k'.run ops).step ending).exitedPages slot' } ∧
    ((∀ op ∈ ops, ¬ op.Moves) →
      (∀ slot', slot' ≠ slot → (((k'.run ops).step ending).process slot').state ≠ .exited) →
      ((k'.run ops).step ending).reap.free = k.free)

section Kept

theorem exited_of_exitedPages (h : k.Conserved free₀ kernel reference) {q : Word}
    (hq : q ∈ { q | ∃ slot, q ∈ k.exitedPages slot }) {slot : Slot} (hslot : q ∈ k.pagesOf slot) :
    (k.process slot).state = .exited := by
  obtain ⟨slot', hstate, hpages⟩ := hq
  by_cases hne : slot' = slot
  · rw [← hne]
    exact hstate
  · exact absurd hslot (h.apart slot' slot hne q hpages)

theorem reaped_exactly {k₁ : Kernel} (h : k₁.Conserved free₀ kernel reference) {ops : List Op}
    {ending : Op} (halive : Alive (k₁.process slot)) (hops : ∀ op ∈ ops, ¬ op.Ends slot)
    (hends : ending.Ends slot) :
    ((k₁.run ops).step ending).pagesOf slot = k₁.pagesOf slot ∧
    ((k₁.run ops).step ending).reap.free = ((k₁.run ops).step ending).free ∪ k₁.pagesOf slot ∪
      { q | ∃ slot', slot' ≠ slot ∧ q ∈ ((k₁.run ops).step ending).exitedPages slot' } := by
  have hrun := run_conserved h ops
  obtain ⟨halive', hpages⟩ := run_alive h hops halive
  obtain ⟨hstays, hexited⟩ := step_ends hends halive'
  have hstep := step_spec hrun ending
  have hsame := ((hstep.still hstays).2 slot).trans hpages
  have hconserved := hstep.conserved
  generalize (k₁.run ops).step ending = k₂ at hconserved hexited hsame ⊢
  refine ⟨hsame, ?_⟩
  have hfree : k₂.reap.free = k₂.free ∪ { q | ∃ slot, q ∈ k₂.exitedPages slot } :=
    (reap_spec hconserved).2.1.free
  rw [hfree, Set.union_assoc, ← hsame]
  congr 1
  ext q
  constructor
  · rintro ⟨slot', hq⟩
    by_cases hne : slot' = slot
    · rw [hne] at hq
      exact Or.inl hq.2
    · exact Or.inr ⟨slot', hne, hq⟩
  · rintro (hq | ⟨slot', -, hq⟩)
    · exact ⟨slot, hexited, hq⟩
    · exact ⟨slot', hq⟩

theorem Conserved.kept {k₀ : Kernel} (h : k.Conserved k₀.free kernel reference) : PagesKept k₀ k := by
  constructor
  case ledger => exact h.ledger
  case apart => exact h.apart
  case used => exact fun slot q hq => (h.used slot q hq).2.1
  case released =>
    intro op
    have hfreed : ∀ q ∈ k.free, ∀ slot, q ∈ k.pagesOf slot → (k.process slot).state = .exited ∧ op = .reap :=
      fun q hq slot hslot => absurd hq (h.used slot q hslot).2.1
    by_cases hop : op = .reap
    · have hstep : k.step .reap = k.reap := rfl
      rw [hop, hstep]
      obtain ⟨log, hlog, hanswers⟩ := (reap_spec h).2.1.answered
      refine ⟨log, hlog, fun e he => ⟨(hanswers e he).1, fun slot hslot => ?_⟩⟩
      exact ⟨exited_of_exitedPages h (hanswers e he).2 hslot, rfl⟩
    · obtain ⟨log, hlog, hanswers⟩ := (step_spec h op).answered hop
      refine ⟨log, hlog, fun e he => ⟨(hanswers e he).1, hfreed e.1 (hanswers e he).2⟩⟩
  case failed =>
    intro vfs path slot table status k' hallocate hload hstatus
    rcases h.load hallocate vfs path with
      ⟨status', k'', hresult, -, -, -, hfree, hheap, hfiles, hprocess, -⟩ | ⟨k'', hresult, -⟩
    · obtain ⟨-, rfl⟩ := Prod.mk.inj (hresult.symm.trans hload)
      rw [hprocess]
      exact ⟨hfree, hheap, hfiles, rfl⟩
    · obtain ⟨rfl, -⟩ := Prod.mk.inj (hresult.symm.trans hload)
      exact absurd rfl hstatus
  case reaped =>
    intro vfs path slot table k' ops ending hallocate hload hops hends
    rcases h.load hallocate vfs path with
      ⟨status', k'', hresult, hstatus, -⟩ | ⟨k'', hresult, hconserved, -, -, -, hledger, halive, -⟩
    · obtain ⟨rfl, -⟩ := Prod.mk.inj (hresult.symm.trans hload)
      exact absurd rfl hstatus
    · obtain ⟨-, rfl⟩ := Prod.mk.inj (hresult.symm.trans hload)
      have htaken : k''.pagesOf slot = k.free \ k''.free := by
        rw [hledger, Set.union_sdiff_left]
        ext q
        exact ⟨fun hq => ⟨hq, (hconserved.used slot q hq).2.1⟩, fun hq => hq.1⟩
      obtain ⟨hpages, hreaped⟩ := reaped_exactly hconserved halive hops hends
      rw [htaken] at hpages hreaped
      refine ⟨hpages, hreaped, ?_⟩
      intro hstill hothers
      have hrun := run_conserved hconserved ops
      obtain ⟨halive', -⟩ := run_alive hconserved hops halive
      have hstays := (step_ends hends halive').1
      have hfree : ((k''.run ops).step ending).free = k''.free :=
        ((step_spec hrun ending).still hstays).1.trans (run_free hconserved hstill)
      have hnone : { q | ∃ slot', slot' ≠ slot ∧ q ∈ ((k''.run ops).step ending).exitedPages slot' } = ∅ := by
        rw [Set.eq_empty_iff_forall_notMem]
        rintro q ⟨slot', hne, hstate, -⟩
        exact hothers slot' hne hstate
      rw [hreaped, hnone, Set.union_empty, hfree, Set.union_sdiff_self, hledger,
        ← Set.union_assoc, Set.union_self]

end Kept

section Supply

theorem load_orderly (k : Kernel) (vfs : Nat → Vfs.Backend) (path : Fat32.CString) :
    Orderly k.machine (k.load vfs path).machine := by
  unfold load
  split
  · exact .refl k.machine
  · rename_i slot table _
    exact loadProcessImage_orderly (k := { k with table := table }) vfs (some path)

theorem store_orderly (k : Kernel) (slot : Slot) (address : Word) (contents : Index → Word) :
    Orderly k.machine (k.store slot address contents).machine := by
  unfold store
  split
  · dsimp only
    split
    · exact writeTable_orderly k.machine _ contents
    · exact .refl k.machine
  · exact .refl k.machine

theorem onAlive_orderly (k : Kernel) (slot : Slot) (change : Process → Process) :
    Orderly k.machine (k.onAlive slot change).machine := by
  unfold onAlive
  split <;> exact .refl k.machine

theorem step_orderly (k : Kernel) (op : Op) : Orderly k.machine (k.step op).machine := by
  cases op with
  | load vfs path => exact load_orderly k vfs path
  | schedule slot running context => exact onAlive_orderly k slot _
  | store slot address contents => exact store_orderly k slot address contents
  | exit slot code => exact onAlive_orderly k slot _
  | fault slot vector errorCode address context => exact onAlive_orderly k slot _
  | reap =>
    change Orderly k.machine k.reap.machine
    unfold reap
    dsimp only
    exact reapExited_orderly k.table k.machine

theorem run_orderly (k : Kernel) (ops : List Op) : Orderly k.machine (k.run ops).machine := by
  induction ops generalizing k with
  | nil => exact .refl k.machine
  | cons op ops ih => exact (step_orderly k op).trans (ih (k.step op))

/-- At any moment of a run an executable that can be read is loaded if a slot is free and there are four pages for each
page of its image and two more: nothing that earlier processes have left stands in the way. -/
theorem load_succeeds {k₀ : Kernel} (h₀ : k₀.Idle) (hhosts : Hosts k₀.machine) (hcounted : k₀.machine.allocator.Counted)
    (ops : List Op) {vfs : Nat → Vfs.Backend} {path : Fat32.CString} {slot : Slot} {table : Table} {bytes : List UInt8}
    (hallocate : (k₀.run ops).table.allocate = some (slot, table))
    (hread : (readImage vfs (some path) (k₀.run ops).heap (k₀.run ops).files).1 = some (bytes, bytes.length))
    (hplan : (planImage (fun i => bytes.getD i 0) bytes.length
      (readImage vfs (some path) (k₀.run ops).heap (k₀.run ops).files).2.1).1.toBool = true)
    (henough : 4 * (filePages fun i => bytes.getD i 0).length + 2 ≤ (k₀.run ops).machine.allocator.freeCount) :
    (loadProcessImage vfs (some path) slot { k₀.run ops with table := table }).1 = .ok ∧
      (((k₀.run ops).load vfs path).process slot).state = .ready := by
  have hconserved := run_conserved h₀.conserved ops
  have horderly := run_orderly k₀ ops
  have hroot : (k₀.run ops).machine.rootPhysical = k₀.machine.rootPhysical := rootPhysical_congr horderly.kernelRoot
  have hsame : (k₀.run ops).machine.memory (k₀.run ops).machine.rootPhysical =
      k₀.machine.memory k₀.machine.rootPhysical := by
    rw [← hroot]
    exact (hconserved.shaped.kept _ hconserved.shaped.root).1
  have hhosts' : Hosts (k₀.run ops).machine := by
    obtain ⟨himage, hstack, hnxe⟩ := hhosts
    rw [← hsame] at himage hstack
    exact ⟨himage, hstack, horderly.nxeEnabled.trans hnxe⟩
  have hstate : table.processes slot =
      { Process.unused with pid := (k₀.run ops).table.nextPid, state := .created } := by
    rw [(allocate_some hallocate).2, Function.update_self]
  have hok := loadProcessImage_succeeds (k := { k₀.run ops with table := table })
    (hconserved.allocate hallocate).1.shaped hhosts' hstate hread hplan ⟨horderly.counted hcounted, henough⟩
  refine ⟨hok, ?_⟩
  unfold load
  rw [hallocate]
  exact loadProcessImage_ready hok

end Supply

/-- Loads, runs, ends and reaps in any order neither lose a page nor give one to two owners. -/
theorem pages_conserved {k₀ : Kernel} (h₀ : k₀.Idle) (ops : List Op) : PagesKept k₀ (k₀.run ops) :=
  (run_conserved h₀.conserved ops).kept

def smallKernel : Kernel where
  machine := AddressSpaces.smallMachine
  heap := ⟨16, 16, 65536, Or.inr (by decide)⟩
  files := .initial
  table := .initial

theorem smallKernel_idle : smallKernel.Idle where
  unused := fun _ => rfl
  tidy := fun _ _ => rfl
  kept := AddressSpaces.smallMachine_ready.kept

theorem smallKernel_loads : ∃ table, smallKernel.table.allocate = some (0, table) ∧
    (readImage (fun _ => tinyBackend) (some tinyPath) smallKernel.heap smallKernel.files).1 =
      some (tinyElf, tinyElf.length) ∧
    (loadProcessImage (fun _ => tinyBackend) (some tinyPath) 0 { smallKernel with table := table }).1 = .ok ∧
    ((smallKernel.load (fun _ => tinyBackend) tinyPath).process 0).state = .ready := by
  have hread : (readImage (fun _ => tinyBackend) (some tinyPath) (smallKernel.run []).heap (smallKernel.run []).files).1 =
      some (tinyElf, tinyElf.length) := by
    decide +kernel
  have hplan : (planImage (fun i => tinyElf.getD i 0) tinyElf.length (readImage (fun _ => tinyBackend) (some tinyPath)
      (smallKernel.run []).heap (smallKernel.run []).files).2.1).1.toBool = true := by
    decide +kernel
  have hallocate : smallKernel.table.allocate = some (0, _) :=
    congrArg (Option.map _) (show smallKernel.table.firstUnused = some 0 by decide +kernel)
  exact ⟨_, hallocate, hread, load_succeeds smallKernel_idle ⟨rfl, rfl, rfl⟩ (by decide +kernel) [] hallocate hread hplan
    (by decide +kernel)⟩

theorem pages_conserved_small :
    smallKernel.Idle ∧ ((smallKernel.load (fun _ => tinyBackend) tinyPath).process 0).state = .ready ∧
      PagesKept smallKernel (smallKernel.run [.load (fun _ => tinyBackend) tinyPath, .exit 0 3#64, .reap]) := by
  obtain ⟨-, -, -, -, hready⟩ := smallKernel_loads
  exact ⟨smallKernel_idle, hready, pages_conserved smallKernel_idle _⟩

end Kernel

end Linux95.User
