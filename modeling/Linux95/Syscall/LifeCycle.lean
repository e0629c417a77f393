import Linux95.Base.Coroutines
import Linux95.Syscall.Supervisor
import Linux95.User.ProcessSteps

/-! The life of the programs over whole runs: they take turns on the CPU, and each goes on with the
registers it left with. -/

namespace Linux95.Syscall
open Base Memory User

section Flags

theorem sanitize_mask (flags mask : Word) (hkeep : 0x002008D5#64 &&& mask = 0x002008D5#64) (hset : 0x202#64 &&& mask = 0x202#64) :
    sanitizeUserRflags flags &&& mask = sanitizeUserRflags flags := by
  unfold sanitizeUserRflags
  rw [BitVec.and_or_distrib_right, BitVec.and_assoc, hkeep, hset]

theorem sanitize_set (flags bits : Word) (h : 0x202#64 ||| bits = 0x202#64) :
    sanitizeUserRflags flags ||| bits = sanitizeUserRflags flags := by
  unfold sanitizeUserRflags
  rw [BitVec.or_assoc, h]

theorem sanitize_idem (flags : Word) : sanitizeUserRflags (sanitizeUserRflags flags) = sanitizeUserRflags flags := by
  have h : 0x002008D5#64 &&& 0x002008D5#64 ||| 0x202#64 = 0x002008D5#64 ||| 0x202#64 := by decide
  unfold sanitizeUserRflags
  rw [BitVec.and_or_distrib_right, BitVec.and_assoc, BitVec.and_self, BitVec.or_assoc]
  rfl

theorem sysretFlags_sanitize (flags : Word) : sysretFlags (sanitizeUserRflags flags) = sanitizeUserRflags flags := by
  unfold sysretFlags
  rw [sanitize_mask flags _ (by decide) (by decide), sanitize_set flags _ (by decide)]

theorem resumeFlags_sanitize (flags : Word) :
    (sanitizeUserRflags flags ||| 0x202#64) &&& ~~~resumeMask = sanitizeUserRflags flags := by
  rw [sanitize_set flags _ (by decide), sanitize_mask flags _ (by decide) (by decide)]

end Flags

/-- The registers with which the program goes on when the kernel answers the event at once. -/
def Event.answered (rax : Word) : Event → Option Registers
  | .int80 _ r => some { r.val with rax := rax, rflags := sanitizeUserRflags r.val.rflags }
  | .syscall _ r => some { r.val with
      rax := rax, rcx := r.val.rip, r11 := sanitizeUserRflags r.val.rflags
      rflags := sanitizeUserRflags r.val.rflags, cs := userCodeSelector, ss := userDataSelector }
  | .interrupt _ r _ _ _ => some r.val
  | _ => none

/-- The registers with which the program goes on when the event has taken the CPU from it. -/
def Event.departed : Event → Option Registers
  | .interrupt _ r _ _ _ => some { r.val with rflags := sanitizeUserRflags r.val.rflags }
  | e => e.answered 0

def startRegisters (entry : Word) : Registers :=
  ⟨0, 0, 0, 0, 0, 0, 0, 0, 0, 0, 0, 0, 0, 0, 0, entry, userCodeSelector, 0x202, userStackTop, userDataSelector⟩

def suspended (p : Process) : Option Registers :=
  if p.state = .ready then
    some (resumeUser { p.context with rflags := sanitizeUserRflags p.context.rflags })
  else none

namespace Supervisor

/-- The processes as tasks: who has the CPU, and the registers with which the others wait. -/
def view (s : Supervisor) : Turns Slot Registers where
  active := match s.mode with
    | .host => none
    | _ => s.cpu.currentProcess
  waiting := fun slot => suspended (s.process slot)

def turns (s : Supervisor) (e : Event) : List (Turn Slot Registers) :=
  let s' := s.step e
  match s.mode, s'.mode with
  | .host, .user _ r => s'.cpu.currentProcess.toList.map (.resume · r)
  | .host, .host =>
    let filled := (List.finRange 16).find? fun slot =>
      (s.process slot).state = .unused && (s'.process slot).state = .ready
    filled.toList.map fun slot => .create slot (startRegisters (s'.process slot).userEntry)
  | .user _ _, .host => s.cpu.currentProcess.toList.filterMap fun slot =>
      if (s'.process slot).state = .ready then e.departed.map (.suspend slot) else some (.finish slot)
  | _, _ => []

def history : Supervisor → List Event → List (Turn Slot Registers)
  | _, [] => []
  | s, e :: events => s.turns e ++ (s.step e).history events

end Supervisor

section Contexts

theorem resumeUser_target (c : UserContext) : (resumeUser c).rip = c.rip ∧ (resumeUser c).rsp = c.rsp := by
  unfold resumeUser
  cases c.returnKind <;> exact ⟨rfl, rfl⟩

theorem resumeUser_capture_iret (r : Registers) :
    resumeUser { captureContext r .iret with rflags := sanitizeUserRflags r.rflags } =
      { r with rflags := sanitizeUserRflags r.rflags } := rfl

theorem resumeUser_capture_sysret (r : Registers) (h : r.rcx = r.rip) :
    resumeUser { captureContext r .sysret with rflags := sanitizeUserRflags r.rflags } =
      { r with
        r11 := sanitizeUserRflags r.rflags, rflags := sanitizeUserRflags r.rflags, cs := userCodeSelector
        ss := userDataSelector } := by
  unfold resumeUser captureContext sysret
  dsimp only
  rw [resumeFlags_sanitize, sysretFlags_sanitize, h]

theorem suspended_ready {p : Process} (h : p.state = .ready) :
    suspended p = some (resumeUser { p.context with rflags := sanitizeUserRflags p.context.rflags }) := if_pos h

theorem suspended_none {p : Process} (h : p.state ≠ .ready) : suspended p = none := if_neg h

theorem suspended_fresh {pid : BitVec 32} {p : Process} (h : Kernel.Fresh pid p) :
    p.state = .ready ∧ suspended p = some (startRegisters p.userEntry) ∧ p.context.returnKind = .iret ∧ p.pid = pid := by
  obtain ⟨⟨old, hpid, root, stack, entry, rfl⟩, -, -⟩ := h
  have hflags : sanitizeUserRflags 0x202 = 0x202 := by decide
  refine ⟨rfl, ?_, rfl, hpid⟩
  rw [suspended_ready rfl]
  unfold readyProcess
  dsimp only
  rw [hflags]
  rfl

end Contexts

inductive Dispatched (process : Process) : Outcome → Prop
  | answered {value : Int} {writeBuffer : Nat → UInt8} {output : List UInt8} :
      Dispatched process ⟨⟨value, .returnToUser⟩, process, writeBuffer, output⟩
  | yielded {writeBuffer : Nat → UInt8} : Dispatched process ⟨⟨0, .yieldToHost⟩, process, writeBuffer, []⟩
  | exited {code : Word} {writeBuffer : Nat → UInt8} :
      Dispatched process ⟨⟨0, .exitToHost⟩, markExited process code, writeBuffer, []⟩

theorem dispatch_cases (memory : PhysicalMemory) (process : Process) (frame : Frame) (writeBuffer : Nat → UInt8) :
    ∃ outcome, dispatch memory process frame writeBuffer = some outcome ∧ Dispatched process outcome := by
  unfold dispatch
  split_ifs with hwrite
  · obtain ⟨outcome, heq, houtcome⟩ := safeWrite_outcome memory process frame writeBuffer
    refine ⟨outcome, heq, ?_⟩
    cases houtcome with
    | written => exact .answered
    | failed => exact .answered
  · have hcontrol : dispatchControl process frame = (⟨0, .yieldToHost⟩, process) ∨
        dispatchControl process frame = (⟨0, .exitToHost⟩, markExited process frame.rdi) ∨
        dispatchControl process frame = (⟨notImplemented, .returnToUser⟩, process) := by
      unfold dispatchControl
      split_ifs
      · exact Or.inl rfl
      · exact Or.inr (Or.inl rfl)
      · exact Or.inr (Or.inr rfl)
    rcases hcontrol with hcontrol | hcontrol | hcontrol <;> rw [hcontrol]
    · exact ⟨_, rfl, .yielded⟩
    · exact ⟨_, rfl, .exited⟩
    · exact ⟨_, rfl, .answered⟩

structure Housed (free₀ kernel : Set Word) (reference : PhysicalMemory) (k : Kernel) : Prop where
  conserved : k.Conserved free₀ kernel reference
  tops : ∀ slot, (k.process slot).pageTablePhysical ≠ 0#64 → (k.process slot).kernelStackTop ≠ 0#64
  contexts : ∀ slot, (k.process slot).state = .ready → (k.process slot).context.returnKind = .sysret →
    validSysretContext (k.process slot).context = true

def Waiting (p : Process) : Prop := p.state = .unused ∨ p.state = .ready ∧ p.pageTablePhysical ≠ 0#64

structure AtHost (root : Word) (s : Supervisor) : Prop where
  idle : s.cpu.currentProcess = none
  cr3 : s.cr3 = root
  gs : s.gsSwapped = false
  waiting : ∀ slot, Waiting (s.process slot)

structure Occupied (root : Word) (s : Supervisor) (slot : Slot) : Prop where
  current : s.cpu.currentProcess = some slot
  selected : s.selected = slot
  running : (s.process slot).state = .running
  space : (s.process slot).pageTablePhysical ≠ 0#64
  others : ∀ slot', slot' ≠ slot → Waiting (s.process slot')
  cr3 : s.cr3 = (s.process slot).pageTablePhysical
  stack : s.cpu.kernelStackTop = (s.process slot).kernelStackTop
  rsp0 : s.tssRsp0 = (s.process slot).kernelStackTop
  host : s.hostCr3 = root
  gs : s.gsSwapped = false

def InQuantum (s : Scheduler) : Prop :=
  0 < s.userQuantumTicksRemaining ∧ s.userQuantumTicksRemaining ≤ userQuantumTicks

def Phase (root : Word) (s : Supervisor) : Prop :=
  match s.mode with
  | .host => AtHost root s
  | .user kind r => (∃ slot, Occupied root s slot) ∧ InQuantum s.scheduler ∧
      (kind = .sysret → validSysretTarget r.rip r.rsp = true)
  | .halted => True

structure Sound (free₀ kernel : Set Word) (reference : PhysicalMemory) (root : Word) (s : Supervisor) : Prop where
  housed : Housed free₀ kernel reference s.kernel
  phase : Phase root s

section Housed
variable {free₀ kernel : Set Word} {reference : PhysicalMemory} {k : Kernel} {slot : Slot}

theorem Housed.set {p : Process} (h : Housed free₀ kernel reference k)
    (hroot : p.pageTablePhysical = (k.process slot).pageTablePhysical)
    (hbase : p.kernelStackBase = (k.process slot).kernelStackBase)
    (htop : p.kernelStackTop = (k.process slot).kernelStackTop) (hused : p.state ≠ .unused)
    (hcontext : p.state = .ready → p.context.returnKind = .sysret → validSysretContext p.context = true) :
    Housed free₀ kernel reference (k.set slot p) := by
  refine ⟨(h.conserved.set hroot hbase fun hunused => absurd hunused hused).1, fun slot' => ?_, fun slot' => ?_⟩
  all_goals
    by_cases hsame : slot' = slot
    · rw [hsame, Kernel.set_process]
      first
      | exact hcontext
      | exact fun hspace => htop ▸ h.tops slot (hroot ▸ hspace)
    · rw [Kernel.set_process_of_ne k hsame]
      first
      | exact h.tops slot'
      | exact h.contexts slot'

theorem Housed.reap (h : Housed free₀ kernel reference k) : Housed free₀ kernel reference k.reap := by
  refine ⟨(Kernel.reap_spec h.conserved).1, fun slot => ?_, fun slot => ?_⟩
  all_goals
    rw [Kernel.reap_process]
    split_ifs
  · exact fun hspace => absurd rfl hspace
  · exact h.tops slot
  · exact fun hready => nomatch hready
  · exact h.contexts slot

theorem Housed.stores (h : Housed free₀ kernel reference k) (stores : List (Word × (Index → Word))) (slot : Slot) :
    Housed free₀ kernel reference (stores.foldl (fun k write => k.store slot write.1 write.2) k) := by
  have hprocess : ∀ slot', (stores.foldl (fun k write => k.store slot write.1 write.2) k).process slot' = k.process slot' :=
    fun slot' => congrArg (fun t => Table.processes t slot') (Kernel.stores_table stores k slot)
  refine ⟨h.conserved.stores stores slot, fun slot' => ?_, fun slot' => ?_⟩ <;> rw [hprocess]
  · exact h.tops slot'
  · exact h.contexts slot'

theorem Housed.load (h : Housed free₀ kernel reference k) (vfs : Nat → Vfs.Backend) (path : Fat32.CString) :
    Housed free₀ kernel reference (k.load vfs path) := by
  have hconserved := (Kernel.step_spec h.conserved (.load vfs path)).conserved
  rcases Kernel.load_cases h.conserved vfs path with hsame | ⟨slot, -, -, hslot, hothers⟩
  · rw [hsame]
    exact h
  · refine ⟨hconserved, fun slot' => ?_, fun slot' => ?_⟩
    all_goals
      by_cases hsame : slot' = slot
      swap
      · rw [hothers slot' hsame]
        first
        | exact h.tops slot'
        | exact h.contexts slot'
    · rw [hsame]
      rcases hslot with hunused | hfresh
      · exact fun hspace => absurd (hconserved.unused slot hunused) hspace
      · exact fun _ => hfresh.top
    · rw [hsame]
      rcases hslot with hunused | hfresh
      · exact fun hready => nomatch hunused.symm.trans hready
      · exact fun _ hkind => nomatch (suspended_fresh hfresh).2.2.1.symm.trans hkind

end Housed

end Linux95.Syscall
