import Linux95.Syscall.Dispatch
import Linux95.User.PageRuns
import Linux95.User.Scheduler

/-! The ways into user mode and back: `run_once` and `return_to_host` of `process/scheduler.cpp`, the
bridges of `syscall/syscall.cpp` with their entry code, and `interrupt_dispatch` for a user program. -/

namespace Linux95.Syscall
open Memory User

/-- The registers of a program: `syscall::Frame`, and `InterruptFrame` without the vector. The selectors
are pushed with zeros above them. -/
structure Registers where
  r15 : Word
  r14 : Word
  r13 : Word
  r12 : Word
  r11 : Word
  r10 : Word
  r9 : Word
  r8 : Word
  rbp : Word
  rdi : Word
  rsi : Word
  rdx : Word
  rcx : Word
  rbx : Word
  rax : Word
  rip : Word
  cs : BitVec 16
  rflags : Word
  rsp : Word
  ss : BitVec 16
  deriving DecidableEq

def Registers.frame (r : Registers) : Frame := ⟨r.rdi, r.rsi, r.rdx, r.rax⟩

def fromUser (cs : BitVec 16) : Bool := cs &&& 3#16 = 3#16

abbrev UserFrame := { r : Registers // fromUser r.cs = true }

def validSysretTarget (rip rsp : Word) : Bool :=
  decide (rip < 0x0000800000000000#64) && decide (rsp < 0x0000800000000000#64)

def validSysretContext (context : UserContext) : Bool := validSysretTarget context.rip context.rsp

def sanitizeUserRflags (flags : Word) : Word := flags &&& 0x002008D5#64 ||| 0x202#64

def captureContext (r : Registers) (returnKind : ReturnKind) : UserContext where
  r15 := r.r15
  r14 := r.r14
  r13 := r.r13
  r12 := r.r12
  r11 := r.r11
  r10 := r.r10
  r9 := r.r9
  r8 := r.r8
  rbp := r.rbp
  rdi := r.rdi
  rsi := r.rsi
  rdx := r.rdx
  rcx := r.rcx
  rbx := r.rbx
  rax := r.rax
  rip := r.rip
  rsp := r.rsp
  rflags := r.rflags
  cs := r.cs
  ss := r.ss
  returnKind := returnKind

def sysretFlags (r11 : Word) : Word := r11 &&& 0x3C7FD7#64 ||| 2#64

def sysret (r : Registers) : Registers :=
  { r with rip := r.rcx, rflags := sysretFlags r.r11, cs := userCodeSelector, ss := userDataSelector }

/-- The mask of `.resume_sysret`: TF, DF, IOPL, NT, RF, VM, AC, VIF and VIP. -/
def resumeMask : Word := 0x1F7500#64

def resumeUser (c : UserContext) : Registers :=
  let r : Registers := ⟨c.r15, c.r14, c.r13, c.r12, c.r11, c.r10, c.r9, c.r8, c.rbp, c.rdi, c.rsi, c.rdx, c.rcx,
    c.rbx, c.rax, c.rip, c.cs, c.rflags, c.rsp, c.ss⟩
  match c.returnKind with
  | .iret => r
  | .sysret => sysret { r with rcx := c.rip, r11 := (c.rflags ||| 0x202#64) &&& ~~~resumeMask }

/-- The frame of `syscall_entry`. SYSCALL has put the address of the next instruction and the flags into
`rcx` and `r11`. -/
def syscallFrame (r : Registers) : Registers :=
  { r with rcx := r.rip, r11 := r.rflags, cs := userCodeSelector, ss := userDataSelector }

structure CpuLocalState where
  currentProcess : Option Slot
  kernelStackTop : Word
  savedUserRsp : Word

inductive HostReason
  | yield
  | exit
  | preempt
  | fault
  deriving DecidableEq

/-- Where control is, in user mode with the way it got there. -/
inductive Mode
  | host
  | user (kind : ReturnKind) (registers : Registers)
  | halted

/-- The kernel with what the CPU has installed. `gsSwapped` says that the GS base of the kernel is the active one. -/
structure Supervisor where
  kernel : Kernel
  scheduler : Scheduler
  cpu : CpuLocalState
  gsSwapped : Bool
  cr3 : Word
  hostCr3 : Word
  tssRsp0 : Word
  lastHostReason : HostReason
  writeBuffer : Nat → UInt8
  mode : Mode

namespace Supervisor

def process (s : Supervisor) (slot : Slot) : Process := s.kernel.process slot

def setProcess (s : Supervisor) (slot : Slot) (p : Process) : Supervisor :=
  { s with kernel := s.kernel.set slot p }

def setCpuProcess (s : Supervisor) (process : Option Slot) (kernelStackTop : Word) : Supervisor :=
  { s with cpu := { s.cpu with currentProcess := process, kernelStackTop := kernelStackTop } }

def swapgs (s : Supervisor) : Supervisor := { s with gsSwapped := !s.gsSwapped }

def halt (s : Supervisor) : Supervisor := { s with mode := .halted }

def reapExited (s : Supervisor) : Supervisor :=
  { s.setCpuProcess none 0 with tssRsp0 := 0, kernel := s.kernel.reap }

def selected (s : Supervisor) : Slot := Fin.ofNat 16 s.scheduler.previousSlot.toNat

def finishRun (s : Supervisor) : Supervisor :=
  let s := { s with mode := .host }
  if (s.process s.selected).state = .exited then s.reapExited else s

def returnToHost (s : Supervisor) (reason : HostReason) : Supervisor :=
  (({ s with lastHostReason := reason, cr3 := s.hostCr3 } : Supervisor).setCpuProcess none 0).finishRun

/-- The part of `run_once` that resumes the process of the slot. -/
def resumeProcess (s : Supervisor) (slot : Slot) : Supervisor :=
  let selected := s.process slot
  let context := { selected.context with rflags := sanitizeUserRflags selected.context.rflags }
  { (s.setProcess slot { selected with state := .running, context := context }).setCpuProcess (some slot)
      selected.kernelStackTop with
    scheduler := s.scheduler.resetUserQuantum
    hostCr3 := s.cr3
    cr3 := selected.pageTablePhysical
    tssRsp0 := selected.kernelStackTop
    mode := .user context.returnKind (resumeUser context) }

/-- `run_once`, which comes back in `finishRun` when it has resumed a process. -/
def runOnce (s : Supervisor) : Supervisor :=
  let (slot, scheduler) := s.scheduler.select s.kernel.table
  if slot < 0 then s
  else
    let s := { s with scheduler := scheduler }
    let selected := s.process s.selected
    if selected.context.returnKind = .sysret ∧ validSysretContext selected.context = false then
      (s.setProcess s.selected (markExited selected (-14))).reapExited
    else s.resumeProcess s.selected

def finishInt80 (s : Supervisor) (slot : Slot) (r : Registers) (result : Result) (process : Process) : Supervisor :=
  let r := { r with rax := BitVec.ofInt 64 result.value }
  let captured := { process with context := captureContext r .iret }
  match result.action with
  | .returnToUser => { s.setProcess slot process with mode := .user .iret r }
  | .yieldToHost => (s.setProcess slot { captured with state := .ready }).returnToHost .yield
  | .exitToHost => (s.setProcess slot captured).returnToHost .exit

def int80Bridge (s : Supervisor) (r : Registers) : Supervisor :=
  match s.cpu.currentProcess with
  | none => s.halt
  | some slot =>
    let r := { r with rflags := sanitizeUserRflags r.rflags }
    match dispatch s.kernel.machine.memory (s.process slot) r.frame s.writeBuffer with
    | none => s.halt
    | some ⟨result, process, writeBuffer, _⟩ =>
      ({ s with writeBuffer := writeBuffer } : Supervisor).finishInt80 slot r result process

def finishSyscall (s : Supervisor) (slot : Slot) (r : Registers) (result : Result) (process : Process) : Supervisor :=
  let r := { r with rax := BitVec.ofInt 64 result.value }
  let captured := { process with context := captureContext r .sysret }
  match result.action with
  | .returnToUser =>
    if validSysretTarget r.rcx s.cpu.savedUserRsp then
      { (s.setProcess slot process).swapgs with mode := .user .sysret (sysret { r with rcx := r.rip, r11 := r.rflags }) }
    else (s.setProcess slot (markExited process (-14))).swapgs.returnToHost .fault
  | .yieldToHost =>
    if validSysretContext captured.context then
      (s.setProcess slot { captured with state := .ready }).swapgs.returnToHost .yield
    else (s.setProcess slot (markExited captured (-14))).swapgs.returnToHost .fault
  | .exitToHost => (s.setProcess slot captured).swapgs.returnToHost .exit

def syscallBridge (s : Supervisor) (r : Registers) : Supervisor :=
  match s.cpu.currentProcess with
  | none => s.halt
  | some slot =>
    let r := { r with rflags := sanitizeUserRflags r.r11 }
    match dispatch s.kernel.machine.memory (s.process slot) r.frame s.writeBuffer with
    | none => s.halt
    | some ⟨result, process, writeBuffer, _⟩ =>
      ({ s with writeBuffer := writeBuffer } : Supervisor).finishSyscall slot r result process

def syscallEntry (s : Supervisor) (r : Registers) : Supervisor :=
  ({ s with cpu := { s.cpu with savedUserRsp := r.rsp } } : Supervisor).swapgs.syscallBridge (syscallFrame r)

def validatedCurrentProcess (s : Supervisor) : Option Slot :=
  s.cpu.currentProcess.filter fun slot =>
    (s.process slot).pid ≠ 0 && (s.process slot).state = .running && (s.process slot).pageTablePhysical ≠ 0#64 &&
      (s.process slot).kernelStackTop ≠ 0#64

def handleUserPreempt (s : Supervisor) (r : Registers) : Supervisor :=
  if fromUser r.cs then
    match s.validatedCurrentProcess with
    | none => s.halt
    | some slot =>
      (s.setProcess slot { s.process slot with context := captureContext r .iret, state := .ready }).returnToHost .preempt
  else s.halt

/-- `handle_user_fault`; `none` when it answers that the exception is not one of a program. -/
def handleUserFault (s : Supervisor) (vector : Nat) (errorCode cr2 : Word) (r : Registers) : Option Supervisor :=
  if !fromUser r.cs || vector = 2 || vector = 8 || vector = 18 then none
  else
    s.validatedCurrentProcess.map fun slot =>
      (s.setProcess slot (Kernel.faulted (BitVec.ofNat 32 vector) errorCode (if vector = 14 then cr2 else 0#64)
        (captureContext r .iret) (s.process slot))).returnToHost .fault

def interruptDispatch (s : Supervisor) (r : Registers) (vector : Nat) (errorCode cr2 : Word) : Supervisor :=
  if vector < 32 then
    if fromUser r.cs && vector ≠ 2 && vector ≠ 8 && vector ≠ 18 then
      (s.handleUserFault vector errorCode cr2 r).getD s.halt
    else s.halt
  else if vector = 32 then
    let (expired, scheduler) := s.scheduler.onTimerTick (fromUser r.cs)
    let s := { s with scheduler := scheduler }
    if expired then s.handleUserPreempt r else { s with mode := .user .iret r }
  else { s with mode := .user .iret r }

def store (s : Supervisor) (stores : List (Word × (Index → Word))) : Supervisor :=
  match s.cpu.currentProcess with
  | none => s
  | some slot => { s with kernel := stores.foldl (fun k write => k.store slot write.1 write.2) s.kernel }

end Supervisor

/-- What happens next: the host loads a program or runs one, or the program that is running has written some
of its pages and leaves user mode with these registers. -/
inductive Event
  | load (vfs : Nat → Vfs.Backend) (path : Fat32.CString)
  | runOnce
  | int80 (stores : List (Word × (Index → Word))) (r : UserFrame)
  | syscall (stores : List (Word × (Index → Word))) (r : UserFrame)
  | interrupt (stores : List (Word × (Index → Word))) (r : UserFrame) (vector : Nat) (errorCode cr2 : Word)

namespace Supervisor

def step (s : Supervisor) (e : Event) : Supervisor :=
  match s.mode, e with
  | .host, .load vfs path => { s with kernel := s.kernel.load vfs path }
  | .host, .runOnce => s.runOnce
  | .user _ _, .int80 stores r => (s.store stores).int80Bridge r.val
  | .user _ _, .syscall stores r => (s.store stores).syscallEntry r.val
  | .user _ _, .interrupt stores r vector errorCode cr2 => (s.store stores).interruptDispatch r.val vector errorCode cr2
  | _, _ => s

def run (s : Supervisor) (events : List Event) : Supervisor := events.foldl step s

def boot (k : Kernel) (root : Word) : Supervisor where
  kernel := k
  scheduler := .initial
  cpu := ⟨none, 0, 0⟩
  gsSwapped := false
  cr3 := root
  hostCr3 := 0
  tssRsp0 := 0
  lastHostReason := .yield
  writeBuffer := fun _ => 0
  mode := .host

end Supervisor

end Linux95.Syscall
