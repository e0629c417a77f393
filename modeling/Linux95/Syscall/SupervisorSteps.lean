import Linux95.Syscall.LifeCycle

/-! What each step of the supervisor does: the host resumes a process, or the program that is running goes
on, is suspended, ends or stops the machine. -/

namespace Linux95.Syscall
open Base Memory User

variable {free₀ kernel : Set Word} {reference : PhysicalMemory} {root : Word} {s : Supervisor} {slot : Slot}

section Return

theorem process_setProcess (s : Supervisor) (slot slot' : Slot) (p : Process) :
    (s.setProcess slot p).process slot' = if slot' = slot then p else s.process slot' := by
  unfold Supervisor.setProcess Supervisor.process
  split_ifs with h
  · rw [h]
    exact Kernel.set_process ..
  · exact Kernel.set_process_of_ne s.kernel h p

def Supervisor.backAtHost (s : Supervisor) (k : Kernel) (rsp0 : Word) (reason : HostReason) : Supervisor :=
  { s.setCpuProcess none 0 with
    kernel := k, tssRsp0 := rsp0, lastHostReason := reason, cr3 := s.hostCr3, mode := .host }

theorem returnToHost_eq (s : Supervisor) (reason : HostReason) : s.returnToHost reason =
    if (s.process s.selected).state = .exited then s.backAtHost s.kernel.reap 0 reason
    else s.backAtHost s.kernel s.tssRsp0 reason := rfl

theorem sound_backAtHost {k : Kernel} (hk : Housed free₀ kernel reference k) (hhost : s.hostCr3 = root)
    (hgs : s.gsSwapped = false) (hwaiting : ∀ slot, Waiting (k.process slot)) (rsp0 : Word) (reason : HostReason) :
    Sound free₀ kernel reference root (s.backAtHost k rsp0 reason) := ⟨hk, rfl, hhost, hgs, hwaiting⟩

theorem returnToHost_spec (hs : Housed free₀ kernel reference s.kernel) (hocc : Occupied root s slot) {p : Process}
    (hstate : p.state = .ready ∨ p.state = .exited)
    (hroot : p.pageTablePhysical = (s.process slot).pageTablePhysical)
    (hbase : p.kernelStackBase = (s.process slot).kernelStackBase)
    (htop : p.kernelStackTop = (s.process slot).kernelStackTop)
    (hcontext : p.state = .ready → p.context.returnKind = .sysret → validSysretContext p.context = true)
    (reason : HostReason) :
    Sound free₀ kernel reference root ((s.setProcess slot p).returnToHost reason) ∧
      ((s.setProcess slot p).returnToHost reason).mode = .host ∧
      ((s.setProcess slot p).returnToHost reason).kernel.table.nextPid = s.kernel.table.nextPid ∧
      ((s.setProcess slot p).returnToHost reason).process slot = (if p.state = .exited then .unused else p) ∧
      ∀ slot', slot' ≠ slot → ((s.setProcess slot p).returnToHost reason).process slot' = s.process slot' := by
  have hhoused : Housed free₀ kernel reference (s.setProcess slot p).kernel := by
    refine hs.set hroot hbase htop (fun hunused => ?_) hcontext
    rcases hstate with h | h <;> exact nomatch h.symm.trans hunused
  have hself : (s.setProcess slot p).process slot = p := by rw [process_setProcess, if_pos rfl]
  have hother : ∀ slot', slot' ≠ slot → (s.setProcess slot p).process slot' = s.process slot' := by
    intro slot' hne
    rw [process_setProcess, if_neg hne]
  -- the others have not ended, so that reaping does not reach them
  have hwaiting : ∀ slot', slot' ≠ slot → (s.process slot').state ≠ .exited := by
    intro slot' hne hexited
    rcases hocc.others slot' hne with h | ⟨h, -⟩ <;> exact nomatch h.symm.trans hexited
  have hselected : (s.setProcess slot p).selected = slot := hocc.selected
  rw [returnToHost_eq, hselected, hself]
  split_ifs with hexited
  · have hreaped : ∀ slot', (s.setProcess slot p).kernel.reap.process slot' =
        if slot' = slot then .unused else s.process slot' := by
      intro slot'
      rw [Kernel.reap_process]
      by_cases hsame : slot' = slot
      · rw [hsame, show (s.setProcess slot p).kernel.process slot = p from hself, if_pos hexited, if_pos rfl]
      · rw [show (s.setProcess slot p).kernel.process slot' = s.process slot' from hother slot' hsame,
          if_neg (hwaiting slot' hsame), if_neg hsame]
    refine ⟨sound_backAtHost hhoused.reap hocc.host hocc.gs (fun slot' => ?_) 0 reason, rfl, Kernel.reap_nextPid _,
      (hreaped slot).trans (if_pos rfl), fun slot' hne => (hreaped slot').trans (if_neg hne)⟩
    rw [hreaped]
    split_ifs with hsame
    · exact Or.inl rfl
    · exact hocc.others slot' hsame
  · refine ⟨sound_backAtHost hhoused hocc.host hocc.gs (fun slot' => ?_) _ reason, rfl, rfl, hself, hother⟩
    by_cases hsame : slot' = slot
    · rw [hsame, show (s.setProcess slot p).kernel.process slot = p from hself]
      exact Or.inr ⟨hstate.resolve_right hexited, fun hzero => hocc.space (hroot.symm.trans hzero)⟩
    · rw [show (s.setProcess slot p).kernel.process slot' = s.process slot' from hother slot' hsame]
      exact hocc.others slot' hsame

end Return

def Event.Fatal : Event → Prop
  | .interrupt _ _ vector _ _ => vector = 2 ∨ vector = 8 ∨ vector = 18
  | _ => False

inductive Fares (before : Slot → Process) (slot : Slot) (e : Event) (s : Supervisor) : Prop
  | goesOn {rax : Word} {kind : ReturnKind} {r : Registers} (mode : s.mode = .user kind r)
      (answered : e.answered rax = some r) (current : s.cpu.currentProcess = some slot)
      (same : ∀ slot', s.process slot' = before slot')
  | suspended {r : Registers} (mode : s.mode = .host) (departed : e.departed = some r)
      (waits : suspended (s.process slot) = some r) (others : ∀ slot', slot' ≠ slot → s.process slot' = before slot')
  | ended (mode : s.mode = .host) (unused : (s.process slot).state = .unused)
      (others : ∀ slot', slot' ≠ slot → s.process slot' = before slot')
  | halted (mode : s.mode = .halted) (current : s.cpu.currentProcess = some slot)
      (same : ∀ slot', s.process slot' = before slot') (cause : e.Fatal ∨ (before slot).pid = 0)

def KeepsPids (before after : Slot → Process) : Prop :=
  ∀ slot, (after slot).state ≠ .unused → (before slot).state ≠ .unused ∧ (after slot).pid = (before slot).pid

theorem keepsPids_of_same {before after : Slot → Process} (h : ∀ slot, after slot = before slot) :
    KeepsPids before after := fun slot hused => by
  rw [h] at hused ⊢
  exact ⟨hused, rfl⟩

structure Handled (free₀ kernel : Set Word) (reference : PhysicalMemory) (root : Word) (s : Supervisor) (slot : Slot)
    (e : Event) (s' : Supervisor) : Prop where
  sound : Sound free₀ kernel reference root s'
  nextPid : s'.kernel.table.nextPid = s.kernel.table.nextPid
  pids : KeepsPids s.process s'.process
  fares : Fares s.process slot e s'

section Programs
variable (hs : Housed free₀ kernel reference s.kernel) (hocc : Occupied root s slot) {e : Event} {p : Process}

theorem setProcess_self (s : Supervisor) (slot : Slot) : s.setProcess slot (s.process slot) = s := by
  have h : s.kernel.table.set slot (s.process slot) = s.kernel.table := by
    unfold Table.set Supervisor.process Kernel.process
    rw [Function.update_eq_self]
  unfold Supervisor.setProcess Kernel.set
  rw [h]

theorem suspended_capture (r : Registers) (kind : ReturnKind) (p : Process) :
    suspended { p with context := captureContext r kind, state := .ready } =
      some (resumeUser { captureContext r kind with rflags := sanitizeUserRflags r.rflags }) := if_pos rfl

include hs hocc

theorem handled_suspend {r : Registers} (hready : p.state = .ready) (hpid : p.pid = (s.process slot).pid)
    (hroot : p.pageTablePhysical = (s.process slot).pageTablePhysical)
    (hbase : p.kernelStackBase = (s.process slot).kernelStackBase)
    (htop : p.kernelStackTop = (s.process slot).kernelStackTop)
    (hcontext : p.context.returnKind = .sysret → validSysretContext p.context = true)
    (hdeparted : e.departed = some r) (hwaits : suspended p = some r) (reason : HostReason) :
    Handled free₀ kernel reference root s slot e ((s.setProcess slot p).returnToHost reason) := by
  obtain ⟨hsound, hmode, hnext, hself, hothers⟩ :=
    returnToHost_spec hs hocc (Or.inl hready) hroot hbase htop (fun _ => hcontext) reason
  rw [if_neg (by rw [hready]; decide)] at hself
  have hused : (s.process slot).state ≠ .unused := by
    rw [hocc.running]
    decide
  refine ⟨hsound, hnext, fun slot' hused' => ?_, .suspended hmode hdeparted (by rw [hself]; exact hwaits) hothers⟩
  by_cases hsame : slot' = slot
  · rw [hsame, hself]
    exact ⟨hused, hpid⟩
  · rw [hothers slot' hsame] at hused' ⊢
    exact ⟨hused', rfl⟩

theorem handled_end (hexited : p.state = .exited)
    (hroot : p.pageTablePhysical = (s.process slot).pageTablePhysical)
    (hbase : p.kernelStackBase = (s.process slot).kernelStackBase)
    (htop : p.kernelStackTop = (s.process slot).kernelStackTop) (reason : HostReason) :
    Handled free₀ kernel reference root s slot e ((s.setProcess slot p).returnToHost reason) := by
  obtain ⟨hsound, hmode, hnext, hself, hothers⟩ := returnToHost_spec hs hocc (Or.inr hexited) hroot hbase htop
    (fun hready => nomatch hexited.symm.trans hready) reason
  rw [if_pos hexited] at hself
  refine ⟨hsound, hnext, fun slot' hused' => ?_, .ended hmode (congrArg Process.state hself) hothers⟩
  by_cases hsame : slot' = slot
  · rw [hsame, hself] at hused'
    exact absurd rfl hused'
  · rw [hothers slot' hsame] at hused' ⊢
    exact ⟨hused', rfl⟩

theorem handled_answer {rax : Word} {kind : ReturnKind} {r : Registers} (hquantum : InQuantum s.scheduler)
    (hanswered : e.answered rax = some r) (hvalid : kind = .sysret → validSysretTarget r.rip r.rsp = true) :
    Handled free₀ kernel reference root s slot e { s with mode := .user kind r } := by
  refine ⟨⟨hs, ⟨slot, ?_⟩, hquantum, hvalid⟩, rfl, keepsPids_of_same fun _ => rfl, .goesOn rfl hanswered hocc.current fun _ => rfl⟩
  exact { hocc with }

theorem handled_halt (hcause : e.Fatal ∨ (s.process slot).pid = 0) :
    Handled free₀ kernel reference root s slot e s.halt :=
  ⟨⟨hs, trivial⟩, rfl, keepsPids_of_same fun _ => rfl, .halted rfl hocc.current (fun _ => rfl) hcause⟩

variable (hquantum : InQuantum s.scheduler)

include hquantum in
theorem handled_finishInt80 (stores : List (Word × (Index → Word))) (r : UserFrame) {outcome : Outcome}
    (h : Dispatched (s.process slot) outcome) :
    Handled free₀ kernel reference root s slot (.int80 stores r) (s.finishInt80 slot
      { r.val with rflags := sanitizeUserRflags r.val.rflags } outcome.result outcome.process) := by
  unfold Supervisor.finishInt80
  cases h with
  | answered =>
    dsimp only
    rw [setProcess_self]
    exact handled_answer hs hocc hquantum rfl fun h => nomatch h
  | yielded =>
    refine handled_suspend hs hocc (by rfl) (by rfl) (by rfl) (by rfl) (by rfl) (fun h => by cases h) (by rfl) ?_ .yield
    rw [suspended_capture, resumeUser_capture_iret]
    dsimp only
    rw [sanitize_idem]
    rfl
  | exited => exact handled_end hs hocc (by rfl) (by rfl) (by rfl) (by rfl) .exit

include hquantum in
theorem handled_int80 (stores : List (Word × (Index → Word))) (r : UserFrame) :
    Handled free₀ kernel reference root s slot (.int80 stores r) (s.int80Bridge r.val) := by
  obtain ⟨⟨result, process, writeBuffer, output⟩, hdispatch, hresult⟩ := dispatch_cases s.kernel.machine.memory
    (s.process slot) { r.val with rflags := sanitizeUserRflags r.val.rflags }.frame s.writeBuffer
  have hocc' : Occupied root { s with writeBuffer := writeBuffer } slot := { hocc with }
  have h := handled_finishInt80 (s := { s with writeBuffer := writeBuffer }) hs hocc' hquantum stores r hresult
  unfold Supervisor.int80Bridge
  rw [hocc.current]
  dsimp only
  rw [hdispatch]
  exact ⟨h.sound, h.nextPid, h.pids, h.fares⟩

omit hs hocc in
theorem swapgs_setProcess (s : Supervisor) (slot : Slot) (p : Process) :
    (s.swapgs.setProcess slot p).swapgs = s.setProcess slot p := by
  unfold Supervisor.swapgs Supervisor.setProcess
  dsimp only
  rw [Bool.not_not]

omit hs hocc in
theorem answered_syscall (stores : List (Word × (Index → Word))) (r : UserFrame) (rax : Word) :
    (Event.syscall stores r).answered rax = some (sysret
      { syscallFrame r.val with
        rflags := sanitizeUserRflags r.val.rflags, rax := rax, r11 := sanitizeUserRflags r.val.rflags }) := by
  unfold sysret
  dsimp only
  rw [sysretFlags_sanitize]
  rfl

include hquantum in
theorem handled_finishSyscall (stores : List (Word × (Index → Word))) (r : UserFrame) {outcome : Outcome}
    (hrsp : s.cpu.savedUserRsp = r.val.rsp) (h : Dispatched (s.process slot) outcome) :
    Handled free₀ kernel reference root s slot (.syscall stores r) (s.swapgs.finishSyscall slot
      { syscallFrame r.val with rflags := sanitizeUserRflags r.val.rflags } outcome.result outcome.process) := by
  unfold Supervisor.finishSyscall
  cases h with
  | answered =>
    dsimp only
    split_ifs with hvalid
    · rw [swapgs_setProcess, setProcess_self]
      exact handled_answer hs hocc hquantum (answered_syscall stores r _) fun _ => hrsp ▸ hvalid
    · rw [swapgs_setProcess]
      exact handled_end hs hocc (by rfl) (by rfl) (by rfl) (by rfl) .fault
  | yielded =>
    dsimp only
    split_ifs with hvalid
    · rw [swapgs_setProcess]
      refine handled_suspend hs hocc (by rfl) (by rfl) (by rfl) (by rfl) (by rfl) (fun _ => hvalid) (by rfl) ?_ .yield
      rw [suspended_capture, resumeUser_capture_sysret _ rfl]
      dsimp only
      rw [sanitize_idem]
      rfl
    · rw [swapgs_setProcess]
      exact handled_end hs hocc (by rfl) (by rfl) (by rfl) (by rfl) .fault
  | exited =>
    dsimp only
    rw [swapgs_setProcess]
    exact handled_end hs hocc (by rfl) (by rfl) (by rfl) (by rfl) .exit

include hquantum in
theorem handled_syscallBridge (stores : List (Word × (Index → Word))) (r : UserFrame)
    (hrsp : s.cpu.savedUserRsp = r.val.rsp) :
    Handled free₀ kernel reference root s slot (.syscall stores r) (s.swapgs.syscallBridge (syscallFrame r.val)) := by
  obtain ⟨⟨result, process, writeBuffer, output⟩, hdispatch, hresult⟩ := dispatch_cases s.kernel.machine.memory
    (s.process slot) { syscallFrame r.val with rflags := sanitizeUserRflags (syscallFrame r.val).r11 }.frame s.writeBuffer
  have hocc' : Occupied root { s with writeBuffer := writeBuffer } slot := { hocc with }
  have h := handled_finishSyscall (s := { s with writeBuffer := writeBuffer }) hs hocc' hquantum stores r hrsp hresult
  have hcurrent : s.swapgs.cpu.currentProcess = some slot := hocc.current
  unfold Supervisor.syscallBridge
  rw [hcurrent]
  dsimp only
  rw [show dispatch s.swapgs.kernel.machine.memory (s.swapgs.process slot) _ s.swapgs.writeBuffer = _ from hdispatch]
  exact ⟨h.sound, h.nextPid, h.pids, h.fares⟩

include hquantum in
theorem handled_syscall (stores : List (Word × (Index → Word))) (r : UserFrame) :
    Handled free₀ kernel reference root s slot (.syscall stores r) (s.syscallEntry r.val) := by
  have hocc' : Occupied root { s with cpu := { s.cpu with savedUserRsp := r.val.rsp } } slot := { hocc with }
  have h := handled_syscallBridge (s := { s with cpu := { s.cpu with savedUserRsp := r.val.rsp } }) hs hocc' hquantum stores r rfl
  exact ⟨h.sound, h.nextPid, h.pids, h.fares⟩

theorem validated_eq : s.validatedCurrentProcess = if (s.process slot).pid = 0 then none else some slot := by
  have htop : (s.process slot).kernelStackTop ≠ 0#64 := hs.tops slot hocc.space
  unfold Supervisor.validatedCurrentProcess
  rw [hocc.current, Option.filter_some, hocc.running, decide_eq_true hocc.space, decide_eq_true htop]
  by_cases hpid : (s.process slot).pid = 0
  · rw [if_pos hpid, hpid]
    rfl
  · rw [if_neg hpid, decide_eq_true hpid]
    rfl

theorem handled_preempt (stores : List (Word × (Index → Word))) (r : UserFrame) (vector : Nat) (errorCode cr2 : Word) :
    Handled free₀ kernel reference root s slot (.interrupt stores r vector errorCode cr2) (s.handleUserPreempt r.val) := by
  unfold Supervisor.handleUserPreempt
  rw [if_pos r.property, validated_eq hs hocc]
  split_ifs with hpid
  · exact handled_halt hs hocc (Or.inr hpid)
  · refine handled_suspend hs hocc (by rfl) (by rfl) (by rfl) (by rfl) (by rfl) (fun h => by cases h) (by rfl) ?_ .preempt
    rw [suspended_capture, resumeUser_capture_iret]

theorem handled_exception (stores : List (Word × (Index → Word))) (r : UserFrame) (vector : Nat) (errorCode cr2 : Word)
    (hfatal : ¬ (Event.interrupt stores r vector errorCode cr2).Fatal) :
    Handled free₀ kernel reference root s slot (.interrupt stores r vector errorCode cr2)
      ((s.handleUserFault vector errorCode cr2 r.val).getD s.halt) := by
  obtain ⟨h2, hfatal⟩ := not_or.mp hfatal
  obtain ⟨h8, h18⟩ := not_or.mp hfatal
  have haccepts : (!fromUser r.val.cs || decide (vector = 2) || decide (vector = 8) || decide (vector = 18)) = false := by
    rw [r.property, decide_eq_false h2, decide_eq_false h8, decide_eq_false h18]
    rfl
  unfold Supervisor.handleUserFault
  rw [if_neg (by rw [haccepts]; decide), validated_eq hs hocc]
  by_cases hpid : (s.process slot).pid = 0
  · rw [if_pos hpid]
    exact handled_halt hs hocc (Or.inr hpid)
  · rw [if_neg hpid]
    exact handled_end hs hocc (by rfl) (by rfl) (by rfl) (by rfl) .fault

omit hs hocc in
theorem answered_interrupt (stores : List (Word × (Index → Word))) (r : UserFrame) (vector : Nat) (errorCode cr2 : Word) :
    (Event.interrupt stores r vector errorCode cr2).answered 0 = some r.val := rfl

include hquantum in
theorem handled_interrupt (stores : List (Word × (Index → Word))) (r : UserFrame) (vector : Nat) (errorCode cr2 : Word) :
    Handled free₀ kernel reference root s slot (.interrupt stores r vector errorCode cr2)
      (s.interruptDispatch r.val vector errorCode cr2) := by
  unfold Supervisor.interruptDispatch
  split_ifs with hexception haccepted htimer
  · refine handled_exception hs hocc stores r vector errorCode cr2 fun hfatal => ?_
    rcases hfatal with rfl | rfl | rfl <;> simp at haccepted
  · refine handled_halt hs hocc (Or.inl ?_)
    by_contra hfatal
    obtain ⟨h2, hfatal⟩ := not_or.mp hfatal
    obtain ⟨h8, h18⟩ := not_or.mp hfatal
    rw [r.property, decide_eq_true h2, decide_eq_true h8, decide_eq_true h18] at haccepted
    exact haccepted rfl
  · have htick : s.scheduler.onTimerTick (fromUser r.val.cs) =
        (decide (s.scheduler.userQuantumTicksRemaining - 1 = 0),
          { s.scheduler with userQuantumTicksRemaining := s.scheduler.userQuantumTicksRemaining - 1 }) := by
      unfold Scheduler.onTimerTick
      rw [r.property, decide_eq_false (Nat.pos_iff_ne_zero.mp hquantum.1)]
      rfl
    let scheduler := { s.scheduler with userQuantumTicksRemaining := s.scheduler.userQuantumTicksRemaining - 1 }
    have hocc' : Occupied root { s with scheduler := scheduler } slot := { hocc with }
    rw [htick]
    dsimp only
    split_ifs with hexpired
    · have h := handled_preempt (s := { s with scheduler := scheduler }) hs hocc' stores r vector errorCode cr2
      exact ⟨h.sound, h.nextPid, h.pids, h.fares⟩
    · have hquantum' : InQuantum scheduler := by
        have hlast := of_decide_eq_false (Bool.not_eq_true _ ▸ hexpired)
        exact ⟨Nat.pos_of_ne_zero hlast, (Nat.sub_le _ 1).trans hquantum.2⟩
      have h : Handled free₀ kernel reference root { s with scheduler := scheduler } slot _
          { s with scheduler := scheduler, mode := .user .iret r.val } :=
        handled_answer (s := { s with scheduler := scheduler }) hs hocc' hquantum'
          (answered_interrupt stores r vector errorCode cr2) fun h => nomatch h
      exact ⟨h.sound, h.nextPid, h.pids, h.fares⟩
  · exact handled_answer hs hocc hquantum (answered_interrupt stores r vector errorCode cr2) fun h => nomatch h

end Programs

end Linux95.Syscall
