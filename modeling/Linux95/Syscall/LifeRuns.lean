import Linux95.Syscall.SupervisorSteps

/-! Runs of the supervisor: its steps are turns of the programs, and the programs keep their registers,
their pages and their process identifiers. -/

namespace Linux95.Syscall
open Base Memory User

variable {free₀ kernel : Set Word} {reference : PhysicalMemory} {root : Word} {s : Supervisor} {slot : Slot}
  {e : Event}

section UserSteps

theorem store_spec (hs : Housed free₀ kernel reference s.kernel) (hocc : Occupied root s slot)
    (stores : List (Word × (Index → Word))) :
    Housed free₀ kernel reference (s.store stores).kernel ∧ Occupied root (s.store stores) slot ∧
      (s.store stores).process = s.process ∧ (s.store stores).kernel.table.nextPid = s.kernel.table.nextPid ∧
      (s.store stores).scheduler = s.scheduler := by
  have htable := Kernel.stores_table stores s.kernel slot
  have hprocess : ∀ slot', (stores.foldl (fun k write => k.store slot write.1 write.2) s.kernel).process slot' =
      s.process slot' := fun slot' => congrArg (fun t => Table.processes t slot') htable
  unfold Supervisor.store
  rw [hocc.current]
  refine ⟨hs.stores stores slot, ⟨hocc.current, hocc.selected, ?_, ?_, fun slot' hne => ?_, ?_, ?_, ?_, hocc.host, hocc.gs⟩,
    funext hprocess, congrArg Table.nextPid htable, rfl⟩
  · exact (congrArg Process.state (hprocess slot)).trans hocc.running
  · exact fun hzero => hocc.space ((congrArg Process.pageTablePhysical (hprocess slot)).symm.trans hzero)
  · show Waiting (Kernel.process _ slot')
    rw [hprocess]
    exact hocc.others slot' hne
  · exact hocc.cr3.trans (congrArg Process.pageTablePhysical (hprocess slot)).symm
  · exact hocc.stack.trans (congrArg Process.kernelStackTop (hprocess slot)).symm
  · exact hocc.rsp0.trans (congrArg Process.kernelStackTop (hprocess slot)).symm

def Event.FromProgram : Event → Prop
  | .load _ _ | .runOnce => False
  | _ => True

theorem step_handled {kind : ReturnKind} {r : Registers} (hs : Housed free₀ kernel reference s.kernel)
    (hmode : s.mode = .user kind r) (hocc : Occupied root s slot) (hquantum : InQuantum s.scheduler)
    (he : e.FromProgram) : Handled free₀ kernel reference root s slot e (s.step e) := by
  have hkept : ∀ stores s', Handled free₀ kernel reference root (s.store stores) slot e s' →
      Handled free₀ kernel reference root s slot e s' := by
    intro stores s' h
    obtain ⟨-, -, hprocess, hpid, -⟩ := store_spec hs hocc stores
    exact ⟨h.sound, h.nextPid.trans hpid, hprocess ▸ h.pids, hprocess ▸ h.fares⟩
  unfold Supervisor.step
  rw [hmode]
  cases e with
  | load => exact he.elim
  | runOnce => exact he.elim
  | int80 stores r =>
    obtain ⟨hs', hocc', -, -, hscheduler⟩ := store_spec hs hocc stores
    exact hkept stores _ (handled_int80 hs' hocc' (hscheduler ▸ hquantum) stores r)
  | syscall stores r =>
    obtain ⟨hs', hocc', -, -, hscheduler⟩ := store_spec hs hocc stores
    exact hkept stores _ (handled_syscall hs' hocc' (hscheduler ▸ hquantum) stores r)
  | interrupt stores r vector errorCode cr2 =>
    obtain ⟨hs', hocc', -, -, hscheduler⟩ := store_spec hs hocc stores
    exact hkept stores _ (handled_interrupt hs' hocc' (hscheduler ▸ hquantum) stores r vector errorCode cr2)

theorem ready_of_suspended {p : Process} {r : Registers} (h : suspended p = some r) : p.state = .ready := by
  by_contra hne
  rw [suspended_none hne] at h
  cases h

theorem leads_of_fares {kind : ReturnKind} {r : Registers} (hmode : s.mode = .user kind r)
    (hcurrent : s.cpu.currentProcess = some slot)
    (h : Fares s.process slot e (s.step e)) : Turns.Leads s.view (s.turns e) (s.step e).view := by
  have hactive : s.view.active = some slot := by
    unfold Supervisor.view
    rw [hmode]
    exact hcurrent
  have hstill : (s.step e).mode ≠ .host → (s.step e).cpu.currentProcess = some slot →
      (∀ slot', (s.step e).process slot' = s.process slot') → (s.step e).view = s.view := by
    intro hmode' hcurrent' hsame
    have hactive' : (s.step e).view.active = some slot := by
      unfold Supervisor.view
      cases hm : (s.step e).mode with
      | host => exact absurd hm hmode'
      | user => exact hcurrent'
      | halted => exact hcurrent'
    have hwaiting : (s.step e).view.waiting = s.view.waiting := funext fun slot' => congrArg suspended (hsame slot')
    exact Turns.ext (hactive'.trans hactive.symm) hwaiting
  have hleft : ∀ left, (s.step e).mode = .host → suspended ((s.step e).process slot) = left →
      (∀ slot', slot' ≠ slot → (s.step e).process slot' = s.process slot') →
      (s.step e).view = ⟨none, Function.update s.view.waiting slot left⟩ := by
    intro left hmode' hleft hothers
    have hwaiting : (s.step e).view.waiting = Function.update s.view.waiting slot left := by
      funext slot'
      by_cases hsame : slot' = slot
      · rw [hsame, Function.update_self]
        exact hleft
      · rw [Function.update_of_ne hsame]
        exact congrArg suspended (hothers slot' hsame)
    have hnone : (s.step e).view.active = none := by
      unfold Supervisor.view
      rw [hmode']
    exact Turns.ext hnone hwaiting
  unfold Supervisor.turns
  rw [hmode, hcurrent]
  dsimp only
  cases h with
  | goesOn mode answered current same =>
    rw [hstill (by rw [mode]; exact nofun) current same, mode]
    exact .nil _
  | halted mode current same =>
    rw [hstill (by rw [mode]; exact nofun) current same, mode]
    exact .nil _
  | suspended mode departed waits others =>
    rw [hleft _ mode waits others, mode]
    dsimp only
    rw [Option.toList_some, List.filterMap_cons, if_pos (ready_of_suspended waits), departed]
    exact .single hactive
  | ended mode unused others =>
    have hready : ((s.step e).process slot).state ≠ .ready := by
      rw [unused]
      decide
    rw [hleft _ mode (suspended_none hready) others, mode]
    dsimp only
    rw [Option.toList_some, List.filterMap_cons, if_neg hready]
    exact .single hactive

end UserSteps

section HostSteps
variable (hs : Housed free₀ kernel reference s.kernel) (hhost : AtHost root s)

def resumedProcess (p : Process) : Process :=
  { p with state := .running, context := { p.context with rflags := sanitizeUserRflags p.context.rflags } }

def resumedState (s : Supervisor) (slot : Slot) : Supervisor :=
  ({ s with scheduler := { s.scheduler with previousSlot := slot.val } } : Supervisor).resumeProcess slot

include hs in
/-- `run_once` resumes a ready process whenever there is one. -/
theorem runOnce_cases : (s.runOnce = s ∧ ∀ slot, (s.process slot).state ≠ .ready) ∨
    ∃ slot, (s.process slot).state = .ready ∧ s.runOnce = resumedState s slot := by
  rcases s.scheduler.select_cases s.kernel.table with ⟨hchoice, hnone⟩ | ⟨slot, hchoice, hready⟩
  · refine Or.inl ⟨?_, hnone⟩
    unfold Supervisor.runOnce
    rw [hchoice]
    exact if_pos (by decide)
  · refine Or.inr ⟨slot, hready, ?_⟩
    have hslot : Fin.ofNat 16 (slot.val : Int).toNat = slot := by
      rw [Int.toNat_natCast]
      exact Fin.ext (Nat.mod_eq_of_lt slot.isLt)
    have hvalid : ¬ ((s.process slot).context.returnKind = .sysret ∧
        validSysretContext (s.process slot).context = false) := by
      rintro ⟨hkind, hinvalid⟩
      rw [show (s.process slot).context = (s.kernel.process slot).context from rfl,
        hs.contexts slot hready hkind] at hinvalid
      cases hinvalid
    unfold Supervisor.runOnce Supervisor.selected
    rw [hchoice]
    dsimp only
    rw [hslot, if_neg (Int.not_lt.mpr (Int.natCast_nonneg _))]
    exact if_neg hvalid

include hs hhost

theorem sound_resumed (hready : (s.process slot).state = .ready) :
    Sound free₀ kernel reference root (resumedState s slot) ∧ KeepsPids s.process (resumedState s slot).process := by
  have hspace : (s.process slot).pageTablePhysical ≠ 0#64 := by
    rcases hhost.waiting slot with hunused | ⟨-, hspace⟩
    · exact nomatch hunused.symm.trans hready
    · exact hspace
  have hself : (resumedState s slot).process slot = resumedProcess (s.process slot) :=
    (process_setProcess s slot slot _).trans (if_pos rfl)
  have hother : ∀ slot', slot' ≠ slot → (resumedState s slot).process slot' = s.process slot' :=
    fun slot' hne => (process_setProcess s slot slot' _).trans (if_neg hne)
  have hselected : (resumedState s slot).selected = slot := by
    show Fin.ofNat 16 (slot.val : Int).toNat = slot
    rw [Int.toNat_natCast]
    exact Fin.ext (Nat.mod_eq_of_lt slot.isLt)
  refine ⟨⟨hs.set rfl rfl rfl (fun hunused => nomatch hunused) (fun hready => nomatch hready),
    ⟨slot, rfl, hselected, ?_, ?_, fun slot' hne => ?_, ?_, ?_, ?_, hhost.cr3, hhost.gs⟩, ⟨Nat.succ_pos 4, le_refl _⟩,
    fun hkind => ?_⟩, fun slot' hused => ?_⟩
  · rw [hself]
    rfl
  · rw [hself]
    exact hspace
  · rw [hother slot' hne]
    exact hhost.waiting slot'
  · rw [hself]
    rfl
  · rw [hself]
    rfl
  · rw [hself]
    rfl
  · show validSysretTarget (resumeUser _).rip (resumeUser _).rsp = true
    rw [(resumeUser_target _).1, (resumeUser_target _).2]
    exact hs.contexts slot hready hkind
  · by_cases hsame : slot' = slot
    · rw [hsame, hself]
      refine ⟨?_, rfl⟩
      rw [hready]
      decide
    · rw [hother slot' hsame] at hused ⊢
      exact ⟨hused, rfl⟩

omit hs hhost in
theorem leads_resumed (hmode : s.mode = .host) (hready : (s.process slot).state = .ready)
    (hstep : s.step .runOnce = resumedState s slot) :
    Turns.Leads s.view (s.turns .runOnce) (s.step .runOnce).view := by
  have hactive : s.view.active = none := by
    unfold Supervisor.view
    rw [hmode]
  have hview : (resumedState s slot).view = ⟨some slot, Function.update s.view.waiting slot none⟩ := by
    refine Turns.ext rfl (funext fun slot' => ?_)
    show suspended ((s.setProcess slot (resumedProcess (s.process slot))).process slot') =
      Function.update s.view.waiting slot none slot'
    rw [process_setProcess]
    by_cases hsame : slot' = slot
    · rw [if_pos hsame, hsame, Function.update_self]
      exact suspended_none nofun
    · rw [if_neg hsame, Function.update_of_ne hsame]
      rfl
  unfold Supervisor.turns
  rw [hstep, hmode, hview]
  exact .single ⟨hactive, suspended_ready hready⟩

end HostSteps

section Loads

def filled (s : Supervisor) (k : Kernel) : Option Slot :=
  (List.finRange 16).find? fun slot => (s.process slot).state = .unused && (k.process slot).state = .ready

theorem filled_none {k : Kernel}
    (h : ∀ slot, (s.process slot).state = .unused → (k.process slot).state ≠ .ready) : filled s k = none := by
  refine List.find?_eq_none.mpr fun slot _ hfilled => ?_
  obtain ⟨hunused, hready⟩ := Bool.and_eq_true_iff.mp hfilled
  exact h slot (of_decide_eq_true hunused) (of_decide_eq_true hready)

theorem filled_some {k : Kernel} (hunused : (s.process slot).state = .unused) (hready : (k.process slot).state = .ready)
    (hothers : ∀ slot', slot' ≠ slot → k.process slot' = s.process slot') : filled s k = some slot := by
  cases hfilled : filled s k with
  | none =>
    refine absurd ?_ (List.find?_eq_none.mp hfilled slot (List.mem_finRange slot))
    rw [Bool.and_eq_true_iff]
    exact ⟨decide_eq_true hunused, decide_eq_true hready⟩
  | some slot' =>
    unfold filled at hfilled
    have hboth := List.find?_some hfilled
    obtain ⟨hunused', hready'⟩ := Bool.and_eq_true_iff.mp hboth
    by_contra hne
    rw [hothers slot' fun heq => hne (congrArg some heq)] at hready'
    exact nomatch (of_decide_eq_true hunused').symm.trans (of_decide_eq_true hready')

variable {vfs : Nat → Vfs.Backend} {path : Fat32.CString}

theorem step_load (hmode : s.mode = .host) :
    s.step (.load vfs path) = { s with kernel := s.kernel.load vfs path } := by
  unfold Supervisor.step
  rw [hmode]

theorem leads_load (hmode : s.mode = .host) {k : Kernel} (hstep : s.step (.load vfs path) = { s with kernel := k })
    (h : (filled s k = none ∧ ∀ slot, suspended (k.process slot) = suspended (s.process slot)) ∨
      ∃ slot, filled s k = some slot ∧ (s.process slot).state = .unused ∧
        suspended (k.process slot) = some (startRegisters (k.process slot).userEntry) ∧
        ∀ slot', slot' ≠ slot → k.process slot' = s.process slot') :
    Turns.Leads s.view (s.turns (.load vfs path)) (s.step (.load vfs path)).view := by
  have hactive : s.view.active = none := by
    unfold Supervisor.view
    rw [hmode]
  have hactive' : ({ s with kernel := k } : Supervisor).view.active = none := by
    unfold Supervisor.view
    rw [hmode]
  have hturns : s.turns (.load vfs path) =
      (filled s k).toList.map fun slot => .create slot (startRegisters (k.process slot).userEntry) := by
    unfold Supervisor.turns
    rw [hstep, hmode]
    rfl
  rw [hturns, hstep]
  rcases h with ⟨hfilled, hsame⟩ | ⟨slot, hfilled, hunused, hwaits, hothers⟩
  · rw [hfilled, show ({ s with kernel := k } : Supervisor).view = s.view from
      Turns.ext (hactive'.trans hactive.symm) (funext hsame)]
    exact .nil _
  · have hview : ({ s with kernel := k } : Supervisor).view =
        ⟨none, Function.update s.view.waiting slot (some (startRegisters (k.process slot).userEntry))⟩ := by
      refine Turns.ext hactive' (funext fun slot' => ?_)
      show suspended (k.process slot') = Function.update s.view.waiting slot _ slot'
      by_cases heq : slot' = slot
      · rw [heq, Function.update_self]
        exact hwaits
      · rw [Function.update_of_ne heq, hothers slot' heq]
        rfl
    rw [hfilled, hview]
    refine .single ⟨hactive, suspended_none ?_⟩
    rw [hunused]
    decide

theorem load_sound (hs : Housed free₀ kernel reference s.kernel) (hhost : AtHost root s) (hmode : s.mode = .host)
    (vfs : Nat → Vfs.Backend) (path : Fat32.CString) :
    Sound free₀ kernel reference root (s.step (.load vfs path)) ∧
      Turns.Leads s.view (s.turns (.load vfs path)) (s.step (.load vfs path)).view := by
  have hstep : s.step (.load vfs path) = { s with kernel := s.kernel.load vfs path } := step_load hmode
  have hsound : (∀ slot, Waiting ((s.kernel.load vfs path).process slot)) →
      Sound free₀ kernel reference root (s.step (.load vfs path)) := by
    intro hwaiting
    rw [hstep]
    refine ⟨hs.load vfs path, ?_⟩
    unfold Phase
    rw [hmode]
    exact ⟨hhost.idle, hhost.cr3, hhost.gs, hwaiting⟩
  rcases Kernel.load_cases hs.conserved vfs path with hsame | ⟨slot, hunused, -, hslot, hothers⟩
  · rw [hsame] at hsound hstep
    refine ⟨hsound hhost.waiting, leads_load hmode hstep (Or.inl ⟨filled_none fun slot hunused hready => ?_, fun _ => rfl⟩)⟩
    exact nomatch hunused.symm.trans hready
  · have hwaiting : Waiting ((s.kernel.load vfs path).process slot) →
        ∀ slot', Waiting ((s.kernel.load vfs path).process slot') := by
      intro hself slot'
      by_cases heq : slot' = slot
      · rw [heq]
        exact hself
      · rw [hothers slot' heq]
        exact hhost.waiting slot'
    rcases hslot with hunused' | hfresh
    · refine ⟨hsound (hwaiting (Or.inl hunused')), leads_load hmode hstep (Or.inl ⟨filled_none fun slot' hfree hready => ?_,
        fun slot' => ?_⟩)⟩
      · by_cases heq : slot' = slot
        · rw [heq, hunused'] at hready
          cases hready
        · rw [hothers slot' heq] at hready
          exact nomatch hfree.symm.trans hready
      · by_cases heq : slot' = slot
        · rw [heq, suspended_none (by rw [hunused']; decide)]
          exact (suspended_none (by rw [show (s.process slot).state = .unused from hunused]; decide)).symm
        · rw [hothers slot' heq]
          rfl
    · obtain ⟨hready, hwaits, -, -⟩ := suspended_fresh hfresh
      exact ⟨hsound (hwaiting (Or.inr ⟨hready, hfresh.root⟩)), leads_load hmode hstep (Or.inr ⟨slot,
        filled_some hunused hready hothers, hunused, hwaits, hothers⟩)⟩

end Loads

structure Numbered (m : Nat) (k : Kernel) : Prop where
  next : k.table.nextPid = BitVec.ofNat 32 (m + 1)
  pids : ∃ number : Slot → Nat,
    (∀ slot, (k.process slot).state ≠ .unused →
      1 ≤ number slot ∧ number slot ≤ m ∧ (k.process slot).pid = BitVec.ofNat 32 (number slot)) ∧
    ∀ slot slot', (k.process slot).state ≠ .unused → (k.process slot').state ≠ .unused →
      number slot = number slot' → slot = slot'

section Numbers
variable {k k' : Kernel} {m : Nat}

theorem Numbered.kept (h : Numbered m k) (hnext : k'.table.nextPid = k.table.nextPid)
    (hpids : KeepsPids k.process k'.process) : Numbered m k' := by
  obtain ⟨number, hnumber, hinjective⟩ := h.pids
  refine ⟨hnext.trans h.next, number, fun slot hused => ?_, fun slot slot' hused hused' heq =>
    hinjective slot slot' (hpids slot hused).1 (hpids slot' hused').1 heq⟩
  obtain ⟨hused', hpid⟩ := hpids slot hused
  rw [hpid]
  exact hnumber slot hused'

theorem Numbered.load (h : Numbered m k) (hconserved : k.Conserved free₀ kernel reference) (vfs : Nat → Vfs.Backend)
    (path : Fat32.CString) : Numbered m (k.load vfs path) ∨ Numbered (m + 1) (k.load vfs path) := by
  rcases Kernel.load_cases hconserved vfs path with hsame | ⟨slot, hunused, hnext, hslot, hothers⟩
  · rw [hsame]
    exact Or.inl h
  · right
    obtain ⟨number, hnumber, hinjective⟩ := h.pids
    have hold : ∀ slot', slot' ≠ slot → ((k.load vfs path).process slot').state ≠ .unused →
        1 ≤ number slot' ∧ number slot' ≤ m ∧
          ((k.load vfs path).process slot').pid = BitVec.ofNat 32 (number slot') := by
      intro slot' hne hused
      rw [hothers slot' hne] at hused ⊢
      exact hnumber slot' hused
    have hnew : ((k.load vfs path).process slot).state ≠ .unused →
        ((k.load vfs path).process slot).pid = BitVec.ofNat 32 (m + 1) := by
      intro hused
      have hfresh := hslot.resolve_left hused
      rw [(suspended_fresh hfresh).2.2.2, h.next]
    refine ⟨?_, Function.update number slot (m + 1), fun slot' hused => ?_, fun slot₁ slot₂ hused₁ hused₂ heq => ?_⟩
    · rw [hnext, h.next]
      exact (BitVec.ofNat_add (m + 1) 1).symm
    · by_cases hsame : slot' = slot
      · rw [hsame] at hused
        rw [hsame, Function.update_self]
        exact ⟨Nat.succ_pos m, le_refl _, hnew hused⟩
      · obtain ⟨hlow, hhigh, hpid⟩ := hold slot' hsame hused
        rw [Function.update_of_ne hsame]
        exact ⟨hlow, by omega, hpid⟩
    · by_cases h₁ : slot₁ = slot <;> by_cases h₂ : slot₂ = slot
      · exact h₁.trans h₂.symm
      · rw [h₁, Function.update_self, Function.update_of_ne h₂] at heq
        have hhigh := (hold slot₂ h₂ hused₂).2.1
        omega
      · rw [h₂, Function.update_self, Function.update_of_ne h₁] at heq
        have hhigh := (hold slot₁ h₁ hused₁).2.1
        omega
      · rw [Function.update_of_ne h₁, Function.update_of_ne h₂] at heq
        rw [hothers slot₁ h₁] at hused₁
        rw [hothers slot₂ h₂] at hused₂
        exact hinjective slot₁ slot₂ hused₁ hused₂ heq

theorem Numbered.distinct (h : Numbered m k) (hm : m + 1 < 2 ^ 32) {slot : Slot}
    (hused : (k.process slot).state ≠ .unused) (slot' : Slot) : (k.process slot).pid ≠ 0 ∧
      ((k.process slot').state ≠ .unused → (k.process slot').pid = (k.process slot).pid → slot' = slot) := by
  -- as long as the counter has not come round, no process has the identifier 0 and no two share one
  obtain ⟨number, hnumber, hinjective⟩ := h.pids
  obtain ⟨hlow, hhigh, hpid⟩ := hnumber slot hused
  refine ⟨fun hzero => ?_, fun hused' heq => ?_⟩
  · have hnat := congrArg BitVec.toNat (hpid.symm.trans hzero)
    rw [BitVec.toNat_ofNat, Nat.mod_eq_of_lt (by omega)] at hnat
    simp at hnat
    omega
  · obtain ⟨-, hhigh', hpid'⟩ := hnumber slot' hused'
    have hnat := congrArg BitVec.toNat ((hpid'.symm.trans heq).trans hpid)
    rw [BitVec.toNat_ofNat, BitVec.toNat_ofNat, Nat.mod_eq_of_lt (by omega), Nat.mod_eq_of_lt (by omega)] at hnat
    exact hinjective slot' slot hused' hused hnat

end Numbers

def Event.isLoad : Event → Bool
  | .load _ _ => true
  | _ => false

section Steps

theorem turns_unmoved (hstep : s.step e = s) : s.turns e = [] := by
  -- a step that changes nothing is no turn
  unfold Supervisor.turns
  rw [hstep]
  cases hmode : s.mode with
  | user =>
    dsimp only
    rw [hmode]
  | halted => rfl
  | host =>
    dsimp only
    rw [hmode]
    have hfilled : filled s s.kernel = none := filled_none fun slot hunused hready => nomatch hunused.symm.trans hready
    show (filled s s.kernel).toList.map _ = []
    rw [hfilled]
    rfl

structure Sane (free₀ kernel : Set Word) (reference : PhysicalMemory) (root : Word) (s : Supervisor) (e : Event) (m : Nat) :
    Prop where
  sound : Sound free₀ kernel reference root (s.step e)
  turns : Turns.Leads s.view (s.turns e) (s.step e).view
  numbered : ∃ m', m' ≤ m + (if e.isLoad then 1 else 0) ∧ Numbered m' (s.step e).kernel

variable {m : Nat}

theorem sane_unmoved (h : Sound free₀ kernel reference root s) (hnumbered : Numbered m s.kernel) (hstep : s.step e = s) :
    Sane free₀ kernel reference root s e m := by
  refine ⟨?_, ?_, m, Nat.le_add_right .., ?_⟩
  · rw [hstep]
    exact h
  · rw [turns_unmoved hstep, hstep]
    exact .nil _
  · rw [hstep]
    exact hnumbered

theorem sane_host (h : Sound free₀ kernel reference root s) (hnumbered : Numbered m s.kernel) (hmode : s.mode = .host)
    (e : Event) : Sane free₀ kernel reference root s e m := by
  have hhost := h.phase
  unfold Phase at hhost
  rw [hmode] at hhost
  cases e with
  | load vfs path =>
    obtain ⟨hsound, hleads⟩ := load_sound h.housed hhost hmode vfs path
    refine ⟨hsound, hleads, ?_⟩
    rw [step_load hmode]
    rcases hnumbered.load h.housed.conserved vfs path with hsame | hnext
    · exact ⟨m, Nat.le_add_right .., hsame⟩
    · exact ⟨m + 1, le_refl _, hnext⟩
  | runOnce =>
    have hstep : s.step .runOnce = s.runOnce := by
      unfold Supervisor.step
      rw [hmode]
    rcases runOnce_cases h.housed with ⟨hsame, -⟩ | ⟨slot, hready, hresumed⟩
    · exact sane_unmoved h hnumbered (hstep.trans hsame)
    · obtain ⟨hsound, hpids⟩ := sound_resumed h.housed hhost hready
      refine ⟨?_, leads_resumed hmode hready (hstep.trans hresumed), m, le_refl _, ?_⟩
      · rw [hstep, hresumed]
        exact hsound
      · rw [hstep, hresumed]
        exact hnumbered.kept rfl hpids
  | int80 => exact sane_unmoved h hnumbered (by unfold Supervisor.step; rw [hmode])
  | syscall => exact sane_unmoved h hnumbered (by unfold Supervisor.step; rw [hmode])
  | interrupt => exact sane_unmoved h hnumbered (by unfold Supervisor.step; rw [hmode])

theorem sane_user {kind : ReturnKind} {r : Registers} (h : Sound free₀ kernel reference root s)
    (hnumbered : Numbered m s.kernel) (hmode : s.mode = .user kind r) (e : Event) :
    Sane free₀ kernel reference root s e m := by
  have hphase := h.phase
  unfold Phase at hphase
  rw [hmode] at hphase
  obtain ⟨⟨slot, hocc⟩, hquantum, -⟩ := hphase
  have hprogram : e.FromProgram → Sane free₀ kernel reference root s e m := by
    intro he
    have hhandled := step_handled h.housed hmode hocc hquantum he
    exact ⟨hhandled.sound, leads_of_fares hmode hocc.current hhandled.fares, m, Nat.le_add_right ..,
      hnumbered.kept hhandled.nextPid hhandled.pids⟩
  cases e with
  | load => exact sane_unmoved h hnumbered (by unfold Supervisor.step; rw [hmode])
  | runOnce => exact sane_unmoved h hnumbered (by unfold Supervisor.step; rw [hmode])
  | int80 => exact hprogram trivial
  | syscall => exact hprogram trivial
  | interrupt => exact hprogram trivial

theorem step_halted (hmode : s.mode = .halted) (e : Event) : s.step e = s := by
  unfold Supervisor.step
  rw [hmode]

theorem step_sane (h : Sound free₀ kernel reference root s) (hnumbered : Numbered m s.kernel) (e : Event) :
    Sane free₀ kernel reference root s e m := by
  cases hmode : s.mode with
  | host => exact sane_host h hnumbered hmode e
  | user kind r => exact sane_user h hnumbered hmode e
  | halted => exact sane_unmoved h hnumbered (step_halted hmode e)

end Steps

section Runs
variable {m : Nat}

def loads (events : List Event) : Nat := events.countP Event.isLoad

theorem loads_cons (e : Event) (events : List Event) :
    loads (e :: events) = (if e.isLoad then 1 else 0) + loads events := by
  unfold loads
  rw [List.countP_cons, Nat.add_comm]

structure Comes (free₀ kernel : Set Word) (reference : PhysicalMemory) (root : Word) (s : Supervisor)
    (events : List Event) (m : Nat) : Prop where
  sound : Sound free₀ kernel reference root (s.run events)
  turns : Turns.Leads s.view (s.history events) (s.run events).view
  numbered : ∃ m', m' ≤ m + loads events ∧ Numbered m' (s.run events).kernel

theorem run_sane (h : Sound free₀ kernel reference root s) (hnumbered : Numbered m s.kernel) (events : List Event) :
    Comes free₀ kernel reference root s events m := by
  induction events generalizing s m with
  | nil => exact ⟨h, .nil _, m, Nat.le_add_right .., hnumbered⟩
  | cons e events ih =>
    obtain ⟨hsound, hturns, m₁, hm₁, hnumbered₁⟩ := step_sane h hnumbered e
    obtain ⟨hsound', hturns', m', hm', hnumbered'⟩ := ih hsound hnumbered₁
    refine ⟨hsound', hturns.append hturns', m', ?_, hnumbered'⟩
    rw [loads_cons]
    omega

/-- What stops the machine: an exception that is fatal, or a program whose identifier is 0. -/
theorem step_halts {kind : ReturnKind} {r : Registers} (h : Sound free₀ kernel reference root s)
    (hmode : s.mode = .user kind r) (hhalted : (s.step e).mode = .halted) :
    e.Fatal ∨ ∃ slot, (s.process slot).state ≠ .unused ∧ (s.process slot).pid = 0 := by
  have hphase := h.phase
  unfold Phase at hphase
  rw [hmode] at hphase
  obtain ⟨⟨slot, hocc⟩, hquantum, -⟩ := hphase
  by_cases he : e.FromProgram
  · cases (step_handled h.housed hmode hocc hquantum he).fares with
    | goesOn mode => exact nomatch mode.symm.trans hhalted
    | suspended mode => exact nomatch mode.symm.trans hhalted
    | ended mode => exact nomatch mode.symm.trans hhalted
    | halted _ _ _ cause =>
      refine cause.imp_right fun hzero => ⟨slot, ?_, hzero⟩
      rw [hocc.running]
      decide
  · have hsame : s.step e = s := by
      unfold Supervisor.step
      rw [hmode]
      cases e with
      | load => rfl
      | runOnce => rfl
      | int80 => exact absurd trivial he
      | syscall => exact absurd trivial he
      | interrupt => exact absurd trivial he
    rw [hsame, hmode] at hhalted
    cases hhalted

theorem step_answers {kind kind' : ReturnKind} {r r' : Registers} (h : Sound free₀ kernel reference root s)
    (hmode : s.mode = .user kind r) (hmode' : (s.step e).mode = .user kind' r') (he : e.FromProgram) :
    ∃ rax, e.answered rax = some r' := by
  have hphase := h.phase
  unfold Phase at hphase
  rw [hmode] at hphase
  obtain ⟨⟨slot, hocc⟩, hquantum, -⟩ := hphase
  cases (step_handled h.housed hmode hocc hquantum he).fares with
  | @goesOn rax _ _ mode answered =>
    obtain ⟨-, rfl⟩ := Mode.user.inj (mode.symm.trans hmode')
    exact ⟨rax, answered⟩
  | halted mode => exact nomatch mode.symm.trans hmode'
  | suspended mode => exact nomatch mode.symm.trans hmode'
  | ended mode => exact nomatch mode.symm.trans hmode'

theorem step_resumes (h : Sound free₀ kernel reference root s) (hmode : s.mode = .host)
    (hready : (s.process slot).state = .ready) : ∃ kind r, (s.step .runOnce).mode = .user kind r := by
  have hstep : s.step .runOnce = s.runOnce := by
    unfold Supervisor.step
    rw [hmode]
  rw [hstep]
  rcases runOnce_cases h.housed with ⟨-, hnone⟩ | ⟨slot, -, hresumed⟩
  · exact absurd hready (hnone slot)
  · rw [hresumed]
    exact ⟨_, _, rfl⟩

theorem host_not_halted (h : Sound free₀ kernel reference root s) (hmode : s.mode = .host) (e : Event) :
    (s.step e).mode ≠ .halted := by
  have hinert : s.step e = s → (s.step e).mode ≠ .halted := by
    intro hsame
    rw [hsame, hmode]
    exact nofun
  cases e with
  | load vfs path =>
    rw [step_load hmode]
    show s.mode ≠ .halted
    rw [hmode]
    exact nofun
  | runOnce =>
    have hstep : s.step .runOnce = s.runOnce := by
      unfold Supervisor.step
      rw [hmode]
    rcases runOnce_cases h.housed with ⟨hsame, -⟩ | ⟨slot, -, hresumed⟩
    · exact hinert (hstep.trans hsame)
    · rw [hstep, hresumed]
      exact nofun
  | int80 => exact hinert (by unfold Supervisor.step; rw [hmode])
  | syscall => exact hinert (by unfold Supervisor.step; rw [hmode])
  | interrupt => exact hinert (by unfold Supervisor.step; rw [hmode])

/-- As long as the identifiers last, only a fatal exception stops the machine. -/
theorem run_halts (h : Sound free₀ kernel reference root s) (hnumbered : Numbered m s.kernel)
    (hmode : s.mode ≠ .halted) (events : List Event) (hloads : m + loads events + 1 < 2 ^ 32)
    (hhalted : (s.run events).mode = .halted) : ∃ e ∈ events, e.Fatal := by
  induction events generalizing s m with
  | nil => exact absurd hhalted hmode
  | cons e events ih =>
    obtain ⟨hsound, -, m', hm', hnumbered'⟩ := step_sane h hnumbered e
    rw [loads_cons] at hloads
    by_cases hnow : (s.step e).mode = .halted
    · refine ⟨e, List.mem_cons_self, ?_⟩
      cases hcase : s.mode with
      | halted => exact absurd hcase hmode
      | user kind r =>
        refine (step_halts h hcase hnow).resolve_right ?_
        rintro ⟨slot, hused, hzero⟩
        exact (hnumbered.distinct (by omega) hused slot).1 hzero
      | host =>
        exact absurd hnow (host_not_halted h hcase e)
    · obtain ⟨e', he', hfatal⟩ := ih hsound hnumbered' hnow (by omega) hhalted
      exact ⟨e', List.mem_cons_of_mem _ he', hfatal⟩

end Runs

/-- What holds of every run from the boot of the host. -/
structure LifeCycle (k₀ : Kernel) (root : Word) (events : List Event) : Prop where
  /-- The CPU has the address space and the kernel stack of the program that runs, or those of the host. -/
  phase : Phase root ((Supervisor.boot k₀ root).run events)
  /-- The steps are turns by the rules: at most one program has the CPU. -/
  turns : Turns.Leads (Supervisor.boot k₀ root).view ((Supervisor.boot k₀ root).history events)
    ((Supervisor.boot k₀ root).run events).view
  /-- A program is resumed with the registers with which it was suspended or created. -/
  resumed : ∀ first last mid rest r, (Supervisor.boot k₀ root).history events =
    first ++ last :: (mid ++ .resume last.task r :: rest) → (∀ turn ∈ mid, turn.task ≠ last.task) →
    last = .create last.task r ∨ last = .suspend last.task r
  /-- Between the resumption of a program and its end or suspension there is no other turn. -/
  exclusive : ∀ first slot r mid next rest, (Supervisor.boot k₀ root).history events =
    first ++ .resume slot r :: (mid ++ next :: rest) → (∀ turn ∈ mid, turn.task ≠ slot) →
    mid = [] ∧ (next = .finish slot ∨ ∃ r', next = .suspend slot r')
  /-- A program that keeps the CPU has its registers from the answer to its own event. -/
  answered : ∀ e kind r kind' r', ((Supervisor.boot k₀ root).run events).mode = .user kind r → e.FromProgram →
    (((Supervisor.boot k₀ root).run events).step e).mode = .user kind' r' → ∃ rax, e.answered rax = some r'
  resumes : ∀ slot, ((Supervisor.boot k₀ root).run events).mode = .host →
    (((Supervisor.boot k₀ root).run events).process slot).state = .ready →
    ∃ kind r, (((Supervisor.boot k₀ root).run events).step .runOnce).mode = .user kind r
  halts : loads events + 1 < 2 ^ 32 → ((Supervisor.boot k₀ root).run events).mode = .halted → ∃ e ∈ events, e.Fatal
  pids : loads events + 1 < 2 ^ 32 → ∀ slot slot',
    (((Supervisor.boot k₀ root).run events).process slot).state ≠ .unused →
    (((Supervisor.boot k₀ root).run events).process slot').state ≠ .unused →
    (((Supervisor.boot k₀ root).run events).process slot).pid ≠ 0 ∧
      ((((Supervisor.boot k₀ root).run events).process slot').pid =
        (((Supervisor.boot k₀ root).run events).process slot).pid → slot' = slot)
  pages : Kernel.PagesKept k₀ ((Supervisor.boot k₀ root).run events).kernel

section Boot
variable {k₀ : Kernel}

theorem sound_boot (h₀ : k₀.Idle) (root : Word) :
    Sound k₀.free (kernelPages k₀.machine.memory k₀.machine.rootPhysical) k₀.machine.memory root
      (Supervisor.boot k₀ root) := by
  have hunused : ∀ slot, k₀.process slot = .unused := h₀.unused
  refine ⟨⟨h₀.conserved, fun slot hspace => ?_, fun slot hready => ?_⟩, rfl, rfl, rfl, fun slot => Or.inl ?_⟩
  · exact absurd (congrArg Process.pageTablePhysical (hunused slot)) hspace
  · exact nomatch (congrArg Process.state (hunused slot)).symm.trans hready
  · exact congrArg Process.state (hunused slot)

theorem numbered_boot (h₀ : k₀.Idle) (hpid : k₀.table.nextPid = 1) : Numbered 0 k₀ := by
  have hunused : ∀ slot, (k₀.process slot).state = .unused := fun slot => congrArg Process.state (h₀.unused slot)
  exact ⟨hpid, fun _ => 0, fun slot hused => absurd (hunused slot) hused, fun slot _ hused => absurd (hunused slot) hused⟩

theorem load_then_run (h₀ : k₀.Idle) (hpid : k₀.table.nextPid = 1) (root : Word) {vfs : Nat → Vfs.Backend} {path : Fat32.CString} {slot : Slot}
    (hready : ((k₀.load vfs path).process slot).state = .ready) :
    ∃ kind r, ((Supervisor.boot k₀ root).run [.load vfs path, .runOnce]).mode = .user kind r := by
  -- a program that has just been loaded is the first to get the CPU
  have hnumbered : Numbered 0 (Supervisor.boot k₀ root).kernel := numbered_boot h₀ hpid
  obtain ⟨hsound, -⟩ := step_sane (sound_boot h₀ root) hnumbered (.load vfs path)
  exact step_resumes hsound rfl hready

/-- Whatever is loaded and whatever the programs do, they take turns on the CPU and each goes on where it was. -/
theorem process_life_cycle (h₀ : k₀.Idle) (hpid : k₀.table.nextPid = 1) (root : Word) (events : List Event) :
    LifeCycle k₀ root events := by
  have hnumbered : Numbered 0 (Supervisor.boot k₀ root).kernel := numbered_boot h₀ hpid
  obtain ⟨hsound, hturns, m, hm, hnumbered'⟩ := run_sane (sound_boot h₀ root) hnumbered events
  constructor
  case phase => exact hsound.phase
  case turns => exact hturns
  case resumed =>
    intro first last mid rest r hhistory hmid
    have hleft := Turns.Leads.resumed (hhistory ▸ hturns) hmid
    cases last with
    | create slot r' => exact Or.inl (by rw [Option.some.inj hleft]; rfl)
    | suspend slot r' => exact Or.inr (by rw [Option.some.inj hleft]; rfl)
    | resume => cases hleft
    | finish => cases hleft
  case exclusive =>
    intro first slot r mid next rest hhistory hmid
    exact Turns.Leads.exclusive (hhistory ▸ hturns) hmid
  case answered => exact fun e kind r kind' r' hmode he hmode' => step_answers hsound hmode hmode' he
  case resumes => exact fun slot hmode hready => step_resumes hsound hmode hready
  case halts => exact fun hloads hhalted => run_halts (sound_boot h₀ root) hnumbered nofun events (by omega) hhalted
  case pids =>
    intro hloads slot slot' hused hused'
    obtain ⟨hzero, hdistinct⟩ := hnumbered'.distinct (by omega) hused slot'
    exact ⟨hzero, hdistinct hused'⟩
  case pages => exact hsound.housed.conserved.kept

/-- The program is loaded, and the next `run_once` gives it the CPU. -/
theorem process_life_cycle_small : Kernel.smallKernel.Idle ∧ Kernel.smallKernel.table.nextPid = 1 ∧
    LifeCycle Kernel.smallKernel 0x1000 [.load (fun _ => tinyBackend) tinyPath, .runOnce] ∧
    ∃ kind r, ((Supervisor.boot Kernel.smallKernel 0x1000).run
      [.load (fun _ => tinyBackend) tinyPath, .runOnce]).mode = .user kind r := by
  obtain ⟨-, -, -, -, hready⟩ := Kernel.smallKernel_loads
  exact ⟨Kernel.smallKernel_idle, rfl, process_life_cycle Kernel.smallKernel_idle rfl _ _,
    load_then_run Kernel.smallKernel_idle rfl 0x1000 hready⟩

end Boot

end Linux95.Syscall
