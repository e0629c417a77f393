import Linux95.Base.RoundRobin
import Linux95.User.ProcessTable

/-! `process/scheduler.cpp`: the choice of the next process, and the quantum of the running one. -/

namespace Linux95.User
open Base

def chooseNext (table : Option (List Process)) (previousSlot : Int) : Int :=
  match table with
  | none => -1
  | some table =>
    if table.length = 0 then -1
    else
      let start := ((previousSlot + 1) % 2 ^ 64).toNat % table.length
      let found := (List.range table.length).find? fun offset =>
        (table.getD ((start + offset) % table.length) .unused).state = .ready
      match found with
      | none => -1
      | some offset => ((start + offset) % table.length : Nat)

def userQuantumTicks : Nat := 5

structure Scheduler where
  previousSlot : Int
  userQuantumTicksRemaining : Nat

namespace Scheduler

def initial : Scheduler := ⟨-1, 0⟩

def resetUserQuantum (s : Scheduler) : Scheduler := { s with userQuantumTicksRemaining := userQuantumTicks }

def onTimerTick (s : Scheduler) (fromUser : Bool) : Bool × Scheduler :=
  if !fromUser || s.userQuantumTicksRemaining = 0 then (false, s)
  else
    let s := { s with userQuantumTicksRemaining := s.userQuantumTicksRemaining - 1 }
    (s.userQuantumTicksRemaining = 0, s)

/-- The selection that `run_once` begins with. The quantum starts later, when the process is resumed: a selected
process whose SYSRET context is invalid is reaped without one. -/
def select (s : Scheduler) (t : Table) : Int × Scheduler :=
  let slot := chooseNext (some (List.ofFn t.processes)) s.previousSlot
  if slot < 0 then (slot, s) else (slot, { s with previousSlot := slot })

def timerTicks : Scheduler → List Bool → List Bool
  | _, [] => []
  | s, fromUser :: ticks => (s.onTimerTick fromUser).1 :: (s.onTimerTick fromUser).2.timerTicks ticks

end Scheduler

section Selections
variable (tables : Nat → Table)

/-- The scheduler before each selection, when selection `k` finds the table `tables k`. -/
def schedulerAt : Nat → Scheduler
  | 0 => .initial
  | k + 1 => ((schedulerAt k).select (tables k)).2

def selected (k : Nat) : Int := ((schedulerAt tables k).select (tables k)).1

def Table.ready (t : Table) (slot : Nat) : Bool := ((List.ofFn t.processes).getD slot .unused).state = .ready

variable {tables}

theorem Table.ready_slot (t : Table) (slot : Slot) : t.ready slot.val = true ↔ (t.processes slot).state = .ready := by
  unfold Table.ready
  rw [List.getD_eq_getElem?_getD, List.getElem?_ofFn, dif_pos slot.isLt, Option.getD_some, decide_eq_true_eq]

def startAt (tables : Nat → Table) (k : Nat) : Nat := (((schedulerAt tables k).previousSlot + 1) % 2 ^ 64).toNat % 16

def choiceAt (tables : Nat → Table) (k : Nat) : Option Nat := firstReady 16 (tables k).ready (startAt tables k)

theorem chooseNext_ofFn (t : Table) (previous : Int) : chooseNext (some (List.ofFn t.processes)) previous =
    match firstReady 16 t.ready (((previous + 1) % 2 ^ 64).toNat % 16) with
    | none => -1
    | some slot => (slot : Int) := by
  have hlength : (List.ofFn t.processes).length = 16 := List.length_ofFn
  unfold chooseNext firstReady Table.ready
  dsimp only
  rw [hlength, if_neg (by decide)]
  cases (List.range 16).find? _ with
  | none => rfl
  | some offset => rfl

theorem Scheduler.select_cases (s : Scheduler) (t : Table) :
    (s.select t = (-1, s) ∧ ∀ slot, (t.processes slot).state ≠ .ready) ∨
      ∃ slot : Slot, s.select t = ((slot.val : Int), { s with previousSlot := slot.val }) ∧
        (t.processes slot).state = .ready := by
  have hstart : ((s.previousSlot + 1) % 2 ^ 64).toNat % 16 < 16 := Nat.mod_lt _ (by decide)
  unfold Scheduler.select
  rw [chooseNext_ofFn]
  cases hfirst : firstReady 16 t.ready (((s.previousSlot + 1) % 2 ^ 64).toNat % 16) with
  | none =>
    refine Or.inl ⟨rfl, fun slot hready => ?_⟩
    rw [← Table.ready_slot, (firstReady_eq_none_iff hstart).mp hfirst slot.val slot.isLt] at hready
    cases hready
  | some slot =>
    obtain ⟨hlt, hready, -⟩ := firstReady_some hstart hfirst
    exact Or.inr ⟨⟨slot, hlt⟩, if_neg (Int.not_lt.mpr (Int.natCast_nonneg slot)),
      (t.ready_slot ⟨slot, hlt⟩).mp hready⟩

theorem select_none {k : Nat} (h : choiceAt tables k = none) :
    (schedulerAt tables k).select (tables k) = (-1, schedulerAt tables k) := by
  have hslot := chooseNext_ofFn (tables k) (schedulerAt tables k).previousSlot
  change _ = match choiceAt tables k with | none => -1 | some slot => (slot : Int) at hslot
  rw [h] at hslot
  unfold Scheduler.select
  rw [hslot]
  rfl

theorem select_some {k slot : Nat} (h : choiceAt tables k = some slot) :
    (schedulerAt tables k).select (tables k) = ((slot : Int), { schedulerAt tables k with previousSlot := slot }) := by
  have hslot := chooseNext_ofFn (tables k) (schedulerAt tables k).previousSlot
  change _ = match choiceAt tables k with | none => -1 | some slot => (slot : Int) at hslot
  rw [h] at hslot
  unfold Scheduler.select
  rw [hslot]
  exact if_neg (Int.not_lt.mpr (Int.natCast_nonneg slot))

theorem rounds : Rounds 16 (fun k => (tables k).ready) (startAt tables) (choiceAt tables) where
  first := Nat.mod_lt _ (by decide)
  chosen := fun _ => rfl
  next := fun k => by
    cases hchoice : choiceAt tables k with
    | none =>
      unfold startAt schedulerAt
      rw [select_none hchoice]
      cases k <;> rfl
    | some slot =>
      have hlt : slot < 16 := (firstReady_some (Nat.mod_lt _ (by decide)) hchoice).1
      have hnat : (((slot : Int) + 1) % 2 ^ 64).toNat = slot + 1 := by omega
      unfold startAt schedulerAt
      rw [select_some hchoice]
      dsimp only
      rw [hnat]

theorem selected_slot {k : Nat} {slot : Slot} : selected tables k = (slot.val : Int) ↔ choiceAt tables k = some slot.val := by
  unfold selected
  cases hchoice : choiceAt tables k with
  | none =>
    rw [select_none hchoice]
    constructor
    · intro h
      dsimp only at h
      omega
    · intro h
      cases h
  | some slot' =>
    rw [select_some hchoice, Option.some_inj]
    exact Int.ofNat_inj

theorem selected_none {k : Nat} : selected tables k = -1 ↔ ∀ slot, ((tables k).processes slot).state ≠ .ready := by
  have hnone : choiceAt tables k = none ↔ ∀ slot, ((tables k).processes slot).state ≠ .ready := by
    unfold choiceAt
    rw [firstReady_eq_none_iff (rounds.start_lt k)]
    constructor
    · intro h slot hready
      rw [← Table.ready_slot, h slot.val slot.isLt] at hready
      cases hready
    · intro h b hb
      have hslot := h ⟨b, hb⟩
      rw [ne_eq, ← Table.ready_slot] at hslot
      exact eq_false_of_ne_true hslot
  rw [← hnone]
  unfold selected
  cases hchoice : choiceAt tables k with
  | none =>
    rw [select_none hchoice]
    exact iff_of_true rfl rfl
  | some slot =>
    rw [select_some hchoice]
    constructor
    · intro h
      dsimp only at h
      omega
    · intro h
      cases h

theorem selected_ready {k : Nat} (h : selected tables k ≠ -1) :
    ∃ slot : Slot, selected tables k = (slot.val : Int) ∧ ((tables k).processes slot).state = .ready := by
  cases hchoice : choiceAt tables k with
  | none =>
    unfold selected at h
    rw [select_none hchoice] at h
    exact absurd rfl h
  | some slot =>
    obtain ⟨hlt, hready, -⟩ := firstReady_some (rounds.start_lt k) hchoice
    exact ⟨⟨slot, hlt⟩, selected_slot.mpr hchoice, ((tables k).ready_slot ⟨slot, hlt⟩).mp hready⟩

end Selections

section Ticks

theorem count_take_pos {ticks : List Bool} {i : Nat} (h : ticks[i]? = some true) :
    0 < (ticks.take (i + 1)).count true := by
  rw [List.count_pos_iff]
  have htake : (ticks.take (i + 1))[i]? = some true := by rw [List.getElem?_take_of_lt (Nat.lt_succ_self i), h]
  exact List.mem_of_getElem? htake

theorem timerTicks_iff (s : Scheduler) (ticks : List Bool) (i : Nat) : (s.timerTicks ticks)[i]? = some true ↔
    ticks[i]? = some true ∧ (ticks.take (i + 1)).count true = s.userQuantumTicksRemaining := by
  induction ticks generalizing s i with
  | nil => simp [Scheduler.timerTicks]
  | cons fromUser ticks ih =>
    cases i with
    | zero =>
      cases fromUser with
      | false => simp [Scheduler.timerTicks, Scheduler.onTimerTick]
      | true =>
        by_cases hzero : s.userQuantumTicksRemaining = 0
        · simp [Scheduler.timerTicks, Scheduler.onTimerTick, hzero]
        · simp [Scheduler.timerTicks, Scheduler.onTimerTick, hzero]
          omega
    | succ i =>
      rw [Scheduler.timerTicks, List.getElem?_cons_succ, List.getElem?_cons_succ, List.take_succ_cons, List.count_cons, ih]
      refine and_congr_right fun htick => ?_
      have hpos := count_take_pos htick
      unfold Scheduler.onTimerTick
      cases fromUser with
      | false => simp
      | true =>
        by_cases hzero : s.userQuantumTicksRemaining = 0
        · simp [hzero]
          omega
        · simp [hzero]
          omega

end Ticks

/-- Whatever happens to the table between the selections, a selection takes a ready process when there is one, no
process is selected twice while another one stays ready, and none stays ready for sixteen selections without being
selected. The quantum ends on the fifth user tick behind its reset. -/
theorem scheduling_fair (tables : Nat → Table) :
    (∀ k, (selected tables k = -1 ↔ ∀ slot, ((tables k).processes slot).state ≠ .ready) ∧
      (selected tables k ≠ -1 → ∃ slot : Slot, selected tables k = (slot.val : Int) ∧
        ((tables k).processes slot).state = .ready)) ∧
    (∀ a b : Slot, a ≠ b → ∀ i j, i < j → selected tables i = (a.val : Int) → selected tables j = (a.val : Int) →
      (∀ k, i < k → k ≤ j → ((tables k).processes b).state = .ready) →
      ∃ k, i < k ∧ k < j ∧ selected tables k = (b.val : Int)) ∧
    (∀ (b : Slot) i, (∀ k, i ≤ k → k < i + 16 → ((tables k).processes b).state = .ready) →
      ∃ k, i ≤ k ∧ k < i + 16 ∧ selected tables k = (b.val : Int)) ∧
    ∀ (s : Scheduler) (ticks : List Bool) i, (s.resetUserQuantum.timerTicks ticks)[i]? = some true ↔
      ticks[i]? = some true ∧ (ticks.take (i + 1)).count true = userQuantumTicks := by
  have hrounds := @rounds tables
  refine ⟨fun k => ⟨selected_none, selected_ready⟩, fun a b hab i j hij hi hj hready => ?_, fun b i hready => ?_,
    fun s ticks i => timerTicks_iff s.resetUserQuantum ticks i⟩
  · obtain ⟨k, hik, hkj, hchoice⟩ := hrounds.chosen_between b.isLt (fun h => hab (Fin.ext h)) hij
      (selected_slot.mp hi) (selected_slot.mp hj) fun k hik hkj => ((tables k).ready_slot b).mpr (hready k hik hkj)
    exact ⟨k, hik, hkj, selected_slot.mpr hchoice⟩
  · obtain ⟨k, hik, hki, hchoice⟩ := hrounds.chosen_within b.isLt fun k hik hki =>
      ((tables k).ready_slot b).mpr (hready k hik hki)
    exact ⟨k, hik, hki, selected_slot.mpr hchoice⟩

end Linux95.User
