import Linux95.Base.Runs
import Linux95.Drivers.Rtl8139

/-! Runs of the four transmit slots. A call that finds the last frame of its slot aborted returns without
releasing the slot, so the calls after it find the same register: transmission works only as long as no
call meets a failed frame. -/

namespace Linux95.Drivers

open Base

inductive TxStep where
  | transmit (frame : Option Bytes) (settle : Option (Nat × Nat))
  | complete (slot : Fin 4) (status : Nat)

def finished (status : Nat) : Bool := txFailed status || txOk status

def AllFinished (s : Rtl8139) : Prop := ∀ slot, s.txSlotUsed slot = true → finished (s.nic.txStatus slot) = true

instance (s : Rtl8139) : Decidable (AllFinished s) :=
  inferInstanceAs (Decidable (∀ slot, s.txSlotUsed slot = true → finished (s.nic.txStatus slot) = true))

def acceptable (frame : Option Bytes) : Bool :=
  frame.any fun frame => frame.length ≠ 0 && frame.length ≤ maxFrameSize

/-- The driver with the frames of the calls that returned true, the number of frames that failed, and the number
of calls that returned false although every submitted frame had finished. -/
structure TxRun where
  card : Rtl8139
  accepted : List Bytes
  failures : Nat
  refused : Nat

def TxRun.start (card : Rtl8139) : TxRun := ⟨card, [], 0, 0⟩

def TxStep.exec : TxStep → TxRun → TxRun
  | .transmit frame settle, r =>
    let result := Drivers.transmit frame settle r.card
    let slot := r.card.txSlot
    { card := result.2
      accepted := r.accepted ++ (if result.1 then frame.toList else [])
      failures := r.failures +
        if !txFailed (r.card.nic.txStatus slot) ∧ txFailed (result.2.nic.txStatus slot) then 1 else 0
      refused := r.refused + if acceptable frame ∧ AllFinished r.card ∧ !result.1 then 1 else 0 }
  | .complete slot status, r =>
    { r with card := { r.card with nic := r.card.nic.setTxStatus slot status },
             failures := r.failures + if txFailed status then 1 else 0 }

/-- What the device does: the register of a pending frame is set once, to OK, abort or underrun. -/
def TxStep.Allowed (r : TxRun) : TxStep → Prop
  | .transmit _ settle => ∀ s ∈ settle, finished s.2 = true
  | .complete slot status =>
    r.card.txSlotUsed slot = true ∧ finished (r.card.nic.txStatus slot) = false ∧ finished status = true

instance (r : TxRun) : DecidablePred (TxStep.Allowed r)
  | .transmit _ settle => inferInstanceAs (Decidable (∀ s ∈ settle, finished s.2 = true))
  | .complete slot status => inferInstanceAs (Decidable (r.card.txSlotUsed slot = true ∧
      finished (r.card.nic.txStatus slot) = false ∧ finished status = true))

/-- The call does not find the last frame of its slot failed. -/
def TxStep.Unfailed (r : TxRun) : TxStep → Prop
  | .transmit frame _ =>
    acceptable frame = true → r.card.txSlotUsed r.card.txSlot = true → txFailed (r.card.nic.txStatus r.card.txSlot) = false
  | .complete _ _ => True

instance (r : TxRun) : DecidablePred (TxStep.Unfailed r)
  | .transmit frame _ => inferInstanceAs (Decidable (acceptable frame = true →
      r.card.txSlotUsed r.card.txSlot = true → txFailed (r.card.nic.txStatus r.card.txSlot) = false))
  | .complete _ _ => isTrue trivial

abbrev runTx : TxRun → List TxStep → TxRun := run TxStep.exec

section Calls
variable {s : Rtl8139} {frame : Bytes} {settle : Option (Nat × Nat)}

theorem waitLoop_spec (attempts read status : Nat) :
    ((waitLoop settle attempts read status).1 = .completed →
      txOk (waitLoop settle attempts read status).2 = true ∧ txFailed (waitLoop settle attempts read status).2 = false) ∧
    (settle = none → (waitLoop settle attempts read status).2 = status) := by
  induction attempts generalizing read status with
  | zero => exact ⟨Wait.noConfusion, fun _ => rfl⟩
  | succ attempts ih =>
    unfold waitLoop
    dsimp only
    have hnone : settle = none → readTxStatus settle read status = status := by
      rintro rfl
      rfl
    generalize readTxStatus settle read status = seen at hnone ⊢
    by_cases hfailed : txFailed seen = true
    · rw [if_pos hfailed]
      exact ⟨Wait.noConfusion, hnone⟩
    · rw [if_neg hfailed]
      by_cases hok : txOk seen = true
      · rw [if_pos hok]
        exact ⟨fun _ => ⟨hok, Bool.eq_false_iff.mpr hfailed⟩, hnone⟩
      · rw [if_neg hok]
        exact ⟨(ih (read + 1) seen).1, fun h => ((ih (read + 1) seen).2 h).trans (hnone h)⟩

theorem waitLoop_ok {status : Nat} (hfailed : txFailed status = false) (hok : txOk status = true) (attempts read : Nat) :
    waitLoop settle (attempts + 1) read status = (.completed, status) := by
  have hread : readTxStatus settle read status = status := by
    rcases settle with _ | ⟨turn, value⟩
    · rfl
    · unfold readTxStatus
      dsimp only
      rw [if_neg (by rw [hok]; simp)]
  unfold waitLoop
  dsimp only
  rw [hread, hfailed, hok]
  rfl

theorem transmit_cases (frame : Option Bytes) (settle : Option (Nat × Nat)) (s : Rtl8139) :
    Drivers.transmit frame settle s = (false, s) ∨
    (∃ status, Drivers.transmit frame settle s = (false, { s with nic := s.nic.setTxStatus s.txSlot status }) ∧
      s.txSlotUsed s.txSlot = true ∧ (settle = none → status = s.nic.txStatus s.txSlot)) ∨
    (∃ bytes status, frame = some bytes ∧
      Drivers.transmit frame settle s = (true, submit bytes { s with nic := s.nic.setTxStatus s.txSlot status }) ∧
      (settle = none → status = s.nic.txStatus s.txSlot) ∧
      (s.txSlotUsed s.txSlot = true → txOk status = true ∧ txFailed status = false)) := by
  cases frame with
  | none => exact Or.inl rfl
  | some bytes =>
    unfold Drivers.transmit
    dsimp only
    by_cases hargs : !s.online ∨ bytes.length = 0 ∨ bytes.length > maxFrameSize
    · rw [if_pos hargs]
      exact Or.inl rfl
    · rw [if_neg hargs]
      by_cases hused : s.txSlotUsed s.txSlot = true
      · rw [if_pos hused]
        obtain ⟨hcompleted, hnone⟩ := @waitLoop_spec settle 100000 0 (s.nic.txStatus s.txSlot)
        rcases hwait : waitLoop settle 100000 0 (s.nic.txStatus s.txSlot) with ⟨_ | _ | _, status⟩
        all_goals rw [hwait] at hcompleted hnone
        · exact Or.inr (Or.inr ⟨bytes, status, rfl, rfl, hnone, fun _ => hcompleted rfl⟩)
        · exact Or.inr (Or.inl ⟨status, rfl, hused, hnone⟩)
        · exact Or.inr (Or.inl ⟨status, rfl, hused, hnone⟩)
      · rw [if_neg hused]
        refine Or.inr (Or.inr ⟨bytes, s.nic.txStatus s.txSlot, rfl, ?_, fun _ => rfl, fun h => absurd h hused⟩)
        unfold Nic.setTxStatus
        rw [Function.update_eq_self]

theorem transmit_finished {frame : Option Bytes} (honline : s.online = true) (hframe : acceptable frame = true)
    (hall : AllFinished s) (hunfailed : s.txSlotUsed s.txSlot = true → txFailed (s.nic.txStatus s.txSlot) = false) :
    (Drivers.transmit frame settle s).1 = true := by
  -- when every frame has finished, a call fails only on a slot whose frame failed
  cases frame with
  | none => cases hframe
  | some bytes =>
    have hargs : ¬(!s.online ∨ bytes.length = 0 ∨ bytes.length > maxFrameSize) := by
      simp only [acceptable, Option.any_some, Bool.and_eq_true, decide_eq_true_eq] at hframe
      simp only [honline, Bool.not_true, Bool.false_eq_true, false_or]
      omega
    unfold Drivers.transmit
    dsimp only
    rw [if_neg hargs]
    by_cases hused : s.txSlotUsed s.txSlot = true
    · have hok : txOk (s.nic.txStatus s.txSlot) = true := by
        have hdone := hall s.txSlot hused
        rw [finished, hunfailed hused, Bool.false_or] at hdone
        exact hdone
      rw [if_pos hused, waitLoop_ok (hunfailed hused) hok 99999 0]
    · rw [if_neg hused]

end Calls

section Slots
variable {txPhysical : Fin 4 → Nat} {s : Rtl8139} {accepted : List Bytes}

/-- The frames handed to the device are the accepted ones in their order, on the slots in turn; from the fifth
on, the frame before on the slot was seen OK. -/
structure Cyclic (txPhysical : Fin 4 → Nat) (submitted : List Submission) (accepted : List Bytes) : Prop where
  length : submitted.length = accepted.length
  nth : ∀ k e, submitted[k]? = some e → e.slot = Fin.ofNat 4 k ∧ e.address = txPhysical e.slot ∧
    accepted[k]? = some e.frame ∧ (4 ≤ k → txOk e.found = true ∧ txFailed e.found = false)

structure SlotInv (txPhysical : Fin 4 → Nat) (s : Rtl8139) (accepted : List Bytes) : Prop where
  online : s.online = true
  physical : s.txPhysical = txPhysical
  slot : s.txSlot = Fin.ofNat 4 s.nic.submitted.length
  used : ∀ j, s.txSlotUsed j = true ↔ j.val < s.nic.submitted.length
  cyclic : Cyclic txPhysical s.nic.submitted accepted

theorem Cyclic.snoc {submitted : List Submission} (h : Cyclic txPhysical submitted accepted) {e : Submission}
    (hslot : e.slot = Fin.ofNat 4 submitted.length) (haddress : e.address = txPhysical e.slot)
    (hfound : 4 ≤ submitted.length → txOk e.found = true ∧ txFailed e.found = false) :
    Cyclic txPhysical (submitted ++ [e]) (accepted ++ [e.frame]) := by
  refine ⟨by rw [List.length_append, List.length_append, h.length]; rfl, fun k e' hk => ?_⟩
  rcases Nat.lt_trichotomy k submitted.length with hlt | rfl | hgt
  · rw [List.getElem?_append_left hlt] at hk
    rw [List.getElem?_append_left (h.length ▸ hlt)]
    exact h.nth k e' hk
  · rw [List.getElem?_concat_length] at hk
    cases hk
    rw [h.length, List.getElem?_concat_length, ← h.length]
    exact ⟨hslot, haddress, rfl, hfound⟩
  · rw [List.getElem?_eq_none (by rw [List.length_append, List.length_singleton]; omega)] at hk
    cases hk

theorem SlotInv.setTxStatus (h : SlotInv txPhysical s accepted) (slot : Fin 4) (status : Nat) :
    SlotInv txPhysical { s with nic := s.nic.setTxStatus slot status } accepted :=
  ⟨h.online, h.physical, h.slot, h.used, h.cyclic⟩

theorem SlotInv.submit (h : SlotInv txPhysical s accepted) (bytes : Bytes)
    (hok : s.txSlotUsed s.txSlot = true → txOk (s.nic.txStatus s.txSlot) = true ∧ txFailed (s.nic.txStatus s.txSlot) = false) :
    SlotInv txPhysical (Drivers.submit bytes s) (accepted ++ [bytes]) := by
  let e : Submission := ⟨s.txSlot, s.txPhysical s.txSlot, bytes, s.nic.txStatus s.txSlot⟩
  have hsubmitted : (Drivers.submit bytes s).nic.submitted = s.nic.submitted ++ [e] := by
    simp [Drivers.submit, Nic.writeTxStatus, Nic.setTxStatus, e]
  have hlength : (Drivers.submit bytes s).nic.submitted.length = s.nic.submitted.length + 1 := by
    rw [hsubmitted, List.length_append, List.length_singleton]
  have hslot : s.txSlot.val = s.nic.submitted.length % 4 := by
    rw [h.slot]
    rfl
  refine ⟨h.online, h.physical, ?_, fun j => ?_, ?_⟩
  · rw [hlength]
    refine Fin.ext ?_
    change (s.txSlot.val + 1) % 4 = (s.nic.submitted.length + 1) % 4
    rw [hslot, Nat.mod_add_mod]
  · rw [hlength]
    change Function.update s.txSlotUsed s.txSlot true j = true ↔ _
    by_cases hj : j = s.txSlot
    · rw [hj, Function.update_self]
      simp only [true_iff]
      omega
    · rw [Function.update_of_ne hj, h.used j]
      have hne : j.val ≠ s.nic.submitted.length % 4 := fun heq => hj (Fin.ext (heq.trans hslot.symm))
      have := j.isLt
      omega
  · rw [hsubmitted]
    refine h.cyclic.snoc (e := e) h.slot (by rw [← h.physical]) fun hle => hok ((h.used s.txSlot).mpr ?_)
    have := s.txSlot.isLt
    omega

theorem transmit_pending (frame : Option Bytes) {j : Fin 4} (hused : s.txSlotUsed j = true)
    (hpending : finished (s.nic.txStatus j) = false) :
    (Drivers.transmit frame none s).2.txBuffers j = s.txBuffers j ∧
    (Drivers.transmit frame none s).2.nic.txAddress j = s.nic.txAddress j ∧
    (Drivers.transmit frame none s).2.nic.txStatus j = s.nic.txStatus j := by
  rcases transmit_cases frame none s with h | ⟨status, h, -, hstatus⟩ | ⟨bytes, status, -, h, hstatus, hok⟩
  · rw [h]
    exact ⟨rfl, rfl, rfl⟩
  · rw [h, hstatus rfl]
    refine ⟨rfl, rfl, ?_⟩
    unfold Nic.setTxStatus
    rw [Function.update_eq_self]
  · have hj : j ≠ s.txSlot := by
      rintro rfl
      rw [finished, ← hstatus rfl, (hok hused).1, Bool.or_true] at hpending
      cases hpending
    rw [h]
    simp [Drivers.submit, Nic.writeTxStatus, Nic.setTxStatus, Function.update_of_ne hj]

end Slots

section Runs

def TxRun.Inv (txPhysical : Fin 4 → Nat) (r : TxRun) : Prop := SlotInv txPhysical r.card r.accepted

variable {txPhysical : Fin 4 → Nat} {r : TxRun} {step : TxStep}

theorem TxRun.Inv.exec (h : r.Inv txPhysical) : (step.exec r).Inv txPhysical := by
  cases step with
  | complete slot status => exact SlotInv.setTxStatus h slot status
  | transmit frame settle =>
    unfold TxRun.Inv TxStep.exec
    dsimp only
    rcases transmit_cases frame settle r.card with hcase | ⟨status, hcase, -⟩ | ⟨bytes, status, rfl, hcase, -, hok⟩
    · rw [hcase, if_neg Bool.false_ne_true, List.append_nil]
      exact h
    · rw [hcase, if_neg Bool.false_ne_true, List.append_nil]
      exact SlotInv.setTxStatus h r.card.txSlot status
    · rw [hcase, if_pos rfl]
      refine SlotInv.submit (SlotInv.setTxStatus h r.card.txSlot status) bytes fun hused => ?_
      unfold Nic.setTxStatus
      dsimp only
      rw [Function.update_self]
      exact hok hused

theorem refused_exec (h : r.Inv txPhysical) (hunfailed : step.Unfailed r) : (step.exec r).refused = r.refused := by
  cases step with
  | complete slot status => rfl
  | transmit frame settle =>
    unfold TxStep.exec
    dsimp only
    rw [if_neg, Nat.add_zero]
    rintro ⟨hframe, hall, hresult⟩
    rw [transmit_finished h.online hframe hall (hunfailed hframe)] at hresult
    cases hresult

theorem initialized_inv (txPhysical : Fin 4 → Nat) (txBuffers : Fin 4 → Bytes) (nic : Nic) :
    (TxRun.start (initialized txPhysical txBuffers nic)).Inv txPhysical := by
  refine ⟨rfl, rfl, rfl, fun j => ?_, ⟨rfl, fun k e hk => ?_⟩⟩
  · exact ⟨fun h => absurd h Bool.false_ne_true, fun h => absurd h (Nat.not_lt_zero _)⟩
  · cases hk

theorem TxRun.Inv.run (h : r.Inv txPhysical) (steps : List TxStep) : (runTx r steps).Inv txPhysical := by
  induction steps generalizing r with
  | nil => exact h
  | cons step steps ih => exact ih h.exec

theorem refused_run (h : r.Inv txPhysical) {steps : List TxStep} (hunfailed : Throughout TxStep.exec TxStep.Unfailed r steps) :
    (runTx r steps).refused = r.refused := by
  induction steps generalizing r with
  | nil => rfl
  | cons step steps ih => exact (ih h.exec hunfailed.2).trans (refused_exec h hunfailed.1)

/-- In every run the frames go to the device in call order on the slots in turn, and no slot is written while its
frame is pending; as long as no call meets a failed frame, no call fails once every frame has finished. -/
theorem transmit_slots_unfailed (txPhysical : Fin 4 → Nat) (txBuffers : Fin 4 → Bytes) (nic : Nic) (steps : List TxStep) :
    let start := TxRun.start (initialized txPhysical txBuffers nic)
    let r := runTx start steps
    Cyclic txPhysical r.card.nic.submitted r.accepted ∧
    (∀ frame j, r.card.txSlotUsed j = true → finished (r.card.nic.txStatus j) = false →
      (Drivers.transmit frame none r.card).2.txBuffers j = r.card.txBuffers j ∧
      (Drivers.transmit frame none r.card).2.nic.txAddress j = r.card.nic.txAddress j ∧
      (Drivers.transmit frame none r.card).2.nic.txStatus j = r.card.nic.txStatus j) ∧
    (Throughout TxStep.exec TxStep.Unfailed start steps → r.refused = 0) := by
  intro start r
  have hstart := initialized_inv txPhysical txBuffers nic
  have h : r.Inv txPhysical := hstart.run steps
  exact ⟨h.cyclic, fun frame j => transmit_pending frame, refused_run hstart⟩

def blankSlots : TxRun := TxRun.start (initialized (fun _ => 0) (fun _ => []) ⟨fun _ => 0, 0, [], fun _ => 0, fun _ => 0, []⟩)

/-- Four frames are submitted, three of them finish, the last one is aborted, and a fifth frame takes the first slot. -/
def reusedSteps : List TxStep :=
  [.transmit (some [1]) none, .transmit (some [2]) none, .transmit (some [3]) none, .transmit (some [4]) none] ++
    (List.finRange 4).map (fun slot => .complete slot (if slot.val = 3 then 2 ^ 30 else 2 ^ 15)) ++
    [.transmit (some [5]) none]

theorem transmit_slots_unfailed_reused :
    (runTx blankSlots reusedSteps).accepted = [[1], [2], [3], [4], [5]] ∧ (runTx blankSlots reusedSteps).failures = 1 ∧
    (runTx blankSlots reusedSteps).refused = 0 := by
  have hunfailed : Throughout TxStep.exec TxStep.Unfailed blankSlots reusedSteps := by decide +kernel
  exact ⟨by decide +kernel, by decide +kernel, (transmit_slots_unfailed _ _ _ reusedSteps).2.2 hunfailed⟩

def Stuck (s : Rtl8139) : Prop := s.txSlotUsed s.txSlot = true ∧ txFailed (s.nic.txStatus s.txSlot) = true

theorem transmit_stuck {s : Rtl8139} (h : Stuck s) (frame : Option Bytes) (settle : Option (Nat × Nat)) :
    Drivers.transmit frame settle s = (false, s) := by
  -- a call that meets a failed frame changes nothing, so the next one meets it again
  have hread : readTxStatus settle 0 (s.nic.txStatus s.txSlot) = s.nic.txStatus s.txSlot := by
    rcases settle with _ | ⟨turn, value⟩
    · rfl
    · unfold readTxStatus
      dsimp only
      rw [if_neg (by rw [h.2]; simp)]
  have hwait : waitLoop settle 100000 0 (s.nic.txStatus s.txSlot) = (.failed, s.nic.txStatus s.txSlot) := by
    unfold waitLoop
    dsimp only
    rw [hread, if_pos h.2]
  cases frame with
  | none => rfl
  | some bytes =>
    unfold Drivers.transmit
    dsimp only
    rw [if_pos h.1, hwait]
    dsimp only
    rw [Nic.setTxStatus, Function.update_eq_self]
    exact ite_self (false, s)

theorem accepted_of_stuck (h : Stuck r.card) {steps : List TxStep} (hallowed : Throughout TxStep.exec TxStep.Allowed r steps) :
    (runTx r steps).accepted = r.accepted := by
  refine (@run_invariant _ _ TxStep.exec TxStep.Allowed r steps (fun r' => Stuck r'.card ∧ r'.accepted = r.accepted)
    ?_ ⟨h, rfl⟩ hallowed).2
  rintro r' (⟨frame, settle⟩ | ⟨slot, status⟩) ⟨hstuck, haccepted⟩ hstep
  · simp only [TxStep.exec, transmit_stuck hstuck frame settle, Bool.false_eq_true, if_false, List.append_nil]
    exact ⟨hstuck, haccepted⟩
  · refine ⟨⟨hstuck.1, ?_⟩, haccepted⟩
    have hne : r'.card.txSlot ≠ slot := by
      rintro rfl
      have hpending := hstep.2.1
      rw [finished, hstuck.2] at hpending
      cases hpending
    change txFailed (Function.update r'.card.nic.txStatus slot status r'.card.txSlot) = true
    rw [Function.update_of_ne hne]
    exact hstuck.2

/-- Four frames are submitted and finish, the first one with an abort. -/
def abortedSteps : List TxStep :=
  [.transmit (some [1]) none, .transmit (some [2]) none, .transmit (some [3]) none, .transmit (some [4]) none] ++
    (List.finRange 4).map fun slot => .complete slot (if slot.val = 0 then 2 ^ 30 else 2 ^ 15)

def afterAbort : List TxStep := [.transmit (some [5]) none, .transmit (some [6]) none]

theorem transmit_slots_aborted : Throughout TxStep.exec TxStep.Allowed blankSlots (abortedSteps ++ afterAbort) ∧
    (runTx blankSlots (abortedSteps ++ afterAbort)).failures = 1 ∧
    (runTx blankSlots (abortedSteps ++ afterAbort)).refused = 2 := by
  decide +kernel

end Runs

end Linux95.Drivers
