import Linux95.Syscall.UserCopies

/-! The dispatch of `syscall/syscall.cpp`: what the write system call lets out of a program's memory. -/

namespace Linux95.Syscall
open Memory User

inductive Number where
  | write
  | yield
  | exit
  deriving DecidableEq

def Number.toWord : Number → Word
  | .write => 0
  | .yield => 1
  | .exit => 2

inductive Action where
  | returnToUser
  | yieldToHost
  | exitToHost
  deriving DecidableEq

structure Result where
  value : Int
  action : Action

structure Frame where
  rdi : Word
  rsi : Word
  rdx : Word
  rax : Word

def badDescriptor : Int := -9
def fault : Int := -14
def invalidArgument : Int := -22
def notImplemented : Int := -38
def maxWriteLength : Word := 4096

/-- A system call that came to its end: the process, `g_write_buffer` and the bytes for the debug port. -/
structure Outcome where
  result : Result
  process : Process
  writeBuffer : Nat → UInt8
  output : List UInt8

def dispatchControl (process : Process) (frame : Frame) : Result × Process :=
  if frame.rax = Number.yield.toWord then (⟨0, .yieldToHost⟩, process)
  else if frame.rax = Number.exit.toWord then
    (⟨0, .exitToHost⟩, { process with exitCode := frame.rdi, state := .exited })
  else (⟨notImplemented, .returnToUser⟩, process)

def safeWrite (memory : PhysicalMemory) (process : Process) (frame : Frame) (writeBuffer : Nat → UInt8) :
    Option Outcome :=
  let failed := fun (value : Int) (writeBuffer : Nat → UInt8) =>
    (⟨⟨value, .returnToUser⟩, process, writeBuffer, []⟩ : Outcome)
  if frame.rdi ≠ 1 ∧ frame.rdi ≠ 2 then some (failed badDescriptor writeBuffer)
  else if frame.rdx > maxWriteLength then some (failed invalidArgument writeBuffer)
  else
    (validateUserRange memory process.pageTablePhysical frame.rsi frame.rdx .read).bind fun valid =>
      if !valid then some (failed fault writeBuffer)
      else
        (copyFromUser memory process.pageTablePhysical frame.rsi frame.rdx writeBuffer).map
          fun (copied, writeBuffer) =>
            if !copied then failed fault writeBuffer
            else
              ⟨⟨frame.rdx.toInt, .returnToUser⟩, process, writeBuffer,
                (List.range frame.rdx.toNat).map writeBuffer⟩

def dispatch (memory : PhysicalMemory) (process : Process) (frame : Frame) (writeBuffer : Nat → UInt8) :
    Option Outcome :=
  if frame.rax = Number.write.toWord then safeWrite memory process frame writeBuffer
  else
    let (result, process) := dispatchControl process frame
    some ⟨result, process, writeBuffer, []⟩

section Writes
variable {memory : PhysicalMemory} {process : Process} {frame : Frame} {writeBuffer : Nat → UInt8}

def writtenBytes (memory : PhysicalMemory) (process : Process) (frame : Frame) : List UInt8 :=
  (List.range frame.rdx.toNat).map fun i =>
    userByte memory process.pageTablePhysical (frame.rsi + BitVec.ofNat 64 i)

/-- A write puts out bytes that the program may read, or it fails and puts out nothing. -/
inductive WriteOutcome (memory : PhysicalMemory) (process : Process) (frame : Frame) : Outcome → Prop
  | written {writeBuffer : Nat → UInt8}
      (h : ∀ i < frame.rdx.toNat,
        Accessible memory process.pageTablePhysical .read (frame.rsi.toNat + i)) :
      WriteOutcome memory process frame
        ⟨⟨frame.rdx.toNat, .returnToUser⟩, process, writeBuffer, writtenBytes memory process frame⟩
  | failed {value : Int} {writeBuffer : Nat → UInt8} (h : value = badDescriptor ∨ value = invalidArgument ∨ value = fault) :
      WriteOutcome memory process frame ⟨⟨value, .returnToUser⟩, process, writeBuffer, []⟩

theorem safeWrite_outcome (memory : PhysicalMemory) (process : Process) (frame : Frame)
    (writeBuffer : Nat → UInt8) :
    ∃ outcome, safeWrite memory process frame writeBuffer = some outcome ∧
      WriteOutcome memory process frame outcome := by
  unfold safeWrite
  dsimp only
  split_ifs with hdescriptor hlength
  · exact ⟨_, rfl, .failed (Or.inl rfl)⟩
  · exact ⟨_, rfl, .failed (Or.inr (Or.inl rfl))⟩
  obtain ⟨valid, hvalid, hanswer⟩ :=
    validateUserRange_eq memory process.pageTablePhysical frame.rsi frame.rdx .read
  rw [hvalid, Option.bind_some]
  cases valid with
  | false => exact ⟨_, rfl, .failed (Or.inr (Or.inr rfl))⟩
  | true =>
    obtain ⟨-, haccessible⟩ := hanswer.mp rfl
    obtain ⟨copied, hcopied, hbytes⟩ := @copyFromUser_eq memory process.pageTablePhysical frame.rsi writeBuffer frame.rdx hvalid
    rw [Bool.not_true, if_neg Bool.false_ne_true, hcopied]
    have hsmall : frame.rdx.toNat ≤ 4096 := BitVec.not_lt.mp hlength
    have hvalue : frame.rdx.toInt = frame.rdx.toNat := by
      rw [BitVec.toInt_eq_toNat_of_lt]
      omega
    have houtput : (List.range frame.rdx.toNat).map copied = writtenBytes memory process frame := by
      refine List.map_congr_left fun i hi => ?_
      rw [hbytes, if_pos (List.mem_range.mp hi)]
    refine ⟨_, rfl, ?_⟩
    dsimp only
    rw [Bool.not_true, if_neg Bool.false_ne_true, hvalue, houtput]
    exact .written fun i hi => haccessible _ (by omega) (by omega)

/-- The pointers of a program: what is checked, what is copied, and what a write lets out. -/
theorem user_pointers (memory : PhysicalMemory) (root : Word) :
    (∀ address length access, ∃ answer, validateUserRange memory root address length access = some answer ∧
      (length.toNat = 0 → (answer = true ↔ address.toNat < 2 ^ 47)) ∧
      (0 < length.toNat → (answer = true ↔
        ∀ a, address.toNat ≤ a → a < address.toNat + length.toNat → Accessible memory root access a))) ∧
    (∀ source length buffer, validateUserRange memory root source length .read = some true →
      ∃ buffer', copyFromUser memory root source length buffer = some (true, buffer') ∧
        ∀ j, buffer' j = if j < length.toNat then userByte memory root (source + BitVec.ofNat 64 j) else buffer j) ∧
    ∀ (process : Process) frame writeBuffer, process.pageTablePhysical = root → frame.rax = Number.write.toWord →
      ∃ outcome, dispatch memory process frame writeBuffer = some outcome ∧
        outcome.process = process ∧ outcome.result.action = .returnToUser ∧
        ((outcome.output = (List.range frame.rdx.toNat).map fun i =>
            userByte memory root (frame.rsi + BitVec.ofNat 64 i)) ∧
          outcome.result.value = frame.rdx.toNat ∧
          (∀ i < frame.rdx.toNat, Accessible memory root .read (frame.rsi.toNat + i)) ∨
        outcome.output = [] ∧ outcome.result.value < 0) := by
  refine ⟨fun address length access => ?_, fun source length buffer hvalid => copyFromUser_eq hvalid, ?_⟩
  · obtain ⟨answer, heq, hanswer⟩ := validateUserRange_eq memory root address length access
    refine ⟨answer, heq, fun hempty => hanswer.trans ⟨And.left, fun hlow => ⟨hlow, fun a hfrom hto => ?_⟩⟩,
      fun hpositive => hanswer.trans ⟨And.right, fun hall => ⟨?_, hall⟩⟩⟩
    · omega
    · exact (hall address.toNat (Nat.le_refl _) (by omega)).1
  · rintro process frame writeBuffer rfl hwrite
    obtain ⟨outcome, heq, houtcome⟩ := safeWrite_outcome memory process frame writeBuffer
    refine ⟨outcome, ?_, ?_⟩
    · unfold dispatch
      rw [if_pos hwrite]
      exact heq
    · cases houtcome with
      | written haccessible => exact ⟨rfl, rfl, .inl ⟨rfl, rfl, haccessible⟩⟩
      | @failed value _ hvalue =>
        have hnegative : value < 0 := by
          rcases hvalue with rfl | rfl | rfl <;> decide
        exact ⟨rfl, rfl, .inr ⟨rfl, hnegative⟩⟩

end Writes

end Linux95.Syscall
