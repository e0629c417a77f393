import Mathlib.Algebra.Group.Nat.Defs
import Mathlib.Algebra.Group.Int.Defs
import Mathlib.Data.Fin.Basic
import Mathlib.Logic.Function.Basic
import Mathlib.Tactic.Common

/-! `drivers/rtl8139.cpp` and `drivers/rtl8139_helpers.hpp` over the registers and the memory that the
driver shares with the device. `pci` and the DMA addresses are settled by `initialize`; its interrupt
registers are only written. -/

namespace Linux95.Drivers

abbrev Bytes := List UInt8

/-- A packet in the receive buffer that the driver has not acknowledged. -/
structure Packet where
  offset : Nat
  status : Nat
  frame : Bytes
  crc : Bytes
  deriving DecidableEq

def Packet.length (p : Packet) : Nat := p.frame.length + 4

def le16 (value : Nat) : Bytes := [UInt8.ofNat value, UInt8.ofNat (value / 2 ^ 8)]

def Packet.bytes (p : Packet) : Bytes := le16 p.status ++ (le16 p.length ++ (p.frame ++ p.crc))

/-- A frame handed to the device: the slot, the address and the bytes there, and what the status register of the
slot showed before it was written. -/
structure Submission where
  slot : Fin 4
  address : Nat
  frame : Bytes
  found : Nat
  deriving DecidableEq

/-- The device: the memory from `g_rx_buffer` on, where the next packet goes, the packets between the read
and the write pointer, the transmit registers and the frames it was given. -/
structure Nic where
  rxBuffer : Nat → UInt8
  writeOffset : Nat
  unread : List Packet
  txStatus : Fin 4 → Nat
  txAddress : Fin 4 → Nat
  submitted : List Submission

structure Rtl8139 where
  online : Bool
  rxOffset : Nat
  txSlot : Fin 4
  txSlotUsed : Fin 4 → Bool
  txPhysical : Fin 4 → Nat
  txBuffers : Fin 4 → Bytes
  nic : Nic

def rxRingSize : Nat := 8192

def maxFrameSize : Nat := 1518

def advanceRxOffset (offset packetLength : Nat) : Nat := (offset + packetLength + 4 + 3) / 4 * 4 % rxRingSize

def validRxLength (packetLength : Nat) : Bool := 4 ≤ packetLength && packetLength ≤ 1518

def nextTxSlot (slot : Fin 4) : Fin 4 := ⟨(slot.val + 1) % 4, Nat.mod_lt _ (by decide)⟩

def initialized (txPhysical : Fin 4 → Nat) (txBuffers : Fin 4 → Bytes) (nic : Nic) : Rtl8139 :=
  { online := true, rxOffset := 0, txSlot := ⟨0, by decide⟩, txSlotUsed := fun _ => false, txPhysical, txBuffers,
    nic := { nic with writeOffset := 0, unread := [], txAddress := txPhysical, submitted := [] } }

section Receive

def ring16 (buffer : Nat → UInt8) (offset : Nat) : Nat :=
  (buffer offset).toNat + (buffer ((offset + 1) % rxRingSize)).toNat * 2 ^ 8

def ring8 (buffer : Nat → UInt8) (offset : Nat) : UInt8 := buffer (offset % rxRingSize)

def acknowledge (pointer : Nat) : List Packet → List Packet
  | [] => []
  | p :: ps => if p.offset = pointer then p :: ps else acknowledge pointer ps

/-- A write of the current address register, whose value lies 16 before the read pointer. -/
def writeCurrentAddress (value : Nat) (nic : Nic) : Nic :=
  { nic with unread := acknowledge ((value + 16) % rxRingSize) nic.unread }

def setRxOffset (offset : Nat) (s : Rtl8139) : Rtl8139 :=
  { s with rxOffset := offset, nic := writeCurrentAddress ((offset + (2 ^ 16 - 16)) % 2 ^ 16) s.nic }

def updateRxOffset (packetLength : Nat) (s : Rtl8139) : Rtl8139 :=
  setRxOffset (advanceRxOffset s.rxOffset packetLength) s

/-- The current buffer register is the offset at which the device writes next. -/
def recoverRxOffset (s : Rtl8139) : Rtl8139 := setRxOffset (s.nic.writeOffset % rxRingSize / 4 * 4) s

def pollLoop (capacity : Nat) : Nat → Rtl8139 → Option Bytes × Rtl8139
  | 0, s => (none, s)
  | attempts + 1, s =>
    if s.nic.unread = [] then (none, s)
    else
      let status := ring16 s.nic.rxBuffer s.rxOffset
      let packetLength := ring16 s.nic.rxBuffer ((s.rxOffset + 2) % rxRingSize)
      if !validRxLength packetLength then pollLoop capacity attempts (recoverRxOffset s)
      else if status % 2 ≠ 1 ∨ packetLength < 4 then pollLoop capacity attempts (updateRxOffset packetLength s)
      else if packetLength - 4 > capacity then pollLoop capacity attempts (updateRxOffset packetLength s)
      else
        (some ((List.range (packetLength - 4)).map fun i =>
            ring8 s.nic.rxBuffer ((s.rxOffset + 4 + i) % rxRingSize)), updateRxOffset packetLength s)

def pollReceive (capacity : Nat) (s : Rtl8139) : Option Bytes × Rtl8139 :=
  if !s.online ∨ capacity = 0 then (none, s) else pollLoop capacity 32 s

def storeBytes (buffer : Nat → UInt8) (offset : Nat) (bytes : Bytes) : Nat → UInt8 := fun i =>
  if offset ≤ i ∧ i < offset + bytes.length then bytes.getD (i - offset) 0 else buffer i

/-- The device receives a frame: with the WRAP bit set, the packet is stored in one piece, past the end of
the ring if need be. -/
def deposit (status : Nat) (frame crc : Bytes) (nic : Nic) : Nic :=
  let p : Packet := ⟨nic.writeOffset, status, frame, crc⟩
  { nic with rxBuffer := storeBytes nic.rxBuffer p.offset p.bytes, unread := nic.unread ++ [p],
             writeOffset := advanceRxOffset p.offset p.length }

end Receive

section Transmit

def txFailed (status : Nat) : Bool := status / 2 ^ 30 % 2 = 1 || status / 2 ^ 14 % 2 = 1

def txOk (status : Nat) : Bool := status / 2 ^ 15 % 2 = 1

inductive Wait where
  | completed | failed | timedOut
  deriving DecidableEq, Repr

/-- A read of the status register of a slot. During a call the device may set the register of a pending frame:
`settle` says before which read, and to what. -/
def readTxStatus (settle : Option (Nat × Nat)) (read status : Nat) : Nat :=
  match settle with
  | some (turn, value) => if turn = read ∧ !txFailed status ∧ !txOk status then value else status
  | none => status

/-- The loop that reads the status of a slot, with the value that the register is left with. -/
def waitLoop (settle : Option (Nat × Nat)) : Nat → Nat → Nat → Wait × Nat
  | 0, _, status => (.timedOut, status)
  | attempts + 1, read, status =>
    let status := readTxStatus settle read status
    if txFailed status then (.failed, status)
    else if txOk status then (.completed, status)
    else waitLoop settle attempts (read + 1) status

def Nic.setTxStatus (nic : Nic) (slot : Fin 4) (status : Nat) : Nic :=
  { nic with txStatus := Function.update nic.txStatus slot status }

/-- A write of a length to a status register hands the bytes at the slot's address to the device. -/
def Nic.writeTxStatus (nic : Nic) (slot : Fin 4) (length : Nat) (buffer : Bytes) : Nic :=
  { nic.setTxStatus slot length with
    submitted := nic.submitted ++ [⟨slot, nic.txAddress slot, buffer.take length, nic.txStatus slot⟩] }

def submit (frame : Bytes) (s : Rtl8139) : Rtl8139 :=
  let buffer := frame ++ (s.txBuffers s.txSlot).drop frame.length
  let nic := { s.nic with txAddress := Function.update s.nic.txAddress s.txSlot (s.txPhysical s.txSlot) }
  { s with
    txBuffers := Function.update s.txBuffers s.txSlot buffer
    nic := nic.writeTxStatus s.txSlot frame.length buffer
    txSlotUsed := Function.update s.txSlotUsed s.txSlot true
    txSlot := nextTxSlot s.txSlot }

/-- `transmit`; the frame of a call is its first `length` bytes, `none` for a null pointer. -/
def transmit (frame : Option Bytes) (settle : Option (Nat × Nat)) (s : Rtl8139) : Bool × Rtl8139 :=
  match frame with
  | none => (false, s)
  | some frame =>
    if !s.online ∨ frame.length = 0 ∨ frame.length > maxFrameSize then (false, s)
    else if s.txSlotUsed s.txSlot then
      match waitLoop settle 100000 0 (s.nic.txStatus s.txSlot) with
      | (.completed, status) => (true, submit frame { s with nic := s.nic.setTxStatus s.txSlot status })
      | (_, status) => (false, { s with nic := s.nic.setTxStatus s.txSlot status })
    else (true, submit frame s)

end Transmit

end Linux95.Drivers
