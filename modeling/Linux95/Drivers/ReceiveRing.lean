import Linux95.Base.Runs
import Linux95.Drivers.Rtl8139

/-! Runs of the receive ring. `initialize` sets the WRAP bit, so the device stores a packet in one piece past
the end of the ring, but `poll_receive` reads modulo the ring: frames that end inside the ring are
returned as they came, a frame that runs past the end is not. -/

namespace Linux95.Drivers

open Base

inductive RxStep where
  | deposit (status : Nat) (frame crc : Bytes)
  | poll

structure RxRun where
  card : Rtl8139
  deposited : List Bytes
  returned : List Bytes

def RxRun.start (card : Rtl8139) : RxRun := ⟨card, [], []⟩

def RxStep.exec : RxStep → RxRun → RxRun
  | .deposit status frame crc, r =>
    { r with card := { r.card with nic := Drivers.deposit status frame crc r.card.nic },
             deposited := r.deposited ++ [frame] }
  | .poll, r =>
    let result := pollReceive 1518 r.card
    { r with card := result.2, returned := r.returned ++ result.1.toList }

/-- What the device does: a good frame with its CRC, and no byte of it over a packet that is still unread. -/
def RxStep.Allowed (r : RxRun) : RxStep → Prop
  | .deposit status frame crc =>
    status % 2 = 1 ∧ status < 2 ^ 16 ∧ crc.length = 4 ∧ frame.length + 4 ≤ 1518 ∧
    ∀ p ∈ r.card.nic.unread, r.card.nic.writeOffset + (frame.length + 8) ≤ p.offset ∨
      p.offset + (p.frame.length + 8) ≤ r.card.nic.writeOffset
  | .poll => True

def RxStep.Inside (r : RxRun) : RxStep → Prop
  | .deposit _ frame _ => r.card.nic.writeOffset + 4 + frame.length ≤ rxRingSize
  | .poll => True

instance (r : RxRun) : DecidablePred (RxStep.Allowed r)
  | .deposit status frame crc => inferInstanceAs (Decidable (status % 2 = 1 ∧ status < 2 ^ 16 ∧ crc.length = 4 ∧
      frame.length + 4 ≤ 1518 ∧ ∀ p ∈ r.card.nic.unread, r.card.nic.writeOffset + (frame.length + 8) ≤ p.offset ∨
        p.offset + (p.frame.length + 8) ≤ r.card.nic.writeOffset))
  | .poll => isTrue trivial

instance (r : RxRun) : DecidablePred (RxStep.Inside r)
  | .deposit _ frame _ => inferInstanceAs (Decidable (r.card.nic.writeOffset + 4 + frame.length ≤ rxRingSize))
  | .poll => isTrue trivial

abbrev runRx : RxRun → List RxStep → RxRun := run RxStep.exec

def Linked (start : Nat) : List Packet → Nat → Prop
  | [], stop => start = stop
  | p :: ps, stop => p.offset = start ∧ Linked (advanceRxOffset start p.length) ps stop

structure Stored (buffer : Nat → UInt8) (p : Packet) : Prop where
  aligned : p.offset % 4 = 0
  ok : p.status % 2 = 1
  status_lt : p.status < 2 ^ 16
  crc_length : p.crc.length = 4
  length_le : p.frame.length + 4 ≤ 1518
  inside : p.offset + 4 + p.frame.length ≤ rxRingSize
  bytes : ∀ i < p.bytes.length, buffer (p.offset + i) = p.bytes.getD i 0

structure RingInv (s : Rtl8139) : Prop where
  online : s.online = true
  lt : s.nic.writeOffset < rxRingSize
  aligned : s.nic.writeOffset % 4 = 0
  linked : Linked s.rxOffset s.nic.unread s.nic.writeOffset
  stored : ∀ p ∈ s.nic.unread, Stored s.nic.rxBuffer p

section Packets
variable {p : Packet} {buffer : Nat → UInt8}

theorem advanceRxOffset_lt (offset n : Nat) : advanceRxOffset offset n < rxRingSize ∧ advanceRxOffset offset n % 4 = 0 := by
  unfold advanceRxOffset rxRingSize
  omega

theorem length_bytes (h : p.crc.length = 4) : p.bytes.length = p.frame.length + 8 := by
  simp only [Packet.bytes, le16, List.length_append, List.length_cons, List.length_nil, h]
  omega

theorem bytes_header : p.bytes.getD 0 0 = UInt8.ofNat p.status ∧ p.bytes.getD 1 0 = UInt8.ofNat (p.status / 2 ^ 8) ∧
    p.bytes.getD 2 0 = UInt8.ofNat p.length ∧ p.bytes.getD 3 0 = UInt8.ofNat (p.length / 2 ^ 8) := ⟨rfl, rfl, rfl, rfl⟩

theorem bytes_frame {i : Nat} (hi : i < p.frame.length) : p.bytes.getD (4 + i) 0 = p.frame[i] := by
  unfold Packet.bytes
  rw [← List.append_assoc, List.getD_eq_getElem?_getD,
    List.getElem?_append_right (by simp only [le16, List.length_append, List.length_cons, List.length_nil]; omega)]
  have hsub : 4 + i - (le16 p.status ++ le16 p.length).length = i := by
    simp only [le16, List.length_append, List.length_cons, List.length_nil]
    omega
  rw [hsub, List.getElem?_append_left hi, List.getElem?_eq_getElem hi, Option.getD_some]

theorem byte_pair {n : Nat} (h : n < 2 ^ 16) : (UInt8.ofNat n).toNat + (UInt8.ofNat (n / 2 ^ 8)).toNat * 2 ^ 8 = n := by
  rw [UInt8.toNat_ofNat', UInt8.toNat_ofNat']
  omega

theorem Stored.header (h : Stored buffer p) : ring16 buffer p.offset = p.status ∧
    ring16 buffer ((p.offset + 2) % rxRingSize) = p.length := by
  -- the header is read as it was stored: it never runs past the end of the ring
  have haligned := h.aligned
  have hinside := h.inside
  have hle := h.length_le
  have hlen := length_bytes h.crc_length
  obtain ⟨h0, h1, h2, h3⟩ := @bytes_header p
  have hb := h.bytes
  unfold rxRingSize at hinside
  unfold ring16 rxRingSize
  rw [Nat.mod_eq_of_lt (show p.offset + 2 < 8192 by omega), Nat.mod_eq_of_lt (show p.offset + 1 < 8192 by omega),
    Nat.mod_eq_of_lt (show p.offset + 2 + 1 < 8192 by omega)]
  have hlength : p.length < 2 ^ 16 := by
    unfold Packet.length
    omega
  constructor
  · have hb0 := hb 0 (by omega)
    rw [Nat.add_zero] at hb0
    rw [hb0, hb 1 (by omega), h0, h1, byte_pair h.status_lt]
  · rw [hb 2 (by omega), Nat.add_assoc, hb 3 (by omega), h2, h3, byte_pair hlength]

theorem Stored.frame (h : Stored buffer p) : ((List.range (p.length - 4)).map fun i =>
    ring8 buffer ((p.offset + 4 + i) % rxRingSize)) = p.frame := by
  have hinside := h.inside
  have hlen := length_bytes h.crc_length
  unfold rxRingSize at hinside
  refine List.ext_getElem (by simp [Packet.length]) fun i hi hi' => ?_
  rw [List.getElem_map, List.getElem_range, ring8, rxRingSize, Nat.mod_mod, Nat.mod_eq_of_lt (by omega), Nat.add_assoc,
    h.bytes (4 + i) (by omega), bytes_frame hi']

end Packets

section Steps
variable {s : Rtl8139}

theorem setRxOffset_nic {offset : Nat} (h : offset < rxRingSize) :
    (setRxOffset offset s).nic = { s.nic with unread := acknowledge offset s.nic.unread } := by
  unfold rxRingSize at h
  have hpointer : ((offset + (2 ^ 16 - 16)) % 2 ^ 16 + 16) % rxRingSize = offset := by
    unfold rxRingSize
    omega
  unfold setRxOffset writeCurrentAddress
  dsimp only
  rw [hpointer]

theorem acknowledge_linked {p : Packet} {ps : List Packet} {stop : Nat} (hle : p.frame.length + 4 ≤ 1518)
    (h : Linked p.offset (p :: ps) stop) : acknowledge (advanceRxOffset p.offset p.length) (p :: ps) = ps := by
  have hne : p.offset ≠ advanceRxOffset p.offset p.length := by
    unfold advanceRxOffset rxRingSize Packet.length
    omega
  unfold acknowledge
  rw [if_neg hne]
  cases ps with
  | nil => rfl
  | cons q qs =>
    unfold acknowledge
    rw [if_pos h.2.1]

theorem pollReceive_unread (h : RingInv s) {p : Packet} {ps : List Packet} (hunread : s.nic.unread = p :: ps) :
    pollReceive 1518 s = (some p.frame, { s with rxOffset := advanceRxOffset p.offset p.length,
                                                 nic := { s.nic with unread := ps } }) := by
  have hlinked := h.linked
  rw [hunread] at hlinked
  have hoffset : s.rxOffset = p.offset := hlinked.1.symm
  have hstored := h.stored p (by rw [hunread]; exact List.mem_cons_self)
  obtain ⟨hstatus, hlength⟩ := hstored.header
  have hle := hstored.length_le
  have hvalid : validRxLength p.length = true := by
    unfold validRxLength Packet.length
    simp only [Bool.and_eq_true, decide_eq_true_eq]
    omega
  have hupdate : updateRxOffset p.length s = { s with rxOffset := advanceRxOffset p.offset p.length,
                                                      nic := { s.nic with unread := ps } } := by
    have hnic := setRxOffset_nic (s := s) (advanceRxOffset_lt p.offset p.length).1
    rw [hunread, acknowledge_linked hle (by rw [← hoffset]; exact hlinked)] at hnic
    unfold updateRxOffset
    rw [hoffset]
    unfold setRxOffset at hnic ⊢
    dsimp only at hnic
    rw [hnic]
  unfold pollReceive
  rw [if_neg (by rw [h.online]; simp)]
  unfold pollLoop
  rw [if_neg (by rw [hunread]; exact List.cons_ne_nil p ps)]
  dsimp only
  have hlen : p.length = p.frame.length + 4 := rfl
  have hok := hstored.ok
  have hgood : ¬(p.status % 2 ≠ 1 ∨ p.length < 4) := by omega
  have hfits : ¬p.length - 4 > 1518 := by omega
  rw [hoffset, hstatus, hlength, hvalid, if_neg (by decide), if_neg hgood, if_neg hfits, hstored.frame, hupdate]

theorem pollReceive_empty (h : s.nic.unread = []) : pollReceive 1518 s = (none, s) := by
  unfold pollReceive pollLoop
  rw [if_pos h, ite_self]

theorem RingInv.poll (h : RingInv s) : RingInv (pollReceive 1518 s).2 := by
  cases hunread : s.nic.unread with
  | nil =>
    rw [pollReceive_empty hunread]
    exact h
  | cons p ps =>
    have hlinked := h.linked
    rw [hunread] at hlinked
    rw [pollReceive_unread h hunread]
    refine ⟨h.online, h.lt, h.aligned, ?_, fun q hq => h.stored q (by rw [hunread]; exact List.mem_cons_of_mem p hq)⟩
    rw [hlinked.1]
    exact hlinked.2

theorem Linked.snoc {start : Nat} {ps : List Packet} {p : Packet} (h : Linked start ps p.offset) :
    Linked start (ps ++ [p]) (advanceRxOffset p.offset p.length) := by
  induction ps generalizing start with
  | nil => exact ⟨h.symm, by rw [show start = p.offset from h]; rfl⟩
  | cons q ps ih => exact ⟨h.1, ih h.2⟩

theorem storeBytes_inside {buffer : Nat → UInt8} {offset i : Nat} {bytes : Bytes} (hi : i < bytes.length) :
    storeBytes buffer offset bytes (offset + i) = bytes.getD i 0 := by
  unfold storeBytes
  rw [if_pos ⟨Nat.le_add_right offset i, Nat.add_lt_add_left hi offset⟩, Nat.add_sub_cancel_left]

theorem storeBytes_outside {buffer : Nat → UInt8} {offset i : Nat} {bytes : Bytes}
    (h : i < offset ∨ offset + bytes.length ≤ i) : storeBytes buffer offset bytes i = buffer i := by
  unfold storeBytes
  rw [if_neg (by omega)]

theorem Stored.storeBytes {buffer : Nat → UInt8} {p : Packet} (h : Stored buffer p) {offset : Nat} {bytes : Bytes}
    (hfree : offset + bytes.length ≤ p.offset ∨ p.offset + (p.frame.length + 8) ≤ offset) :
    Stored (Drivers.storeBytes buffer offset bytes) p := by
  have hlen := length_bytes h.crc_length
  refine { h with bytes := fun i hi => ?_ }
  rw [storeBytes_outside (by omega)]
  exact h.bytes i hi

theorem RingInv.deposit (h : RingInv s) {status : Nat} {frame crc : Bytes} (hok : status % 2 = 1)
    (hstatus : status < 2 ^ 16) (hcrc : crc.length = 4) (hframe : frame.length + 4 ≤ 1518)
    (hinside : s.nic.writeOffset + 4 + frame.length ≤ rxRingSize)
    (hfree : ∀ p ∈ s.nic.unread, s.nic.writeOffset + (frame.length + 8) ≤ p.offset ∨
      p.offset + (p.frame.length + 8) ≤ s.nic.writeOffset) :
    RingInv { s with nic := Drivers.deposit status frame crc s.nic } := by
  let p : Packet := ⟨s.nic.writeOffset, status, frame, crc⟩
  have hlen : p.bytes.length = frame.length + 8 := length_bytes hcrc
  have hnext := advanceRxOffset_lt p.offset p.length
  refine ⟨h.online, hnext.1, hnext.2, Linked.snoc (p := p) h.linked, fun q hq => ?_⟩
  rcases List.mem_append.mp hq with hq | hq
  · exact (h.stored q hq).storeBytes (by rw [hlen]; exact hfree q hq)
  · rw [List.mem_singleton.mp hq]
    exact ⟨h.aligned, hok, hstatus, hcrc, hframe, hinside, fun i hi => storeBytes_inside hi⟩

end Steps

section Runs

/-- The frames that were deposited are those that were returned and those that wait. -/
structure RxRun.Faithful (r : RxRun) : Prop where
  ring : RingInv r.card
  frames : r.deposited = r.returned ++ r.card.nic.unread.map (·.frame)

variable {r : RxRun}

theorem initialized_faithful (txPhysical : Fin 4 → Nat) (txBuffers : Fin 4 → Bytes) (nic : Nic) :
    (RxRun.start (initialized txPhysical txBuffers nic)).Faithful :=
  ⟨⟨rfl, show 0 < rxRingSize by decide, rfl, rfl, fun _ hp => absurd hp List.not_mem_nil⟩, rfl⟩

theorem RingInv.answer {s : Rtl8139} (h : RingInv s) :
    (pollReceive 1518 s).1 = (s.nic.unread.map (·.frame)).head? ∧ (pollReceive 1518 s).2.nic.unread = s.nic.unread.tail := by
  cases hunread : s.nic.unread with
  | nil => simp [pollReceive_empty hunread, hunread]
  | cons p ps => simp [pollReceive_unread h hunread]

theorem RxRun.Faithful.poll (h : r.Faithful) : (RxStep.poll.exec r).Faithful := by
  obtain ⟨hanswer, hrest⟩ := h.ring.answer
  refine ⟨h.ring.poll, ?_⟩
  change r.deposited = (r.returned ++ (pollReceive 1518 r.card).1.toList) ++ (pollReceive 1518 r.card).2.nic.unread.map _
  rw [hanswer, hrest, h.frames]
  cases r.card.nic.unread with
  | nil => simp
  | cons p ps => simp

theorem RxRun.Faithful.exec (h : r.Faithful) {step : RxStep} (hallowed : step.Allowed r) (hinside : step.Inside r) :
    (step.exec r).Faithful := by
  cases step with
  | poll => exact h.poll
  | deposit status frame crc =>
    obtain ⟨hok, hstatus, hcrc, hframe, hfree⟩ := hallowed
    refine ⟨h.ring.deposit hok hstatus hcrc hframe hinside hfree, ?_⟩
    change r.deposited ++ [frame] = r.returned ++ (r.card.nic.unread ++ [_]).map _
    rw [h.frames, List.map_append, List.append_assoc]
    rfl

theorem RxRun.Faithful.run (h : r.Faithful) {steps : List RxStep} (hallowed : Throughout RxStep.exec RxStep.Allowed r steps)
    (hinside : Throughout RxStep.exec RxStep.Inside r steps) : (runRx r steps).Faithful :=
  run_invariant (fun _ _ h hcond => h.exec hcond.1 hcond.2) h (hallowed.and hinside)

theorem RxRun.Faithful.drain (h : r.Faithful) :
    (runRx r (List.replicate r.card.nic.unread.length .poll)).returned = r.deposited := by
  generalize hn : r.card.nic.unread.length = n
  induction n generalizing r with
  | zero =>
    rw [h.frames, List.length_eq_zero_iff.mp hn]
    exact (List.append_nil r.returned).symm
  | succ n ih =>
    have hrest : (RxStep.poll.exec r).card.nic.unread.length = n := by
      change (pollReceive 1518 r.card).2.nic.unread.length = n
      rw [h.ring.answer.2, List.length_tail, hn, Nat.add_sub_cancel]
    exact ih h.poll hrest

/-- When every frame ends inside the ring, `poll_receive` returns the deposited frames, each once, in order and
byte for byte: at every moment those returned are the first ones, the next poll returns the next one, and
polls alone return the rest. -/
theorem receive_ring_inside (txPhysical : Fin 4 → Nat) (txBuffers : Fin 4 → Bytes) (nic : Nic) (steps : List RxStep)
    (hallowed : Throughout RxStep.exec RxStep.Allowed (RxRun.start (initialized txPhysical txBuffers nic)) steps)
    (hinside : Throughout RxStep.exec RxStep.Inside (RxRun.start (initialized txPhysical txBuffers nic)) steps) :
    let r := runRx (RxRun.start (initialized txPhysical txBuffers nic)) steps
    r.deposited = r.returned ++ r.card.nic.unread.map (·.frame) ∧
    (pollReceive 1518 r.card).1 = (r.card.nic.unread.map (·.frame)).head? ∧
    (runRx r (List.replicate r.card.nic.unread.length .poll)).returned = r.deposited := by
  intro r
  have h : r.Faithful := (initialized_faithful txPhysical txBuffers nic).run hallowed hinside
  exact ⟨h.frames, h.ring.answer.1, h.drain⟩

def blankNic : Nic := ⟨fun _ => 0, 0, [], fun _ => 0, fun _ => 0, []⟩

def blankCard : Rtl8139 := initialized (fun _ => 0) (fun _ => []) blankNic

theorem receive_ring_inside_small :
    let r := runRx (RxRun.start blankCard) [.deposit 1 [7, 8] [0, 0, 0, 0], .deposit 1 [9] [0, 0, 0, 0], .poll]
    r.deposited = r.returned ++ r.card.nic.unread.map (·.frame) ∧
    (pollReceive 1518 r.card).1 = (r.card.nic.unread.map (·.frame)).head? ∧
    (runRx r (List.replicate r.card.nic.unread.length .poll)).returned = r.deposited := by
  exact receive_ring_inside _ _ _ _ (by decide +kernel) (by decide +kernel)

end Runs

section Straddling

/-- Five frames of 1514 zeroes are received and returned; the sixth starts at 7620 and runs past the end. -/
def straddlingSteps : List RxStep :=
  (List.replicate 6 [RxStep.deposit 1 (List.replicate 1514 0) [0, 0, 0, 0], RxStep.poll]).flatten

/-- The device does what it may, but the byte at 568 of the last frame is the first byte of the ring, the status of
the first packet. -/
theorem receive_ring_straddling : Throughout RxStep.exec RxStep.Allowed (RxRun.start blankCard) straddlingSteps ∧
    (runRx (RxRun.start blankCard) straddlingSteps).card.nic.unread = [] ∧
    (runRx (RxRun.start blankCard) straddlingSteps).returned ≠ (runRx (RxRun.start blankCard) straddlingSteps).deposited := by
  have hreturned : ((runRx (RxRun.start blankCard) straddlingSteps).returned[5]?.bind (·[568]?)) = some 1 := by decide +kernel
  have hdeposited : ((runRx (RxRun.start blankCard) straddlingSteps).deposited[5]?.bind (·[568]?)) = some 0 := by
    decide +kernel
  refine ⟨by decide +kernel, by decide +kernel, fun heq => ?_⟩
  rw [heq, hdeposited] at hreturned
  exact absurd hreturned (by decide)

end Straddling

end Linux95.Drivers
