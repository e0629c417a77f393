import Linux95.Input.MouseQueue

/-! `arch/mouse_helpers.hpp`: the bytes of the mouse are cut into packets of three, and the packets without
overflow become events. A byte 0xFA where a packet could start is taken for a late acknowledgement. -/

namespace Linux95.Input

structure PacketDecoder where
  flags : UInt8
  rawX : UInt8
  rawY : UInt8
  index : Nat
  deriving DecidableEq

namespace PacketDecoder

def reset (_ : PacketDecoder) : PacketDecoder := ⟨0, 0, 0, 0⟩

def decodeAxis (raw : UInt8) (negative : Bool) : Int :=
  if negative then (raw.toBitVec.setWidth 16 ||| 0xFF00#16).toInt else (raw.toBitVec.setWidth 16).toInt

def feed (d : PacketDecoder) (byte : UInt8) : Option MouseEvent × PacketDecoder :=
  if d.index = 0 then
    if byte = 0xFA then (none, d)
    else if byte &&& 0x08 = 0 then (none, d)
    else (none, { d with flags := byte, index := 1 })
  else if d.index = 1 then (none, { d with rawX := byte, index := 2 })
  else
    let d := { d with rawY := byte, index := 0 }
    if d.flags &&& 0xC0 ≠ 0 then (none, d)
    else
      (some { dx := decodeAxis d.rawX (d.flags &&& 0x10 ≠ 0), dy := decodeAxis d.rawY (d.flags &&& 0x20 ≠ 0),
              left := d.flags &&& 0x01 ≠ 0, right := d.flags &&& 0x02 ≠ 0, middle := d.flags &&& 0x04 ≠ 0 }, d)

def feedAll : PacketDecoder → List UInt8 → List MouseEvent × PacketDecoder
  | d, [] => ([], d)
  | d, byte :: bytes =>
    let (event, d) := d.feed byte
    let (events, d) := d.feedAll bytes
    (event.toList ++ events, d)

end PacketDecoder

structure MousePacket where
  header : UInt8
  x : UInt8
  y : UInt8
  sync : header &&& 0x08 ≠ 0

namespace MousePacket

def bytes (p : MousePacket) : List UInt8 := [p.header, p.x, p.y]

def overflows (p : MousePacket) : Bool := p.header &&& 0xC0 ≠ 0

def nineBits (sign : Bool) (low : UInt8) : Int := (BitVec.ofBool sign ++ low.toBitVec).toInt

def event (p : MousePacket) : MouseEvent where
  dx := nineBits (p.header.toBitVec.getLsbD 4) p.x
  dy := nineBits (p.header.toBitVec.getLsbD 5) p.y
  left := p.header.toBitVec.getLsbD 0
  right := p.header.toBitVec.getLsbD 1
  middle := p.header.toBitVec.getLsbD 2

end MousePacket

namespace PacketDecoder

theorem feedAll_append (d : PacketDecoder) (bytes rest : List UInt8) :
    d.feedAll (bytes ++ rest) =
      ((d.feedAll bytes).1 ++ ((d.feedAll bytes).2.feedAll rest).1, ((d.feedAll bytes).2.feedAll rest).2) := by
  induction bytes generalizing d with
  | nil => rfl
  | cons byte bytes ih => simp only [List.cons_append, feedAll, ih, List.append_assoc]

theorem nineBits_eq (sign : Bool) (low : UInt8) :
    MousePacket.nineBits sign low = low.toNat - if sign then 256 else 0 := by
  have hlow := low.toNat_lt
  have hnat : (BitVec.ofBool sign ++ low.toBitVec).toNat = sign.toNat * 2 ^ 8 + low.toNat := by
    rw [BitVec.toNat_append, ← Nat.shiftLeft_add_eq_or_of_lt low.toBitVec.isLt, Nat.shiftLeft_eq, BitVec.toNat_ofBool]
    rfl
  unfold MousePacket.nineBits
  rw [BitVec.toInt_eq_toNat_cond, hnat]
  cases sign <;> simp <;> omega

theorem decodeAxis_eq (raw : UInt8) (negative : Bool) : decodeAxis raw negative = MousePacket.nineBits negative raw := by
  have hraw := raw.toNat_lt
  have hwide : (raw.toBitVec.setWidth 16).toNat = raw.toNat := by
    rw [BitVec.toNat_setWidth, UInt8.toNat_toBitVec]
    omega
  rw [nineBits_eq]
  unfold decodeAxis
  cases negative with
  | false =>
    rw [if_neg Bool.false_ne_true, if_neg Bool.false_ne_true, BitVec.toInt_eq_toNat_cond, hwide]
    omega
  | true =>
    have hnat : (raw.toBitVec.setWidth 16 ||| 0xFF00#16).toNat = 0xFF00 + raw.toNat := by
      rw [BitVec.or_comm, BitVec.toNat_or, hwide]
      exact (Nat.shiftLeft_add_eq_or_of_lt hraw 0xFF).symm
    rw [if_pos rfl, if_pos rfl, BitVec.toInt_eq_toNat_cond, hnat]
    omega

theorem flag_eq (byte : UInt8) (k : Fin 8) : decide (byte &&& UInt8.ofNat (2 ^ k.val) ≠ 0) = byte.toBitVec.getLsbD k := by
  have hbits : ∀ (b : BitVec 8) (k : Fin 8), decide (b &&& BitVec.ofNat 8 (2 ^ k.val) ≠ 0) = b.getLsbD k := by decide
  rw [← hbits byte.toBitVec k]
  congr 1
  rw [ne_eq, ne_eq, ← UInt8.toBitVec_inj]
  rfl

theorem feed_acknowledgement {d : PacketDecoder} (h : d.index = 0) : d.feed 0xFA = (none, d) := by
  unfold feed
  rw [if_pos h, if_pos rfl]

theorem feedAll_packet {d : PacketDecoder} (h : d.index = 0) (p : MousePacket) (hp : p.header ≠ 0xFA) :
    d.feedAll p.bytes = (if p.overflows then [] else [p.event], ⟨p.header, p.x, p.y, 0⟩) := by
  have hfirst : d.feed p.header = (none, ⟨p.header, d.rawX, d.rawY, 1⟩) := by
    unfold feed
    rw [if_pos h, if_neg hp, if_neg p.sync]
  have hevent : p.event = {
      dx := decodeAxis p.x (p.header &&& 0x10 ≠ 0), dy := decodeAxis p.y (p.header &&& 0x20 ≠ 0),
      left := p.header &&& 0x01 ≠ 0, right := p.header &&& 0x02 ≠ 0, middle := p.header &&& 0x04 ≠ 0 } := by
    unfold MousePacket.event
    rw [decodeAxis_eq, decodeAxis_eq]
    congr 1
    · exact congrArg (MousePacket.nineBits · p.x) (flag_eq p.header 4).symm
    · exact congrArg (MousePacket.nineBits · p.y) (flag_eq p.header 5).symm
    · exact (flag_eq p.header 0).symm
    · exact (flag_eq p.header 1).symm
    · exact (flag_eq p.header 2).symm
  have hlast : feed ⟨p.header, p.x, d.rawY, 2⟩ p.y =
      (if p.overflows then none else some p.event, ⟨p.header, p.x, p.y, 0⟩) := by
    rw [hevent]
    unfold feed MousePacket.overflows
    by_cases hover : p.header &&& 0xC0 = 0
    · simp [hover]
    · simp [hover]
  have hsecond : feed ⟨p.header, d.rawX, d.rawY, 1⟩ p.x = (none, ⟨p.header, p.x, d.rawY, 2⟩) := rfl
  simp only [MousePacket.bytes, feedAll, hfirst, hsecond, hlast]
  cases p.overflows <;> rfl

end PacketDecoder

def packetStream (ps : List MousePacket) : List UInt8 := ps.flatMap MousePacket.bytes

namespace PacketDecoder

theorem feedAll_packets {d : PacketDecoder} (h : d.index = 0) (ps : List MousePacket)
    (hps : ∀ p ∈ ps, p.header ≠ 0xFA) :
    (d.feedAll (packetStream ps)).1 = (ps.filter fun p => !p.overflows).map MousePacket.event ∧
      (d.feedAll (packetStream ps)).2.index = 0 := by
  induction ps generalizing d with
  | nil => exact ⟨rfl, h⟩
  | cons p ps ih =>
    have hstream : packetStream (p :: ps) = p.bytes ++ packetStream ps := rfl
    have hpacket := feedAll_packet h p (hps p List.mem_cons_self)
    obtain ⟨hevents, hindex⟩ := @ih ⟨p.header, p.x, p.y, 0⟩ rfl fun q hq => hps q (List.mem_cons_of_mem p hq)
    rw [hstream, feedAll_append, hpacket]
    refine ⟨?_, hindex⟩
    dsimp only
    rw [hevents, List.filter_cons]
    cases p.overflows <;> rfl

end PacketDecoder

/-- A reset decoder turns packets into their events, and drops every acknowledgement between two of them, whatever
follows. -/
theorem mouse_packets_framed (d : PacketDecoder) (ps : List MousePacket) (hps : ∀ p ∈ ps, p.header ≠ 0xFA) :
    (d.reset.feedAll (packetStream ps)).1 = (ps.filter fun p => !p.overflows).map MousePacket.event ∧
    ∀ rest, d.reset.feedAll (packetStream ps ++ 0xFA :: rest) = d.reset.feedAll (packetStream ps ++ rest) := by
  obtain ⟨hevents, hindex⟩ := @PacketDecoder.feedAll_packets d.reset rfl ps hps
  refine ⟨hevents, fun rest => ?_⟩
  rw [PacketDecoder.feedAll_append, PacketDecoder.feedAll_append, PacketDecoder.feedAll,
    PacketDecoder.feed_acknowledgement hindex]
  rfl

def threePackets : List MousePacket :=
  [⟨0x48, 0x7F, 0, by decide⟩, ⟨0x18, 0xFB, 2, by decide⟩, ⟨0x09, 0, 0, by decide⟩]

theorem mouse_packets_framed_three : (∀ p ∈ threePackets, p.header ≠ 0xFA) ∧
    (PacketDecoder.feedAll (PacketDecoder.reset ⟨0, 0, 0, 0⟩) (packetStream threePackets)).1 =
      [⟨-5, 2, false, false, false⟩, ⟨0, 0, true, false, false⟩] :=
  ⟨by decide, (mouse_packets_framed ⟨0, 0, 0, 0⟩ threePackets (by decide)).1.trans (by decide)⟩

/-- The header 0xFA, with both overflow bits, is dropped alone: the rest of its packet and the next header make an
event, and the frame is lost. -/
theorem mouse_packets_shifted : ¬∀ (d : PacketDecoder) (ps : List MousePacket),
    (d.reset.feedAll (packetStream ps)).1 = (ps.filter fun p => !p.overflows).map MousePacket.event := by
  intro h
  have hshifted := h ⟨0, 0, 0, 0⟩ [⟨0xFA, 0x08, 1, by decide⟩, ⟨0x08, 0, 0, by decide⟩]
  revert hshifted
  decide

end Linux95.Input
