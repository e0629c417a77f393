import Linux95.Net.RoundTrip

/-! `net/udp_bindings.cpp`, and a datagram from its sender to the callback of its port. The kernel's
callbacks and contexts are only passed on, so their types `κ` and `γ` are arbitrary. -/

namespace Linux95.Net

namespace Bindings

variable {κ γ : Type}

structure Entry (κ γ : Type) where
  inUse : Bool
  port : Nat
  callback : Option κ
  context : Option γ

def Entry.unused : Entry κ γ := ⟨false, 0, none, none⟩

abbrev Table (κ γ : Type) := Fin 8 → Entry κ γ

structure Call (κ γ : Type) where
  callback : Option κ
  source : Ipv4Address
  sourcePort : Nat
  destinationPort : Nat
  payload : List UInt8
  context : Option γ

def Table.empty : Table κ γ := fun _ => .unused

def Table.firstSlot (t : Table κ γ) (p : Entry κ γ → Bool) : Option (Fin 8) :=
  (List.finRange 8).find? fun i => p (t i)

def Entry.boundTo (e : Entry κ γ) (port : Nat) : Bool := e.inUse && e.port == port

def Table.bind (t : Table κ γ) (port : Nat) (callback : Option κ) (context : Option γ) :
    Bool × Table κ γ :=
  if port = 0 ∨ callback.isNone then (false, t)
  else
    match t.firstSlot fun e => e.boundTo port with
    | some _ => (false, t)
    | none =>
      match t.firstSlot fun e => !e.inUse with
      | some i => (true, Function.update t i ⟨true, port, callback, context⟩)
      | none => (false, t)

def Table.unbind (t : Table κ γ) (port : Nat) : Bool × Table κ γ :=
  match t.firstSlot fun e => e.boundTo port with
  | some i => (true, Function.update t i .unused)
  | none => (false, t)

def Table.dispatch (t : Table κ γ) (source : Ipv4Address) (sourcePort destinationPort : Nat)
    (payload : List UInt8) : List (Call κ γ) :=
  match t.firstSlot fun e => e.boundTo destinationPort with
  | some i => [⟨(t i).callback, source, sourcePort, destinationPort, payload, (t i).context⟩]
  | none => []

/-- The tables that calls of `bind` and `unbind` reach, each with what those calls promise: a port
belongs to the callback of the last successful `bind` unless it was unbound since. -/
inductive Reached : Table κ γ → (Nat → Option (κ × Option γ)) → Prop
  | start : Reached .empty fun _ => none
  | bind {t bound port callback context} : Reached t bound →
      (t.bind port (some callback) context).1 = true →
      Reached (t.bind port (some callback) context).2
        (Function.update bound port (some (callback, context)))
  | bindRefused {t bound port callback context} : Reached t bound →
      (t.bind port callback context).1 = false → Reached (t.bind port callback context).2 bound
  | unbind {t bound port} : Reached t bound → (t.unbind port).1 = true →
      Reached (t.unbind port).2 (Function.update bound port none)
  | unbindRefused {t bound port} : Reached t bound → (t.unbind port).1 = false →
      Reached (t.unbind port).2 bound

structure Agrees (t : Table κ γ) (bound : Nat → Option (κ × Option γ)) : Prop where
  slot : ∀ port callback context, bound port = some (callback, context) →
    ∃ i, t i = ⟨true, port, some callback, context⟩
  used : ∀ i, (t i).inUse = true →
    ∃ callback, (t i).callback = some callback ∧ bound (t i).port = some (callback, (t i).context)
  distinct : ∀ i j, (t i).inUse = true → (t j).inUse = true → (t i).port = (t j).port → i = j

section Slots
variable {t : Table κ γ} {bound : Nat → Option (κ × Option γ)}

theorem firstSlot_some {p : Entry κ γ → Bool} {i : Fin 8} (h : t.firstSlot p = some i) :
    p (t i) = true := by
  have hi := List.find?_some h
  simpa using hi

theorem firstSlot_none {p : Entry κ γ → Bool} (h : t.firstSlot p = none) (i : Fin 8) :
    p (t i) = false := by
  have hi := List.find?_eq_none.mp h i (List.mem_finRange i)
  simpa using hi

theorem boundTo_iff {e : Entry κ γ} {port : Nat} :
    e.boundTo port = true ↔ e.inUse = true ∧ e.port = port := by
  simp [Entry.boundTo]

theorem Agrees.bound_none (h : Agrees t bound) {port : Nat}
    (hnone : (t.firstSlot fun e => e.boundTo port) = none) : bound port = none := by
  cases hb : bound port with
  | none => rfl
  | some b =>
    obtain ⟨i, hi⟩ := h.slot port b.1 b.2 hb
    have hfalse := firstSlot_none hnone i
    rw [hi] at hfalse
    simp [Entry.boundTo] at hfalse

theorem Agrees.store (h : Agrees t bound) {port : Nat} {i : Fin 8} (hfree : (t i).inUse = false)
    (hnew : bound port = none) (callback : κ) (context : Option γ) :
    Agrees (Function.update t i ⟨true, port, some callback, context⟩)
      (Function.update bound port (some (callback, context))) := by
  have hother : ∀ j, (t j).inUse = true → j ≠ i := by
    intro j hj hji
    rw [hji, hfree] at hj
    cases hj
  have hport : ∀ j, (t j).inUse = true → (t j).port ≠ port := by
    intro j hj hjp
    obtain ⟨_, -, hb⟩ := h.used j hj
    rw [hjp, hnew] at hb
    cases hb
  refine ⟨?_, ?_, ?_⟩
  · intro port' callback' context' hb
    by_cases hp : port' = port
    · subst hp
      rw [Function.update_self] at hb
      obtain ⟨rfl, rfl⟩ := Prod.mk.inj (Option.some.inj hb)
      exact ⟨i, Function.update_self ..⟩
    · rw [Function.update_of_ne hp] at hb
      obtain ⟨j, hj⟩ := h.slot _ _ _ hb
      have hne : j ≠ i := hother j (by rw [hj])
      exact ⟨j, by rw [Function.update_of_ne hne, hj]⟩
  · intro j hj
    by_cases hji : j = i
    · subst hji
      exact ⟨callback, by simp⟩
    · rw [Function.update_of_ne hji] at hj ⊢
      obtain ⟨callback', hc, hb⟩ := h.used j hj
      exact ⟨callback', hc, by rw [Function.update_of_ne (hport j hj), hb]⟩
  · intro j k hj hk hjk
    by_cases hji : j = i
    · by_cases hki : k = i
      · rw [hji, hki]
      · subst hji
        rw [Function.update_of_ne hki] at hk hjk
        rw [Function.update_self] at hjk
        exact absurd hjk.symm (hport k hk)
    · by_cases hki : k = i
      · subst hki
        rw [Function.update_of_ne hji] at hj hjk
        rw [Function.update_self] at hjk
        exact absurd hjk (hport j hj)
      · rw [Function.update_of_ne hji] at hj hjk
        rw [Function.update_of_ne hki] at hk hjk
        exact h.distinct j k hj hk hjk

theorem Agrees.clear (h : Agrees t bound) {i : Fin 8} (hused : (t i).inUse = true) :
    Agrees (Function.update t i .unused) (Function.update bound (t i).port none) := by
  have hleft : ∀ j, (Function.update t i Entry.unused j).inUse = true →
      Function.update t i Entry.unused j = t j ∧ (t j).inUse = true ∧ j ≠ i := by
    intro j hj
    by_cases hji : j = i
    · subst hji
      rw [Function.update_self] at hj
      cases hj
    · rw [Function.update_of_ne hji] at hj ⊢
      exact ⟨rfl, hj, hji⟩
  refine ⟨?_, ?_, ?_⟩
  · intro port callback context hb
    have hp : port ≠ (t i).port := by
      intro hp
      rw [hp, Function.update_self] at hb
      cases hb
    rw [Function.update_of_ne hp] at hb
    obtain ⟨j, hj⟩ := h.slot _ _ _ hb
    have hji : j ≠ i := by
      intro hji
      rw [← hji, hj] at hp
      exact hp rfl
    exact ⟨j, by rw [Function.update_of_ne hji, hj]⟩
  · intro j hj
    obtain ⟨heq, hj, hji⟩ := hleft j hj
    have hp : (t j).port ≠ (t i).port := fun hp => hji (h.distinct j i hj hused hp)
    rw [heq]
    obtain ⟨callback, hc, hb⟩ := h.used j hj
    exact ⟨callback, hc, by rw [Function.update_of_ne hp, hb]⟩
  · intro j k hj hk hjk
    obtain ⟨hjeq, hj, -⟩ := hleft j hj
    obtain ⟨hkeq, hk, -⟩ := hleft k hk
    rw [hjeq, hkeq] at hjk
    exact h.distinct j k hj hk hjk

theorem Agrees.bindStep (h : Agrees t bound) (port : Nat) (callback : Option κ)
    (context : Option γ) :
    ((t.bind port callback context).1 = false → Agrees (t.bind port callback context).2 bound) ∧
      ∀ c, callback = some c → (t.bind port callback context).1 = true →
        Agrees (t.bind port callback context).2 (Function.update bound port (some (c, context))) := by
  unfold Table.bind
  split_ifs with hrefused
  · exact ⟨fun _ => h, fun _ _ hb => (nomatch hb)⟩
  · cases htaken : t.firstSlot fun e => e.boundTo port with
    | some i => exact ⟨fun _ => h, fun _ _ hb => (nomatch hb)⟩
    | none =>
      cases hfree : t.firstSlot fun e => !e.inUse with
      | none => exact ⟨fun _ => h, fun _ _ hb => (nomatch hb)⟩
      | some i =>
        refine ⟨fun hb => (nomatch hb), ?_⟩
        rintro c rfl -
        have hi := firstSlot_some hfree
        exact h.store (by simpa using hi) (h.bound_none htaken) c context

theorem Agrees.unbindStep (h : Agrees t bound) (port : Nat) :
    ((t.unbind port).1 = false → Agrees (t.unbind port).2 bound) ∧
      ((t.unbind port).1 = true → Agrees (t.unbind port).2 (Function.update bound port none)) := by
  unfold Table.unbind
  cases htaken : t.firstSlot fun e => e.boundTo port with
  | none => exact ⟨fun _ => h, fun hb => (nomatch hb)⟩
  | some i =>
    obtain ⟨hused, hport⟩ := boundTo_iff.mp (firstSlot_some htaken)
    refine ⟨fun hb => (nomatch hb), fun _ => ?_⟩
    rw [← hport]
    exact h.clear hused

theorem Reached.agrees (h : Reached t bound) : Agrees t bound := by
  induction h with
  | start =>
    exact ⟨fun _ _ _ hb => (nomatch hb), fun _ hi => (nomatch hi), fun _ _ hi => (nomatch hi)⟩
  | bind _ hok ih => exact (ih.bindStep _ _ _).2 _ rfl hok
  | bindRefused _ hno ih => exact (ih.bindStep _ _ _).1 hno
  | unbind _ hok ih => exact (ih.unbindStep _).2 hok
  | unbindRefused _ hno ih => exact (ih.unbindStep _).1 hno

theorem Agrees.dispatch (h : Agrees t bound) (source : Ipv4Address) (sourcePort port : Nat)
    (payload : List UInt8) :
    t.dispatch source sourcePort port payload =
      ((bound port).map fun b => ⟨some b.1, source, sourcePort, port, payload, b.2⟩).toList := by
  unfold Table.dispatch
  cases hslot : t.firstSlot fun e => e.boundTo port with
  | none =>
    rw [h.bound_none hslot]
    rfl
  | some i =>
    obtain ⟨hused, hport⟩ := boundTo_iff.mp (firstSlot_some hslot)
    obtain ⟨callback, hcallback, hbound⟩ := h.used i hused
    rw [hport] at hbound
    dsimp only
    rw [hbound, hcallback]
    rfl

end Slots

end Bindings

open Bindings

variable {κ γ : Type}

structure Receiver (κ γ : Type) where
  network : Network
  bindings : Table κ γ
  calls : List (Bindings.Call κ γ)

def Receiver.dispatchFrame (frame : List UInt8) (r : Receiver κ γ) : Receiver κ γ :=
  let network := Net.dispatchFrame frame r.network
  let accepted := network.dispatched.drop r.network.dispatched.length
  { r with
    network := network
    calls := r.calls ++ accepted.flatMap fun (source, datagram) =>
      r.bindings.dispatch source datagram.sourcePort datagram.destinationPort datagram.payload }

theorem dispatchFrame_udp {s : Network} {frame : List UInt8} {view : EthernetView}
    {packet : Ipv4.PacketView} {datagram : Udp.DatagramView}
    (hframe : parseEthernet frame = some view) (htype : view.type = .ipv4)
    (hmac : view.destination = s.status.mac ∨ view.destination = fun _ => 0xFF)
    (hpacket : Ipv4.parse view.payload = some packet) (hip : packet.destination = s.status.ip)
    (hprotocol : packet.protocol = 17)
    (hdatagram : Udp.parse packet.payload packet.source packet.destination = some datagram) :
    Net.dispatchFrame frame s =
      { s with dispatched := s.dispatched ++ [(packet.source, datagram)] } := by
  have hmine : ¬ (view.destination ≠ s.status.mac ∧ view.destination ≠ fun _ => 0xFF) := by
    rintro ⟨h₁, h₂⟩
    exact hmac.elim h₁ h₂
  unfold Net.dispatchFrame
  rw [hframe]
  dsimp only
  rw [if_neg hmine, htype]
  dsimp only
  unfold handleIpv4
  rw [hpacket]
  dsimp only
  rw [if_neg (by simpa using hip), if_neg (by rw [hprotocol]; decide), if_pos hprotocol, hdatagram]

/-- A datagram of any payload the builders accept, sent in a frame with any bytes appended, is read
back layer by layer; where it is addressed to this host, the callback of its port is called once
with it, and no other callback is called. -/
theorem udp_frame_round_trip (destinationMac sourceMac : MacAddress)
    (source destination : Ipv4Address) (sourcePort destinationPort identification : UInt16)
    (payload padding : List UInt8) (udpCapacity ipCapacity frameCapacity : Nat)
    (hpayload : payload.length ≤ Udp.maxPayloadLength) (hudp : 8 + payload.length ≤ udpCapacity)
    (hip : 28 + payload.length ≤ ipCapacity) (hframe : 42 + payload.length ≤ frameCapacity) :
    ∃ datagram packet frame,
      Udp.build udpCapacity source destination sourcePort.toNat destinationPort.toNat payload =
        some datagram ∧
      Ipv4.build ipCapacity source destination 17 identification.toNat datagram = some packet ∧
      buildEthernet frameCapacity destinationMac sourceMac .ipv4 packet = some frame ∧
      parseEthernet (frame ++ padding) =
        some ⟨destinationMac, sourceMac, .ipv4, packet ++ padding⟩ ∧
      Ipv4.parse (packet ++ padding) = some ⟨source, destination, 17, datagram⟩ ∧
      Udp.parse datagram source destination =
        some ⟨sourcePort.toNat, destinationPort.toNat, payload⟩ ∧
      ∀ (r : Receiver κ γ) (bound : Nat → Option (κ × Option γ)), Reached r.bindings bound →
        (destinationMac = r.network.status.mac ∨ destinationMac = fun _ => 0xFF) →
        destination = r.network.status.ip →
        (r.dispatchFrame (frame ++ padding)).calls = r.calls ++
          ((bound destinationPort.toNat).map fun b =>
            ⟨some b.1, source, sourcePort.toNat, destinationPort.toNat, payload, b.2⟩).toList := by
  have hmax : payload.length ≤ 1472 := hpayload
  obtain ⟨datagram, hbuilt, hlength⟩ : ∃ datagram, Udp.build udpCapacity source destination
      sourcePort.toNat destinationPort.toNat payload = some datagram ∧
        datagram.length = 8 + payload.length := by
    unfold Udp.build
    rw [if_neg (by omega)]
    exact ⟨_, rfl, datagram_length _⟩
  obtain ⟨packet, hpacket, hlength'⟩ : ∃ packet, Ipv4.build ipCapacity source destination 17
      identification.toNat datagram = some packet ∧ packet.length = 28 + payload.length := by
    unfold Ipv4.build
    dsimp only
    rw [if_neg (by omega)]
    refine ⟨_, rfl, ?_⟩
    rw [List.length_append, ipv4Header_length]
    omega
  obtain ⟨frame, hsent⟩ : ∃ frame,
      buildEthernet frameCapacity destinationMac sourceMac .ipv4 packet = some frame := by
    unfold buildEthernet
    rw [if_neg (by omega)]
    exact ⟨_, rfl⟩
  have heth := parseEthernet_build hsent padding
  have hip' := ipv4Parse_build hpacket padding
  have hudp' := udpParse_build hbuilt sourcePort.toNat_lt destinationPort.toNat_lt
  refine ⟨datagram, packet, frame, hbuilt, hpacket, hsent, heth, hip', hudp', ?_⟩
  intro r bound hreached hmac hdestination
  unfold Receiver.dispatchFrame
  rw [dispatchFrame_udp heth rfl hmac hip' hdestination rfl hudp']
  dsimp only
  rw [List.drop_left, List.flatMap_singleton, hreached.agrees.dispatch]

/-- Ports 7 and 9 are bound, and a broadcast frame carries a datagram for port 9. -/
theorem udp_frame_round_trip_port_nine :
    ∃ frame : List UInt8, (Receiver.dispatchFrame (frame ++ [0xAA, 0xBB])
        ⟨Network.initial (fun _ => 2) 0 (fun _ => 0) fun _ => true,
          ((Table.empty.bind 7 (some "first") none).2.bind 9 (some "second") (some 3)).2, []⟩).calls =
      [⟨some "second", ![10, 0, 2, 2], 40001, 9, [1, 2, 3], some 3⟩] := by
  obtain ⟨_, _, frame, -, -, -, -, -, -, hcalls⟩ :=
    udp_frame_round_trip (κ := String) (γ := Nat) (fun _ => 0xFF) ![0x52, 0x54, 0, 0x12, 0x34, 0x56]
      ![10, 0, 2, 2] ![10, 0, 2, 15] 40001 9 1 [1, 2, 3] [0xAA, 0xBB] 1480 1500 1518 (by decide)
      (by decide) (by decide) (by decide)
  refine ⟨frame, ?_⟩
  rw [hcalls _ _ (.bind (.bind .start (by decide)) (by decide)) (.inr rfl) rfl]
  rfl

end Linux95.Net
