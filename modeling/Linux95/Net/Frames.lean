import Linux95.Net.Network

/-! Which frames the network hands to the driver: ARP packets, echo requests and UDP datagrams are
told apart by their type and protocol fields. -/

namespace Linux95.Net

theorem byteAt_append_right (a b : List UInt8) (k : Nat) :
    byteAt (a ++ b) (a.length + k) = byteAt b k := by
  unfold byteAt
  rw [List.getD_eq_getElem?_getD, List.getD_eq_getElem?_getD,
    List.getElem?_append_right (by omega), Nat.add_sub_cancel_left]

theorem byteAt_append_left {a : List UInt8} (b : List UInt8) {k : Nat} (hk : k < a.length) :
    byteAt (a ++ b) k = byteAt a k := by
  unfold byteAt
  rw [List.getD_eq_getElem?_getD, List.getD_eq_getElem?_getD, List.getElem?_append_left hk]

theorem be16_length (value : Nat) : (be16 value).length = 2 := rfl

def frameProtocol (frame : List UInt8) : Option UInt8 :=
  if readBe16 frame 12 = EtherType.ipv4.value then some (byteAt frame 23) else none

section Built
variable {capacity : Nat} {destination source : MacAddress} {type : EtherType}
  {payload frame : List UInt8}

theorem buildEthernet_eq (h : buildEthernet capacity destination source type payload = some frame) :
    frame = List.ofFn destination ++ List.ofFn source ++ be16 type.value ++ payload := by
  unfold buildEthernet at h
  split_ifs at h
  exact (Option.some.inj h).symm

theorem buildEthernet_type
    (h : buildEthernet capacity destination source type payload = some frame) :
    readBe16 frame 12 = type.value := by
  have hlen : (List.ofFn destination ++ List.ofFn source).length = 12 := by simp
  have hbyte : ∀ k, k < 2 → byteAt frame (12 + k) = byteAt (be16 type.value) k := by
    intro k hk
    rw [buildEthernet_eq h, List.append_assoc, ← hlen, byteAt_append_right, byteAt_append_left]
    rw [be16_length]
    exact hk
  have hread : readBe16 frame 12 = readBe16 (be16 type.value) 0 := by
    unfold readBe16
    rw [show (12 : Nat) = 12 + 0 from rfl, hbyte 0 (by omega), hbyte 1 (by omega)]
  rw [hread]
  cases type <;> decide

theorem buildEthernet_payload
    (h : buildEthernet capacity destination source type payload = some frame) (k : Nat) :
    byteAt frame (14 + k) = byteAt payload k := by
  have hlen : (List.ofFn destination ++ List.ofFn source ++ be16 type.value).length = 14 := by
    simp [be16_length]
  rw [buildEthernet_eq h, ← hlen, byteAt_append_right]

theorem frameProtocol_arp (h : buildEthernet capacity destination source .arp payload = some frame) :
    frameProtocol frame = none := by
  unfold frameProtocol
  rw [buildEthernet_type h]
  rfl

theorem frameProtocol_ipv4
    (h : buildEthernet capacity destination source .ipv4 payload = some frame) :
    frameProtocol frame = some (byteAt payload 9) := by
  unfold frameProtocol
  rw [buildEthernet_type h, if_pos rfl, show 23 = 14 + 9 from rfl, buildEthernet_payload h]

end Built

section Ipv4
variable {capacity : Nat} {source destination : Ipv4Address} {protocol : UInt8}
  {identification : Nat} {payload packet : List UInt8}

theorem ipv4Build_protocol
    (h : Ipv4.build capacity source destination protocol identification payload = some packet) :
    byteAt packet 9 = protocol := by
  unfold Ipv4.build at h
  dsimp only at h
  split_ifs at h
  rw [← Option.some.inj h]
  rfl

theorem ipv4Header_length (totalLength sum : Nat) :
    (Ipv4.header source destination protocol identification totalLength sum).length = 20 := by
  simp [Ipv4.header, be16_length]

theorem ipv4Build_length
    (h : Ipv4.build capacity source destination protocol identification payload = some packet) :
    packet.length ≤ capacity := by
  unfold Ipv4.build at h
  dsimp only at h
  split_ifs at h with hlen
  rw [← Option.some.inj h, List.length_append, ipv4Header_length]
  omega

end Ipv4

theorem buildEthernet_some {payload : List UInt8} (hlen : payload.length ≤ 1500)
    (destination source : MacAddress) (type : EtherType) :
    ∃ frame, buildEthernet 1518 destination source type payload = some frame := by
  unfold buildEthernet
  rw [if_neg (by omega)]
  exact ⟨_, rfl⟩

structure Moves (P : Transmission → Prop) (s s' : Network) : Prop where
  status : s'.status = s.status
  uptime : s.uptime ≤ s'.uptime
  sent : ∃ new, s'.sent = s.sent ++ new ∧ ∀ t ∈ new, P t

section Moves
variable {P : Transmission → Prop} {s s' s'' : Network}

theorem Moves.refl (s : Network) : Moves P s s := ⟨rfl, le_rfl, [], by simp, by simp⟩

theorem Moves.trans (h : Moves P s s') (h' : Moves P s' s'') : Moves P s s'' := by
  obtain ⟨new, hnew, hP⟩ := h.sent
  obtain ⟨new', hnew', hP'⟩ := h'.sent
  refine ⟨h'.status.trans h.status, h.uptime.trans h'.uptime, new ++ new', ?_, ?_⟩
  · rw [hnew', hnew, List.append_assoc]
  · intro t ht
    exact (List.mem_append.mp ht).elim (hP t) (hP' t)

theorem moves_uptimeSeconds (s : Network) : Moves P s (uptimeSeconds s).2 :=
  ⟨rfl, Nat.le_add_right _ _, [], by simp [uptimeSeconds], by simp⟩

theorem moves_transmit (frame : List UInt8) (hP : P ⟨frame, s.answers 0, s.uptime⟩) :
    Moves P s (transmit frame s).2 :=
  ⟨rfl, le_rfl, [⟨frame, s.answers 0, s.uptime⟩], rfl, by simpa using hP⟩

end Moves

def Lacks (protocol : UInt8) (t : Transmission) : Prop := frameProtocol t.frame ≠ some protocol

structure UdpAside (s s' : Network) : Prop extends Moves (Lacks 17) s s' where
  pendingUdp : s'.pendingUdp = s.pendingUdp
  cache : s'.cache = s.cache

structure PingAside (s s' : Network) : Prop extends Moves (Lacks 1) s s' where
  ping : s'.ping = s.ping
  nextHop : s'.nextHop = s.nextHop
  nextSequence : s'.nextSequence = s.nextSequence

theorem UdpAside.refl (s : Network) : UdpAside s s := ⟨.refl s, rfl, rfl⟩

theorem UdpAside.trans {s s' s'' : Network} (h : UdpAside s s') (h' : UdpAside s' s'') :
    UdpAside s s'' :=
  ⟨h.toMoves.trans h'.toMoves, h'.pendingUdp.trans h.pendingUdp, h'.cache.trans h.cache⟩

theorem PingAside.refl (s : Network) : PingAside s s := ⟨.refl s, rfl, rfl, rfl⟩

theorem PingAside.trans {s s' s'' : Network} (h : PingAside s s') (h' : PingAside s' s'') :
    PingAside s s'' :=
  ⟨h.toMoves.trans h'.toMoves, h'.ping.trans h.ping, h'.nextHop.trans h.nextHop,
    h'.nextSequence.trans h.nextSequence⟩

section Transmit
variable (s : Network)

theorem transmitEthernet_eq {payload : List UInt8} (hlen : payload.length ≤ 1500)
    (destination : MacAddress) (type : EtherType) :
    ∃ frame, buildEthernet 1518 destination s.status.mac type payload = some frame ∧
      transmitEthernet destination type payload s = transmit frame s := by
  obtain ⟨frame, hframe⟩ := buildEthernet_some hlen destination s.status.mac type
  refine ⟨frame, hframe, ?_⟩
  unfold transmitEthernet
  rw [hframe]

theorem arpPacket_length (operation : Nat) (localMac : MacAddress) (localIp : Ipv4Address)
    (targetMac : MacAddress) (targetIp : Ipv4Address) :
    (Arp.buildPacket operation localMac localIp targetMac targetIp).length ≤ 1500 := by
  simp [Arp.buildPacket, be16_length]

theorem transmitArp_aside {payload : List UInt8} (hlen : payload.length ≤ 1500)
    (destination : MacAddress) :
    UdpAside s (transmitEthernet destination .arp payload s).2 ∧
      PingAside s (transmitEthernet destination .arp payload s).2 := by
  obtain ⟨frame, hframe, heq⟩ := transmitEthernet_eq s hlen destination .arp
  have hlacks : ∀ protocol, Lacks protocol ⟨frame, s.answers 0, s.uptime⟩ := by
    intro protocol
    unfold Lacks
    rw [frameProtocol_arp hframe]
    exact fun h => nomatch h
  rw [heq]
  exact ⟨⟨moves_transmit frame (hlacks 17), rfl, rfl⟩, ⟨moves_transmit frame (hlacks 1), rfl, rfl, rfl⟩⟩

theorem transmitArpRequest_aside (target : Ipv4Address) :
    UdpAside s (transmitArpRequest target s).2 ∧ PingAside s (transmitArpRequest target s).2 :=
  transmitArp_aside s (arpPacket_length _ _ _ _ _) _

theorem transmitArpReply_aside (mac : MacAddress) (ip : Ipv4Address) :
    UdpAside s (transmitArpReply mac ip s).2 ∧ PingAside s (transmitArpReply mac ip s).2 :=
  transmitArp_aside s (arpPacket_length _ _ _ _ _) _

def IsEchoRequest (status : NetStatus) (address : Ipv4Address) (sequence : Nat) (mac : MacAddress)
    (frame : List UInt8) : Prop :=
  ∃ icmpPayload identification packet,
    Icmp.buildEchoRequest 40 pingIdentifier sequence = some icmpPayload ∧
    Ipv4.build 1500 status.ip address 1 identification icmpPayload = some packet ∧
    buildEthernet 1518 mac status.mac .ipv4 packet = some frame

theorem isEchoRequest_protocol {status : NetStatus} {address : Ipv4Address} {sequence : Nat}
    {mac : MacAddress} {frame : List UInt8} (h : IsEchoRequest status address sequence mac frame) :
    frameProtocol frame = some 1 := by
  obtain ⟨_, _, packet, -, hpacket, hframe⟩ := h
  rw [frameProtocol_ipv4 hframe, ipv4Build_protocol hpacket]

theorem transmitEchoRequest_eq (mac : MacAddress) :
    ∃ frame, IsEchoRequest s.status s.ping.address s.ping.sequence mac frame ∧
      transmitEchoRequest mac s =
        if s.answers 0 then
          (true, { (uptimeSeconds (((transmit frame s.takeIdentification).2).setPingState
              .waitingReply)).2 with deadline := s.uptime + s.elapsed 0 + 2 })
        else (false, (transmit frame s.takeIdentification).2) := by
  obtain ⟨icmpPayload, hicmp⟩ :
      ∃ p, Icmp.buildEchoRequest 40 pingIdentifier s.ping.sequence = some p := ⟨_, rfl⟩
  have hilen : icmpPayload.length = 40 := by
    rw [← Option.some.inj hicmp]
    simp [Icmp.echoRequest, be16_length]
  obtain ⟨packet, hpacket⟩ : ∃ p, Ipv4.build 1500 s.status.ip s.ping.address 1
      s.nextIdentification icmpPayload = some p := by
    unfold Ipv4.build
    dsimp only
    rw [if_neg (by omega)]
    exact ⟨_, rfl⟩
  obtain ⟨frame, hframe, heq⟩ :=
    transmitEthernet_eq s.takeIdentification (ipv4Build_length hpacket) mac .ipv4
  refine ⟨frame, ⟨icmpPayload, _, packet, hicmp, hpacket, hframe⟩, ?_⟩
  unfold transmitEchoRequest
  rw [hicmp]
  dsimp only
  rw [hpacket]
  dsimp only
  rw [heq]
  cases h : s.answers 0 with
  | true => simp only [transmit, Network.takeIdentification, h]; rfl
  | false => simp only [transmit, Network.takeIdentification, h]; rfl

theorem transmitEchoRequest_udpAside (mac : MacAddress) :
    UdpAside s (transmitEchoRequest mac s).2 := by
  obtain ⟨frame, hframe, heq⟩ := transmitEchoRequest_eq s mac
  have hlacks : Lacks 17 ⟨frame, s.answers 0, s.uptime⟩ := by
    unfold Lacks
    rw [isEchoRequest_protocol hframe]
    decide
  have hsent : Moves (Lacks 17) s (transmit frame s.takeIdentification).2 :=
    ⟨rfl, le_rfl, [⟨frame, s.answers 0, s.uptime⟩], rfl, by simpa using hlacks⟩
  rw [heq]
  cases s.answers 0 with
  | false => exact ⟨hsent, rfl, rfl⟩
  | true =>
    obtain ⟨new, hnew, hP⟩ := hsent.sent
    exact ⟨⟨rfl, Nat.le_add_right _ _, new, hnew, hP⟩, rfl, rfl⟩

theorem setPingState_udpAside {s s' : Network} (h : UdpAside s s') (state : PingState) :
    UdpAside s (s'.setPingState state) :=
  ⟨⟨h.status, h.uptime, h.sent⟩, h.pendingUdp, h.cache⟩

theorem requestEcho_udpAside (mac : MacAddress) : UdpAside s (requestEcho mac s) := by
  have h := transmitEchoRequest_udpAside s mac
  unfold requestEcho
  cases hr : transmitEchoRequest mac s with
  | mk ok s' =>
    rw [hr] at h
    cases ok with
    | true => exact h
    | false => exact setPingState_udpAside h _

theorem resolvePing_udpAside : UdpAside s (resolvePing s) := by
  unfold resolvePing
  split_ifs
  · cases s.cache.lookup s.nextHop with
    | none => exact .refl s
    | some mac => exact requestEcho_udpAside s mac
  · exact .refl s

end Transmit

end Linux95.Net
