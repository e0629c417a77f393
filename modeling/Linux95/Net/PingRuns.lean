import Linux95.Net.UdpRuns

/-! Pings: every interleaving of the calls of the network and of the frames it receives, with the
driver and the clock answering arbitrarily. -/

namespace Linux95.Net

def SlotFormed (s : Network) : Prop :=
  s.pendingUdp.occupied = true →
    s.pendingUdp.packet.length ≤ 1500 ∧ byteAt s.pendingUdp.packet 9 = 17

section Aside
variable (s : Network)

theorem lacks_one {frame : List UInt8} (h : frameProtocol frame = some 17) (answer : Bool)
    (uptime : Nat) : Lacks 1 ⟨frame, answer, uptime⟩ := by
  unfold Lacks
  rw [h]
  decide

theorem dropExpired_pingAside : PingAside s (dropExpired s) := by
  have hmoves := moves_uptimeSeconds (P := Lacks 1) s
  unfold dropExpired
  split_ifs
  · dsimp only
    split_ifs
    · exact ⟨⟨hmoves.status, hmoves.uptime, hmoves.sent⟩, rfl, rfl, rfl⟩
    · exact ⟨hmoves, rfl, rfl, rfl⟩
  · exact .refl s

theorem parkUdp_pingAside (nextHop : Ipv4Address) (packet : List UInt8) :
    PingAside s (parkUdp nextHop packet s).2 := by
  have hmoves := moves_uptimeSeconds (P := Lacks 1) s
  unfold parkUdp
  dsimp only
  generalize hparked : ({ (uptimeSeconds s).2 with
    pendingUdp := ⟨true, nextHop, (uptimeSeconds s).1 + 1, packet⟩ } : Network) = parked
  have hstart : PingAside s parked := by
    rw [← hparked]
    exact ⟨⟨hmoves.status, hmoves.uptime, hmoves.sent⟩, rfl, rfl, rfl⟩
  have hasked := hstart.trans (transmitArpRequest_aside parked nextHop).2
  cases hr : transmitArpRequest nextHop parked with
  | mk ok s' =>
    rw [hr] at hasked
    cases ok with
    | true => exact hasked
    | false =>
      exact ⟨⟨hasked.status, hasked.uptime, hasked.sent⟩, hasked.ping, hasked.nextHop,
        hasked.nextSequence⟩

theorem sendUdp_pingAside (call : UdpArguments) : PingAside s (sendUdp call s).2 := by
  rcases sendUdp_cases s call with ⟨s', hsend, rfl | rfl⟩ | ⟨mac, packet, frame, -, hp, hframe, hsend⟩ |
    ⟨packet, -, -, -, hsend⟩
  · rw [hsend]
    exact .refl _
  · rw [hsend]
    exact dropExpired_pingAside s
  · have hprotocol : frameProtocol frame = some 17 := by
      rw [frameProtocol_ipv4 hframe, (udpPacket_length _ hp).2]
    rw [hsend]
    exact ⟨⟨rfl, le_rfl, [_], rfl, by simpa using lacks_one hprotocol _ _⟩, rfl, rfl, rfl⟩
  · rw [hsend]
    have hpark := parkUdp_pingAside (dropExpired s).takeIdentification
      (udpNextHop s call.destination) packet
    have hdrop := dropExpired_pingAside s
    exact hdrop.trans ⟨⟨hpark.status, hpark.uptime, hpark.sent⟩, hpark.ping, hpark.nextHop,
      hpark.nextSequence⟩

theorem releaseUdp_pingAside (hslot : SlotFormed s) (ip : Ipv4Address) (mac : MacAddress) :
    PingAside s (releaseUdp ip mac s) := by
  have hmoves := moves_uptimeSeconds (P := Lacks 1) s
  have hread : PingAside s (uptimeSeconds s).2 := ⟨hmoves, rfl, rfl, rfl⟩
  have hfreed : PingAside s (uptimeSeconds s).2.freeSlot :=
    ⟨⟨hmoves.status, hmoves.uptime, hmoves.sent⟩, rfl, rfl, rfl⟩
  unfold releaseUdp
  by_cases hocc : s.pendingUdp.occupied = true
  · rw [if_pos hocc]
    dsimp only
    split_ifs
    · exact hfreed
    · obtain ⟨frame, hframe, heq⟩ :=
        transmitEthernet_eq (uptimeSeconds s).2.freeSlot (hslot hocc).1 mac .ipv4
      have hprotocol : frameProtocol frame = some 17 := by
        rw [frameProtocol_ipv4 hframe, (hslot hocc).2]
      rw [heq]
      exact hfreed.trans ⟨moves_transmit frame (lacks_one hprotocol _ _), rfl, rfl, rfl⟩
    · exact hread
  · rw [if_neg hocc]
    exact .refl s

end Aside

structure Echoes (s s' : Network) (mac : MacAddress) (frame : List UInt8) (answer : Bool) : Prop where
  status : s'.status = s.status
  request : IsEchoRequest s.status s.ping.address s.ping.sequence mac frame
  ping : s'.ping = { s.ping with state := if answer then .waitingReply else .hostUnreachable }
  nextHop : s'.nextHop = s.nextHop
  nextSequence : s'.nextSequence = s.nextSequence
  sent : ∃ before after uptime, s'.sent = s.sent ++ before ++ [⟨frame, answer, uptime⟩] ++ after ∧
    (∀ t ∈ before, Lacks 1 t) ∧ ∀ t ∈ after, Lacks 1 t

theorem requestEcho_echoes (mac : MacAddress) (s : Network) :
    ∃ frame answer, Echoes s (requestEcho mac s) mac frame answer := by
  obtain ⟨frame, hframe, heq⟩ := transmitEchoRequest_eq s mac
  refine ⟨frame, s.answers 0, ?_⟩
  unfold requestEcho
  rw [heq]
  cases hans : s.answers 0 with
  | true =>
    refine ⟨rfl, hframe, rfl, rfl, rfl, [], [], s.uptime, ?_, by simp, by simp⟩
    simp [uptimeSeconds, transmit, Network.setPingState, Network.takeIdentification, hans]
  | false =>
    refine ⟨rfl, hframe, rfl, rfl, rfl, [], [], s.uptime, ?_, by simp, by simp⟩
    simp [transmit, Network.setPingState, Network.takeIdentification, hans]

theorem Echoes.after {s s₁ s' : Network} {mac : MacAddress} {frame : List UInt8} {answer : Bool}
    (h : Echoes s₁ s' mac frame answer) (haside : PingAside s s₁) : Echoes s s' mac frame answer := by
  obtain ⟨new, hnew, hlacks⟩ := haside.sent
  obtain ⟨before, after, uptime, hsent, hbefore, hafter⟩ := h.sent
  have hrequest := h.request
  have hping := h.ping
  rw [haside.status, haside.ping] at hrequest
  rw [haside.ping] at hping
  refine ⟨h.status.trans haside.status, hrequest, hping, h.nextHop.trans haside.nextHop,
    h.nextSequence.trans haside.nextSequence, new ++ before, after, uptime, ?_, ?_, hafter⟩
  · rw [hsent, hnew]
    simp only [List.append_assoc]
  · intro t ht
    exact (List.mem_append.mp ht).elim (hlacks t) (hbefore t)

theorem Echoes.before {s s₁ s' : Network} {mac : MacAddress} {frame : List UInt8} {answer : Bool}
    (h : Echoes s s₁ mac frame answer) (haside : PingAside s₁ s') : Echoes s s' mac frame answer := by
  obtain ⟨new, hnew, hlacks⟩ := haside.sent
  obtain ⟨before, after, uptime, hsent, hbefore, hafter⟩ := h.sent
  refine ⟨haside.status.trans h.status, h.request, haside.ping.trans h.ping,
    haside.nextHop.trans h.nextHop, haside.nextSequence.trans h.nextSequence, before, after ++ new,
    uptime, ?_, hbefore, ?_⟩
  · rw [hnew, hsent]
    simp only [List.append_assoc]
  · intro t ht
    exact (List.mem_append.mp ht).elim (hafter t) (hlacks t)

/-- The frame carries a valid IPv4 packet from the pinged address to the local one, with a valid
echo reply under the identifier and the sequence of the current ping. -/
def IsEchoReply (s : Network) (frame : List UInt8) : Prop :=
  ∃ view packet, parseEthernet frame = some view ∧ view.type = .ipv4 ∧
    Ipv4.parse view.payload = some packet ∧
    checksum (view.payload.take ((byteAt view.payload 0).toNat % 16 * 4)) = 0 ∧
    packet.destination = s.status.ip ∧ packet.source = s.ping.address ∧ packet.protocol = 1 ∧
    8 ≤ packet.payload.length ∧ byteAt packet.payload 0 = 0 ∧ byteAt packet.payload 1 = 0 ∧
    checksum packet.payload = 0 ∧ readBe16 packet.payload 4 = 0x4C95 ∧
    readBe16 packet.payload 6 = s.ping.sequence

theorem ipv4Parse_checksum {packet : List UInt8} {view : Ipv4.PacketView}
    (h : Ipv4.parse packet = some view) :
    checksum (packet.take ((byteAt packet 0).toNat % 16 * 4)) = 0 := by
  unfold Ipv4.parse at h
  dsimp only at h
  split_ifs at h with _ _ _ _ _ hsum
  exact not_not.1 hsum

theorem acceptEchoReply_some {payload : List UInt8} {identifier sequence payloadBytes : Nat}
    (h : Icmp.acceptEchoReply payload identifier sequence = some payloadBytes) :
    8 ≤ payload.length ∧ byteAt payload 0 = 0 ∧ byteAt payload 1 = 0 ∧ checksum payload = 0 ∧
      readBe16 payload 4 = identifier ∧ readBe16 payload 6 = sequence := by
  unfold Icmp.acceptEchoReply at h
  split_ifs at h with hlength htype hsum hids
  push Not at htype hids
  exact ⟨Nat.not_lt.1 hlength, htype.1, htype.2, not_not.1 hsum, hids.1, hids.2⟩

inductive PingEffect (frame : List UInt8) (s s' : Network) : Prop where
  | aside (aside : PingAside s s')
  | echoed (mac : MacAddress) (out : List UInt8) (answer : Bool)
      (resolving : s.ping.state = .resolvingArp) (cached : s'.cache.lookup s.nextHop = some mac)
      (echoes : Echoes s s' mac out answer)
  | replied (payloadBytes : Nat) (waiting : s.ping.state = .waitingReply)
      (reply : IsEchoReply s frame) (next : s' = { s with
        ping := { s.ping with payloadBytes := payloadBytes, state := .replyReceived } })

theorem handleIpv4_pingEffect {frame : List UInt8} {view : EthernetView} (s : Network)
    (hview : parseEthernet frame = some view) (htype : view.type = .ipv4) :
    PingEffect frame s (handleIpv4 view.payload s) := by
  unfold handleIpv4
  cases hpacket : Ipv4.parse view.payload with
  | none => exact .aside (.refl s)
  | some packet =>
    dsimp only
    by_cases h1 : packet.destination ≠ s.status.ip
    · rw [if_pos h1]
      exact .aside (.refl s)
    rw [if_neg h1]
    by_cases h2 : packet.protocol = 1
    · rw [if_pos h2]
      by_cases h3 : s.ping.state ≠ .waitingReply ∨ packet.source ≠ s.ping.address
      · rw [if_pos h3]
        exact .aside (.refl s)
      rw [if_neg h3]
      push Not at h1 h3
      cases hreply : Icmp.acceptEchoReply packet.payload pingIdentifier s.ping.sequence with
      | none => exact .aside (.refl s)
      | some payloadBytes =>
        exact .replied payloadBytes h3.1
          ⟨view, packet, hview, htype, hpacket, ipv4Parse_checksum hpacket, h1, h3.2, h2,
            acceptEchoReply_some hreply⟩ rfl
    rw [if_neg h2]
    by_cases h4 : packet.protocol = 17
    · rw [if_pos h4]
      cases Udp.parse packet.payload packet.source packet.destination with
      | none => exact .aside (.refl s)
      | some datagram => exact .aside ⟨⟨rfl, le_rfl, [], by simp, by simp⟩, rfl, rfl, rfl⟩
    · rw [if_neg h4]
      exact .aside (.refl s)

theorem resolvePing_effect {s s₁ : Network} (haside : PingAside s s₁) :
    PingAside s (resolvePing s₁) ∨ ∃ mac out answer, s.ping.state = .resolvingArp ∧
      (resolvePing s₁).cache.lookup s.nextHop = some mac ∧
      Echoes s (resolvePing s₁) mac out answer := by
  unfold resolvePing
  split_ifs with hstate
  · cases hl : s₁.cache.lookup s₁.nextHop with
    | none => exact .inl haside
    | some mac =>
      obtain ⟨out, answer, hechoes⟩ := requestEcho_echoes mac s₁
      rw [haside.ping] at hstate
      refine .inr ⟨mac, out, answer, hstate, ?_, hechoes.after haside⟩
      dsimp only
      rw [(requestEcho_udpAside s₁ mac).cache, ← haside.nextHop, hl]
  · exact .inl haside

theorem dispatchFrame_pingEffect (frame : List UInt8) {s : Network} (hslot : SlotFormed s) :
    PingEffect frame s (dispatchFrame frame s) := by
  unfold dispatchFrame
  cases hview : parseEthernet frame with
  | none => exact .aside (.refl s)
  | some view =>
    dsimp only
    by_cases hdest : view.destination ≠ s.status.mac ∧ view.destination ≠ fun _ => 0xFF
    · rw [if_pos hdest]
      exact .aside (.refl s)
    rw [if_neg hdest]
    cases htype : view.type with
    | ipv4 => exact handleIpv4_pingEffect s hview htype
    | arp =>
      dsimp only
      unfold handleArp
      cases Arp.parse view.payload with
      | none => exact .aside (.refl s)
      | some packet =>
        dsimp only
        generalize hlearned : ({ s with
          cache := s.cache.learn packet.senderIp packet.senderMac } : Network) = learned
        have hping : PingAside s learned := by
          rw [← hlearned]
          exact ⟨⟨rfl, le_rfl, [], by simp, by simp⟩, rfl, rfl, rfl⟩
        have hlearnedSlot : learned.pendingUdp = s.pendingUdp := by rw [← hlearned]
        generalize hreplied : (if packet.operation = 1 ∧ packet.targetIp = s.status.ip then
          (transmitArpReply packet.senderMac packet.senderIp learned).2 else learned) = replied
        have haside : UdpAside learned replied ∧ PingAside learned replied := by
          rw [← hreplied]
          split_ifs
          · exact transmitArpReply_aside learned _ _
          · exact ⟨.refl learned, .refl learned⟩
        have hresolved := resolvePing_udpAside replied
        have hformed : SlotFormed (resolvePing replied) := by
          unfold SlotFormed
          rw [hresolved.pendingUdp, haside.1.pendingUdp, hlearnedSlot]
          exact hslot
        have hrelease := releaseUdp_pingAside _ hformed packet.senderIp packet.senderMac
        have hcache := (releaseUdp_spec packet.senderIp packet.senderMac (resolvePing replied)
          fun hocc => (hformed hocc).1).2
        rcases resolvePing_effect (hping.trans haside.2) with
          h | ⟨mac, out, answer, resolving, cached, echoes⟩
        · exact .aside (h.trans hrelease)
        · exact .echoed mac out answer resolving (hcache ▸ cached) (echoes.before hrelease)

theorem resolveNextHop_spec (s : Network) : Moves (Lacks 1) s (resolveNextHop s) ∧
    (resolveNextHop s).nextHop = s.nextHop ∧ (resolveNextHop s).nextSequence = s.nextSequence ∧
    ∃ state, (state = .resolvingArp ∨ state = .hostUnreachable) ∧
      (resolveNextHop s).ping = { s.ping with state := state } := by
  have hmoves := moves_uptimeSeconds (P := Lacks 1) (s.setPingState .resolvingArp)
  unfold resolveNextHop
  dsimp only
  generalize hasking : ({ (uptimeSeconds (s.setPingState .resolvingArp)).2 with
    deadline := (uptimeSeconds (s.setPingState .resolvingArp)).1 + 1 } : Network) = asking
  have hstart : Moves (Lacks 1) s asking := by
    rw [← hasking]
    exact ⟨hmoves.status, hmoves.uptime, hmoves.sent⟩
  have hping : asking.ping = { s.ping with state := .resolvingArp } := by
    rw [← hasking]
    rfl
  have hhop : asking.nextHop = s.nextHop := by
    rw [← hasking]
    rfl
  have hseq : asking.nextSequence = s.nextSequence := by
    rw [← hasking]
    rfl
  have hasked := (transmitArpRequest_aside asking s.nextHop).2
  cases hr : transmitArpRequest s.nextHop asking with
  | mk ok s' =>
    rw [hr] at hasked
    have hall := hstart.trans hasked.toMoves
    cases ok with
    | true =>
      exact ⟨hall, hasked.nextHop.trans hhop, hasked.nextSequence.trans hseq, .resolvingArp, .inl rfl,
        hasked.ping.trans hping⟩
    | false =>
      refine ⟨⟨hall.status, hall.uptime, hall.sent⟩, hasked.nextHop.trans hhop,
        hasked.nextSequence.trans hseq, .hostUnreachable, .inr rfl, ?_⟩
      exact congrArg (fun p : PingResult => { p with state := .hostUnreachable })
        (hasked.ping.trans hping)

theorem startPing_cases (destination : Ipv4Address) (s : Network) :
    startPing destination s = (false, s) ∨
    (startPing destination s).1 = true ∧ s.ping.state = .idle ∧
      ((∃ mac out answer, (startPing destination s).2.cache.lookup
          (udpNextHop s destination) = some mac ∧
        Echoes (s.setUpPing destination) (startPing destination s).2 mac out answer) ∨
      Moves (Lacks 1) s (startPing destination s).2 ∧
        (startPing destination s).2.nextHop = udpNextHop s destination ∧
        (startPing destination s).2.nextSequence = (s.nextSequence + 1) % 2 ^ 16 ∧
        ∃ state, (state = .resolvingArp ∨ state = .hostUnreachable) ∧
          (startPing destination s).2.ping = ⟨state, destination, s.nextSequence, 0⟩) := by
  unfold startPing
  by_cases hbad : !s.status.online ∨ s.ping.state ≠ .idle
  · rw [if_pos hbad]
    exact .inl rfl
  rw [if_neg hbad]
  push Not at hbad
  right
  cases hl : s.cache.lookup (s.setUpPing destination).nextHop with
  | some mac =>
    obtain ⟨out, answer, hechoes⟩ := requestEcho_echoes mac (s.setUpPing destination)
    dsimp only
    refine ⟨rfl, hbad.2, .inl ⟨mac, out, answer, ?_, hechoes⟩⟩
    rw [(requestEcho_udpAside _ mac).cache]
    exact hl
  | none =>
    obtain ⟨hmoves, hhop, hseq, state, hstate, hping⟩ := resolveNextHop_spec (s.setUpPing destination)
    exact ⟨rfl, hbad.2, .inr ⟨⟨hmoves.status, hmoves.uptime, hmoves.sent⟩, hhop, hseq, state, hstate, hping⟩⟩

theorem advanceTimeout_ping (s : Network) : Moves (Lacks 1) s (advanceTimeout s) ∧
    (advanceTimeout s).nextHop = s.nextHop ∧ (advanceTimeout s).nextSequence = s.nextSequence ∧
    ((advanceTimeout s).ping = s.ping ∨
      s.ping.state = .resolvingArp ∧
        (advanceTimeout s).ping = { s.ping with state := .hostUnreachable } ∨
      s.ping.state = .waitingReply ∧
        (advanceTimeout s).ping = { s.ping with state := .timedOut }) := by
  have hmoves := moves_uptimeSeconds (P := Lacks 1) s
  unfold advanceTimeout
  dsimp only
  generalize hfreed : (if (uptimeSeconds s).2.pendingUdp.occupied = true ∧
    (uptimeSeconds s).1 ≥ (uptimeSeconds s).2.pendingUdp.deadline then (uptimeSeconds s).2.freeSlot
    else (uptimeSeconds s).2) = freed
  have haside : PingAside s freed := by
    rw [← hfreed]
    split_ifs
    · exact ⟨⟨hmoves.status, hmoves.uptime, hmoves.sent⟩, rfl, rfl, rfl⟩
    · exact ⟨hmoves, rfl, rfl, rfl⟩
  have hset : ∀ state, (freed.setPingState state).ping = { s.ping with state := state } := by
    intro state
    rw [← haside.ping]
    rfl
  split_ifs with h1 h2
  · rw [haside.ping] at h1
    exact ⟨⟨haside.status, haside.uptime, haside.sent⟩, haside.nextHop, haside.nextSequence,
      .inr (.inl ⟨h1.1, hset _⟩)⟩
  · rw [haside.ping] at h2
    exact ⟨⟨haside.status, haside.uptime, haside.sent⟩, haside.nextHop, haside.nextSequence,
      .inr (.inr ⟨h2.1, hset _⟩)⟩
  · exact ⟨haside.toMoves, haside.nextHop, haside.nextSequence, .inl haside.ping⟩

/-- The echo requests of a step that the driver took, each with the address that the cache then
holds for the next hop of the ping. -/
def echoRequests (st : Step) (s : Network) : List (List UInt8 × Option MacAddress) :=
  ((outputs st s).filter fun t => t.accepted && frameProtocol t.frame = some 1).map fun t =>
    (t.frame, (st.exec s).2.cache.lookup
      (udpNextHop (st.exec s).2 (st.exec s).2.ping.address))

/-- The network with the history of its pings: the last accepted `start_ping`, whether its result
was cleared since, the echo requests transmitted since, and all sequence numbers given out. -/
structure PingTrace where
  network : Network
  started : Option (Ipv4Address × Nat)
  cleared : Bool
  requests : List (List UInt8 × Option MacAddress)
  sequences : List Nat

def PingTrace.step (st : Step) (t : PingTrace) : PingTrace :=
  let network := (st.exec t.network).2
  match st with
  | .startPing destination =>
    if (startPing destination t.network).1 then
      ⟨network, some (destination, network.ping.sequence), false, echoRequests st t.network,
        t.sequences ++ [network.ping.sequence]⟩
    else { t with network := network, requests := t.requests ++ echoRequests st t.network }
  | .clearPingResult =>
    { t with network := network, cleared := true,
             requests := t.requests ++ echoRequests st t.network }
  | _ => { t with network := network, requests := t.requests ++ echoRequests st t.network }

def PingTrace.run : List Step → PingTrace → PingTrace
  | [], t => t
  | st :: rest, t => PingTrace.run rest (t.step st)

def PingTrace.start (s : Network) : PingTrace := ⟨s, none, false, [], []⟩

structure PingInv (t : PingTrace) : Prop where
  once : t.requests.length ≤ 1
  current : t.network.ping.state ≠ .idle →
    t.started = some (t.network.ping.address, t.network.ping.sequence) ∧ t.cleared = false
  resolving : t.network.ping.state = .resolvingArp → t.requests = [] ∧
    t.network.nextHop = udpNextHop t.network t.network.ping.address
  requested : t.network.ping.state = .waitingReply ∨ t.network.ping.state = .replyReceived →
    ∃ frame mac, t.requests = [(frame, some mac)] ∧
      IsEchoRequest t.network.status t.network.ping.address t.network.ping.sequence mac frame
  sequences : t.sequences = (List.range t.sequences.length).map fun k => (1 + k) % 2 ^ 16
  next : t.network.nextSequence = (1 + t.sequences.length) % 2 ^ 16

def Advances (p p' : PingResult) : Prop :=
  p'.address = p.address ∧ p'.sequence = p.sequence ∧
    (p'.state = p.state ∨
      p.state ≠ .idle ∧ (p'.state = .hostUnreachable ∨ p'.state = .timedOut) ∨
      p.state = .waitingReply ∧ p'.state = .replyReceived)

section Trace
variable {t : PingTrace}

theorem echoRequests_nil (st : Step) {s : Network} (h : Moves (Lacks 1) s (st.exec s).2) :
    echoRequests st s = [] := by
  obtain ⟨new, hnew, hlacks⟩ := h.sent
  have hfilter : (new.filter fun t => t.accepted && frameProtocol t.frame = some 1) = [] := by
    rw [List.filter_eq_nil_iff]
    intro t ht h
    simp only [Bool.and_eq_true, decide_eq_true_eq] at h
    exact hlacks t ht h.2
  unfold echoRequests
  rw [outputs_eq _ hnew, hfilter]
  rfl

theorem echoRequests_echoes (st : Step) {s s₀ : Network} {mac : MacAddress} {frame : List UInt8}
    {answer : Bool} (h : Echoes s₀ (st.exec s).2 mac frame answer) (hsent : s₀.sent = s.sent)
    (hcached : (st.exec s).2.cache.lookup
      (udpNextHop (st.exec s).2 (st.exec s).2.ping.address) = some mac) :
    echoRequests st s = if answer then [(frame, some mac)] else [] := by
  obtain ⟨before, after, uptime, hall, hbefore, hafter⟩ := h.sent
  have hnone : ∀ l : List Transmission, (∀ t ∈ l, Lacks 1 t) →
      (l.filter fun t => t.accepted && frameProtocol t.frame = some 1) = [] := by
    intro l hl
    rw [List.filter_eq_nil_iff]
    intro t ht h
    simp only [Bool.and_eq_true, decide_eq_true_eq] at h
    exact hl t ht h.2
  have hout : outputs st s = before ++ [⟨frame, answer, uptime⟩] ++ after := by
    apply outputs_eq
    rw [hall, hsent]
    simp only [List.append_assoc]
  unfold echoRequests
  rw [hout, List.filter_append, List.filter_append, hnone before hbefore, hnone after hafter, hcached]
  cases answer <;> simp [isEchoRequest_protocol h.request]

theorem PingInv.advance (h : PingInv t) {t' : PingTrace} (hreq : t'.requests = t.requests)
    (hstarted : t'.started = t.started) (hcleared : t'.cleared = t.cleared)
    (hsequences : t'.sequences = t.sequences) (hstatus : t'.network.status = t.network.status)
    (hhop : t'.network.nextHop = t.network.nextHop)
    (hnext : t'.network.nextSequence = t.network.nextSequence)
    (hping : Advances t.network.ping t'.network.ping) : PingInv t' := by
  obtain ⟨haddr, hseq, hstate⟩ := hping
  have hnotIdle : t'.network.ping.state ≠ .idle → t.network.ping.state ≠ .idle := by
    intro hne
    rcases hstate with hs | ⟨hs, -⟩ | ⟨hs, -⟩
    · rwa [← hs]
    · exact hs
    · rw [hs]
      exact fun h => nomatch h
  refine ⟨hreq ▸ h.once, fun hne => ?_, fun hr => ?_, fun hw => ?_, ?_, ?_⟩
  · rw [hstarted, hcleared, haddr, hseq]
    exact h.current (hnotIdle hne)
  · rcases hstate with hs | ⟨-, hs | hs⟩ | ⟨-, hs⟩
    · rw [hr] at hs
      unfold udpNextHop
      rw [hreq, hhop, hstatus, haddr]
      exact h.resolving hs.symm
    all_goals
      rw [hr] at hs
      exact nomatch hs
  · have hold : t.network.ping.state = .waitingReply ∨ t.network.ping.state = .replyReceived := by
      rcases hstate with hs | ⟨-, hs | hs⟩ | ⟨hs, -⟩
      · rwa [← hs]
      · rw [hs] at hw
        rcases hw with hw | hw <;> exact nomatch hw
      · rw [hs] at hw
        rcases hw with hw | hw <;> exact nomatch hw
      · exact .inl hs
    rw [hreq, hstatus, haddr, hseq]
    exact h.requested hold
  · rw [hsequences]
    exact h.sequences
  · rw [hnext, hsequences]
    exact h.next

theorem advances_self (p : PingResult) : Advances p p := ⟨rfl, rfl, .inl rfl⟩

theorem PingInv.echo (h : PingInv t) (st : Step) {mac : MacAddress} {out : List UInt8} {answer : Bool}
    (hstep : t.step st = { t with network := (st.exec t.network).2,
                                  requests := t.requests ++ echoRequests st t.network })
    (hstate : t.network.ping.state = .resolvingArp)
    (hcached : (st.exec t.network).2.cache.lookup t.network.nextHop = some mac)
    (hechoes : Echoes t.network (st.exec t.network).2 mac out answer) : PingInv (t.step st) := by
  obtain ⟨hnone, hhop⟩ := h.resolving hstate
  have hlookup : (st.exec t.network).2.cache.lookup (udpNextHop (st.exec t.network).2
      (st.exec t.network).2.ping.address) = some mac := by
    unfold udpNextHop
    rw [hechoes.status, hechoes.ping]
    rw [hhop] at hcached
    exact hcached
  have hreq := echoRequests_echoes st hechoes rfl hlookup
  have hne : t.network.ping.state ≠ .idle := by
    rw [hstate]
    exact fun h => nomatch h
  rw [hstep]
  refine ⟨?_, fun _ => ?_, fun hr => ?_, fun hw => ?_, h.sequences, ?_⟩
  · dsimp only
    rw [hnone, hreq]
    cases answer <;> simp
  · dsimp only
    rw [hechoes.ping]
    exact h.current hne
  · dsimp only at hr
    rw [hechoes.ping] at hr
    cases answer <;> exact nomatch hr
  · dsimp only at hw ⊢
    rw [hechoes.ping] at hw ⊢
    cases answer with
    | false => rcases hw with hw | hw <;> exact nomatch hw
    | true =>
      rw [hnone, hreq, hechoes.status]
      exact ⟨out, mac, rfl, hechoes.request⟩
  · dsimp only
    rw [hechoes.nextSequence]
    exact h.next

theorem PingInv.sequences_snoc (h : PingInv t) {sequence : Nat}
    (hseq : sequence = t.network.nextSequence) : t.sequences ++ [sequence] =
      (List.range (t.sequences ++ [sequence]).length).map fun k => (1 + k) % 2 ^ 16 := by
  rw [List.length_append, List.length_singleton, List.range_succ, List.map_append, ← h.sequences,
    hseq, h.next]
  rfl

theorem PingInv.sequence_at (h : PingInv t) {k : Nat} (hk : k < t.sequences.length) :
    t.sequences[k] = (1 + k) % 2 ^ 16 := by
  rw [List.getElem_of_eq h.sequences]
  simp only [List.getElem_map, List.getElem_range]

theorem step_startPing (h : PingInv t) (destination : Ipv4Address) :
    PingInv (t.step (.startPing destination)) := by
  have hnextSeq : (t.network.nextSequence + 1) % 2 ^ 16 =
      (1 + (t.sequences ++ [t.network.nextSequence]).length) % 2 ^ 16 := by
    rw [List.length_append, List.length_singleton, h.next]
    omega
  rcases startPing_cases destination t.network with hno | ⟨hyes, -, hcase⟩
  · have hstep : t.step (.startPing destination) = ⟨t.network, t.started, t.cleared,
        t.requests ++ echoRequests (.startPing destination) t.network, t.sequences⟩ := by
      simp only [PingTrace.step, Step.exec, hno]
      rfl
    have hnone : echoRequests (.startPing destination) t.network = [] :=
      echoRequests_nil _ (by simp only [Step.exec, hno]; exact .refl _)
    rw [hstep, hnone, List.append_nil]
    exact h
  have hstep : t.step (.startPing destination) = ⟨(startPing destination t.network).2,
      some (destination, (startPing destination t.network).2.ping.sequence), false,
      echoRequests (.startPing destination) t.network,
      t.sequences ++ [(startPing destination t.network).2.ping.sequence]⟩ := by
    simp only [PingTrace.step, Step.exec, hyes, if_true]
  rw [hstep]
  -- the next hop is known and the request goes out now, or the request waits for it
  rcases hcase with ⟨mac, out, answer, hcached, hechoes⟩ | ⟨hmoves, hhop, hseq, state, hstate, hping⟩
  · have haddr : (startPing destination t.network).2.ping.address = destination := by
      rw [hechoes.ping]
      rfl
    have hsequence : (startPing destination t.network).2.ping.sequence = t.network.nextSequence := by
      rw [hechoes.ping]
      rfl
    have hstatus : (startPing destination t.network).2.status = t.network.status := hechoes.status
    have hlookup : (startPing destination t.network).2.cache.lookup
        (udpNextHop (startPing destination t.network).2
          (startPing destination t.network).2.ping.address) = some mac := by
      unfold udpNextHop
      rw [haddr, hstatus]
      exact hcached
    have hreq := echoRequests_echoes (.startPing destination) (s := t.network) hechoes rfl hlookup
    refine ⟨?_, fun _ => ⟨?_, rfl⟩, fun hr => ?_, fun hw => ?_, h.sequences_snoc hsequence, ?_⟩
    · dsimp only
      rw [hreq]
      cases answer <;> simp
    · dsimp only
      rw [haddr]
    · dsimp only at hr
      rw [hechoes.ping] at hr
      cases answer <;> cases hr
    · dsimp only at hw ⊢
      rw [hechoes.ping] at hw ⊢
      cases answer with
      | false => rcases hw with hw | hw <;> cases hw
      | true =>
        rw [hreq, hstatus]
        exact ⟨out, mac, rfl, hechoes.request⟩
    · dsimp only
      rw [hsequence]
      exact hechoes.nextSequence.trans hnextSeq
  · have hnone : echoRequests (.startPing destination) t.network = [] := echoRequests_nil _ hmoves
    refine ⟨?_, fun _ => ⟨?_, rfl⟩, fun _ => ⟨hnone, ?_⟩, fun hw => ?_, ?_, ?_⟩
    · dsimp only
      rw [hnone]
      exact Nat.zero_le 1
    · dsimp only
      rw [hping]
    · dsimp only
      unfold udpNextHop
      rw [hhop, hping, hmoves.status]
      rfl
    · dsimp only at hw
      rw [hping] at hw
      rcases hstate with hs | hs <;> rw [hs] at hw <;> rcases hw with hw | hw <;> cases hw
    · exact h.sequences_snoc (by rw [hping])
    · dsimp only
      rw [hping]
      exact hseq.trans hnextSeq

theorem pingInv_step (h : PingInv t) (hslot : SlotFormed t.network) (st : Step) :
    PingInv (t.step st) := by
  cases st with
  | startPing destination => exact step_startPing h destination
  | sendUdp call =>
    have haside := sendUdp_pingAside t.network call
    refine h.advance ?_ rfl rfl rfl haside.status haside.nextHop haside.nextSequence
      (haside.ping ▸ advances_self _)
    simp [PingTrace.step, echoRequests_nil (.sendUdp call) haside.toMoves]
  | clearPingResult =>
    have hmoves : Moves (Lacks 1) t.network (Step.clearPingResult.exec t.network).2 :=
      ⟨rfl, le_rfl, [], by simp [Step.exec, clearPingResult], by simp⟩
    have hreq : (t.step .clearPingResult).requests = t.requests := by
      simp [PingTrace.step, echoRequests_nil _ hmoves]
    refine ⟨hreq ▸ h.once, fun hne => absurd rfl hne, fun hr => ?_, fun hw => ?_, h.sequences, h.next⟩
    · cases hr
    · rcases hw with hw | hw <;> cases hw
  | receive frame =>
    cases dispatchFrame_pingEffect frame hslot with
    | aside haside =>
      refine h.advance ?_ rfl rfl rfl haside.status haside.nextHop haside.nextSequence
        (haside.ping ▸ advances_self _)
      simp [PingTrace.step, echoRequests_nil (.receive frame) haside.toMoves]
    | echoed mac out answer resolving cached echoes =>
      exact h.echo (.receive frame) rfl resolving cached echoes
    | replied payloadBytes waiting reply next =>
      have hmoves : Moves (Lacks 1) t.network (dispatchFrame frame t.network) := by
        rw [next]
        exact ⟨rfl, le_rfl, [], by simp, by simp⟩
      have hnet : (t.step (.receive frame)).network = dispatchFrame frame t.network := rfl
      refine h.advance ?_ rfl rfl rfl hmoves.status ?_ ?_ ?_
      · simp [PingTrace.step, echoRequests_nil (.receive frame) hmoves]
      · rw [hnet, next]
      · rw [hnet, next]
      · rw [hnet, next]
        exact ⟨rfl, rfl, .inr (.inr ⟨waiting, rfl⟩)⟩
  | advanceTimeout =>
    obtain ⟨hmoves, hhop, hseq, hping⟩ := advanceTimeout_ping t.network
    refine h.advance ?_ rfl rfl rfl hmoves.status hhop hseq ?_
    · simp [PingTrace.step, echoRequests_nil (.advanceTimeout) hmoves]
    · have hnet : (t.step .advanceTimeout).network = advanceTimeout t.network := rfl
      rw [hnet]
      rcases hping with hp | ⟨hs, hp⟩ | ⟨hs, hp⟩
      · rw [hp]
        exact advances_self _
      · rw [hp]
        exact ⟨rfl, rfl, .inr (.inl ⟨by rw [hs]; decide, .inl rfl⟩)⟩
      · rw [hp]
        exact ⟨rfl, rfl, .inr (.inl ⟨by rw [hs]; decide, .inr rfl⟩)⟩
  | elapse seconds =>
    have hmoves : Moves (Lacks 1) t.network ((Step.elapse seconds).exec t.network).2 :=
      ⟨rfl, Nat.le_add_right _ _, [], by simp [Step.exec], by simp⟩
    refine h.advance ?_ rfl rfl rfl rfl rfl rfl (advances_self _)
    simp [PingTrace.step, echoRequests_nil _ hmoves]

theorem ping_step_network (st : Step) (t : PingTrace) :
    (t.step st).network = (st.exec t.network).2 := by
  cases st with
  | startPing destination =>
    unfold PingTrace.step
    dsimp only
    split <;> rfl
  | _ => rfl

theorem pingInv_run : ∀ (steps : List Step) {t : PingTrace} {u : UdpTrace}, PingInv t → UdpInv u →
    u.network = t.network → PingInv (t.run steps) ∧
      (t.run steps).network = runSteps steps t.network ∧ SlotFormed (t.run steps).network := by
  intro steps
  induction steps with
  | nil =>
    intro t u h hu heq
    refine ⟨h, rfl, fun hocc => ?_⟩
    rw [PingTrace.run, ← heq] at hocc ⊢
    exact (hu.slot hocc).2.1
  | cons st rest ih =>
    intro t u h hu heq
    have hslot : SlotFormed t.network := by
      rw [← heq]
      exact fun hocc => (hu.slot hocc).2.1
    have hnet : (u.step st).network = (t.step st).network := by
      rw [ping_step_network, ← heq]
      cases st <;> rfl
    obtain ⟨hinv, hrun, hformed⟩ := ih (pingInv_step h hslot st) (udpInv_step hu st) hnet
    refine ⟨hinv, ?_, hformed⟩
    rw [PingTrace.run, hrun, ping_step_network]
    rfl

end Trace

theorem exec_replyReceived {st : Step} {s : Network} (hslot : SlotFormed s)
    (hne : s.ping.state ≠ .replyReceived) (h : (st.exec s).2.ping.state = .replyReceived) :
    ∃ frame, st = .receive frame ∧ s.ping.state = .waitingReply ∧ IsEchoReply s frame := by
  cases st with
  | receive frame =>
    refine ⟨frame, rfl, ?_⟩
    cases dispatchFrame_pingEffect frame hslot with
    | aside haside => exact absurd (haside.ping ▸ h) hne
    | echoed mac out answer _ _ echoes =>
      simp only [Step.exec, echoes.ping] at h
      cases answer <;> cases h
    | replied payloadBytes waiting reply _ => exact ⟨waiting, reply⟩
  | sendUdp call => exact absurd ((sendUdp_pingAside s call).ping ▸ h) hne
  | startPing destination =>
    exfalso
    simp only [Step.exec] at h
    rcases startPing_cases destination s with hno | ⟨-, -, ⟨mac, out, answer, -, hechoes⟩ |
      ⟨-, -, -, state, hstate, hping⟩⟩
    · rw [hno] at h
      exact hne h
    · rw [hechoes.ping] at h
      cases answer <;> cases h
    · rw [hping] at h
      rcases hstate with hs | hs <;> rw [hs] at h <;> cases h
  | clearPingResult => cases h
  | advanceTimeout =>
    exfalso
    simp only [Step.exec] at h
    rcases (advanceTimeout_ping s).2.2.2 with hp | ⟨-, hp⟩ | ⟨-, hp⟩
    · rw [hp] at h
      exact hne h
    · rw [hp] at h
      cases h
    · rw [hp] at h
      cases h
  | elapse seconds => exact absurd h hne

theorem exec_finished {st : Step} {s : Network} (hslot : SlotFormed s)
    (hdone : s.ping.state = .hostUnreachable ∨ s.ping.state = .timedOut ∨
      s.ping.state = .replyReceived) (hst : st ≠ .clearPingResult) : (st.exec s).2.ping = s.ping := by
  have hidle : s.ping.state ≠ .idle := by
    rcases hdone with h | h | h <;> rw [h] <;> exact fun h => nomatch h
  have hresolving : s.ping.state ≠ .resolvingArp := by
    rcases hdone with h | h | h <;> rw [h] <;> exact fun h => nomatch h
  have hwaiting : s.ping.state ≠ .waitingReply := by
    rcases hdone with h | h | h <;> rw [h] <;> exact fun h => nomatch h
  cases st with
  | sendUdp call => exact (sendUdp_pingAside s call).ping
  | startPing destination =>
    rcases startPing_cases destination s with hno | ⟨-, hs, -⟩
    · simp only [Step.exec, hno]
    · exact absurd hs hidle
  | clearPingResult => exact absurd rfl hst
  | receive frame =>
    cases dispatchFrame_pingEffect frame hslot with
    | aside haside => exact haside.ping
    | echoed _ _ _ resolving _ _ => exact absurd resolving hresolving
    | replied _ waiting _ _ => exact absurd waiting hwaiting
  | advanceTimeout =>
    rcases (advanceTimeout_ping s).2.2.2 with hp | ⟨hs, -⟩ | ⟨hs, -⟩
    · exact hp
    · exact absurd hs hresolving
    · exact absurd hs hwaiting
  | elapse seconds => rfl

theorem pingInv_start (mac : MacAddress) (uptime : Nat) (elapsed : Nat → Nat)
    (answers : Nat → Bool) : PingInv (.start (.initial mac uptime elapsed answers)) where
  once := Nat.zero_le 1
  current h := absurd rfl h
  resolving h := nomatch h
  requested h := by rcases h with h | h <;> exact nomatch h
  sequences := rfl
  next := rfl

/-- **Ping runs.** In every run from an initialised network an accepted `start_ping` leads to at
most one echo request, pings start only from `Idle`, a reply is recorded only for the transmitted
request of the current ping, finished pings stay until they are cleared, and any 65536 pings in a
row have different sequence numbers. -/
theorem ping_runs (mac : MacAddress) (uptime : Nat) (elapsed : Nat → Nat) (answers : Nat → Bool)
    (steps : List Step) :
    let t := (PingTrace.start (.initial mac uptime elapsed answers)).run steps
    t.network = runSteps steps (.initial mac uptime elapsed answers) ∧
    t.requests.length ≤ 1 ∧
    (∀ destination, (startPing destination t.network).1 = true → t.network.ping.state = .idle) ∧
    (∀ st : Step, t.network.ping.state ≠ .replyReceived →
      (st.exec t.network).2.ping.state = .replyReceived →
      (∃ frame, st = .receive frame ∧ IsEchoReply t.network frame) ∧
      t.started = some (t.network.ping.address, t.network.ping.sequence) ∧ t.cleared = false ∧
      ∃ request nextHopMac, t.requests = [(request, some nextHopMac)] ∧
        IsEchoRequest t.network.status t.network.ping.address t.network.ping.sequence nextHopMac
          request) ∧
    (∀ st : Step, t.network.ping.state = .hostUnreachable ∨ t.network.ping.state = .timedOut ∨
        t.network.ping.state = .replyReceived → st ≠ .clearPingResult →
      (st.exec t.network).2.ping = t.network.ping) ∧
    ∀ i j (hj : j < t.sequences.length) (hi : i < j), j < i + 2 ^ 16 →
      t.sequences[i] ≠ t.sequences[j] := by
  obtain ⟨h, hrun, hslot⟩ := pingInv_run steps (pingInv_start mac uptime elapsed answers)
    (udpInv_start mac uptime elapsed answers) rfl
  refine ⟨hrun, h.once, fun destination hyes => ?_, fun st hne hs => ?_,
    fun st hdone hst => exec_finished hslot hdone hst, fun i j hj hi hij heq => ?_⟩
  · rcases startPing_cases destination
      ((PingTrace.start (.initial mac uptime elapsed answers)).run steps).network with hno | ⟨-, hs, -⟩
    · rw [hno] at hyes
      exact nomatch hyes
    · exact hs
  · obtain ⟨frame, rfl, hw, hreply⟩ := exec_replyReceived hslot hne hs
    obtain ⟨hstarted, hcleared⟩ := h.current (by rw [hw]; decide)
    exact ⟨⟨frame, rfl, hreply⟩, hstarted, hcleared, h.requested (.inl hw)⟩
  · rw [h.sequence_at, h.sequence_at] at heq
    omega

def echoReply : List UInt8 :=
  [2, 0, 0, 0, 0, 1, 0x52, 0x54, 0, 0x12, 0x35, 2, 8, 0, 0x45, 0, 0, 0x1c, 0, 7, 0, 0, 0x40,
    1, 0x62, 0xca, 10, 0, 2, 2, 10, 0, 2, 15, 0, 0, 0xb3, 0x69, 0x4c, 0x95, 0, 1]

def waitingPing : List Step :=
  [.receive gatewayReply, .startPing ![10, 0, 2, 2]]

theorem ping_runs_answered :
    let t := (PingTrace.start (.initial ![2, 0, 0, 0, 0, 1] 0 (fun _ => 0) fun _ => true)).run
      waitingPing
    t.started = some (t.network.ping.address, t.network.ping.sequence) ∧ t.cleared = false ∧
    IsEchoReply t.network echoReply := by
  intro t
  have hruns := ping_runs ![2, 0, 0, 0, 0, 1] 0 (fun _ => 0) (fun _ => true) waitingPing
  obtain ⟨⟨frame, heq, hreply⟩, hstarted, hcleared, -⟩ :=
    hruns.2.2.2.1 (.receive echoReply) (by decide +kernel) (by decide +kernel)
  rw [Step.receive.inj heq]
  exact ⟨hstarted, hcleared, hreply⟩

end Linux95.Net
