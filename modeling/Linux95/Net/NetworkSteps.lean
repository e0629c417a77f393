import Linux95.Net.Frames

/-! The steps of the network: the calls from outside, the frames `poll` receives and the passing of
time. For each function one lemma says what it does to the slot for a waiting datagram. -/

namespace Linux95.Net

section Cache
open Arp
variable {c : Cache} {ip : Ipv4Address} {mac : MacAddress}

theorem Arp.Cache.find_some {p : CacheEntry → Bool} {i : Fin 8} (h : c.find p = some i) :
    p (c.entries i) = true := by
  have := List.find?_some h
  simpa using this

theorem Arp.Cache.find_none {p : CacheEntry → Bool} (h : c.find p = none) (i : Fin 8) :
    p (c.entries i) = false := by
  have := List.find?_eq_none.mp h i (List.mem_finRange i)
  simpa using this

theorem Arp.Cache.lookup_some (h : c.lookup ip = some mac) :
    ∃ i, (c.entries i).valid = true ∧ (c.entries i).ip = ip ∧ (c.entries i).mac = mac := by
  unfold Cache.lookup at h
  obtain ⟨i, hi, hmac⟩ := Option.map_eq_some_iff.mp h
  have := Cache.find_some hi
  simp only [Bool.and_eq_true, decide_eq_true_eq] at this
  exact ⟨i, this.1, this.2, hmac⟩

theorem Arp.Cache.lookup_none : c.lookup ip = none ↔
    ∀ i, (c.entries i).valid = true → (c.entries i).ip ≠ ip := by
  unfold Cache.lookup
  rw [Option.map_eq_none_iff]
  constructor
  · intro h i hv hip
    have := Cache.find_none h i
    simp [hv, hip] at this
  · intro h
    cases hm : c.matching ip with
    | none => rfl
    | some i =>
      have := Cache.find_some hm
      simp only [Bool.and_eq_true, decide_eq_true_eq] at this
      exact absurd this.2 (h i this.1)

theorem Arp.Cache.learn_entries (c : Cache) (ip : Ipv4Address) (mac : MacAddress) (i : Fin 8) :
    (c.learn ip mac).entries i = c.entries i ∨ (c.learn ip mac).entries i = ⟨ip, mac, true⟩ := by
  have hstore : ∀ j entry, (c.store j entry).entries i = c.entries i ∨
      (c.store j entry).entries i = entry := by
    intro j entry
    by_cases hij : i = j
    · subst hij
      exact .inr (Function.update_self _ _ _)
    · exact .inl (Function.update_of_ne hij _ _)
  unfold Cache.learn
  cases hm : c.matching ip with
  | some j =>
    have := Cache.find_some hm
    simp only [Bool.and_eq_true, decide_eq_true_eq] at this
    rcases hstore j { c.entries j with mac := mac } with h | h
    · exact .inl h
    · right
      have hentry : (⟨(c.entries j).ip, mac, (c.entries j).valid⟩ : CacheEntry) = ⟨ip, mac, true⟩ := by
        rw [this.1, this.2]
      exact h.trans hentry
  | none =>
    dsimp only
    cases c.find fun e => !e.valid with
    | some j => exact hstore j _
    | none => exact hstore c.replaceIndex _

theorem Arp.Cache.learn_lookup_none {ip' : Ipv4Address} (h : c.lookup ip' = none) (hne : ip ≠ ip')
    (mac : MacAddress) : (c.learn ip mac).lookup ip' = none := by
  rw [Cache.lookup_none] at h ⊢
  intro i hv
  rcases c.learn_entries ip mac i with hi | hi
  · rw [hi] at hv ⊢
    exact h i hv
  · rw [hi]
    exact hne

end Cache

inductive Step where
  | sendUdp (call : UdpArguments)
  | startPing (destination : Ipv4Address)
  | clearPingResult
  | receive (frame : List UInt8)
  | advanceTimeout
  | elapse (seconds : Nat)

def Step.exec : Step → Network → Bool × Network
  | .sendUdp call, s => Net.sendUdp call s
  | .startPing destination, s => Net.startPing destination s
  | .clearPingResult, s => (true, Net.clearPingResult s)
  | .receive frame, s => (true, dispatchFrame frame s)
  | .advanceTimeout, s => (true, Net.advanceTimeout s)
  | .elapse seconds, s => (true, { s with uptime := s.uptime + seconds })

def runSteps : List Step → Network → Network
  | [], s => s
  | st :: rest, s => runSteps rest (st.exec s).2

inductive Call where
  | sendUdp (call : UdpArguments)
  | startPing (destination : Ipv4Address)
  | clearPingResult
  | poll (frames : List (List UInt8))
  | elapse (seconds : Nat)

def Call.exec : Call → Network → Network
  | .sendUdp call, s => (Net.sendUdp call s).2
  | .startPing destination, s => (Net.startPing destination s).2
  | .clearPingResult, s => Net.clearPingResult s
  | .poll frames, s => Net.poll frames s
  | .elapse seconds, s => { s with uptime := s.uptime + seconds }

/-- `poll` handles at most eight frames and then the timeouts. -/
def Call.steps : Call → List Step
  | .sendUdp call => [.sendUdp call]
  | .startPing destination => [.startPing destination]
  | .clearPingResult => [.clearPingResult]
  | .poll frames => (frames.take 8).map .receive ++ [.advanceTimeout]
  | .elapse seconds => [.elapse seconds]

theorem runSteps_append (as bs : List Step) (s : Network) :
    runSteps (as ++ bs) s = runSteps bs (runSteps as s) := by
  induction as generalizing s with
  | nil => rfl
  | cons st rest ih => exact ih (st.exec s).2

theorem receiveFrames_eq (n : Nat) (frames : List (List UInt8)) (s : Network) :
    receiveFrames n frames s = runSteps ((frames.take n).map .receive) s := by
  induction n generalizing frames s with
  | zero => simp [receiveFrames, runSteps]
  | succ n ih =>
    cases frames with
    | nil => rfl
    | cons frame rest => exact ih rest (dispatchFrame frame s)

theorem Call.exec_eq (call : Call) {s : Network} (honline : s.status.online = true) :
    call.exec s = runSteps call.steps s := by
  cases call with
  | poll frames =>
    simp only [Call.exec, Call.steps, Net.poll, honline, runSteps_append, receiveFrames_eq]
    rfl
  | sendUdp _ => rfl
  | startPing _ => rfl
  | clearPingResult => rfl
  | elapse _ => rfl

def PendingUdp.freed (p : PendingUdp) : PendingUdp := { p with occupied := false }

section Sends
variable (s : Network)

theorem dropExpired_spec : Moves (Lacks 17) s (dropExpired s) ∧ (dropExpired s).cache = s.cache ∧
    ((dropExpired s).pendingUdp = s.pendingUdp ∨ s.pendingUdp.occupied = true ∧
      s.pendingUdp.deadline ≤ (uptimeSeconds s).1 ∧
      (dropExpired s).pendingUdp = s.pendingUdp.freed) ∧
    (dropExpired s).nextIdentification = s.nextIdentification := by
  have hmoves := moves_uptimeSeconds (P := Lacks 17) s
  unfold dropExpired
  split_ifs with hocc
  · dsimp only
    split_ifs with hdue
    · exact ⟨⟨hmoves.status, hmoves.uptime, hmoves.sent⟩, rfl, .inr ⟨hocc, hdue, rfl⟩, rfl⟩
    · exact ⟨hmoves, rfl, .inl rfl, rfl⟩
  · exact ⟨.refl s, rfl, .inl rfl, rfl⟩

theorem parkUdp_spec (nextHop : Ipv4Address) (packet : List UInt8) :
    Moves (Lacks 17) s (parkUdp nextHop packet s).2 ∧ (parkUdp nextHop packet s).2.cache = s.cache ∧
    (parkUdp nextHop packet s).2.pendingUdp =
      ⟨(parkUdp nextHop packet s).1, nextHop, (uptimeSeconds s).1 + 1, packet⟩ := by
  have hmoves := moves_uptimeSeconds (P := Lacks 17) s
  unfold parkUdp
  dsimp only
  generalize hparked : ({ (uptimeSeconds s).2 with
    pendingUdp := ⟨true, nextHop, (uptimeSeconds s).1 + 1, packet⟩ } : Network) = parked
  have hstart : Moves (Lacks 17) s parked := by
    rw [← hparked]
    exact ⟨hmoves.status, hmoves.uptime, hmoves.sent⟩
  have hcache : parked.cache = s.cache := by rw [← hparked]; rfl
  have hslot : parked.pendingUdp = ⟨true, nextHop, (uptimeSeconds s).1 + 1, packet⟩ := by
    rw [← hparked]
  have haside := (transmitArpRequest_aside parked nextHop).1
  cases hr : transmitArpRequest nextHop parked with
  | mk ok s' =>
    rw [hr] at haside
    have hall : Moves (Lacks 17) s s' := hstart.trans haside.toMoves
    cases ok with
    | true => exact ⟨hall, haside.cache.trans hcache, haside.pendingUdp.trans hslot⟩
    | false =>
      refine ⟨⟨hall.status, hall.uptime, hall.sent⟩, haside.cache.trans hcache, ?_⟩
      exact congrArg PendingUdp.freed (haside.pendingUdp.trans hslot)

def udpPacket (call : UdpArguments) : Option (List UInt8) :=
  call.payload.bind fun payload =>
    (Udp.build 1480 s.status.ip call.destination call.sourcePort call.destinationPort payload).bind
      (Ipv4.build 1500 s.status.ip call.destination 17 s.nextIdentification)

theorem udpPacket_some {call : UdpArguments} {payload : List UInt8}
    (hp : call.payload = some payload) (hlen : payload.length ≤ Udp.maxPayloadLength) :
    ∃ datagram packet, Udp.build 1480 s.status.ip call.destination call.sourcePort
        call.destinationPort payload = some datagram ∧
      Ipv4.build 1500 s.status.ip call.destination 17 s.nextIdentification datagram = some packet ∧
      udpPacket s call = some packet := by
  have hmax : Udp.maxPayloadLength = 1472 := rfl
  obtain ⟨datagram, hd⟩ : ∃ d, Udp.build 1480 s.status.ip call.destination call.sourcePort
      call.destinationPort payload = some d := by
    unfold Udp.build
    rw [if_neg (by omega)]
    exact ⟨_, rfl⟩
  have hdlen : datagram.length = 8 + payload.length := by
    unfold Udp.build at hd
    rw [if_neg (by omega)] at hd
    rw [← Option.some.inj hd]
    simp [Udp.datagram, be16_length]
    omega
  obtain ⟨packet, hpacket⟩ : ∃ p, Ipv4.build 1500 s.status.ip call.destination 17
      s.nextIdentification datagram = some p := by
    unfold Ipv4.build
    dsimp only
    rw [if_neg (by omega)]
    exact ⟨_, rfl⟩
  refine ⟨datagram, packet, hd, hpacket, ?_⟩
  unfold udpPacket
  rw [hp, Option.bind_some, hd, Option.bind_some, hpacket]

theorem udpPacket_length {call : UdpArguments} {packet : List UInt8}
    (h : udpPacket s call = some packet) : packet.length ≤ 1500 ∧ byteAt packet 9 = 17 := by
  unfold udpPacket at h
  obtain ⟨payload, -, h⟩ := Option.bind_eq_some_iff.mp h
  obtain ⟨datagram, -, h⟩ := Option.bind_eq_some_iff.mp h
  exact ⟨ipv4Build_length h, ipv4Build_protocol h⟩

theorem sendUdp_cases (call : UdpArguments) :
    (∃ s', sendUdp call s = (false, s') ∧ (s' = s ∨ s' = dropExpired s)) ∨
    (∃ mac packet frame, s.cache.lookup (udpNextHop s call.destination) = some mac ∧
      udpPacket s call = some packet ∧
      buildEthernet 1518 mac s.status.mac .ipv4 packet = some frame ∧
      sendUdp call s = transmit frame s.takeIdentification) ∨
    ∃ packet, s.cache.lookup (udpNextHop s call.destination) = none ∧
      (dropExpired s).pendingUdp.occupied = false ∧ udpPacket s call = some packet ∧
      sendUdp call s =
        parkUdp (udpNextHop s call.destination) packet (dropExpired s).takeIdentification := by
  cases hp : call.payload with
  | none => exact .inl ⟨s, by simp only [sendUdp, hp], .inl rfl⟩
  | some payload =>
    by_cases hbad : !s.status.online ∨ call.sourcePort = 0 ∨ call.destinationPort = 0 ∨
        payload.length > Udp.maxPayloadLength
    · refine .inl ⟨s, ?_, .inl rfl⟩
      simp only [sendUdp, hp]
      rw [if_pos hbad]
    have hgood := hbad
    push Not at hbad
    obtain ⟨datagram, packet, hd, hpacket, hudp⟩ := udpPacket_some s hp hbad.2.2.2
    cases hl : s.cache.lookup (udpNextHop s call.destination) with
    | some mac =>
      obtain ⟨frame, hframe, hsend⟩ :=
        transmitEthernet_eq s.takeIdentification (udpPacket_length s hudp).1 mac .ipv4
      refine .inr (.inl ⟨mac, packet, frame, rfl, hudp, hframe, ?_⟩)
      simp only [sendUdp, hp, hl]
      rw [if_neg hgood]
      simp only [buildAndSend, hd, hpacket]
      exact hsend
    | none =>
      obtain ⟨hmoves, -, -, hid⟩ := dropExpired_spec s
      by_cases hocc : (dropExpired s).pendingUdp.occupied = true
      · refine .inl ⟨_, ?_, .inr rfl⟩
        simp only [sendUdp, hp, hl]
        rw [if_neg hgood, if_pos hocc]
      · refine .inr (.inr ⟨packet, rfl, by simpa using hocc, hudp, ?_⟩)
        simp only [sendUdp, hp, hl]
        rw [if_neg hgood, if_neg hocc]
        simp only [buildAndSend, hmoves.status, hid, hd, hpacket]

end Sends

def arpSender (s : Network) (frame : List UInt8) : Option (Ipv4Address × MacAddress) :=
  match parseEthernet frame with
  | none => none
  | some view =>
    if view.destination ≠ s.status.mac ∧ view.destination ≠ fun _ => 0xFF then none
    else
      match view.type with
      | .arp => (Arp.parse view.payload).map fun packet => (packet.senderIp, packet.senderMac)
      | .ipv4 => none

/-- How an ARP packet from `ip` can leave the slot: as it was, expired, or handed to the driver. -/
inductive Release (ip : Ipv4Address) (mac : MacAddress) (s s' : Network) : Prop where
  | kept (moves : Moves (Lacks 17) s s') (slot : s'.pendingUdp = s.pendingUdp)
      (other : s.pendingUdp.occupied = true →
        s'.uptime < s.pendingUdp.deadline ∧ ip ≠ s.pendingUdp.nextHop)
  | expired (moves : Moves (Lacks 17) s s') (occupied : s.pendingUdp.occupied = true)
      (late : s.pendingUdp.deadline ≤ s'.uptime) (slot : s'.pendingUdp = s.pendingUdp.freed)
  | handed (frame : List UInt8) (answer : Bool) (new : List Transmission)
      (status : s'.status = s.status) (later : s.uptime ≤ s'.uptime)
      (occupied : s.pendingUdp.occupied = true) (intime : s'.uptime < s.pendingUdp.deadline)
      (hop : ip = s.pendingUdp.nextHop) (slot : s'.pendingUdp = s.pendingUdp.freed)
      (sent : s'.sent = s.sent ++ new ++ [⟨frame, answer, s'.uptime⟩])
      (others : ∀ t ∈ new, Lacks 17 t)
      (built : buildEthernet 1518 mac s.status.mac .ipv4 s.pendingUdp.packet = some frame)

theorem releaseUdp_spec (ip : Ipv4Address) (mac : MacAddress) (s : Network)
    (hlen : s.pendingUdp.occupied = true → s.pendingUdp.packet.length ≤ 1500) :
    Release ip mac s (releaseUdp ip mac s) ∧ (releaseUdp ip mac s).cache = s.cache := by
  have hmoves := moves_uptimeSeconds (P := Lacks 17) s
  unfold releaseUdp
  by_cases hocc : s.pendingUdp.occupied = true
  · rw [if_pos hocc]
    dsimp only
    by_cases hlate : (uptimeSeconds s).1 ≥ s.pendingUdp.deadline
    · rw [if_pos hlate]
      exact ⟨.expired ⟨hmoves.status, hmoves.uptime, hmoves.sent⟩ hocc hlate rfl, rfl⟩
    rw [if_neg hlate]
    have hlt : s.uptime + s.elapsed 0 < s.pendingUdp.deadline := Nat.lt_of_not_le hlate
    by_cases hip : ip = s.pendingUdp.nextHop
    · rw [if_pos hip]
      obtain ⟨frame, hframe, heq⟩ :=
        transmitEthernet_eq (uptimeSeconds s).2.freeSlot (hlen hocc) mac .ipv4
      rw [heq]
      refine ⟨.handed frame (s.answers 0) [] rfl (Nat.le_add_right _ _) hocc hlt hip rfl ?_ (by simp)
        hframe, rfl⟩
      simp [transmit, uptimeSeconds, Network.freeSlot]
    · rw [if_neg hip]
      exact ⟨.kept hmoves rfl fun _ => ⟨hlt, hip⟩, rfl⟩
  · rw [if_neg hocc]
    exact ⟨.kept (.refl s) rfl fun h => absurd h hocc, rfl⟩

theorem Release.after {ip : Ipv4Address} {mac : MacAddress} {s s₁ s' : Network}
    (h : Release ip mac s₁ s') (hmoves : Moves (Lacks 17) s s₁)
    (hslot : s₁.pendingUdp = s.pendingUdp) : Release ip mac s s' := by
  cases h with
  | kept moves slot other =>
    rw [hslot] at slot other
    exact .kept (hmoves.trans moves) slot other
  | expired moves occupied late slot =>
    rw [hslot] at occupied late slot
    exact .expired (hmoves.trans moves) occupied late slot
  | handed frame answer new status later occupied intime hop slot sent others built =>
    rw [hslot] at occupied intime hop slot built
    rw [hmoves.status] at built
    obtain ⟨before, hbefore, hlacks⟩ := hmoves.sent
    refine .handed frame answer (before ++ new) (status.trans hmoves.status)
      (hmoves.uptime.trans later) occupied intime hop slot ?_ ?_ built
    · rw [sent, hbefore]
      simp only [List.append_assoc]
    · intro t ht
      exact (List.mem_append.mp ht).elim (hlacks t) (others t)

theorem handleIpv4_udpAside (payload : List UInt8) (s : Network) :
    UdpAside s (handleIpv4 payload s) := by
  unfold handleIpv4
  cases Ipv4.parse payload with
  | none => exact .refl s
  | some packet =>
    dsimp only
    by_cases h1 : packet.destination ≠ s.status.ip
    · rw [if_pos h1]
      exact .refl s
    rw [if_neg h1]
    by_cases h2 : packet.protocol = 1
    · rw [if_pos h2]
      by_cases h3 : s.ping.state ≠ .waitingReply ∨ packet.source ≠ s.ping.address
      · rw [if_pos h3]
        exact .refl s
      rw [if_neg h3]
      cases Icmp.acceptEchoReply packet.payload pingIdentifier s.ping.sequence with
      | none => exact .refl s
      | some payloadBytes => exact ⟨⟨rfl, le_rfl, [], by simp, by simp⟩, rfl, rfl⟩
    rw [if_neg h2]
    by_cases h4 : packet.protocol = 17
    · rw [if_pos h4]
      cases Udp.parse packet.payload packet.source packet.destination with
      | none => exact .refl s
      | some datagram => exact ⟨⟨rfl, le_rfl, [], by simp, by simp⟩, rfl, rfl⟩
    · rw [if_neg h4]
      exact .refl s

theorem dispatchFrame_spec (frame : List UInt8) {s : Network}
    (hlen : s.pendingUdp.occupied = true → s.pendingUdp.packet.length ≤ 1500) :
    match arpSender s frame with
    | none => UdpAside s (dispatchFrame frame s)
    | some (ip, mac) => Release ip mac s (dispatchFrame frame s) ∧
        (dispatchFrame frame s).cache = s.cache.learn ip mac := by
  unfold arpSender dispatchFrame
  cases parseEthernet frame with
  | none => exact .refl s
  | some view =>
    dsimp only
    by_cases hdest : view.destination ≠ s.status.mac ∧ view.destination ≠ fun _ => 0xFF
    · rw [if_pos hdest, if_pos hdest]
      exact .refl s
    rw [if_neg hdest, if_neg hdest]
    cases view.type with
    | ipv4 => exact handleIpv4_udpAside view.payload s
    | arp =>
      dsimp only
      unfold handleArp
      cases Arp.parse view.payload with
      | none => exact .refl s
      | some packet =>
        dsimp only [Option.map_some]
        generalize hlearned : ({ s with
          cache := s.cache.learn packet.senderIp packet.senderMac } : Network) = learned
        have hstart : Moves (Lacks 17) s learned := by
          rw [← hlearned]
          exact ⟨rfl, le_rfl, [], by simp, by simp⟩
        have hslot : learned.pendingUdp = s.pendingUdp := by rw [← hlearned]
        have hcache : learned.cache = s.cache.learn packet.senderIp packet.senderMac := by
          rw [← hlearned]
        have hreplied : UdpAside learned (if packet.operation = 1 ∧ packet.targetIp = s.status.ip then
            (transmitArpReply packet.senderMac packet.senderIp learned).2 else learned) := by
          split_ifs
          · exact (transmitArpReply_aside learned _ _).1
          · exact .refl learned
        have hresolved := hreplied.trans (resolvePing_udpAside _)
        obtain ⟨hrelease, hcache'⟩ := releaseUdp_spec packet.senderIp packet.senderMac
          (resolvePing (if packet.operation = 1 ∧ packet.targetIp = s.status.ip then
            (transmitArpReply packet.senderMac packet.senderIp learned).2 else learned))
          (by rw [hresolved.pendingUdp, hslot]; exact hlen)
        refine ⟨hrelease.after (hstart.trans hresolved.toMoves) (hresolved.pendingUdp.trans hslot), ?_⟩
        rw [hcache', hresolved.cache, hcache]

theorem resolveNextHop_udpAside (s : Network) : UdpAside s (resolveNextHop s) := by
  have hmoves := moves_uptimeSeconds (P := Lacks 17) (s.setPingState .resolvingArp)
  unfold resolveNextHop
  dsimp only
  generalize hasking : ({ (uptimeSeconds (s.setPingState .resolvingArp)).2 with
    deadline := (uptimeSeconds (s.setPingState .resolvingArp)).1 + 1 } : Network) = asking
  have hstart : UdpAside s asking := by
    rw [← hasking]
    exact ⟨⟨hmoves.status, hmoves.uptime, hmoves.sent⟩, rfl, rfl⟩
  have hasked := hstart.trans (transmitArpRequest_aside asking s.nextHop).1
  cases hr : transmitArpRequest s.nextHop asking with
  | mk ok s' =>
    rw [hr] at hasked
    cases ok with
    | true => exact hasked
    | false => exact setPingState_udpAside hasked _

theorem startPing_udpAside (destination : Ipv4Address) (s : Network) :
    UdpAside s (startPing destination s).2 := by
  have hstart : UdpAside s (s.setUpPing destination) :=
    ⟨⟨rfl, le_rfl, [], by simp [Network.setUpPing], by simp⟩, rfl, rfl⟩
  unfold startPing
  split_ifs
  · exact .refl s
  cases s.cache.lookup (s.setUpPing destination).nextHop with
  | some mac =>
    dsimp only
    exact hstart.trans (requestEcho_udpAside _ mac)
  | none =>
    dsimp only
    exact hstart.trans (resolveNextHop_udpAside _)

theorem clearPingResult_udpAside (s : Network) : UdpAside s (clearPingResult s) :=
  ⟨⟨rfl, le_rfl, [], by simp [clearPingResult], by simp⟩, rfl, rfl⟩

theorem advanceTimeout_spec (s : Network) : Moves (Lacks 17) s (advanceTimeout s) ∧
    (advanceTimeout s).cache = s.cache ∧
    ((advanceTimeout s).pendingUdp = s.pendingUdp ∨ s.pendingUdp.occupied = true ∧
      s.pendingUdp.deadline ≤ (uptimeSeconds s).1 ∧
      (advanceTimeout s).pendingUdp = s.pendingUdp.freed) := by
  have hmoves := moves_uptimeSeconds (P := Lacks 17) s
  have hping : ∀ s₁ : Network, ∃ state, (if s₁.ping.state = .resolvingArp ∧
      (uptimeSeconds s).1 ≥ s₁.deadline then s₁.setPingState .hostUnreachable
      else if s₁.ping.state = .waitingReply ∧ (uptimeSeconds s).1 ≥ s₁.deadline then
        s₁.setPingState .timedOut else s₁) = s₁.setPingState state := by
    intro s₁
    split_ifs
    · exact ⟨_, rfl⟩
    · exact ⟨_, rfl⟩
    · exact ⟨s₁.ping.state, rfl⟩
  unfold advanceTimeout
  dsimp only
  obtain ⟨state, hstate⟩ := hping (if (uptimeSeconds s).2.pendingUdp.occupied = true ∧
    (uptimeSeconds s).1 ≥ (uptimeSeconds s).2.pendingUdp.deadline then (uptimeSeconds s).2.freeSlot
    else (uptimeSeconds s).2)
  rw [hstate]
  split_ifs with hdue
  · exact ⟨⟨hmoves.status, hmoves.uptime, hmoves.sent⟩, rfl, .inr ⟨hdue.1, hdue.2, rfl⟩⟩
  · exact ⟨⟨hmoves.status, hmoves.uptime, hmoves.sent⟩, rfl, .inl rfl⟩

end Linux95.Net
