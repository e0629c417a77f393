import Mathlib.Data.Fin.VecNotation
import Mathlib.Data.List.FinRange
import Linux95.Net.Packets

/-! `net/network.cpp` with the cache of `net/arp.cpp`. The receive callbacks of the kernel do not
call back into the network, so a datagram for a bound port is only recorded. -/

namespace Linux95.Net

namespace Arp

structure CacheEntry where
  ip : Ipv4Address
  mac : MacAddress
  valid : Bool
  deriving DecidableEq

structure Cache where
  entries : Fin 8 → CacheEntry
  replaceIndex : Fin 8
  deriving DecidableEq

def Cache.reset : Cache := ⟨fun _ => ⟨fun _ => 0, fun _ => 0, false⟩, 0⟩

def Cache.find (c : Cache) (p : CacheEntry → Bool) : Option (Fin 8) :=
  (List.finRange 8).find? fun i => p (c.entries i)

def Cache.matching (c : Cache) (ip : Ipv4Address) : Option (Fin 8) :=
  c.find fun e => e.valid && e.ip = ip

def Cache.store (c : Cache) (i : Fin 8) (entry : CacheEntry) : Cache :=
  { c with entries := Function.update c.entries i entry }

def Cache.learn (c : Cache) (ip : Ipv4Address) (mac : MacAddress) : Cache :=
  match c.matching ip with
  | some i => c.store i { c.entries i with mac := mac }
  | none =>
    match c.find fun e => !e.valid with
    | some i => c.store i ⟨ip, mac, true⟩
    | none => { c.store c.replaceIndex ⟨ip, mac, true⟩ with replaceIndex := c.replaceIndex + 1 }

def Cache.lookup (c : Cache) (ip : Ipv4Address) : Option MacAddress :=
  (c.matching ip).map fun i => (c.entries i).mac

end Arp

inductive PingState where
  | idle | resolvingArp | waitingReply | replyReceived | hostUnreachable | timedOut
  deriving DecidableEq, Repr

structure PingResult where
  state : PingState
  address : Ipv4Address
  sequence : Nat
  payloadBytes : Nat
  deriving DecidableEq

def PingResult.cleared : PingResult := ⟨.idle, fun _ => 0, 0, 0⟩

structure NetStatus where
  online : Bool
  mac : MacAddress
  ip : Ipv4Address
  netmask : Ipv4Address
  gateway : Ipv4Address

structure PendingUdp where
  occupied : Bool
  nextHop : Ipv4Address
  deadline : Nat
  packet : List UInt8

/-- A frame handed to `rtl8139::transmit`, its answer, and the uptime last read before. -/
structure Transmission where
  frame : List UInt8
  accepted : Bool
  uptime : Nat
  deriving DecidableEq

/-- The globals of the network code, and below them what surrounds it: the uptime in seconds, which
every reading may find further on, the driver's answers, the frames the current call handed over,
and the datagrams given to the table of bound ports. The uptime is a quotient of 64-bit ticks, so adding a timeout does not wrap. -/
structure Network where
  status : NetStatus
  ping : PingResult
  nextHop : Ipv4Address
  deadline : Nat
  nextSequence : Nat
  nextIdentification : Nat
  pendingUdp : PendingUdp
  cache : Arp.Cache
  uptime : Nat
  elapsed : Nat → Nat
  answers : Nat → Bool
  sent : List Transmission
  dispatched : List (Ipv4Address × Udp.DatagramView)

def uptimeSeconds (s : Network) : Nat × Network :=
  (s.uptime + s.elapsed 0,
    { s with uptime := s.uptime + s.elapsed 0, elapsed := fun n => s.elapsed (n + 1) })

def transmit (frame : List UInt8) (s : Network) : Bool × Network :=
  (s.answers 0, { s with answers := fun n => s.answers (n + 1),
                         sent := s.sent ++ [⟨frame, s.answers 0, s.uptime⟩] })

def transmitEthernet (destination : MacAddress) (type : EtherType) (payload : List UInt8)
    (s : Network) : Bool × Network :=
  match buildEthernet 1518 destination s.status.mac type payload with
  | none => (false, s)
  | some frame => transmit frame s

def transmitArpRequest (target : Ipv4Address) (s : Network) : Bool × Network :=
  transmitEthernet (fun _ => 0xFF) .arp (Arp.buildRequest s.status.mac s.status.ip target) s

def transmitArpReply (targetMac : MacAddress) (targetIp : Ipv4Address) (s : Network) :
    Bool × Network :=
  transmitEthernet targetMac .arp (Arp.buildReply s.status.mac s.status.ip targetMac targetIp) s

def pingIdentifier : Nat := 0x4C95

def Network.takeIdentification (s : Network) : Network :=
  { s with nextIdentification := (s.nextIdentification + 1) % 2 ^ 16 }

def Network.setPingState (s : Network) (state : PingState) : Network :=
  { s with ping := { s.ping with state := state } }

def Network.freeSlot (s : Network) : Network :=
  { s with pendingUdp := { s.pendingUdp with occupied := false } }

def transmitEchoRequest (destinationMac : MacAddress) (s : Network) : Bool × Network :=
  match Icmp.buildEchoRequest 40 pingIdentifier s.ping.sequence with
  | none => (false, s)
  | some icmpPayload =>
    match Ipv4.build 1500 s.status.ip s.ping.address 1 s.nextIdentification icmpPayload with
    | none => (false, s.takeIdentification)
    | some packet =>
      match transmitEthernet destinationMac .ipv4 packet s.takeIdentification with
      | (false, s) => (false, s)
      | (true, s) =>
        let now := uptimeSeconds (s.setPingState .waitingReply)
        (true, { now.2 with deadline := now.1 + 2 })

def requestEcho (nextHopMac : MacAddress) (s : Network) : Network :=
  match transmitEchoRequest nextHopMac s with
  | (true, s) => s
  | (false, s) => s.setPingState .hostUnreachable

/-- The part of `handle_arp` that a waiting ping needs. -/
def resolvePing (s : Network) : Network :=
  if s.ping.state = .resolvingArp then
    match s.cache.lookup s.nextHop with
    | none => s
    | some nextHopMac => requestEcho nextHopMac s
  else s

/-- The part of `handle_arp` that a waiting datagram needs. -/
def releaseUdp (senderIp : Ipv4Address) (senderMac : MacAddress) (s : Network) : Network :=
  if s.pendingUdp.occupied then
    let now := uptimeSeconds s
    if now.1 ≥ s.pendingUdp.deadline then now.2.freeSlot
    else if senderIp = s.pendingUdp.nextHop then
      (transmitEthernet senderMac .ipv4 s.pendingUdp.packet now.2.freeSlot).2
    else now.2
  else s

def handleArp (payload : List UInt8) (s : Network) : Network :=
  match Arp.parse payload with
  | none => s
  | some packet =>
    let learned := { s with cache := s.cache.learn packet.senderIp packet.senderMac }
    let replied :=
      if packet.operation = 1 ∧ packet.targetIp = s.status.ip then
        (transmitArpReply packet.senderMac packet.senderIp learned).2
      else learned
    releaseUdp packet.senderIp packet.senderMac (resolvePing replied)

def handleIpv4 (payload : List UInt8) (s : Network) : Network :=
  match Ipv4.parse payload with
  | none => s
  | some packet =>
    if packet.destination ≠ s.status.ip then s
    else if packet.protocol = 1 then
      if s.ping.state ≠ .waitingReply ∨ packet.source ≠ s.ping.address then s
      else
        match Icmp.acceptEchoReply packet.payload pingIdentifier s.ping.sequence with
        | none => s
        | some payloadBytes =>
          { s with ping := { s.ping with payloadBytes := payloadBytes, state := .replyReceived } }
    else if packet.protocol = 17 then
      match Udp.parse packet.payload packet.source packet.destination with
      | none => s
      | some datagram => { s with dispatched := s.dispatched ++ [(packet.source, datagram)] }
    else s

def dispatchFrame (frame : List UInt8) (s : Network) : Network :=
  match parseEthernet frame with
  | none => s
  | some view =>
    if view.destination ≠ s.status.mac ∧ view.destination ≠ fun _ => 0xFF then s
    else
      match view.type with
      | .arp => handleArp view.payload s
      | .ipv4 => handleIpv4 view.payload s

def advanceTimeout (s : Network) : Network :=
  let now := uptimeSeconds s
  let s :=
    if now.2.pendingUdp.occupied ∧ now.1 ≥ now.2.pendingUdp.deadline then now.2.freeSlot else now.2
  if s.ping.state = .resolvingArp ∧ now.1 ≥ s.deadline then s.setPingState .hostUnreachable
  else if s.ping.state = .waitingReply ∧ now.1 ≥ s.deadline then s.setPingState .timedOut
  else s

/-- The loop of `poll`: at most `n` frames, as long as the driver has one. -/
def receiveFrames : Nat → List (List UInt8) → Network → Network
  | 0, _, s => s
  | _, [], s => s
  | n + 1, frame :: rest, s => receiveFrames n rest (dispatchFrame frame s)

def poll (frames : List (List UInt8)) (s : Network) : Network :=
  if !s.status.online then s else advanceTimeout (receiveFrames 8 frames s)

structure UdpArguments where
  destination : Ipv4Address
  sourcePort : Nat
  destinationPort : Nat
  /-- `none` is a null pointer with a nonzero length. -/
  payload : Option (List UInt8)

def udpNextHop (s : Network) (destination : Ipv4Address) : Ipv4Address :=
  Ipv4.nextHop destination s.status.ip s.status.netmask s.status.gateway

/-- The slot as `send_udp` finds it when the next hop is not cached: an expired packet is dropped. -/
def dropExpired (s : Network) : Network :=
  if s.pendingUdp.occupied then
    let now := uptimeSeconds s
    if now.1 ≥ s.pendingUdp.deadline then now.2.freeSlot else now.2
  else s

def parkUdp (nextHop : Ipv4Address) (packet : List UInt8) (s : Network) : Bool × Network :=
  let now := uptimeSeconds s
  match transmitArpRequest nextHop { now.2 with pendingUdp := ⟨true, nextHop, now.1 + 1, packet⟩ } with
  | (true, s) => (true, s)
  | (false, s) => (false, s.freeSlot)

def buildAndSend (call : UdpArguments) (payload : List UInt8) (nextHop : Ipv4Address)
    (cached : Option MacAddress) (s : Network) : Bool × Network :=
  match Udp.build 1480 s.status.ip call.destination call.sourcePort call.destinationPort payload with
  | none => (false, s)
  | some datagram =>
    match Ipv4.build 1500 s.status.ip call.destination 17 s.nextIdentification datagram with
    | none => (false, s.takeIdentification)
    | some packet =>
      match cached with
      | some nextHopMac => transmitEthernet nextHopMac .ipv4 packet s.takeIdentification
      | none => parkUdp nextHop packet s.takeIdentification

def sendUdp (call : UdpArguments) (s : Network) : Bool × Network :=
  match call.payload with
  | none => (false, s)
  | some payload =>
    if !s.status.online ∨ call.sourcePort = 0 ∨ call.destinationPort = 0 ∨
        payload.length > Udp.maxPayloadLength then (false, s)
    else
      let nextHop := udpNextHop s call.destination
      match s.cache.lookup nextHop with
      | some nextHopMac => buildAndSend call payload nextHop (some nextHopMac) s
      | none =>
        if (dropExpired s).pendingUdp.occupied then (false, dropExpired s)
        else buildAndSend call payload nextHop none (dropExpired s)

def Network.setUpPing (s : Network) (destination : Ipv4Address) : Network :=
  { s with ping := ⟨s.ping.state, destination, s.nextSequence, 0⟩
           nextSequence := (s.nextSequence + 1) % 2 ^ 16
           nextHop := udpNextHop s destination }

def resolveNextHop (s : Network) : Network :=
  let now := uptimeSeconds (s.setPingState .resolvingArp)
  match transmitArpRequest s.nextHop { now.2 with deadline := now.1 + 1 } with
  | (true, s) => s
  | (false, s) => s.setPingState .hostUnreachable

def startPing (destination : Ipv4Address) (s : Network) : Bool × Network :=
  if !s.status.online ∨ s.ping.state ≠ .idle then (false, s)
  else
    match s.cache.lookup (s.setUpPing destination).nextHop with
    | some nextHopMac => (true, requestEcho nextHopMac (s.setUpPing destination))
    | none => (true, resolveNextHop (s.setUpPing destination))

def clearPingResult (s : Network) : Network := { s with ping := .cleared }

def Network.initial (mac : MacAddress) (uptime : Nat) (elapsed : Nat → Nat) (answers : Nat → Bool) :
    Network where
  status := ⟨true, mac, ![10, 0, 2, 15], ![255, 255, 255, 0], ![10, 0, 2, 2]⟩
  ping := .cleared
  nextHop := fun _ => 0
  deadline := 0
  nextSequence := 1
  nextIdentification := 1
  pendingUdp := ⟨false, fun _ => 0, 0, []⟩
  cache := .reset
  uptime := uptime
  elapsed := elapsed
  answers := answers
  sent := []
  dispatched := []

end Linux95.Net
