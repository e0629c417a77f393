import Linux95.Net.Types

/-! The packet formats: `net/ethernet.cpp`, `net/arp.cpp` without its cache, `net/ipv4.cpp`,
`net/icmp.cpp` and `net/udp.cpp`. A pointer with its 16-bit length is the list of its bytes. -/

namespace Linux95.Net

def addressAt (bytes : List UInt8) (offset : Nat) : Ipv4Address := fun i => byteAt bytes (offset + i)

def macAt (bytes : List UInt8) (offset : Nat) : MacAddress := fun i => byteAt bytes (offset + i)

def wordSum : List UInt8 → Nat
  | [] => 0
  | [high] => high.toNat * 2 ^ 8
  | high :: low :: rest => high.toNat * 2 ^ 8 + low.toNat + wordSum rest

/-- The loop that adds the carries back. A sum of 16-bit words of at most `2^16` bytes needs three
turns at most. -/
def foldCarries : Nat → Nat → Nat
  | 0, sum => sum
  | turns + 1, sum =>
    if sum / 2 ^ 16 ≠ 0 then foldCarries turns (sum % 2 ^ 16 + sum / 2 ^ 16) else sum

def onesComplement (sum : Nat) : Nat := 2 ^ 16 - 1 - foldCarries 3 sum % 2 ^ 16

def checksum (data : List UInt8) : Nat := onesComplement (wordSum data)

inductive EtherType where
  | ipv4 | arp
  deriving DecidableEq, Repr

def EtherType.value : EtherType → Nat
  | .ipv4 => 0x0800
  | .arp => 0x0806

structure EthernetView where
  destination : MacAddress
  source : MacAddress
  type : EtherType
  payload : List UInt8
  deriving DecidableEq

def parseEthernet (frame : List UInt8) : Option EthernetView :=
  if frame.length < 14 then none
  else if readBe16 frame 12 = EtherType.ipv4.value then
    some ⟨macAt frame 0, macAt frame 6, .ipv4, frame.drop 14⟩
  else if readBe16 frame 12 = EtherType.arp.value then
    some ⟨macAt frame 0, macAt frame 6, .arp, frame.drop 14⟩
  else none

def buildEthernet (capacity : Nat) (destination source : MacAddress) (type : EtherType)
    (payload : List UInt8) : Option (List UInt8) :=
  if 14 + payload.length > capacity ∨ 14 + payload.length > 0xFFFF then none
  else some (List.ofFn destination ++ List.ofFn source ++ be16 type.value ++ payload)

namespace Arp

structure Packet where
  operation : Nat
  senderMac : MacAddress
  senderIp : Ipv4Address
  targetIp : Ipv4Address
  deriving DecidableEq

def parse (payload : List UInt8) : Option Packet :=
  if payload.length < 28 then none
  else if readBe16 payload 0 ≠ 1 ∨ readBe16 payload 2 ≠ 0x0800 ∨ byteAt payload 4 ≠ 6 ∨
      byteAt payload 5 ≠ 4 then none
  else if readBe16 payload 6 ≠ 1 ∧ readBe16 payload 6 ≠ 2 then none
  else some ⟨readBe16 payload 6, macAt payload 8, addressAt payload 14, addressAt payload 24⟩

def buildPacket (operation : Nat) (localMac : MacAddress) (localIp : Ipv4Address)
    (targetMac : MacAddress) (targetIp : Ipv4Address) : List UInt8 :=
  be16 1 ++ be16 0x0800 ++ [6, 4] ++ be16 operation ++ List.ofFn localMac ++ List.ofFn localIp ++
    List.ofFn targetMac ++ List.ofFn targetIp

def buildRequest (localMac : MacAddress) (localIp targetIp : Ipv4Address) : List UInt8 :=
  buildPacket 1 localMac localIp (fun _ => 0) targetIp

def buildReply (localMac : MacAddress) (localIp : Ipv4Address) (targetMac : MacAddress)
    (targetIp : Ipv4Address) : List UInt8 :=
  buildPacket 2 localMac localIp targetMac targetIp

end Arp

namespace Ipv4

structure PacketView where
  source : Ipv4Address
  destination : Ipv4Address
  protocol : UInt8
  payload : List UInt8
  deriving DecidableEq

def parse (packet : List UInt8) : Option PacketView :=
  if packet.length < 20 then none
  else
    let headerLength := (byteAt packet 0).toNat % 16 * 4
    let totalLength := readBe16 packet 2
    if (byteAt packet 0).toNat / 16 ≠ 4 ∨ (byteAt packet 0).toNat % 16 < 5 then none
    else if headerLength > packet.length then none
    else if totalLength < headerLength ∨ totalLength > packet.length then none
    else if readBe16 packet 6 % 2 ^ 14 ≠ 0 then none
    else if checksum (packet.take headerLength) ≠ 0 then none
    else some ⟨addressAt packet 12, addressAt packet 16, byteAt packet 9,
      (packet.drop headerLength).take (totalLength - headerLength)⟩

def header (source destination : Ipv4Address) (protocol : UInt8) (identification totalLength : Nat)
    (headerChecksum : Nat) : List UInt8 :=
  [0x45, 0] ++ be16 totalLength ++ be16 identification ++ be16 0 ++ [64, protocol] ++
    be16 headerChecksum ++ List.ofFn source ++ List.ofFn destination

def build (capacity : Nat) (source destination : Ipv4Address) (protocol : UInt8)
    (identification : Nat) (payload : List UInt8) : Option (List UInt8) :=
  let required := 20 + payload.length
  if required > capacity ∨ required > 0xFFFF then none
  else
    let headerChecksum := checksum (header source destination protocol identification required 0)
    some (header source destination protocol identification required headerChecksum ++ payload)

def nextHop (destination localIp netmask gateway : Ipv4Address) : Ipv4Address :=
  if ∀ i, destination i &&& netmask i = localIp i &&& netmask i then destination else gateway

end Ipv4

namespace Icmp

def echoRequest (identifier sequence sum : Nat) : List UInt8 :=
  [8, 0] ++ be16 sum ++ be16 identifier ++ be16 sequence ++ List.ofFn fun i : Fin 32 => UInt8.ofNat i

def buildEchoRequest (capacity identifier sequence : Nat) : Option (List UInt8) :=
  if capacity < 40 then none
  else some (echoRequest identifier sequence (checksum (echoRequest identifier sequence 0)))

def acceptEchoReply (payload : List UInt8) (expectedIdentifier expectedSequence : Nat) :
    Option Nat :=
  if payload.length < 8 then none
  else if byteAt payload 0 ≠ 0 ∨ byteAt payload 1 ≠ 0 then none
  else if checksum payload ≠ 0 then none
  else if readBe16 payload 4 ≠ expectedIdentifier ∨ readBe16 payload 6 ≠ expectedSequence then none
  else some (payload.length - 8)

end Icmp

namespace Udp

def maxPayloadLength : Nat := 1472

def checksum (source destination : Ipv4Address) (datagram : List UInt8) : Nat :=
  onesComplement (wordSum (List.ofFn source) + wordSum (List.ofFn destination) + 17 +
    datagram.length + wordSum datagram)

def datagram (sourcePort destinationPort sum : Nat) (payload : List UInt8) : List UInt8 :=
  be16 sourcePort ++ be16 destinationPort ++ be16 (8 + payload.length) ++ be16 sum ++ payload

def build (capacity : Nat) (source destination : Ipv4Address) (sourcePort destinationPort : Nat)
    (payload : List UInt8) : Option (List UInt8) :=
  if payload.length > maxPayloadLength ∨ 8 + payload.length > capacity then none
  else
    let sum := checksum source destination (datagram sourcePort destinationPort 0 payload)
    some (datagram sourcePort destinationPort (if sum = 0 then 0xFFFF else sum) payload)

structure DatagramView where
  sourcePort : Nat
  destinationPort : Nat
  payload : List UInt8
  deriving DecidableEq

def parse (bytes : List UInt8) (source destination : Ipv4Address) : Option DatagramView :=
  if bytes.length < 8 then none
  else if readBe16 bytes 4 < 8 ∨ readBe16 bytes 4 > bytes.length then none
  else if readBe16 bytes 6 ≠ 0 ∧ checksum source destination (bytes.take (readBe16 bytes 4)) ≠ 0 then
    none
  else some ⟨readBe16 bytes 0, readBe16 bytes 2, (bytes.drop 8).take (readBe16 bytes 4 - 8)⟩

end Udp

end Linux95.Net
