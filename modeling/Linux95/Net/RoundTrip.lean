import Linux95.Net.Frames

/-! What the builders of `net/ethernet.cpp`, `net/arp.cpp`, `net/ipv4.cpp` and `net/udp.cpp` produce is read back
by the parsers, with any bytes after the frame. The checksums are residues modulo `2^16 - 1`: a sum
with its checksum added is a multiple of it and not zero. -/

namespace Linux95.Net

section Sums

theorem foldCarries_spec {sum : Nat} (hsum : sum < 2 ^ 32) :
    foldCarries 3 sum < 2 ^ 16 ∧ foldCarries 3 sum % (2 ^ 16 - 1) = sum % (2 ^ 16 - 1) ∧
      (foldCarries 3 sum = 0 ↔ sum = 0) := by
  -- two turns of the loop are enough for a 32-bit sum; the residue and being nonzero are kept
  unfold foldCarries
  split_ifs with h₁
  · unfold foldCarries
    split_ifs with h₂
    · unfold foldCarries
      rw [if_neg (by omega)]
      omega
    · omega
  · omega

theorem onesComplement_eq_zero {sum : Nat} (hsum : sum < 2 ^ 32) (hpos : 0 < sum)
    (hdvd : sum % (2 ^ 16 - 1) = 0) : onesComplement sum = 0 := by
  -- a sum that contains its own complement verifies
  obtain ⟨hlt, hmod, hzero⟩ := foldCarries_spec hsum
  unfold onesComplement
  generalize foldCarries 3 sum = folded at *
  omega

theorem onesComplement_lt (sum : Nat) : onesComplement sum < 2 ^ 16 := by
  unfold onesComplement
  omega

theorem add_onesComplement_mod (sum : Nat) (hsum : sum < 2 ^ 32) :
    (sum + onesComplement sum) % (2 ^ 16 - 1) = 0 := by
  obtain ⟨hlt, hmod, -⟩ := foldCarries_spec hsum
  unfold onesComplement
  generalize foldCarries 3 sum = folded at *
  omega

theorem wordSum_append {a : List UInt8} (b : List UInt8) (heven : a.length % 2 = 0) :
    wordSum (a ++ b) = wordSum a + wordSum b := by
  induction a using wordSum.induct with
  | case1 => simp [wordSum]
  | case2 high => simp at heven
  | case3 high low rest ih =>
    have hrest : rest.length % 2 = 0 := by
      simp only [List.length_cons] at heven
      omega
    simp only [List.cons_append, wordSum, ih hrest]
    omega

theorem wordSum_le (a : List UInt8) : wordSum a ≤ (2 ^ 16 - 1) * ((a.length + 1) / 2) := by
  induction a using wordSum.induct with
  | case1 => simp [wordSum]
  | case2 high =>
    have := high.toNat_lt
    simp only [wordSum, List.length_cons, List.length_nil]
    omega
  | case3 high low rest ih =>
    have := high.toNat_lt
    have := low.toNat_lt
    simp only [wordSum, List.length_cons]
    omega

theorem wordSum_be16 {value : Nat} (hvalue : value < 2 ^ 16) : wordSum (be16 value) = value := by
  simp only [wordSum, be16, UInt8.toNat_ofNat']
  omega

theorem readBe16_be16 (value : Nat) (rest : List UInt8) :
    readBe16 (be16 value ++ rest) 0 = value % 2 ^ 16 := by
  have hhigh : byteAt (be16 value ++ rest) 0 = UInt8.ofNat (value / 2 ^ 8) := rfl
  have hlow : byteAt (be16 value ++ rest) 1 = UInt8.ofNat value := rfl
  unfold readBe16
  rw [hhigh, hlow]
  simp only [UInt8.toNat_ofNat']
  omega

theorem readBe16_append_right (a b : List UInt8) (k : Nat) :
    readBe16 (a ++ b) (a.length + k) = readBe16 b k := by
  unfold readBe16
  rw [Nat.add_assoc, byteAt_append_right, byteAt_append_right]

theorem readBe16_field {a : List UInt8} {n value : Nat} (rest : List UInt8) (hn : a.length = n)
    (hvalue : value < 2 ^ 16) : readBe16 (a ++ (be16 value ++ rest)) n = value := by
  have h := readBe16_append_right a (be16 value ++ rest) 0
  rw [Nat.add_zero, hn, readBe16_be16, Nat.mod_eq_of_lt hvalue] at h
  exact h

theorem byteAt_ofFn {n : Nat} (address : Fin n → UInt8) (rest : List UInt8) (i : Fin n) :
    byteAt (List.ofFn address ++ rest) i = address i := by
  have hi : (i : Nat) < (List.ofFn address).length := by
    rw [List.length_ofFn]
    exact i.isLt
  rw [byteAt_append_left rest hi]
  unfold byteAt
  rw [List.getD_eq_getElem?_getD, List.getElem?_eq_getElem hi, Option.getD_some, List.getElem_ofFn]

end Sums

section Fields
variable {bytes : List UInt8} {a : Nat}

theorem drop_byteAt (h : a < bytes.length) : bytes.drop a = byteAt bytes a :: bytes.drop (a + 1) := by
  unfold byteAt
  rw [List.drop_eq_getElem_cons h, List.getD_eq_getElem?_getD, List.getElem?_eq_getElem h, Option.getD_some]

theorem be16_readBe16 (bytes : List UInt8) (a : Nat) :
    be16 (readBe16 bytes a) = [byteAt bytes a, byteAt bytes (a + 1)] := by
  have hlow := (byteAt bytes (a + 1)).toNat_lt
  have hhigh : readBe16 bytes a / 2 ^ 8 = (byteAt bytes a).toNat := by
    unfold readBe16
    omega
  have hvalue : UInt8.ofNat (readBe16 bytes a) = byteAt bytes (a + 1) := by
    apply UInt8.toNat_inj.mp
    rw [UInt8.toNat_ofNat']
    unfold readBe16
    omega
  unfold be16
  rw [hhigh, hvalue, UInt8.ofNat_toNat]

theorem drop_be16 (h : a + 2 ≤ bytes.length) : bytes.drop a = be16 (readBe16 bytes a) ++ bytes.drop (a + 2) := by
  rw [be16_readBe16, drop_byteAt (by omega), drop_byteAt (by omega)]
  rfl

theorem drop_ofFn {n : Nat} (h : a + n ≤ bytes.length) :
    bytes.drop a = List.ofFn (fun i : Fin n => byteAt bytes (a + i)) ++ bytes.drop (a + n) := by
  induction n generalizing a with
  | zero => rfl
  | succ n ih =>
    rw [drop_byteAt (by omega), ih (by omega), List.ofFn_succ, List.cons_append]
    simp only [Fin.val_zero, Fin.val_succ, Nat.add_zero, Nat.add_assoc, Nat.add_comm 1]

end Fields

section Ethernet
variable {capacity : Nat} {destination source : MacAddress} {type : EtherType}
  {payload frame : List UInt8}

theorem macAt_field {a : List UInt8} {n : Nat} (mac : MacAddress) (rest : List UInt8)
    (hn : a.length = n) : macAt (a ++ (List.ofFn mac ++ rest)) n = mac := by
  funext i
  unfold macAt
  rw [← hn, byteAt_append_right, byteAt_ofFn]

theorem addressAt_field {a : List UInt8} {n : Nat} (address : Ipv4Address) (rest : List UInt8)
    (hn : a.length = n) : addressAt (a ++ (List.ofFn address ++ rest)) n = address := by
  funext i
  unfold addressAt
  rw [← hn, byteAt_append_right, byteAt_ofFn]

theorem parseEthernet_build
    (h : buildEthernet capacity destination source type payload = some frame) (rest : List UInt8) :
    parseEthernet (frame ++ rest) = some ⟨destination, source, type, payload ++ rest⟩ := by
  -- whatever follows the frame follows the payload
  have hframe : frame ++ rest =
      List.ofFn destination ++ (List.ofFn source ++ (be16 type.value ++ (payload ++ rest))) := by
    rw [buildEthernet_eq h]
    simp only [List.append_assoc]
  have hsix : ∀ mac : MacAddress, (List.ofFn mac).length = 6 := fun mac => List.length_ofFn
  have hlen : ¬ (frame ++ rest).length < 14 := by
    rw [hframe]
    simp only [List.length_append, hsix, be16_length]
    omega
  have hdestination : macAt (frame ++ rest) 0 = destination := by
    rw [hframe]
    exact macAt_field (a := []) destination _ rfl
  have hsource : macAt (frame ++ rest) 6 = source := by
    rw [hframe, macAt_field source _ (hsix destination)]
  have htype : readBe16 (frame ++ rest) 12 = type.value := by
    rw [hframe, ← List.append_assoc (List.ofFn destination)]
    have hvalue : type.value < 2 ^ 16 := by cases type <;> decide
    exact readBe16_field _ (by simp) hvalue
  have hpayload : (frame ++ rest).drop 14 = payload ++ rest := by
    rw [hframe, ← List.append_assoc, ← List.append_assoc]
    exact List.drop_left' (by simp [be16_length])
  unfold parseEthernet
  rw [if_neg hlen, hdestination, hsource, htype, hpayload]
  cases type <;> rfl

end Ethernet

namespace Arp

def fixedFields (operation : Nat) : List UInt8 := be16 1 ++ (be16 0x0800 ++ ([6, 4] ++ be16 operation))

theorem fixedFields_read {operation : Nat} (h : operation < 2 ^ 16) (tail : List UInt8) :
    readBe16 (fixedFields operation ++ tail) 0 = 1 ∧ readBe16 (fixedFields operation ++ tail) 2 = 0x0800 ∧
      byteAt (fixedFields operation ++ tail) 4 = 6 ∧ byteAt (fixedFields operation ++ tail) 5 = 4 ∧
      readBe16 (fixedFields operation ++ tail) 6 = operation := by
  have hassoc : fixedFields operation ++ tail = be16 1 ++ (be16 0x0800 ++ ([6, 4] ++ (be16 operation ++ tail))) := by
    unfold fixedFields
    simp only [List.append_assoc]
  have hread := @readBe16_field (be16 1 ++ (be16 0x0800 ++ [6, 4])) 6 operation tail rfl h
  simp only [List.append_assoc] at hread
  rw [hassoc]
  exact ⟨readBe16_be16 1 _, readBe16_field (a := be16 1) _ rfl (by decide), rfl, rfl, hread⟩

theorem parse_buildPacket {packet : Packet} (hoperation : packet.operation = 1 ∨ packet.operation = 2)
    (targetMac : MacAddress) (padding : List UInt8) :
    parse (buildPacket packet.operation packet.senderMac packet.senderIp targetMac packet.targetIp ++ padding) =
      some packet := by
  obtain ⟨operation, senderMac, senderIp, targetIp⟩ := packet
  dsimp only at hoperation ⊢
  have hhead : (fixedFields operation).length = 8 := rfl
  have hbytes : buildPacket operation senderMac senderIp targetMac targetIp ++ padding = fixedFields operation ++
      (List.ofFn senderMac ++ (List.ofFn senderIp ++ (List.ofFn targetMac ++ (List.ofFn targetIp ++ padding)))) := by
    unfold buildPacket fixedFields
    simp only [List.append_assoc]
  have hsender := @addressAt_field (fixedFields operation ++ List.ofFn senderMac) 14 senderIp
    (List.ofFn targetMac ++ (List.ofFn targetIp ++ padding)) (by rw [List.length_append, hhead, List.length_ofFn])
  have htarget := @addressAt_field
    (fixedFields operation ++ (List.ofFn senderMac ++ (List.ofFn senderIp ++ List.ofFn targetMac))) 24 targetIp padding
    (by simp only [List.length_append, hhead, List.length_ofFn])
  simp only [List.append_assoc] at hsender htarget
  have hmac := macAt_field senderMac
    (List.ofFn senderIp ++ (List.ofFn targetMac ++ (List.ofFn targetIp ++ padding))) hhead
  obtain ⟨hhardware, hprotocol, hmacLength, hipv4Length, hread⟩ := @fixedFields_read operation (by omega)
    (List.ofFn senderMac ++ (List.ofFn senderIp ++ (List.ofFn targetMac ++ (List.ofFn targetIp ++ padding))))
  have hlength : ¬ (fixedFields operation ++ (List.ofFn senderMac ++ (List.ofFn senderIp ++
      (List.ofFn targetMac ++ (List.ofFn targetIp ++ padding))))).length < 28 := by
    simp only [List.length_append, List.length_ofFn, hhead]
    omega
  rw [hbytes]
  unfold parse
  rw [if_neg hlength, hhardware, hprotocol, hmacLength, hipv4Length, hread, if_neg (by decide), if_neg (by omega),
    hmac, hsender, htarget]

theorem parse_eq_some_iff {payload : List UInt8} {packet : Packet} : parse payload = some packet ↔
    (packet.operation = 1 ∨ packet.operation = 2) ∧ ∃ targetMac padding, payload =
      buildPacket packet.operation packet.senderMac packet.senderIp targetMac packet.targetIp ++ padding := by
  constructor
  · intro h
    unfold parse at h
    split_ifs at h with hlength hheader hoperation
    obtain rfl := Option.some.inj h
    simp only [not_or, not_not] at hheader
    obtain ⟨hhardware, hprotocol, hmac, hipv4⟩ := hheader
    refine ⟨by dsimp only; omega, macAt payload 18, payload.drop 28, ?_⟩
    have htail : payload.drop 6 = be16 (readBe16 payload 6) ++ (List.ofFn (macAt payload 8) ++
        (List.ofFn (addressAt payload 14) ++ (List.ofFn (macAt payload 18) ++
          (List.ofFn (addressAt payload 24) ++ payload.drop 28)))) := by
      rw [drop_be16 (by omega), drop_ofFn (n := 6) (by omega), drop_ofFn (n := 4) (by omega),
        drop_ofFn (n := 6) (by omega), drop_ofFn (n := 4) (by omega)]
      rfl
    calc payload = payload.drop 0 := rfl
      _ = be16 1 ++ (be16 0x0800 ++ ([6, 4] ++ payload.drop 6)) := by
        rw [drop_be16 (by omega), drop_be16 (by omega), drop_byteAt (by omega), drop_byteAt (by omega),
          hhardware, hprotocol, hmac, hipv4]
        rfl
      _ = _ := by
        rw [htail]
        unfold buildPacket
        simp only [List.append_assoc]
  · rintro ⟨hoperation, targetMac, padding, rfl⟩
    exact parse_buildPacket hoperation targetMac padding

end Arp

section Ipv4
variable {capacity : Nat} {source destination : Ipv4Address} {protocol : UInt8}
  {identification totalLength : Nat} {payload packet : List UInt8}

theorem wordSum_header (sum : Nat) (hsum : sum < 2 ^ 16) :
    wordSum (Ipv4.header source destination protocol identification totalLength sum) =
      wordSum (Ipv4.header source destination protocol identification totalLength 0) + sum := by
  have hsplit : ∀ field, wordSum (Ipv4.header source destination protocol identification totalLength
      field) = wordSum ([0x45, 0] ++ be16 totalLength ++ be16 identification ++ be16 0 ++
        [64, protocol]) + (wordSum (be16 field) +
          wordSum (List.ofFn source ++ List.ofFn destination)) := by
    intro field
    unfold Ipv4.header
    rw [List.append_assoc _ (List.ofFn source), List.append_assoc _ (be16 field),
      wordSum_append (be16 field ++ _) (by simp [be16_length]),
      wordSum_append (List.ofFn source ++ _) (by simp [be16_length])]
  rw [hsplit, hsplit, wordSum_be16 hsum, wordSum_be16 (by decide)]
  omega

theorem wordSum_header_pos (sum : Nat) :
    0 < wordSum (Ipv4.header source destination protocol identification totalLength sum) := by
  have h : wordSum (Ipv4.header source destination protocol identification totalLength sum) =
      0x45 * 2 ^ 8 + 0 + wordSum ((Ipv4.header source destination protocol identification
        totalLength sum).drop 2) := rfl
  omega

theorem checksum_header :
    checksum (Ipv4.header source destination protocol identification totalLength
      (checksum (Ipv4.header source destination protocol identification totalLength 0))) = 0 := by
  have hbound : ∀ sum, wordSum (Ipv4.header source destination protocol identification totalLength
      sum) < 2 ^ 32 := by
    intro sum
    have h := wordSum_le (Ipv4.header source destination protocol identification totalLength sum)
    rw [ipv4Header_length] at h
    omega
  apply onesComplement_eq_zero (hbound _) (wordSum_header_pos _)
  rw [wordSum_header (checksum _) (onesComplement_lt _)]
  exact add_onesComplement_mod _ (hbound 0)

theorem addressAt_header (sum : Nat) (rest : List UInt8) :
    addressAt (Ipv4.header source destination protocol identification totalLength sum ++ rest) 12 =
        source ∧
      addressAt (Ipv4.header source destination protocol identification totalLength sum ++ rest) 16 =
        destination := by
  have hfixed : ∀ field, ([0x45, 0] ++ be16 totalLength ++ be16 identification ++ be16 0 ++
      [64, protocol] ++ be16 field).length = 12 := fun field => rfl
  unfold Ipv4.header
  constructor
  · rw [List.append_assoc, List.append_assoc]
    exact addressAt_field source _ (hfixed sum)
  · have hsixteen : ([0x45, 0] ++ be16 totalLength ++ be16 identification ++ be16 0 ++
        [64, protocol] ++ be16 sum ++ List.ofFn source).length = 16 := rfl
    rw [List.append_assoc]
    exact addressAt_field destination rest hsixteen

theorem readBe16_header (sum : Nat) (rest : List UInt8) (hlength : totalLength < 2 ^ 16) :
    readBe16 (Ipv4.header source destination protocol identification totalLength sum ++ rest) 2 =
        totalLength ∧
      readBe16 (Ipv4.header source destination protocol identification totalLength sum ++ rest) 6 =
        0 := by
  unfold Ipv4.header
  simp only [List.append_assoc]
  constructor
  · exact readBe16_field (a := [0x45, 0]) _ rfl hlength
  · rw [← List.append_assoc, ← List.append_assoc]
    exact readBe16_field _ rfl (by decide)

theorem ipv4Parse_build
    (h : Ipv4.build capacity source destination protocol identification payload = some packet)
    (rest : List UInt8) :
    Ipv4.parse (packet ++ rest) = some ⟨source, destination, protocol, payload⟩ := by
  -- the total length cuts off what follows the packet
  unfold Ipv4.build at h
  dsimp only at h
  split_ifs at h with hfits
  push Not at hfits
  have hpacket := (Option.some.inj h).symm
  clear h
  have hlength : 20 + payload.length < 2 ^ 16 := by omega
  have hverified : checksum (Ipv4.header source destination protocol identification (20 + payload.length)
      (checksum (Ipv4.header source destination protocol identification (20 + payload.length) 0))) = 0 :=
    checksum_header
  generalize checksum (Ipv4.header source destination protocol identification (20 + payload.length)
    0) = sum at hpacket hverified
  have hheader : (Ipv4.header source destination protocol identification (20 + payload.length) sum).length =
      20 := ipv4Header_length _ sum
  obtain ⟨hsource, hdestination⟩ : addressAt (Ipv4.header source destination protocol identification
        (20 + payload.length) sum ++ (payload ++ rest)) 12 = source ∧
      addressAt (Ipv4.header source destination protocol identification (20 + payload.length) sum ++
        (payload ++ rest)) 16 = destination := addressAt_header sum (payload ++ rest)
  obtain ⟨htotal, hfragment⟩ : readBe16 (Ipv4.header source destination protocol identification
        (20 + payload.length) sum ++ (payload ++ rest)) 2 = 20 + payload.length ∧
      readBe16 (Ipv4.header source destination protocol identification (20 + payload.length) sum ++
        (payload ++ rest)) 6 = 0 := readBe16_header sum (payload ++ rest) hlength
  have hversion : byteAt (Ipv4.header source destination protocol identification
      (20 + payload.length) sum ++ (payload ++ rest)) 0 = 0x45 := rfl
  have hprotocol : byteAt (Ipv4.header source destination protocol identification
      (20 + payload.length) sum ++ (payload ++ rest)) 9 = protocol := rfl
  rw [hpacket, List.append_assoc]
  generalize Ipv4.header source destination protocol identification (20 + payload.length) sum =
    header at *
  have hwhole : (header ++ (payload ++ rest)).length = 20 + payload.length + rest.length := by
    simp only [List.length_append]
    omega
  have htake : (header ++ (payload ++ rest)).take 20 = header := List.take_left' hheader
  have hdrop : (header ++ (payload ++ rest)).drop 20 = payload ++ rest := List.drop_left' hheader
  have hnibble : (0x45 : UInt8).toNat % 16 * 4 = 20 := by decide
  unfold Ipv4.parse
  rw [hwhole, hversion, htotal, hfragment, hsource, hdestination, hprotocol]
  dsimp only
  rw [hnibble, htake, hverified, hdrop, if_neg (by omega), if_neg (by decide), if_neg (by omega),
    if_neg (by omega), if_neg (by decide), if_neg (by decide),
    List.take_left' (by omega)]

end Ipv4

section Udp
variable {capacity : Nat} {source destination : Ipv4Address} {sourcePort destinationPort : Nat}
  {payload bytes : List UInt8}

theorem datagram_length (sum : Nat) :
    (Udp.datagram sourcePort destinationPort sum payload).length = 8 + payload.length := by
  simp only [Udp.datagram, List.length_append, be16_length]

theorem wordSum_datagram {sum : Nat} (hsum : sum < 2 ^ 16) :
    wordSum (Udp.datagram sourcePort destinationPort sum payload) =
      wordSum (Udp.datagram sourcePort destinationPort 0 payload) + sum := by
  have hsplit : ∀ field, wordSum (Udp.datagram sourcePort destinationPort field payload) =
      wordSum (be16 sourcePort ++ be16 destinationPort ++ be16 (8 + payload.length)) +
        (wordSum (be16 field) + wordSum payload) := by
    intro field
    unfold Udp.datagram
    rw [List.append_assoc _ (be16 field), 
      wordSum_append (be16 field ++ payload) (by simp [be16_length]),
      wordSum_append payload (by simp [be16_length])]
  rw [hsplit, hsplit, wordSum_be16 hsum, wordSum_be16 (by decide)]
  omega

theorem udpChecksum_datagram (hlen : payload.length ≤ Udp.maxPayloadLength) (sum : Nat)
    (hsum : sum = if Udp.checksum source destination (Udp.datagram sourcePort destinationPort 0
      payload) = 0 then 0xFFFF
      else Udp.checksum source destination (Udp.datagram sourcePort destinationPort 0 payload)) :
    0 < sum ∧ sum < 2 ^ 16 ∧
      Udp.checksum source destination (Udp.datagram sourcePort destinationPort sum payload) = 0 := by
  -- the checksum field that `build` sends: never zero, and the sum with it verifies
  have hmax : payload.length ≤ 1472 := hlen
  have hwords := wordSum_le (Udp.datagram sourcePort destinationPort 0 payload)
  have hsrc := wordSum_le (List.ofFn source)
  have hdst := wordSum_le (List.ofFn destination)
  rw [datagram_length] at hwords
  rw [List.length_ofFn] at hsrc hdst
  have hlt : sum < 2 ^ 16 := by
    rw [hsum]
    split_ifs
    · decide
    · exact onesComplement_lt _
  have hpos : 0 < sum := by
    rw [hsum]
    split_ifs with h
    · decide
    · exact Nat.pos_of_ne_zero h
  unfold Udp.checksum at hsum ⊢
  rw [datagram_length] at hsum ⊢
  rw [wordSum_datagram hlt]
  generalize wordSum (Udp.datagram sourcePort destinationPort 0 payload) = words at *
  generalize wordSum (List.ofFn source) = first at *
  generalize wordSum (List.ofFn destination) = second at *
  have hmod := add_onesComplement_mod (first + second + 17 + (8 + payload.length) + words)
    (by omega)
  refine ⟨hpos, hlt, onesComplement_eq_zero (by omega) (by omega) ?_⟩
  -- A checksum of zero is sent as `0xFFFF`, which is the same residue.
  split_ifs at hsum with hzero
  · rw [hzero] at hmod
    omega
  · rw [hsum]
    rw [← hmod]
    congr 1
    omega

theorem udpParse_build
    (h : Udp.build capacity source destination sourcePort destinationPort payload = some bytes)
    (hsource : sourcePort < 2 ^ 16) (hdestination : destinationPort < 2 ^ 16) :
    Udp.parse bytes source destination = some ⟨sourcePort, destinationPort, payload⟩ := by
  unfold Udp.build at h
  dsimp only at h
  by_cases hfits : payload.length > Udp.maxPayloadLength ∨ 8 + payload.length > capacity
  · rw [if_pos hfits] at h
    cases h
  rw [if_neg hfits] at h
  push Not at hfits
  obtain ⟨hlen, -⟩ := hfits
  have hbytes := (Option.some.inj h).symm
  clear h
  generalize hsum : (if Udp.checksum source destination
    (Udp.datagram sourcePort destinationPort 0 payload) = 0 then 0xFFFF
    else Udp.checksum source destination (Udp.datagram sourcePort destinationPort 0 payload)) =
      sum at hbytes
  obtain ⟨hpos, hlt, hverified⟩ := udpChecksum_datagram hlen sum hsum.symm
  have hlength : bytes.length = 8 + payload.length := by rw [hbytes, datagram_length]
  have hmax : payload.length ≤ 1472 := hlen
  have hassoc : bytes = be16 sourcePort ++ (be16 destinationPort ++ (be16 (8 + payload.length) ++
      (be16 sum ++ payload))) := by
    rw [hbytes]
    simp only [Udp.datagram, List.append_assoc]
  have hport : readBe16 bytes 0 = sourcePort := by
    rw [hassoc]
    exact readBe16_field (a := []) _ rfl hsource
  have hport' : readBe16 bytes 2 = destinationPort := by
    rw [hassoc]
    exact readBe16_field _ rfl hdestination
  have hfield : readBe16 bytes 4 = 8 + payload.length := by
    rw [hassoc, ← List.append_assoc]
    exact readBe16_field _ rfl (by omega)
  have hcheck : readBe16 bytes 6 = sum := by
    rw [hassoc, ← List.append_assoc, ← List.append_assoc]
    exact readBe16_field _ rfl hlt
  have hdrop : bytes.drop 8 = payload := by
    rw [hbytes]
    exact List.drop_left' rfl
  unfold Udp.parse
  rw [hport, hport', hfield, hcheck, hdrop, if_neg (by omega), if_neg (by omega),
    ← hlength, List.take_length, hbytes, hverified, datagram_length, if_neg (by simp)]
  congr 2
  exact List.take_of_length_le (by omega)

end Udp

end Linux95.Net
