import Linux95.Net.RoundTrip

/-! The checksum loops with the widths of their variables, the residue modulo `2^16 - 1` that they
compute, and the errors that this residue finds. -/

namespace Linux95.Net

/-- A 32-bit addition that must not wrap. -/
def add32 (a b : Nat) : Option Nat := if a + b < 2 ^ 32 then some (a + b) else none

/-- `while (static_cast<uint16_t>(length - offset) >= 2)`, the loop over the words; `none` when an addition
wraps or the turns give out. -/
def wordLoop (data : List UInt8) : Nat → Nat → Nat → Option (Nat × Nat)
  | 0, _, _ => none
  | turns + 1, offset, sum =>
    if (2 ^ 16 + data.length - offset) % 2 ^ 16 ≥ 2 then do
      let sum ← add32 sum (readBe16 data offset)
      wordLoop data turns ((offset + 2) % 2 ^ 16) sum
    else some (offset, sum)

def carryLoop : Nat → Nat → Option Nat
  | 0, _ => none
  | turns + 1, sum =>
    if sum / 2 ^ 16 ≠ 0 then do
      let sum ← add32 (sum % 2 ^ 16) (sum / 2 ^ 16)
      carryLoop turns sum
    else some sum

def oddByte (data : List UInt8) (offset sum : Nat) : Option Nat :=
  if offset < data.length then add32 sum ((byteAt data offset).toNat * 2 ^ 8) else some sum

def sumLoops (data : List UInt8) (sum : Nat) : Option Nat := do
  let (offset, sum) ← wordLoop data (data.length / 2 + 1) 0 sum
  let sum ← oddByte data offset sum
  let sum ← carryLoop 3 sum
  some ((2 ^ 32 - 1 - sum) % 2 ^ 16)

def checksumCall : Option (List UInt8) → Option Nat
  | none => some 0xFFFF
  | some data => sumLoops data 0

def Udp.checksumCall (source destination : Ipv4Address) : Option (List UInt8) → Option Nat
  | none => some 0xFFFF
  | some data => do
    let sum ← add32 0 (readBe16 (List.ofFn source) 0)
    let sum ← add32 sum (readBe16 (List.ofFn destination) 0)
    let sum ← add32 sum (readBe16 (List.ofFn source) 2)
    let sum ← add32 sum (readBe16 (List.ofFn destination) 2)
    let sum ← add32 sum 17
    let sum ← add32 sum data.length
    sumLoops data sum

/-- The sum of words with their carries added back: its residue, and `2^16 - 1` for the multiples that are
not zero. -/
def carried (sum : Nat) : Nat :=
  if sum = 0 then 0 else if sum % (2 ^ 16 - 1) = 0 then 2 ^ 16 - 1 else sum % (2 ^ 16 - 1)

def Udp.pseudoHeader (source destination : Ipv4Address) (length : Nat) : List UInt8 :=
  List.ofFn source ++ List.ofFn destination ++ [0, 17] ++ be16 length

section Loops
variable {data : List UInt8}

theorem add32_some {a b : Nat} (h : a + b < 2 ^ 32) : add32 a b = some (a + b) := if_pos h

theorem wordLoop_eq (hlen : data.length < 2 ^ 16) : ∀ turns offset sum, offset ≤ data.length →
    data.length < offset + 2 * turns → sum + wordSum (data.drop offset) < 2 ^ 32 →
    ∃ last total, wordLoop data turns offset sum = some (last, total) ∧ last ≤ data.length ∧ data.length ≤ last + 1 ∧
      total + wordSum (data.drop last) = sum + wordSum (data.drop offset) := by
  -- from an offset that is not behind the end, the loop adds the whole words that are left
  intro turns
  induction turns with
  | zero =>
    intro offset sum hle hturns
    omega
  | succ turns ih =>
    intro offset sum hle hturns hsum
    unfold wordLoop
    by_cases hmore : offset + 2 ≤ data.length
    · have hword : wordSum (data.drop offset) = readBe16 data offset + wordSum (data.drop (offset + 2)) := by
        rw [List.drop_eq_getElem_cons (by omega), List.drop_eq_getElem_cons (show offset + 1 < data.length by omega),
          wordSum, readBe16, byteAt, byteAt, List.getD_eq_getElem?_getD, List.getD_eq_getElem?_getD,
          List.getElem?_eq_getElem (show offset < data.length by omega),
          List.getElem?_eq_getElem (show offset + 1 < data.length by omega)]
        rfl
      rw [if_pos (by omega), add32_some (by omega), Option.bind_eq_bind, Option.bind_some,
        Nat.mod_eq_of_lt (show offset + 2 < 2 ^ 16 by omega)]
      obtain ⟨last, total, hloop, hlast, hend, htotal⟩ := ih (offset + 2) (sum + readBe16 data offset) hmore (by omega) (by omega)
      exact ⟨last, total, hloop, hlast, hend, by omega⟩
    · rw [if_neg (by omega)]
      exact ⟨offset, sum, rfl, hle, by omega, rfl⟩

theorem carryLoop_eq {sum : Nat} (hsum : sum < 2 ^ 32) : carryLoop 3 sum = some (carried sum) := by
  -- three turns are enough for a 32-bit sum, and none of them wraps
  unfold carried carryLoop
  by_cases h₁ : sum / 2 ^ 16 ≠ 0
  · rw [if_pos h₁, add32_some (by omega), Option.bind_eq_bind, Option.bind_some]
    unfold carryLoop
    by_cases h₂ : (sum % 2 ^ 16 + sum / 2 ^ 16) / 2 ^ 16 ≠ 0
    · rw [if_pos h₂, add32_some (by omega), Option.bind_eq_bind, Option.bind_some]
      unfold carryLoop
      rw [if_neg (by omega)]
      congr 1
      split_ifs <;> omega
    · rw [if_neg h₂]
      congr 1
      split_ifs <;> omega
  · rw [if_neg h₁]
    congr 1
    split_ifs <;> omega

theorem carried_lt (sum : Nat) : carried sum < 2 ^ 16 := by
  unfold carried
  split_ifs <;> omega

theorem foldCarries_eq {sum : Nat} (hsum : sum < 2 ^ 32) : foldCarries 3 sum = carried sum := by
  obtain ⟨hlt, hmod, hzero⟩ := foldCarries_spec hsum
  unfold carried
  generalize foldCarries 3 sum = folded at *
  split_ifs <;> omega

theorem onesComplement_carried {sum : Nat} (hsum : sum < 2 ^ 32) : onesComplement sum = 2 ^ 16 - 1 - carried sum := by
  unfold onesComplement
  rw [foldCarries_eq hsum, Nat.mod_eq_of_lt (carried_lt sum)]

theorem sumLoops_eq (hlen : data.length < 2 ^ 16) {sum : Nat} (hsum : sum + wordSum data < 2 ^ 32) :
    sumLoops data sum = some (onesComplement (sum + wordSum data)) := by
  obtain ⟨last, total, hloop, hle, hend, htotal⟩ := wordLoop_eq hlen (data.length / 2 + 1) 0 sum (by omega) (by omega)
    (by simpa using hsum)
  rw [List.drop_zero] at htotal
  have hlast : oddByte data last total = some (sum + wordSum data) := by
    unfold oddByte
    by_cases hodd : last < data.length
    · have hword : wordSum (data.drop last) = (byteAt data last).toNat * 2 ^ 8 := by
        rw [List.drop_eq_getElem_cons hodd, List.drop_of_length_le (by omega), wordSum, byteAt,
          List.getD_eq_getElem?_getD, List.getElem?_eq_getElem hodd]
        rfl
      rw [if_pos hodd, add32_some (by omega), ← htotal, hword]
    · rw [List.drop_of_length_le (by omega), wordSum, Nat.add_zero] at htotal
      rw [if_neg hodd, htotal]
  unfold sumLoops
  simp only [Option.bind_eq_bind]
  rw [hloop, Option.bind_some]
  dsimp only
  rw [hlast, Option.bind_some, carryLoop_eq hsum, Option.bind_some, onesComplement_carried hsum]
  have := carried_lt (sum + wordSum data)
  congr 1
  omega

theorem wordSum_lt (hlen : data.length < 2 ^ 16) : wordSum data ≤ (2 ^ 16 - 1) * 2 ^ 15 := by
  have hle := wordSum_le data
  have hhalf : (data.length + 1) / 2 ≤ 2 ^ 15 := by omega
  calc wordSum data ≤ (2 ^ 16 - 1) * ((data.length + 1) / 2) := hle
    _ ≤ (2 ^ 16 - 1) * 2 ^ 15 := Nat.mul_le_mul_left _ hhalf

theorem wordSum_address (address : Ipv4Address) : wordSum (List.ofFn address) =
    readBe16 (List.ofFn address) 0 + readBe16 (List.ofFn address) 2 := by
  have hbytes : List.ofFn address = [address 0, address 1, address 2, address 3] := rfl
  rw [hbytes]
  simp [wordSum, readBe16, byteAt]

theorem udpChecksum_pseudoHeader (source destination : Ipv4Address) (hlen : data.length < 2 ^ 16) :
    wordSum (Udp.pseudoHeader source destination data.length ++ data) =
      wordSum (List.ofFn source) + wordSum (List.ofFn destination) + 17 + data.length + wordSum data := by
  unfold Udp.pseudoHeader
  rw [wordSum_append data (by simp [be16_length]), wordSum_append (be16 data.length) (by simp),
    wordSum_append [0, 17] (by simp), wordSum_append (List.ofFn destination) (by simp), wordSum_be16 hlen]
  rfl

theorem udpChecksumCall_eq (source destination : Ipv4Address) (hlen : data.length < 2 ^ 16) :
    Udp.checksumCall source destination (some data) = some (Udp.checksum source destination data) := by
  have hwords := wordSum_lt hlen
  have h0 := readBe16_lt (List.ofFn source) 0
  have h1 := readBe16_lt (List.ofFn destination) 0
  have h2 := readBe16_lt (List.ofFn source) 2
  have h3 := readBe16_lt (List.ofFn destination) 2
  unfold Udp.checksumCall Udp.checksum
  rw [wordSum_address, wordSum_address]
  dsimp only
  simp only [Option.bind_eq_bind]
  rw [add32_some (by omega), Option.bind_some, add32_some (by omega), Option.bind_some, add32_some (by omega),
    Option.bind_some, add32_some (by omega), Option.bind_some, add32_some (by omega), Option.bind_some,
    add32_some (by omega), Option.bind_some, sumLoops_eq hlen (by omega)]
  congr 2
  omega

end Loops

def flipBit (bytes : List UInt8) (i bit : Nat) : List UInt8 := bytes.set i (byteAt bytes i ^^^ UInt8.ofNat (2 ^ bit))

def flipAddress (address : Ipv4Address) (i : Fin 4) (bit : Nat) : Ipv4Address :=
  Function.update address i (address i ^^^ UInt8.ofNat (2 ^ bit))

section Errors
variable {bytes : List UInt8}

theorem xor_bit (b : UInt8) {bit : Nat} (hbit : bit < 8) :
    (b ^^^ UInt8.ofNat (2 ^ bit)).toNat = b.toNat + 2 ^ bit ∨ b.toNat = (b ^^^ UInt8.ofNat (2 ^ bit)).toNat + 2 ^ bit := by
  -- a changed bit adds or takes its power of two
  have hall : ∀ b : Fin 256, ∀ bit : Fin 8, (b.val ^^^ 2 ^ bit.val) = b.val + 2 ^ bit.val ∨
      b.val = (b.val ^^^ 2 ^ bit.val) + 2 ^ bit.val := by decide +kernel
  have hpow : 2 ^ bit < 2 ^ 8 := Nat.pow_lt_pow_right (by decide) hbit
  rw [UInt8.toNat_xor, UInt8.toNat_ofNat', Nat.mod_eq_of_lt hpow]
  exact hall ⟨b.toNat, b.toNat_lt⟩ ⟨bit, hbit⟩

def byteWeight (i : Nat) : Nat := if i % 2 = 0 then 2 ^ 8 else 1

theorem wordSum_set (v : UInt8) : ∀ {bytes : List UInt8} {i : Nat}, i < bytes.length →
    wordSum (bytes.set i v) + byteWeight i * (byteAt bytes i).toNat = wordSum bytes + byteWeight i * v.toNat
  | [], _, h => absurd h (by simp)
  | [b], i, h => by
    obtain rfl : i = 0 := by simpa using h
    show v.toNat * 2 ^ 8 + 2 ^ 8 * b.toNat = b.toNat * 2 ^ 8 + 2 ^ 8 * v.toNat
    omega
  | b :: b' :: rest, 0, _ => by
    show v.toNat * 2 ^ 8 + b'.toNat + wordSum rest + 2 ^ 8 * b.toNat = b.toNat * 2 ^ 8 + b'.toNat + wordSum rest + 2 ^ 8 * v.toNat
    omega
  | b :: b' :: rest, 1, _ => by
    show b.toNat * 2 ^ 8 + v.toNat + wordSum rest + 1 * b'.toNat = b.toNat * 2 ^ 8 + b'.toNat + wordSum rest + 1 * v.toNat
    omega
  | b :: b' :: rest, i + 2, h => by
    have ih := wordSum_set v (show i < rest.length by simpa using h)
    have hweight : byteWeight (i + 2) = byteWeight i := by
      unfold byteWeight
      rw [Nat.add_mod_right]
    have hbyte : byteAt (b :: b' :: rest) (i + 2) = byteAt rest i := rfl
    rw [hweight, hbyte, List.set_cons_succ, List.set_cons_succ, wordSum, wordSum]
    omega

theorem wordSum_flip {i bit : Nat} (hi : i < bytes.length) (hbit : bit < 8) : ∃ k < 16,
    wordSum (flipBit bytes i bit) = wordSum bytes + 2 ^ k ∨ wordSum bytes = wordSum (flipBit bytes i bit) + 2 ^ k := by
  -- a changed bit changes the sum by a power of two below `2^16`
  have hset := wordSum_set (byteAt bytes i ^^^ UInt8.ofNat (2 ^ bit)) hi
  have hxor := xor_bit (byteAt bytes i) hbit
  unfold flipBit
  generalize (byteAt bytes i ^^^ UInt8.ofNat (2 ^ bit)) = v at hset hxor ⊢
  unfold byteWeight at hset
  split_ifs at hset
  · refine ⟨bit + 8, by omega, ?_⟩
    rw [Nat.pow_add]
    omega
  · exact ⟨bit, by omega, by omega⟩

theorem carried_flip {sum sum' k : Nat} (hk : k < 16) (hchange : sum' = sum + 2 ^ k ∨ sum = sum' + 2 ^ k)
    (hsum : carried sum = 2 ^ 16 - 1) : carried sum' ≠ 2 ^ 16 - 1 := by
  -- no power of two below `2^16` is a multiple of `2^16 - 1`, so a sum that verifies does not verify any more
  -- when a bit is changed
  have hpow : 2 ^ k < 2 ^ 16 - 1 := by
    calc 2 ^ k ≤ 2 ^ 15 := Nat.pow_le_pow_right (by decide) (by omega)
      _ < 2 ^ 16 - 1 := by decide
  have hpos := Nat.two_pow_pos k
  have hmod : ∀ {n : Nat}, carried n = 2 ^ 16 - 1 → n % (2 ^ 16 - 1) = 0 := by
    intro n hn
    unfold carried at hn
    split_ifs at hn with h₀ h₁
    · exact h₁
    · omega
  intro hsum'
  have h := hmod hsum
  have h' := hmod hsum'
  generalize 2 ^ k = d at *
  omega

theorem onesComplement_zero_iff {sum : Nat} (hsum : sum < 2 ^ 32) : onesComplement sum = 0 ↔ carried sum = 2 ^ 16 - 1 := by
  have := carried_lt sum
  rw [onesComplement_carried hsum]
  omega

theorem onesComplement_flip {sum sum' k : Nat} (hk : k < 16) (hchange : sum' = sum + 2 ^ k ∨ sum = sum' + 2 ^ k)
    (hlt : sum < 2 ^ 32) (hlt' : sum' < 2 ^ 32) (hsum : onesComplement sum = 0) : onesComplement sum' ≠ 0 := by
  rw [ne_eq, onesComplement_zero_iff hlt']
  exact carried_flip hk hchange ((onesComplement_zero_iff hlt).mp hsum)

theorem length_flipBit (i bit : Nat) : (flipBit bytes i bit).length = bytes.length := List.length_set

theorem checksum_flip (hlen : bytes.length < 2 ^ 16) {i bit : Nat} (hi : i < bytes.length) (hbit : bit < 8)
    (h : checksum bytes = 0) : checksum (flipBit bytes i bit) ≠ 0 := by
  obtain ⟨k, hk, hchange⟩ := wordSum_flip hi hbit
  have hlt := wordSum_lt hlen
  have hlt' := wordSum_lt (show (flipBit bytes i bit).length < 2 ^ 16 by rw [length_flipBit]; exact hlen)
  exact onesComplement_flip hk hchange (by omega) (by omega) h

theorem byteAt_flipBit {i bit j : Nat} (h : j ≠ i) : byteAt (flipBit bytes i bit) j = byteAt bytes j := by
  unfold flipBit byteAt
  rw [List.getD_eq_getElem?_getD, List.getElem?_set_ne h.symm, ← List.getD_eq_getElem?_getD]

theorem readBe16_flipBit {i bit j : Nat} (h : j ≠ i) (h' : j + 1 ≠ i) :
    readBe16 (flipBit bytes i bit) j = readBe16 bytes j := by
  unfold readBe16
  rw [byteAt_flipBit h, byteAt_flipBit h']

theorem take_flipBit {i bit n : Nat} (h : i < n) : (flipBit bytes i bit).take n = flipBit (bytes.take n) i bit := by
  have hbyte : byteAt (bytes.take n) i = byteAt bytes i := by
    unfold byteAt
    rw [List.getD_eq_getElem?_getD, List.getD_eq_getElem?_getD, List.getElem?_take, if_pos h]
  unfold flipBit
  rw [hbyte, List.take_set]

theorem ipv4Parse_verified {packet : List UInt8} {view : Ipv4.PacketView} (h : Ipv4.parse packet = some view) :
    (byteAt packet 0).toNat % 16 * 4 ≤ packet.length ∧
      checksum (packet.take ((byteAt packet 0).toNat % 16 * 4)) = 0 := by
  unfold Ipv4.parse at h
  dsimp only at h
  split_ifs at h with _ _ hlength _ _ hsum
  exact ⟨by omega, not_not.mp hsum⟩

theorem ipv4Parse_flip {packet : List UInt8} {view : Ipv4.PacketView} (h : Ipv4.parse packet = some view) {i bit : Nat}
    (hi : 1 ≤ i) (hlt : i < (byteAt packet 0).toNat % 16 * 4) (hbit : bit < 8) : Ipv4.parse (flipBit packet i bit) = none := by
  obtain ⟨hlength, hsum⟩ := ipv4Parse_verified h
  have hsmall : (packet.take ((byteAt packet 0).toNat % 16 * 4)).length = (byteAt packet 0).toNat % 16 * 4 := by
    rw [List.length_take]
    omega
  cases h' : Ipv4.parse (flipBit packet i bit) with
  | none => rfl
  | some view' =>
    have hsum' := (ipv4Parse_verified h').2
    rw [byteAt_flipBit (show 0 ≠ i by omega), take_flipBit hlt] at hsum'
    exact absurd hsum' (checksum_flip (by omega) (by omega) hbit hsum)

theorem acceptEchoReply_verified {payload : List UInt8} {identifier sequence n : Nat}
    (h : Icmp.acceptEchoReply payload identifier sequence = some n) : checksum payload = 0 := by
  unfold Icmp.acceptEchoReply at h
  split_ifs at h with _ _ hsum
  exact not_not.mp hsum

theorem acceptEchoReply_flip {payload : List UInt8} (hlen : payload.length < 2 ^ 16) {identifier sequence n : Nat}
    (h : Icmp.acceptEchoReply payload identifier sequence = some n) {i bit : Nat} (hi : i < payload.length)
    (hbit : bit < 8) : Icmp.acceptEchoReply (flipBit payload i bit) identifier sequence = none := by
  cases h' : Icmp.acceptEchoReply (flipBit payload i bit) identifier sequence with
  | none => rfl
  | some n' =>
    exact absurd (acceptEchoReply_verified h') (checksum_flip hlen hi hbit (acceptEchoReply_verified h))

theorem udpParse_verified {source destination : Ipv4Address} {view : Udp.DatagramView}
    (h : Udp.parse bytes source destination = some view) (hfield : readBe16 bytes 6 ≠ 0) :
    readBe16 bytes 4 ≤ bytes.length ∧ Udp.checksum source destination (bytes.take (readBe16 bytes 4)) = 0 := by
  unfold Udp.parse at h
  split_ifs at h with _ hlength hsum
  push Not at hsum
  exact ⟨by omega, hsum hfield⟩

theorem udpSum_lt (source destination : Ipv4Address) (hlen : bytes.length < 2 ^ 16) : wordSum (List.ofFn source) +
    wordSum (List.ofFn destination) + 17 + bytes.length + wordSum bytes < 2 ^ 32 := by
  have hsource := wordSum_le (List.ofFn source)
  have hdestination := wordSum_le (List.ofFn destination)
  have hwords := wordSum_lt hlen
  rw [List.length_ofFn] at hsource hdestination
  omega

theorem udpParse_flip {source destination : Ipv4Address} {view : Udp.DatagramView} (hlen : bytes.length < 2 ^ 16)
    (h : Udp.parse bytes source destination = some view) (hfield : readBe16 bytes 6 ≠ 0) {i bit : Nat}
    (hi : i < 4 ∨ 8 ≤ i ∧ i < readBe16 bytes 4) (hbit : bit < 8) :
    Udp.parse (flipBit bytes i bit) source destination = none := by
  obtain ⟨hlength, hsum⟩ := udpParse_verified h hfield
  have height : 8 ≤ readBe16 bytes 4 := by
    unfold Udp.parse at h
    split_ifs at h with _ hlength
    omega
  have htaken : (bytes.take (readBe16 bytes 4)).length = readBe16 bytes 4 := by
    rw [List.length_take]
    omega
  cases h' : Udp.parse (flipBit bytes i bit) source destination with
  | none => rfl
  | some view' =>
    have hsum' := (udpParse_verified h' (by rw [readBe16_flipBit (by omega) (by omega)]; exact hfield)).2
    rw [readBe16_flipBit (by omega) (by omega), take_flipBit (by omega)] at hsum'
    obtain ⟨k, hk, hchange⟩ := wordSum_flip (show i < (bytes.take (readBe16 bytes 4)).length by omega) hbit
    have hlt := udpSum_lt source destination
      (show (bytes.take (readBe16 bytes 4)).length < 2 ^ 16 by omega)
    have hlt' := udpSum_lt source destination
      (show (flipBit (bytes.take (readBe16 bytes 4)) i bit).length < 2 ^ 16 by rw [length_flipBit]; omega)
    refine absurd hsum' (onesComplement_flip hk ?_ hlt hlt' hsum)
    rw [length_flipBit]
    omega

theorem ofFn_flipAddress (address : Ipv4Address) (i : Fin 4) (bit : Nat) :
    List.ofFn (flipAddress address i bit) = flipBit (List.ofFn address) i bit := by
  have hbyte := byteAt_ofFn address [] i
  rw [List.append_nil] at hbyte
  unfold flipAddress flipBit
  rw [hbyte]
  refine List.ext_getElem (by simp) fun n hn _ => ?_
  rw [List.getElem_ofFn, List.getElem_set, List.getElem_ofFn, Function.update_apply]
  refine if_congr ?_ rfl rfl
  rw [Fin.ext_iff]
  exact eq_comm

theorem wordSum_flipAddress (address : Ipv4Address) (i : Fin 4) {bit : Nat} (hbit : bit < 8) : ∃ k < 16,
    wordSum (List.ofFn (flipAddress address i bit)) = wordSum (List.ofFn address) + 2 ^ k ∨
      wordSum (List.ofFn address) = wordSum (List.ofFn (flipAddress address i bit)) + 2 ^ k := by
  rw [ofFn_flipAddress]
  exact wordSum_flip (by rw [List.length_ofFn]; exact i.isLt) hbit

theorem udpParse_flipAddress {source destination : Ipv4Address} {view : Udp.DatagramView} (hlen : bytes.length < 2 ^ 16)
    (h : Udp.parse bytes source destination = some view) (hfield : readBe16 bytes 6 ≠ 0) (i : Fin 4) {bit : Nat}
    (hbit : bit < 8) : Udp.parse bytes (flipAddress source i bit) destination = none ∧
      Udp.parse bytes source (flipAddress destination i bit) = none := by
  have hsum := (udpParse_verified h hfield).2
  have hrefused : ∀ source' destination' : Ipv4Address,
      Udp.checksum source' destination' (bytes.take (readBe16 bytes 4)) ≠ 0 → Udp.parse bytes source' destination' = none := by
    intro source' destination' hbad
    cases h' : Udp.parse bytes source' destination' with
    | none => rfl
    | some view' => exact absurd (udpParse_verified h' hfield).2 hbad
  have htaken : (bytes.take (readBe16 bytes 4)).length < 2 ^ 16 := by
    rw [List.length_take]
    omega
  constructor
  · obtain ⟨k, hk, hchange⟩ := wordSum_flipAddress source i hbit
    refine hrefused _ _ (onesComplement_flip hk ?_ (udpSum_lt source destination htaken) (udpSum_lt _ _ htaken) hsum)
    omega
  · obtain ⟨k, hk, hchange⟩ := wordSum_flipAddress destination i hbit
    refine hrefused _ _ (onesComplement_flip hk ?_ (udpSum_lt source destination htaken) (udpSum_lt _ _ htaken) hsum)
    omega

end Errors

/-- **The checksums**: the loops end without wrapping in the residue modulo `2^16 - 1`, the checksum of a
datagram is that of its pseudo header before it, and every single changed bit that they cover is found. -/
theorem checksums_sound :
    (∀ data : List UInt8, data.length < 2 ^ 16 →
      checksumCall (some data) = some (checksum data) ∧ checksum data = 2 ^ 16 - 1 - carried (wordSum data)) ∧
    (∀ (source destination : Ipv4Address) (data : List UInt8), data.length < 2 ^ 16 →
      Udp.checksumCall source destination (some data) = some (Udp.checksum source destination data) ∧
      ((Udp.pseudoHeader source destination data.length ++ data).length < 2 ^ 16 →
        Udp.checksum source destination data = checksum (Udp.pseudoHeader source destination data.length ++ data))) ∧
    (∀ (packet : List UInt8) (view : Ipv4.PacketView) (i bit : Nat), Ipv4.parse packet = some view → 1 ≤ i →
      i < (byteAt packet 0).toNat % 16 * 4 → bit < 8 → Ipv4.parse (flipBit packet i bit) = none) ∧
    (∀ (payload : List UInt8) (identifier sequence n i bit : Nat), payload.length < 2 ^ 16 →
      Icmp.acceptEchoReply payload identifier sequence = some n → i < payload.length → bit < 8 →
      Icmp.acceptEchoReply (flipBit payload i bit) identifier sequence = none) ∧
    ∀ (bytes : List UInt8) (source destination : Ipv4Address) (view : Udp.DatagramView) (bit : Nat), bytes.length < 2 ^ 16 →
      Udp.parse bytes source destination = some view → readBe16 bytes 6 ≠ 0 → bit < 8 →
      (∀ i, i < 4 ∨ 8 ≤ i ∧ i < readBe16 bytes 4 → Udp.parse (flipBit bytes i bit) source destination = none) ∧
      ∀ i, Udp.parse bytes (flipAddress source i bit) destination = none ∧
        Udp.parse bytes source (flipAddress destination i bit) = none := by
  refine ⟨fun data hlen => ?_, fun source destination data hlen => ⟨udpChecksumCall_eq source destination hlen, fun _ => ?_⟩,
    fun packet view i bit h hi hlt hbit => ipv4Parse_flip h hi hlt hbit,
    fun payload identifier sequence n i bit hlen h hi hbit => acceptEchoReply_flip hlen h hi hbit,
    fun bytes source destination view bit hlen h hfield hbit =>
      ⟨fun i hi => udpParse_flip hlen h hfield hi hbit, fun i => udpParse_flipAddress hlen h hfield i hbit⟩⟩
  · have hlt : 0 + wordSum data < 2 ^ 32 := by
      have := wordSum_lt hlen
      omega
    refine ⟨?_, onesComplement_carried (by omega)⟩
    have hloops := sumLoops_eq hlen hlt
    rw [Nat.zero_add] at hloops
    exact hloops
  · unfold checksum Udp.checksum
    rw [udpChecksum_pseudoHeader source destination hlen]

theorem checksums_sound_small :
    (Ipv4.parse [0x45, 0, 0, 20, 0, 0, 0, 0, 64, 17, 0x62, 0xC8, 10, 0, 2, 15, 10, 0, 2, 3]).isSome = true ∧
    Ipv4.parse (flipBit [0x45, 0, 0, 20, 0, 0, 0, 0, 64, 17, 0x62, 0xC8, 10, 0, 2, 15, 10, 0, 2, 3] 9 3) = none := by
  have haccepted : (Ipv4.parse [0x45, 0, 0, 20, 0, 0, 0, 0, 64, 17, 0x62, 0xC8, 10, 0, 2, 15, 10, 0, 2, 3]).isSome = true := by
    decide
  obtain ⟨view, hview⟩ := Option.isSome_iff_exists.mp haccepted
  exact ⟨haccepted, checksums_sound.2.2.1 _ view 9 3 hview (by decide) (by decide) (by decide)⟩

end Linux95.Net
