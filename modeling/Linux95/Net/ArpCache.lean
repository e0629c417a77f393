import Linux95.Base.FifoMap
import Linux95.Net.NetworkSteps

/-! The ARP cache over whole runs of `parse_and_learn`: the eight slots with their rotating replace index
are a map that forgets its oldest pair first. -/

namespace Linux95.Net.Arp
open Base

structure Learned where
  shouldReply : Bool
  senderMac : MacAddress
  senderIp : Ipv4Address
  deriving DecidableEq

def parseAndLearn (payload : Option (List UInt8)) (localIp : Ipv4Address) (c : Cache) : Option Learned × Cache :=
  match payload.bind parse with
  | none => (none, c)
  | some packet =>
    (some ⟨packet.operation = 1 && packet.targetIp = localIp, packet.senderMac, packet.senderIp⟩,
      c.learn packet.senderIp packet.senderMac)

def cacheAfter (calls : List (Option (List UInt8) × Ipv4Address)) : Cache :=
  calls.foldl (fun c call => (parseAndLearn call.1 call.2 c).2) Cache.reset

def senders (calls : List (Option (List UInt8) × Ipv4Address)) : List (Ipv4Address × MacAddress) :=
  calls.filterMap fun call => (call.1.bind parse).map fun packet => (packet.senderIp, packet.senderMac)

/-- The reference: the last eight senders, oldest first. -/
def reference (calls : List (Option (List UInt8) × Ipv4Address)) : List (Ipv4Address × MacAddress) :=
  FifoMap.run 8 (senders calls)

/-- The slots from the replace index on hold the pairs in their order; the other slots are free. -/
structure Holds (c : Cache) (pairs : List (Ipv4Address × MacAddress)) : Prop where
  length_le : pairs.length ≤ 8
  nodup : (FifoMap.keys pairs).Nodup
  start : pairs.length < 8 → c.replaceIndex = 0
  held : ∀ k : Fin 8, ∀ h : k.val < pairs.length, c.entries (c.replaceIndex + k) = ⟨pairs[k.val].1, pairs[k.val].2, true⟩
  free : ∀ k : Fin 8, pairs.length ≤ k.val → (c.entries k).valid = false

section Refinement
variable {c : Cache} {pairs : List (Ipv4Address × MacAddress)} {ip : Ipv4Address} {mac : MacAddress}

theorem holds_reset : Holds Cache.reset [] :=
  ⟨by simp, List.nodup_nil, fun _ => rfl, fun _ h => absurd h (by simp), fun _ _ => rfl⟩

theorem Holds.valid (h : Holds c pairs) (i : Fin 8) (hi : (c.entries i).valid = true) :
    ∃ k : Fin 8, k.val < pairs.length ∧ i = c.replaceIndex + k := by
  have hr := c.replaceIndex.isLt
  have hlt := i.isLt
  refine ⟨⟨(i.val + 8 - c.replaceIndex.val) % 8, by omega⟩, ?_, ?_⟩
  · dsimp only
    by_cases hfull : pairs.length < 8
    · have hzero := Fin.val_eq_of_eq (h.start hfull)
      rw [Fin.val_zero] at hzero
      by_contra hge
      rw [h.free i (by omega)] at hi
      cases hi
    · omega
  · rw [Fin.ext_iff, Fin.val_add]
    dsimp only
    omega

theorem Holds.lookup_iff (h : Holds c pairs) : c.lookup ip = some mac ↔ FifoMap.find pairs ip = some mac := by
  rw [FifoMap.find_eq_some_iff h.nodup]
  constructor
  · intro hlookup
    obtain ⟨i, hvalid, hip, hmac⟩ := Cache.lookup_some hlookup
    obtain ⟨k, hk, rfl⟩ := h.valid i hvalid
    rw [h.held k hk] at hip hmac
    rw [← hip, ← hmac]
    exact List.getElem_mem hk
  · intro hmem
    obtain ⟨k, hk, hpair⟩ := List.getElem_of_mem hmem
    have hlt : k < 8 := hk.trans_le h.length_le
    have hslot := h.held ⟨k, hlt⟩ hk
    cases hlookup : c.lookup ip with
    | none =>
      have hbad := Cache.lookup_none.mp hlookup (c.replaceIndex + ⟨k, hlt⟩)
      rw [hslot] at hbad
      exact absurd (by rw [hpair]) (hbad rfl)
    | some mac' =>
      obtain ⟨i, hvalid, hip, hmac⟩ := Cache.lookup_some hlookup
      obtain ⟨k', hk', rfl⟩ := h.valid i hvalid
      rw [h.held k' hk'] at hip hmac
      have hsame := List.inj_on_of_nodup_map h.nodup (List.getElem_mem hk') hmem hip
      rw [← hmac, hsame]

theorem Holds.lookup_eq (h : Holds c pairs) (ip : Ipv4Address) : c.lookup ip = FifoMap.find pairs ip :=
  Option.ext fun _ => h.lookup_iff

theorem Holds.replace (h : Holds c pairs) {i : Fin 8} (hi : c.matching ip = some i) :
    Holds (c.store i { c.entries i with mac := mac }) (FifoMap.replace pairs ip mac) := by
  have hfound := Cache.find_some hi
  simp only [Bool.and_eq_true, decide_eq_true_eq] at hfound
  obtain ⟨k, hk, rfl⟩ := h.valid i hfound.1
  have hip := hfound.2
  rw [h.held k hk] at hip
  dsimp only at hip
  have hlen : (FifoMap.replace pairs ip mac).length = pairs.length := List.length_map _
  refine ⟨by rw [hlen]; exact h.length_le, by rw [FifoMap.keys_replace]; exact h.nodup, by rw [hlen]; exact h.start,
    fun j hj => ?_, fun j hj => ?_⟩
  · rw [hlen] at hj
    have hget : (FifoMap.replace pairs ip mac)[j.val] = if pairs[j.val].1 = ip then (ip, mac) else pairs[j.val] :=
      List.getElem_map _
    show Function.update c.entries (c.replaceIndex + k) { c.entries (c.replaceIndex + k) with mac := mac }
      (c.replaceIndex + j) = _
    by_cases hjk : j = k
    · subst hjk
      rw [Function.update_self, h.held j hj, hget, if_pos hip]
      simp only [hip]
    · have hslot : c.replaceIndex + j ≠ c.replaceIndex + k := by
        rw [ne_eq, Fin.ext_iff, Fin.val_add, Fin.val_add]
        have := Fin.val_ne_of_ne hjk
        omega
      have hother : pairs[j.val].1 ≠ ip := by
        intro hbad
        have hsame := List.inj_on_of_nodup_map h.nodup (List.getElem_mem hj) (List.getElem_mem hk) (hbad.trans hip.symm)
        exact hjk (Fin.ext ((h.nodup.of_map _).getElem_inj_iff.mp hsame))
      rw [Function.update_of_ne hslot, h.held j hj, hget, if_neg hother]
  · rw [hlen] at hj
    have hslot : j ≠ c.replaceIndex + k := by
      intro hbad
      have hfree := h.free j hj
      rw [hbad, hfound.1] at hfree
      cases hfree
    show (Function.update c.entries (c.replaceIndex + k) { c.entries (c.replaceIndex + k) with mac := mac } j).valid = false
    rw [Function.update_of_ne hslot]
    exact h.free j hj

theorem Holds.append (h : Holds c pairs) (hnew : ip ∉ FifoMap.keys pairs) {i : Fin 8}
    (hi : c.find (fun e => !e.valid) = some i) :
    pairs.length < 8 ∧ Holds (c.store i ⟨ip, mac, true⟩) (pairs ++ [(ip, mac)]) := by
  -- while there is room, the first free slot is the one behind the pairs
  have hfree : (c.entries i).valid = false := by simpa using Cache.find_some hi
  have hroom : pairs.length < 8 := by
    by_contra hfull
    have hr := c.replaceIndex.isLt
    have hlt := i.isLt
    have hslot : i = c.replaceIndex + ⟨(i.val + 8 - c.replaceIndex.val) % 8, by omega⟩ := by
      rw [Fin.ext_iff, Fin.val_add]
      dsimp only
      omega
    rw [hslot, h.held _ (by dsimp only; omega)] at hfree
    cases hfree
  have hstart := h.start hroom
  have hheld : ∀ k : Fin 8, ∀ hk : k.val < pairs.length, c.entries k = ⟨pairs[k.val].1, pairs[k.val].2, true⟩ := by
    intro k hk
    have hk' := h.held k hk
    rwa [hstart, Fin.zero_add] at hk'
  -- The search looks at the slots in order, so it stops at the first one that is not held.
  have hfirst : i.val = pairs.length := by
    obtain ⟨-, n, hn, hget, hbefore⟩ := List.find?_eq_some_iff_getElem.mp hi
    have hin : i.val = n := by
      rw [← hget]
      simp
    have hge : pairs.length ≤ i.val := by
      by_contra hlt
      rw [hheld i (by omega)] at hfree
      cases hfree
    by_contra hne
    have hbad := hbefore pairs.length (by omega)
    have hnext := h.free ⟨pairs.length, hroom⟩ (by simp)
    simp [hnext] at hbad
  have hlen : (pairs ++ [(ip, mac)]).length = pairs.length + 1 := by simp
  refine ⟨hroom, by rw [hlen]; omega, ?_, fun _ => hstart, fun k hk => ?_, fun k hk => ?_⟩
  · unfold FifoMap.keys at hnew ⊢
    rw [List.map_append, List.map_singleton]
    exact List.nodup_append.mpr ⟨h.nodup, List.nodup_singleton _, fun a ha b hb hab =>
      hnew (by rwa [hab, List.mem_singleton.mp hb] at ha)⟩
  · show Function.update c.entries i ⟨ip, mac, true⟩ (c.replaceIndex + k) = _
    rw [hstart, Fin.zero_add]
    by_cases hki : k = i
    · subst hki
      rw [Function.update_self]
      simp [hfirst]
    · have hlt : k.val < pairs.length := by
        have := Fin.val_ne_of_ne hki
        omega
      rw [Function.update_of_ne hki, hheld k hlt, List.getElem_append_left hlt]
  · show (Function.update c.entries i ⟨ip, mac, true⟩ k).valid = false
    have hki : k ≠ i := by
      rintro rfl
      omega
    rw [Function.update_of_ne hki]
    exact h.free k (by omega)

theorem Holds.rotate (h : Holds c pairs) (hnew : ip ∉ FifoMap.keys pairs) (hfull : pairs.length = 8) :
    Holds { c.store c.replaceIndex ⟨ip, mac, true⟩ with replaceIndex := c.replaceIndex + 1 }
      (pairs.tail ++ [(ip, mac)]) := by
  -- when all slots are taken, the replace index points at the oldest pair
  have hlen : (pairs.tail ++ [(ip, mac)]).length = 8 := by
    rw [List.length_append, List.length_tail, List.length_singleton]
    omega
  have hnodup : (FifoMap.keys (pairs.tail ++ [(ip, mac)])).Nodup := by
    have hinsert : (FifoMap.keys (FifoMap.insert 8 pairs ip mac)).Nodup := FifoMap.nodup_insert h.nodup
    unfold FifoMap.insert at hinsert
    rwa [if_neg hnew, if_pos hfull] at hinsert
  refine ⟨hlen.le, hnodup, fun hlt => by omega, fun k hk => ?_, fun k hk => by have := k.isLt; omega⟩
  have hr := c.replaceIndex.isLt
  show Function.update c.entries c.replaceIndex ⟨ip, mac, true⟩ (c.replaceIndex + 1 + k) = _
  by_cases hlast : k.val = 7
  · have hslot : c.replaceIndex + 1 + k = c.replaceIndex := by
      rw [Fin.ext_iff, Fin.val_add, Fin.val_add, hlast]
      simp only [Fin.val_one']
      omega
    rw [hslot, Function.update_self, List.getElem_append_right (by rw [List.length_tail]; omega)]
    simp
  · have hk7 : k.val < 7 := by omega
    have hslot : c.replaceIndex + 1 + k = c.replaceIndex + ⟨k.val + 1, by omega⟩ := by
      rw [Fin.ext_iff, Fin.val_add, Fin.val_add, Fin.val_add]
      simp only [Fin.val_one']
      omega
    have hne : c.replaceIndex + ⟨k.val + 1, by omega⟩ ≠ c.replaceIndex := by
      rw [ne_eq, Fin.ext_iff, Fin.val_add]
      dsimp only
      omega
    rw [hslot, Function.update_of_ne hne, h.held _ (by dsimp only; omega),
      List.getElem_append_left (by rw [List.length_tail]; omega), List.getElem_tail]

theorem Holds.matching_none (h : Holds c pairs) : c.matching ip = none ↔ ip ∉ FifoMap.keys pairs := by
  rw [← FifoMap.find_eq_none_iff, ← h.lookup_eq]
  unfold Cache.lookup
  rw [Option.map_eq_none_iff]

theorem Holds.learn (h : Holds c pairs) (ip : Ipv4Address) (mac : MacAddress) :
    Holds (c.learn ip mac) (FifoMap.insert 8 pairs ip mac) := by
  unfold Cache.learn FifoMap.insert
  cases hm : c.matching ip with
  | some i =>
    have hknown : ip ∈ FifoMap.keys pairs := by
      by_contra hnew
      rw [h.matching_none.mpr hnew] at hm
      cases hm
    rw [if_pos hknown]
    exact h.replace hm
  | none =>
    have hnew := h.matching_none.mp hm
    rw [if_neg hnew]
    dsimp only
    cases hf : c.find fun e => !e.valid with
    | some i =>
      obtain ⟨hroom, hheld⟩ := h.append hnew hf
      rw [if_neg (by omega)]
      exact hheld
    | none =>
      have hfull : pairs.length = 8 := by
        by_contra hne
        have hle := h.length_le
        have hfree := h.free ⟨pairs.length, by omega⟩ le_rfl
        have hvalid := Cache.find_none hf ⟨pairs.length, by omega⟩
        rw [hfree] at hvalid
        cases hvalid
      rw [if_pos hfull]
      exact h.rotate hnew hfull

theorem senders_append (calls : List (Option (List UInt8) × Ipv4Address)) (call : Option (List UInt8) × Ipv4Address) :
    (call.1.bind parse = none → senders (calls ++ [call]) = senders calls) ∧
    ∀ packet, call.1.bind parse = some packet →
      senders (calls ++ [call]) = senders calls ++ [(packet.senderIp, packet.senderMac)] := by
  unfold senders
  rw [List.filterMap_append]
  refine ⟨fun h => ?_, fun packet h => ?_⟩
  · rw [List.filterMap_cons_none (by rw [h]; rfl), List.filterMap_nil, List.append_nil]
  · rw [List.filterMap_cons_some (by rw [h]; rfl), List.filterMap_nil]

theorem holds_run (calls : List (Option (List UInt8) × Ipv4Address)) : Holds (cacheAfter calls) (reference calls) := by
  induction calls using List.reverseRecOn with
  | nil => exact holds_reset
  | append_singleton calls call ih =>
    obtain ⟨hnone, hsome⟩ := senders_append calls call
    have hcache : cacheAfter (calls ++ [call]) = (parseAndLearn call.1 call.2 (cacheAfter calls)).2 := by
      unfold cacheAfter
      rw [List.foldl_append, List.foldl_cons, List.foldl_nil]
    rw [hcache]
    unfold parseAndLearn reference at *
    cases hparse : call.1.bind parse with
    | none =>
      rw [hnone hparse]
      exact ih
    | some packet =>
      rw [hsome packet hparse, FifoMap.run_append]
      exact ih.learn packet.senderIp packet.senderMac

end Refinement

/-- **The ARP cache is a map of eight senders that forgets the oldest first.** -/
theorem cache_refines_fifo (calls : List (Option (List UInt8) × Ipv4Address)) :
    (∀ ip, (cacheAfter calls).lookup ip = FifoMap.find (reference calls) ip) ∧
    (reference calls).length ≤ 8 ∧ (FifoMap.keys (reference calls)).Nodup ∧
    (∀ call, call.1.bind parse = none → reference (calls ++ [call]) = reference calls) ∧
    (∀ call packet, call.1.bind parse = some packet →
      reference (calls ++ [call]) = FifoMap.insert 8 (reference calls) packet.senderIp packet.senderMac) ∧
    (∀ sender, (senders calls).getLast? = some sender → (cacheAfter calls).lookup sender.1 = some sender.2) ∧
    ∀ ip mac, (cacheAfter calls).lookup ip = some mac →
      ((senders calls).reverse.find? fun sender => sender.1 = ip) = some (ip, mac) := by
  have h := holds_run calls
  refine ⟨h.lookup_eq, h.length_le, h.nodup, fun call hnone => ?_, fun call packet hsome => ?_, fun sender hlast => ?_,
    fun ip mac hlookup => ?_⟩
  · unfold reference
    rw [(senders_append calls call).1 hnone]
  · unfold reference
    rw [(senders_append calls call).2 packet hsome, FifoMap.run_append]
  · rw [h.lookup_eq]
    exact FifoMap.find_run_last hlast
  · rw [h.lookup_eq] at hlookup
    exact FifoMap.find_run (senders calls) hlookup

end Linux95.Net.Arp
