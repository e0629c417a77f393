import Mathlib.Data.Fin.VecNotation
import Linux95.Net.DnsMessage

/-! The resolver half of `net/dns.cpp`. What the clock, the online flag and `send_udp` answer is
part of each event, so a run is over every behaviour of the network below. -/

namespace Linux95.Net.Dns

structure Resolver where
  server : Ipv4Address
  status : Status
  bound : Bool
  awaiting : Bool
  queuedFollowup : Bool
  question : Name
  visitedNames : List Name
  addresses : List Ipv4Address
  nextId : Nat
  activeId : Nat
  attempts : Nat
  sentAt : Nat
  queryPacket : List UInt8
  deriving DecidableEq

/-- What one call sees of the machine. The online flag and the tick counter are read once by the
call itself and once more when it sends. -/
structure Surroundings where
  online : Bool
  onlineAtSend : Bool
  accepts : Bool
  ticks : Nat
  ticksAtSend : Nat
  ticksPerSecond : Nat
  deriving DecidableEq

structure Query where
  id : Nat
  question : Name
  packet : List UInt8
  accepted : Bool
  deriving DecidableEq

def clientPort : Nat := 53000
def serverPort : Nat := 53

def Resolver.failUnavailable (r : Resolver) : Resolver :=
  { r with status := .networkUnavailable, awaiting := false, queuedFollowup := false }

def sendAttempt (w : Surroundings) (r : Resolver) : Resolver × List Query :=
  if !w.onlineAtSend then (r.failUnavailable, [])
  else
    let id := (r.nextId + 1) % 2 ^ 16
    match buildQuery id r.question 512 with
    | none => (r.failUnavailable, [])
    | some packet =>
      let r := { r with queryPacket := packet }
      let query : Query := ⟨id, r.question, packet, w.accepts⟩
      if !w.accepts then (r.failUnavailable, [query])
      else
        ({ r with nextId := id, activeId := id, attempts := (r.attempts + 1) % 2 ^ 8,
                  sentAt := w.ticksAtSend, awaiting := true }, [query])

/-- The part of `on_udp` after `parse_response`. -/
def takeReply (parsed : ParsedResponse) (r : Resolver) : Resolver :=
  match parsed.disposition with
  | .ignored => r
  | .followup =>
    { r with awaiting := false, question := parsed.followupName,
             visitedNames := parsed.visitedNames, attempts := 0, queuedFollowup := true }
  | .complete =>
    { r with awaiting := false, status := parsed.status,
             addresses := if parsed.status = .success then parsed.addresses else [] }

def onUdp (source : Ipv4Address) (sourcePort destinationPort : Nat) (payload : List UInt8)
    (r : Resolver) : Resolver :=
  if r.status ≠ .pending ∨ !r.awaiting ∨ source ≠ r.server ∨ sourcePort ≠ serverPort ∨
      destinationPort ≠ clientPort ∨ payload.length < 2 then r
  else takeReply (parseResponse payload r.activeId r.question r.visitedNames) r

def beginLookup (w : Surroundings) (hostname : Option (List UInt8)) (r : Resolver) :
    Status × Resolver × List Query :=
  if r.status = .pending then (.busy, r, [])
  else
    match encodeHostname hostname with
    | none => (.invalidName, { r with status := .invalidName }, [])
    | some question =>
      let r := { r with addresses := [], awaiting := false, queuedFollowup := false }
      if !r.bound || !w.online then (.networkUnavailable, r.failUnavailable, [])
      else
        let sent := sendAttempt w { r with question := question, visitedNames := [question],
                                           attempts := 0, status := .pending }
        (sent.1.status, sent)

/-- `ticks - sent_at` on 64-bit values, against two seconds. -/
def retryDue (w : Surroundings) (r : Resolver) : Bool :=
  w.ticksPerSecond * 2 % 2 ^ 64 ≤ (w.ticks + (2 ^ 64 - r.sentAt)) % 2 ^ 64

def poll (w : Surroundings) (r : Resolver) : Resolver × List Query :=
  if r.status ≠ .pending then (r, [])
  else if r.queuedFollowup then sendAttempt w { r with queuedFollowup := false }
  else if !r.awaiting || !retryDue w r then (r, [])
  else if r.attempts = 1 then sendAttempt w { r with awaiting := false }
  else ({ r with awaiting := false, status := .timedOut }, [])

def setServer (address : Ipv4Address) (r : Resolver) : Status × Resolver :=
  if r.status = .pending then (.busy, r) else (.success, { r with server := address })

inductive Event where
  | beginLookup (w : Surroundings) (hostname : Option (List UInt8))
  | poll (w : Surroundings)
  | setServer (address : Ipv4Address)
  | datagram (source : Ipv4Address) (sourcePort destinationPort : Nat) (payload : List UInt8)

def step (e : Event) (r : Resolver) : Resolver × List Query :=
  match e with
  | .beginLookup w hostname => (beginLookup w hostname r).2
  | .poll w => poll w r
  | .setServer address => ((setServer address r).2, [])
  | .datagram source sourcePort destinationPort payload =>
    (onUdp source sourcePort destinationPort payload r, [])

/-- A lookup starts at a `begin_lookup` that is not answered `Busy`. -/
def startsLookup (e : Event) (r : Resolver) : Bool :=
  match e with
  | .beginLookup _ _ => r.status ≠ .pending
  | _ => false

def run : List Event → Resolver × List Query → Resolver × List Query
  | [], s => s
  | e :: rest, (r, queries) =>
    run rest ((step e r).1, (step e r).2 ++ if startsLookup e r then [] else queries)

structure PendingShape (r : Resolver) : Prop where
  exactlyOne : r.awaiting = !r.queuedFollowup
  attempts : r.awaiting = true → r.attempts = 1 ∨ r.attempts = 2
  visitedLength : 1 ≤ r.visitedNames.length ∧ r.visitedNames.length ≤ 5
  distinct : Distinct r.visitedNames
  last : r.visitedNames.getLast? = some r.question

structure LookupBounds (queries : List Query) : Prop where
  total : queries.length ≤ 10
  perQuestion : ∀ q, queries.countP (fun e => namesEqual e.question q) ≤ 2
  freshIds : (queries.map Query.id).Nodup

/-- How far a lookup has come: the queries so far were for visited names, at most two for each
earlier name and one for each attempt at the current one, under consecutive ids. -/
structure Progress (r : Resolver) (queries : List Query) : Prop where
  visitedLength : r.visitedNames.length ≤ 5
  distinct : Distinct r.visitedNames
  last : r.visitedNames.getLast? = some r.question
  asked : ∀ e ∈ queries, e.question ∈ r.visitedNames ∧ validWireName e.question = true
  current : queries.countP (fun e => e.question = r.question) ≤ r.attempts
  count : queries.length + 2 ≤ 2 * r.visitedNames.length + r.attempts
  ids : queries.map Query.id =
    (List.range queries.length).map fun k => (r.nextId + 2 ^ 16 - k) % 2 ^ 16
  bounds : LookupBounds queries

structure Inv (r : Resolver) (queries : List Query) : Prop where
  bound : r.bound = true
  bounds : LookupBounds queries
  pending : r.status = .pending → Progress r queries ∧ r.awaiting = (!r.queuedFollowup) ∧
    (r.awaiting = true → (r.attempts = 1 ∨ r.attempts = 2) ∧
      (queries.map Query.id).head? = some r.activeId) ∧
    (r.queuedFollowup = true → r.attempts = 0)

theorem lookupBounds_nil : LookupBounds [] := ⟨by simp, fun _ => by simp, List.nodup_nil⟩

theorem buildQuery_valid {id : Nat} {question : Name} {capacity : Nat} {packet : List UInt8}
    (h : buildQuery id question capacity = some packet) : validWireName question = true := by
  unfold buildQuery at h
  split_ifs at h with hbad
  push Not at hbad
  simpa using hbad.1

theorem sendAttempt_cases (w : Surroundings) (r : Resolver) :
    (sendAttempt w r).1.bound = r.bound ∧
    ((sendAttempt w r).1.status = .networkUnavailable ∧
      ((sendAttempt w r).2 = [] ∨ ∃ query : Query, (sendAttempt w r).2 = [query] ∧
        query.id = (r.nextId + 1) % 2 ^ 16 ∧ query.question = r.question ∧
        validWireName query.question = true) ∨
    ∃ query : Query, (sendAttempt w r).2 = [query] ∧
      query.id = (r.nextId + 1) % 2 ^ 16 ∧ query.question = r.question ∧
      validWireName query.question = true ∧
      (sendAttempt w r).1 = { r with queryPacket := query.packet, nextId := query.id,
                                     activeId := query.id, attempts := (r.attempts + 1) % 2 ^ 8,
                                     sentAt := w.ticksAtSend, awaiting := true }) := by
  cases honline : w.onlineAtSend with
  | false =>
    have h : sendAttempt w r = (r.failUnavailable, []) := by simp [sendAttempt, honline]
    rw [h]
    exact ⟨rfl, .inl ⟨rfl, .inl rfl⟩⟩
  | true =>
    cases hpacket : buildQuery ((r.nextId + 1) % 2 ^ 16) r.question 512 with
    | none =>
      have h : sendAttempt w r = (r.failUnavailable, []) := by
        simp only [sendAttempt, honline, hpacket]
        rfl
      rw [h]
      exact ⟨rfl, .inl ⟨rfl, .inl rfl⟩⟩
    | some packet =>
      have hvalid := buildQuery_valid hpacket
      cases haccepts : w.accepts with
      | false =>
        have h : sendAttempt w r = ({ r with queryPacket := packet }.failUnavailable,
            [⟨(r.nextId + 1) % 2 ^ 16, r.question, packet, false⟩]) := by
          simp only [sendAttempt, honline, hpacket, haccepts]
          rfl
        rw [h]
        exact ⟨rfl, .inl ⟨rfl, .inr ⟨_, rfl, rfl, rfl, hvalid⟩⟩⟩
      | true =>
        simp only [sendAttempt, honline, hpacket, haccepts]
        exact ⟨rfl, .inr ⟨⟨(r.nextId + 1) % 2 ^ 16, r.question, packet, true⟩, rfl, rfl, rfl, hvalid, rfl⟩⟩

theorem Progress.send {r : Resolver} {queries : List Query} (h : Progress r queries)
    (hattempts : r.attempts ≤ 1) {query : Query} (hid : query.id = (r.nextId + 1) % 2 ^ 16)
    (hq : query.question = r.question) (hvalid : validWireName query.question = true)
    {r' : Resolver} (hr' : r'.visitedNames = r.visitedNames)
    (hquestion : r'.question = r.question) (hnext : r'.nextId = query.id)
    (hattempts' : r'.attempts = r.attempts + 1) : Progress r' (query :: queries) := by
  have hlen := h.count
  have hfive := h.visitedLength
  have hids : (query :: queries).map Query.id =
      (List.range (query :: queries).length).map fun k => (r'.nextId + 2 ^ 16 - k) % 2 ^ 16 := by
    rw [List.length_cons, List.range_succ_eq_map, List.map_cons, List.map_cons, h.ids, List.map_map]
    refine congrArg₂ _ (by rw [hnext]; omega) (List.map_congr_left fun k hk => ?_)
    have := List.mem_range.mp hk
    rw [Function.comp_apply, hnext, hid]
    omega
  have hmem : r.question ∈ r.visitedNames := List.mem_of_getLast? h.last
  have hasked : ∀ e ∈ query :: queries,
      e.question ∈ r'.visitedNames ∧ validWireName e.question = true := by
    rw [hr']
    exact List.forall_mem_cons.mpr ⟨⟨hq ▸ hmem, hvalid⟩, h.asked⟩
  refine ⟨hr' ▸ hfive, hr' ▸ h.distinct, by rw [hr', hquestion]; exact h.last, hasked, ?_, ?_, hids, ?_⟩
  · rw [hquestion, hattempts', List.countP_cons_of_pos (by simpa using hq)]
    exact Nat.succ_le_succ h.current
  · rw [List.length_cons, hr', hattempts']
    omega
  refine ⟨by rw [List.length_cons]; omega, fun q => ?_, ?_⟩
  · by_cases hsame : namesEqual query.question q = true
    · rw [List.countP_cons, if_pos hsame]
      -- all queries for this name were for the current question
      have hsub : queries.countP (fun e => namesEqual e.question q) ≤
          queries.countP (fun e => e.question = r.question) := by
        apply List.countP_mono_left
        intro e he heq
        have hcur := namesEqual_trans heq (namesEqual_symm (hq ▸ hsame))
        exact decide_eq_true (h.distinct.eq_of_namesEqual (h.asked e he).1 hmem hcur)
      have := h.current
      omega
    · rw [List.countP_cons, if_neg hsame]
      exact h.bounds.perQuestion q
  · rw [hids]
    refine List.Nodup.map_on ?_ List.nodup_range
    intro x hx y hy hxy
    have hx' := List.mem_range.mp hx
    have hy' := List.mem_range.mp hy
    rw [List.length_cons] at hx' hy'
    omega

theorem sendAttempt_inv (w : Surroundings) {r : Resolver} {queries : List Query}
    (hbound : r.bound = true) (hqueued : r.queuedFollowup = false) (hattempts : r.attempts ≤ 1)
    (h : Progress r queries) : Inv (sendAttempt w r).1 ((sendAttempt w r).2 ++ queries) := by
  have hbounds : ∀ query : Query, query.id = (r.nextId + 1) % 2 ^ 16 →
      query.question = r.question → validWireName query.question = true →
      LookupBounds (query :: queries) := by
    intro query hid hq hvalid
    have hsent : Progress { r with nextId := query.id, attempts := r.attempts + 1 }
        (query :: queries) := h.send hattempts hid hq hvalid rfl rfl rfl rfl
    exact hsent.bounds
  obtain ⟨hb, ⟨hs, hnone | ⟨query, hquery, hid, hq, hvalid⟩⟩ |
    ⟨query, hquery, hid, hq, hvalid, hr⟩⟩ :=
    sendAttempt_cases w r
  · rw [hnone, List.nil_append]
    exact ⟨hb.trans hbound, h.bounds, fun hp => by rw [hs] at hp; exact nomatch hp⟩
  · rw [hquery, List.singleton_append]
    exact ⟨hb.trans hbound, hbounds query hid hq hvalid, fun hp => by rw [hs] at hp; exact nomatch hp⟩
  · rw [hquery, List.singleton_append, hr]
    have hadd : (r.attempts + 1) % 2 ^ 8 = r.attempts + 1 := by omega
    refine ⟨hbound, hbounds query hid hq hvalid, fun _ => ⟨?_, ?_, fun _ => ⟨?_, rfl⟩, ?_⟩⟩
    · exact h.send hattempts hid hq hvalid rfl rfl rfl hadd
    · simp [hqueued]
    · dsimp only
      omega
    · simp [hqueued]

def Resolver.fresh (r : Resolver) (question : Name) : Resolver :=
  { r with addresses := [], awaiting := false, queuedFollowup := false, question := question,
           visitedNames := [question], attempts := 0, status := .pending }

theorem beginLookup_cases (w : Surroundings) (hostname : Option (List UInt8)) (r : Resolver) :
    r.status = .pending ∧ beginLookup w hostname r = (.busy, r, []) ∨
    r.status ≠ .pending ∧ ((∃ r', (r'.status = .invalidName ∨ r'.status = .networkUnavailable) ∧
        r'.bound = r.bound ∧ beginLookup w hostname r = (r'.status, r', [])) ∨
      ∃ question, beginLookup w hostname r =
        ((sendAttempt w (r.fresh question)).1.status, sendAttempt w (r.fresh question))) := by
  unfold beginLookup
  by_cases hp : r.status = .pending
  · rw [if_pos hp]
    exact .inl ⟨hp, rfl⟩
  rw [if_neg hp]
  refine .inr ⟨hp, ?_⟩
  cases encodeHostname hostname with
  | none => exact .inl ⟨{ r with status := .invalidName }, .inl rfl, rfl, rfl⟩
  | some question =>
    dsimp only
    split_ifs
    · exact .inl ⟨{ r with addresses := [], awaiting := false, queuedFollowup := false,
                            status := .networkUnavailable }, .inr rfl, rfl, rfl⟩
    · exact .inr ⟨question, rfl⟩

theorem beginLookup_inv (w : Surroundings) (hostname : Option (List UInt8)) {r : Resolver}
    {queries : List Query} (h : Inv r queries) :
    Inv (beginLookup w hostname r).2.1
      ((beginLookup w hostname r).2.2 ++ if r.status ≠ .pending then [] else queries) := by
  rcases beginLookup_cases w hostname r with ⟨hp, hr⟩ | ⟨hp, ⟨r', hs, hb, hr⟩ | ⟨question, hr⟩⟩
  · rw [hr, if_neg (by simpa using hp)]
    exact h
  · rw [hr, if_pos hp]
    refine ⟨hb.trans h.bound, lookupBounds_nil, fun hp' => ?_⟩
    rcases hs with hs | hs <;> rw [hs] at hp' <;> exact nomatch hp'
  · rw [hr, if_pos hp]
    refine sendAttempt_inv w h.bound rfl (Nat.zero_le 1) ?_
    refine ⟨?_, List.pairwise_singleton _ _, rfl, ?_, ?_, ?_, rfl, lookupBounds_nil⟩ <;>
      simp [Resolver.fresh]

theorem poll_inv (w : Surroundings) {r : Resolver} {queries : List Query} (h : Inv r queries) :
    Inv (poll w r).1 ((poll w r).2 ++ queries) := by
  unfold poll
  by_cases hp : r.status = .pending
  swap
  · rw [if_pos hp]
    exact h
  rw [if_neg (by simpa using hp)]
  obtain ⟨hprog, hone, hawait, hzero⟩ := h.pending hp
  by_cases hq : r.queuedFollowup = true
  · rw [if_pos hq]
    have h0 := hzero hq
    refine sendAttempt_inv w h.bound rfl (by dsimp only; omega) ?_
    exact ⟨hprog.1, hprog.2, hprog.3, hprog.4, hprog.5, hprog.6, hprog.7, hprog.8⟩
  rw [if_neg hq]
  by_cases hdue : (!r.awaiting || !retryDue w r) = true
  · rw [if_pos hdue]
    exact h
  rw [if_neg hdue]
  by_cases h1 : r.attempts = 1
  · rw [if_pos h1]
    refine sendAttempt_inv w h.bound (by simpa using hq) (by dsimp only; omega) ?_
    exact ⟨hprog.1, hprog.2, hprog.3, hprog.4, hprog.5, hprog.6, hprog.7, hprog.8⟩
  · rw [if_neg h1]
    exact ⟨h.bound, h.bounds, fun h' => nomatch h'⟩

theorem setServer_inv (address : Ipv4Address) {r : Resolver} {queries : List Query}
    (h : Inv r queries) : Inv (setServer address r).2 queries := by
  unfold setServer
  split_ifs with hp
  · exact h
  · exact ⟨h.bound, h.bounds, fun h' => absurd h' hp⟩

theorem onUdp_cases (source : Ipv4Address) (sourcePort destinationPort : Nat)
    (payload : List UInt8) {r : Resolver} (hvisited : r.status = .pending → r.visitedNames ≠ []) :
    onUdp source sourcePort destinationPort payload r = r ∨
    (r.status = .pending ∧ r.awaiting = true ∧ source = r.server ∧ sourcePort = serverPort ∧
      destinationPort = clientPort ∧ 2 ≤ payload.length ∧
      ((∃ status, status.IsFailure ∧ onUdp source sourcePort destinationPort payload r =
          { r with awaiting := false, status := status, addresses := [] }) ∨
      readBe16 payload 0 = r.activeId ∧
        ((∃ addresses, (echoedQuestion payload r.question).isSome ∧
          onUdp source sourcePort destinationPort payload r =
            { r with awaiting := false, status := .success, addresses := addresses }) ∨
        ∃ question visited, Continues r.visitedNames visited ∧
          visited.getLast? = some question ∧ r.visitedNames.length < visited.length ∧
          onUdp source sourcePort destinationPort payload r =
            { r with awaiting := false, question := question, visitedNames := visited,
                     attempts := 0, queuedFollowup := true }))) := by
  unfold onUdp
  by_cases hskip : r.status ≠ .pending ∨ !r.awaiting ∨ source ≠ r.server ∨ sourcePort ≠ serverPort ∨
      destinationPort ≠ clientPort ∨ payload.length < 2
  · exact .inl (if_pos hskip)
  rw [if_neg hskip]
  push Not at hskip
  obtain ⟨hp, ha, hsrc, hsp, hdp, hlen⟩ := hskip
  have ha' : r.awaiting = true := by simpa using ha
  have hfail : ∀ status : Status, status.IsFailure → status ≠ .success := by
    rintro status (h | h | h | h | h) <;> rw [h] <;> decide
  have hj := parseResponse_judged payload r.activeId r.question (hvisited hp)
  generalize parseResponse payload r.activeId r.question r.visitedNames = parsed at hj
  have hended : parsed.disposition = .complete → parsed.status.IsFailure →
      takeReply parsed r =
        { r with awaiting := false, status := parsed.status, addresses := [] } := by
    intro hd hs
    simp only [takeReply, hd, if_neg (hfail _ hs)]
  rcases hj with ⟨hd, -⟩ | ⟨hd, hs⟩ | ⟨hid, ⟨hd, hs⟩ | ⟨hd, hs, hecho⟩ | ⟨hd, hc, hlast, hlt⟩⟩
  · left
    simp only [takeReply, hd]
  · exact .inr ⟨hp, ha', hsrc, hsp, hdp, hlen, .inl ⟨_, hs, hended hd hs⟩⟩
  · exact .inr ⟨hp, ha', hsrc, hsp, hdp, hlen, .inl ⟨_, hs, hended hd hs⟩⟩
  · refine .inr ⟨hp, ha', hsrc, hsp, hdp, hlen, .inr ⟨hid, .inl ⟨parsed.addresses, hecho, ?_⟩⟩⟩
    simp only [takeReply, hd, hs, if_true]
  · refine .inr ⟨hp, ha', hsrc, hsp, hdp, hlen, .inr ⟨hid, .inr ⟨_, _, hc, hlast, hlt, ?_⟩⟩⟩
    simp only [takeReply, hd]

theorem Inv.visited_ne {r : Resolver} {queries : List Query} (h : Inv r queries)
    (hp : r.status = .pending) : r.visitedNames ≠ [] := by
  intro hnil
  have hlast := (h.pending hp).1.last
  rw [hnil] at hlast
  exact nomatch hlast

theorem onUdp_inv (source : Ipv4Address) (sourcePort destinationPort : Nat) (payload : List UInt8)
    {r : Resolver} {queries : List Query} (h : Inv r queries) :
    Inv (onUdp source sourcePort destinationPort payload r) queries := by
  rcases onUdp_cases source sourcePort destinationPort payload h.visited_ne with
    hsame | ⟨hp, ha, -, -, -, -, ⟨status, hs, hr⟩ | ⟨-, ⟨addresses, -, hr⟩ |
      ⟨question, visited, hc, hlast, hlt, hr⟩⟩⟩
  · rw [hsame]
    exact h
  · rw [hr]
    refine ⟨h.bound, h.bounds, fun hp' => ?_⟩
    rcases hs with hs | hs | hs | hs | hs <;> rw [hs] at hp' <;> exact nomatch hp'
  · rw [hr]
    exact ⟨h.bound, h.bounds, fun hp' => nomatch hp'⟩
  · obtain ⟨hprog, hone, hawait, -⟩ := h.pending hp
    have hqueued : r.queuedFollowup = false := by simpa [ha] using hone
    have hcount := hprog.count
    rw [hr]
    refine ⟨h.bound, h.bounds, fun _ => ⟨?_, by simp, fun h' => (nomatch h'), fun _ => rfl⟩⟩
    refine ⟨hc.length_le hprog.visitedLength, hc.distinct hprog.distinct, hlast,
      fun e he => ⟨hc.prefixed.subset (hprog.asked e he).1, (hprog.asked e he).2⟩, ?_, ?_, hprog.ids,
      h.bounds⟩
    · -- the new name differs from every name asked before
      rw [Nat.le_zero, List.countP_eq_zero]
      intro e he heq
      have hnew := hc.getLast_new (hc.distinct hprog.distinct) hlt hlast (hprog.asked e he).1
      have hsame : e.question = question := of_decide_eq_true heq
      rw [← hsame] at hnew
      have hself := namesEqual_iff.mpr ⟨(hprog.asked e he).2, (hprog.asked e he).2, rfl⟩
      rw [hnew] at hself
      exact nomatch hself
    · dsimp only
      have := (hawait ha).1
      omega

theorem step_inv (e : Event) {r : Resolver} {queries : List Query} (h : Inv r queries) :
    Inv (step e r).1 ((step e r).2 ++ if startsLookup e r then [] else queries) := by
  cases e with
  | beginLookup w hostname =>
    have hnew := beginLookup_inv w hostname h
    simpa [step, startsLookup] using hnew
  | poll w => exact poll_inv w h
  | setServer address => exact setServer_inv address h
  | datagram source sourcePort destinationPort payload =>
    exact onUdp_inv source sourcePort destinationPort payload h

theorem run_inv : ∀ (events : List Event) {r : Resolver} {queries : List Query}, Inv r queries →
    Inv (run events (r, queries)).1 (run events (r, queries)).2 := by
  intro events
  induction events with
  | nil => exact fun h => h
  | cons e rest ih => exact fun h => ih (step_inv e h)

theorem sendAttempt_status (w : Surroundings) (r : Resolver) :
    (sendAttempt w r).1.status = .networkUnavailable ∨ (sendAttempt w r).1.status = r.status := by
  obtain ⟨-, ⟨hs, -⟩ | ⟨query, -, -, -, -, hr⟩⟩ := sendAttempt_cases w r
  · exact .inl hs
  · rw [hr]
    exact .inr rfl

theorem beginLookup_busy {w : Surroundings} {hostname : Option (List UInt8)} {r : Resolver}
    (h : (beginLookup w hostname r).1 = .busy) : r.status = .pending := by
  rcases beginLookup_cases w hostname r with ⟨hp, -⟩ | ⟨-, ⟨r', hs, -, hr⟩ | ⟨question, hr⟩⟩
  · exact hp
  · rw [hr] at h
    dsimp only at h
    rcases hs with hs | hs <;> rw [h] at hs <;> exact nomatch hs
  · rw [hr] at h
    dsimp only at h
    rcases sendAttempt_status w (r.fresh question) with hs | hs <;> rw [h] at hs <;> exact nomatch hs

theorem step_success {e : Event} {r : Resolver} (hne : r.status ≠ .success)
    (h : (step e r).1.status = .success) :
    ∃ source sourcePort destinationPort payload,
      e = .datagram source sourcePort destinationPort payload := by
  have hsend : ∀ w r', r'.status ≠ .success → (sendAttempt w r').1.status ≠ .success := by
    intro w r' hr' hs
    rcases sendAttempt_status w r' with h' | h'
    · rw [hs] at h'
      exact nomatch h'
    · exact hr' (h'.symm.trans hs)
  cases e with
  | beginLookup w hostname =>
    exfalso
    rcases beginLookup_cases w hostname r with ⟨-, hr⟩ | ⟨-, ⟨r', hs, -, hr⟩ | ⟨question, hr⟩⟩
    · simp only [step, hr] at h
      exact hne h
    · simp only [step, hr] at h
      rcases hs with hs | hs <;> rw [h] at hs <;> exact nomatch hs
    · simp only [step, hr] at h
      exact hsend w (r.fresh question) (fun h' => nomatch h') h
  | poll w =>
    exfalso
    simp only [step, poll] at h
    split_ifs at h with hp hq hdue h1
    · exact hne h
    · exact hsend w { r with queuedFollowup := false } hne h
    · exact hne h
    · exact hsend w { r with awaiting := false } hne h
  | setServer address =>
    exfalso
    simp only [step, setServer] at h
    split_ifs at h
    · exact hne h
    · exact hne h
  | datagram source sourcePort destinationPort payload => exact ⟨_, _, _, _, rfl⟩

/-- The events the resolver must not react to: a datagram that cannot answer its last query, and
calls that are answered `Busy`. -/
def Unrelated (e : Event) (r : Resolver) : Prop :=
  match e with
  | .beginLookup w hostname => (beginLookup w hostname r).1 = .busy
  | .poll _ => False
  | .setServer address => (setServer address r).1 = .busy
  | .datagram source sourcePort destinationPort payload =>
    source ≠ r.server ∨ sourcePort ≠ serverPort ∨ destinationPort ≠ clientPort ∨
      payload.length < 2 ∨ readBe16 payload 0 ≠ r.activeId

theorem step_unrelated {e : Event} {r : Resolver} (h : Unrelated e r) : step e r = (r, []) := by
  cases e with
  | beginLookup w hostname => simp [step, beginLookup, beginLookup_busy h]
  | poll w => exact h.elim
  | setServer address =>
    have hp : r.status = .pending := by
      by_contra hp
      simp [Unrelated, setServer, hp] at h
    simp [step, setServer, hp]
  | datagram source sourcePort destinationPort payload =>
    simp only [step, Prod.mk.injEq, and_true]
    unfold onUdp
    by_cases hskip : r.status ≠ .pending ∨ !r.awaiting ∨ source ≠ r.server ∨
        sourcePort ≠ serverPort ∨ destinationPort ≠ clientPort ∨ payload.length < 2
    · exact if_pos hskip
    · rw [if_neg hskip]
      push Not at hskip
      obtain ⟨-, -, hsrc, hsp, hdp, hlen⟩ := hskip
      have hid : readBe16 payload 0 ≠ r.activeId := by
        rcases h with h | h | h | h | h
        · exact absurd hsrc h
        · exact absurd hsp h
        · exact absurd hdp h
        · omega
        · exact h
      simp only [takeReply, parseResponse_otherId _ _ hlen hid]

/-- **DNS resolver runs.** From a bound idle resolver, whatever the network and the clock do:
a pending resolver has its shape, the queries of a lookup are bounded and have fresh ids, only
the server's answer to the last query ends a lookup with `Success`, and everything else leaves
the resolver alone. -/
theorem resolver_runs (r₀ : Resolver) (hbound : r₀.bound = true) (hidle : r₀.status = .idle)
    (events : List Event) :
    let r := (run events (r₀, [])).1
    let queries := (run events (r₀, [])).2
    (r.status = .pending → PendingShape r) ∧
    LookupBounds queries ∧
    (∀ e, r.status ≠ .success → (step e r).1.status = .success → ∃ payload,
      e = .datagram r.server serverPort clientPort payload ∧ 2 ≤ payload.length ∧
        (queries.map Query.id).head? = some (readBe16 payload 0) ∧
        (echoedQuestion payload r.question).isSome) ∧
    ∀ e, Unrelated e r → step e r = (r, []) := by
  have h₀ : Inv r₀ [] := by
    refine ⟨hbound, lookupBounds_nil, fun hp => ?_⟩
    rw [hidle] at hp
    exact nomatch hp
  have h := run_inv events h₀
  dsimp only
  refine ⟨fun hp => ?_, h.bounds, fun e hne hs => ?_, fun e he => step_unrelated he⟩
  · obtain ⟨hprog, hone, hawait, -⟩ := h.pending hp
    exact ⟨hone, fun ha => (hawait ha).1,
      ⟨List.length_pos_of_ne_nil (h.visited_ne hp), hprog.visitedLength⟩, hprog.distinct, hprog.last⟩
  · obtain ⟨source, sourcePort, destinationPort, payload, rfl⟩ := step_success hne hs
    rcases onUdp_cases source sourcePort destinationPort payload h.visited_ne with
      hsame | ⟨hp, ha, rfl, rfl, rfl, hlen, ⟨status, hfail, hr⟩ | ⟨hid, ⟨addresses, hecho, hr⟩ |
        ⟨question, visited, -, -, -, hr⟩⟩⟩
    · simp only [step, hsame] at hs
      exact absurd hs hne
    · simp only [step, hr] at hs
      rcases hfail with hf | hf | hf | hf | hf <;> rw [hs] at hf <;> exact nomatch hf
    · have hactive := ((h.pending hp).2.2.1 ha).2
      exact ⟨payload, rfl, hlen, hid ▸ hactive, hecho⟩
    · simp only [step, hr] at hs
      exact absurd hs hne

def initialResolver : Resolver where
  server := ![10, 0, 2, 3]
  status := .idle
  bound := true
  awaiting := false
  queuedFollowup := false
  question := []
  visitedNames := []
  addresses := []
  nextId := 0
  activeId := 0
  attempts := 0
  sentAt := 0
  queryPacket := []

def lookupOfA : List Event := [.beginLookup ⟨true, true, true, 0, 0, 100⟩ (some [0x61])]

def replyForA : List UInt8 :=
  [0, 1, 0x81, 0x80, 0, 1, 0, 1, 0, 0, 0, 0, 1, 0x61, 0, 0, 1, 0, 1,
    0xC0, 0x0C, 0, 1, 0, 1, 0, 0, 0, 0, 0, 4, 1, 2, 3, 4]

theorem resolver_runs_lookup :
    PendingShape (run lookupOfA (initialResolver, [])).1 ∧
    (step (.datagram ![10, 0, 2, 3] serverPort clientPort replyForA)
      (run lookupOfA (initialResolver, [])).1).1.status = .success ∧
    ((run lookupOfA (initialResolver, [])).2.map Query.id).head? = some (readBe16 replyForA 0) := by
  obtain ⟨hshape, -, hsuccess, -⟩ := resolver_runs initialResolver rfl rfl lookupOfA
  have hs : (step (.datagram ![10, 0, 2, 3] serverPort clientPort replyForA)
      (run lookupOfA (initialResolver, [])).1).1.status = .success := by decide +kernel
  obtain ⟨payload, heq, -, hid, -⟩ := hsuccess _ (by decide +kernel) hs
  obtain ⟨-, -, -, rfl⟩ := Event.datagram.inj heq
  exact ⟨hshape (by decide +kernel), hs, hid⟩

end Linux95.Net.Dns
