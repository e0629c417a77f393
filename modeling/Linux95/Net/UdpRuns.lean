import Linux95.Net.NetworkSteps

/-! Datagrams that wait for ARP: every interleaving of the calls of the network and of the frames
it receives, with the driver and the clock answering arbitrarily. -/

namespace Linux95.Net

def outputs (st : Step) (s : Network) : List Transmission := (st.exec s).2.sent.drop s.sent.length

def udpFrames (st : Step) (s : Network) : List (List UInt8) :=
  ((outputs st s).filter fun t => t.accepted && frameProtocol t.frame = some 17).map
    Transmission.frame

structure UdpCall where
  index : Nat
  nextHop : Ipv4Address
  packet : Option (List UInt8)
  returned : Bool

/-- The network with its history: the calls of `send_udp` so far, the one whose packet was parked
last, the datagrams transmitted with the call each is due to, and the senders of the ARP packets
received. A datagram that leaves during a call is due to it; one that leaves while a frame is
received is due to the parked packet. -/
structure UdpTrace where
  network : Network
  index : Nat
  calls : List UdpCall
  waiting : Option UdpCall
  deliveries : List (Option UdpCall × List UInt8)
  senders : List (Ipv4Address × MacAddress)

def udpCall (t : UdpTrace) (call : UdpArguments) : UdpCall :=
  ⟨t.index, udpNextHop t.network call.destination, udpPacket t.network call,
    (sendUdp call t.network).1⟩

def UdpTrace.step (st : Step) (t : UdpTrace) : UdpTrace :=
  let next := { t with network := (st.exec t.network).2, index := t.index + 1 }
  match st with
  | .sendUdp call =>
    { next with
      calls := t.calls ++ [udpCall t call]
      waiting :=
        if (udpCall t call).returned ∧ t.network.cache.lookup (udpCall t call).nextHop = none then
          some (udpCall t call)
        else t.waiting
      deliveries := t.deliveries ++ (udpFrames st t.network).map (some (udpCall t call), ·) }
  | .receive frame =>
    { next with
      senders := t.senders ++ (arpSender t.network frame).toList
      deliveries := t.deliveries ++ (udpFrames st t.network).map (t.waiting, ·) }
  | _ => { next with deliveries := t.deliveries ++ (udpFrames st t.network).map (none, ·) }

def UdpTrace.run : List Step → UdpTrace → UdpTrace
  | [], t => t
  | st :: rest, t => UdpTrace.run rest (t.step st)

def UdpTrace.start (s : Network) : UdpTrace := ⟨s, 0, [], none, [], []⟩

/-- The frame is due to a call that returned true, carries the packet that call built and goes to
an address received from its next hop. -/
def Delivered (t : UdpTrace) (d : Option UdpCall × List UInt8) : Prop :=
  ∃ call ∈ t.calls, d.1 = some call ∧ call.returned = true ∧
    ∃ packet mac, call.packet = some packet ∧ (call.nextHop, mac) ∈ t.senders ∧
      buildEthernet 1518 mac t.network.status.mac .ipv4 packet = some d.2

def InOrder (d d' : Option UdpCall × List UInt8) : Prop :=
  ∀ call call', d.1 = some call → d'.1 = some call' → call.nextHop = call'.nextHop →
    call.index < call'.index

structure UdpInv (t : UdpTrace) : Prop where
  learned : ∀ i, (t.network.cache.entries i).valid = true →
    ((t.network.cache.entries i).ip, (t.network.cache.entries i).mac) ∈ t.senders
  indices : ∀ call ∈ t.calls, call.index < t.index
  ascending : t.calls.Pairwise fun call call' => call.index < call'.index
  delivered : ∀ d ∈ t.deliveries, Delivered t d
  inOrder : t.deliveries.Pairwise InOrder
  slot : t.network.pendingUdp.occupied = true →
    t.network.cache.lookup t.network.pendingUdp.nextHop = none ∧
    (t.network.pendingUdp.packet.length ≤ 1500 ∧ byteAt t.network.pendingUdp.packet 9 = 17) ∧
    ∃ call ∈ t.calls, t.waiting = some call ∧ call.returned = true ∧
      call.nextHop = t.network.pendingUdp.nextHop ∧ call.packet = some t.network.pendingUdp.packet ∧
      ∀ d ∈ t.deliveries, InOrder d (some call, [])

section Trace
variable {t : UdpTrace}

theorem outputs_eq (st : Step) {s : Network} {new : List Transmission}
    (h : (st.exec s).2.sent = s.sent ++ new) : outputs st s = new := by
  unfold outputs
  rw [h, List.drop_left]

theorem udpFrames_nil (st : Step) {s : Network} (h : Moves (Lacks 17) s (st.exec s).2) :
    udpFrames st s = [] := by
  obtain ⟨new, hnew, hlacks⟩ := h.sent
  have hfilter : (new.filter fun t => t.accepted && frameProtocol t.frame = some 17) = [] := by
    rw [List.filter_eq_nil_iff]
    intro t ht h
    simp only [Bool.and_eq_true, decide_eq_true_eq] at h
    exact hlacks t ht h.2
  unfold udpFrames
  rw [outputs_eq _ hnew, hfilter]
  rfl

theorem Delivered.mono {t' : UdpTrace} {d : Option UdpCall × List UInt8} (h : Delivered t d)
    (hcalls : t.calls ⊆ t'.calls) (hsenders : t.senders ⊆ t'.senders)
    (hstatus : t'.network.status = t.network.status) : Delivered t' d := by
  obtain ⟨call, hcall, hd, hr, packet, mac, hp, hmac, hframe⟩ := h
  exact ⟨call, hcalls hcall, hd, hr, packet, mac, hp, hsenders hmac, hstatus ▸ hframe⟩

def AddsCall (t t' : UdpTrace) : Prop :=
  t'.index = t.index + 1 ∧
    (t'.calls = t.calls ∨ ∃ call : UdpCall, call.index = t.index ∧ t'.calls = t.calls ++ [call])

theorem AddsCall.subset {t' : UdpTrace} (h : AddsCall t t') : t.calls ⊆ t'.calls := by
  rcases h.2 with hc | ⟨call, -, hc⟩
  · rw [hc]
    exact fun _ => id
  · rw [hc]
    exact List.subset_append_left _ _

theorem UdpInv.calls (h : UdpInv t) {t' : UdpTrace} (hadds : AddsCall t t') :
    (∀ call ∈ t'.calls, call.index < t'.index) ∧
      t'.calls.Pairwise fun call call' => call.index < call'.index := by
  have hold : ∀ call ∈ t.calls, call.index < t'.index := by
    intro call hcall
    have := h.indices call hcall
    have := hadds.1
    omega
  rcases hadds.2 with hc | ⟨new, hnew, hc⟩
  · rw [hc]
    exact ⟨hold, h.ascending⟩
  · rw [hc]
    constructor
    · intro call hcall
      rcases List.mem_append.mp hcall with hcall | hcall
      · exact hold call hcall
      · rw [List.mem_singleton.mp hcall, hnew, hadds.1]
        omega
    · refine List.pairwise_append.mpr ⟨h.ascending, List.pairwise_singleton _ _, ?_⟩
      intro call hcall call' hcall'
      rw [List.mem_singleton.mp hcall', hnew]
      exact h.indices call hcall

theorem UdpInv.quiet (h : UdpInv t) {t' : UdpTrace} (hadds : AddsCall t t')
    (hwaiting : t'.network.pendingUdp.occupied = true → t'.waiting = t.waiting)
    (hdeliveries : t'.deliveries = t.deliveries) (hsenders : t'.senders = t.senders)
    (hstatus : t'.network.status = t.network.status)
    (hcache : t'.network.cache = t.network.cache)
    (hslot : t'.network.pendingUdp = t.network.pendingUdp ∨
      t'.network.pendingUdp.occupied = false) : UdpInv t' := by
  refine ⟨?_, (h.calls hadds).1, (h.calls hadds).2, ?_, ?_, ?_⟩
  · rw [hcache, hsenders]
    exact h.learned
  · rw [hdeliveries]
    intro d hd
    exact (h.delivered d hd).mono hadds.subset (by rw [hsenders]; exact fun _ => id) hstatus
  · rw [hdeliveries]
    exact h.inOrder
  · intro hocc
    have hw := hwaiting hocc
    rcases hslot with hs | hs
    · rw [hs] at hocc
      obtain ⟨hnone, hpacket, call, hcall, hwait, hr, hhop, hp, hord⟩ := h.slot hocc
      rw [hs, hcache, hdeliveries, hw]
      exact ⟨hnone, hpacket, call, hadds.subset hcall, hwait, hr, hhop, hp, hord⟩
    · rw [hs] at hocc
      exact nomatch hocc

theorem UdpInv.inOrder_new (h : UdpInv t) {d : Option UdpCall × List UInt8} (hd : d ∈ t.deliveries)
    {call : UdpCall} (hindex : call.index = t.index) (frame : List UInt8) :
    InOrder d (some call, frame) := by
  intro c c' hc hc' _
  obtain ⟨call', hcall', hd', -⟩ := h.delivered d hd
  rw [hc] at hd'
  obtain rfl := Option.some.inj hd'
  obtain rfl := Option.some.inj hc'
  rw [hindex]
  exact h.indices _ hcall'

theorem addsCall_sendUdp (call : UdpArguments) : AddsCall t (t.step (.sendUdp call)) :=
  ⟨rfl, .inr ⟨udpCall t call, rfl, rfl⟩⟩

theorem step_refused (h : UdpInv t) {call : UdpArguments} {s' : Network}
    (hsend : sendUdp call t.network = (false, s'))
    (hs : s' = t.network ∨ s' = dropExpired t.network) : UdpInv (t.step (.sendUdp call)) := by
  have hret : (udpCall t call).returned = false := by simp only [udpCall, hsend]
  have hnet : (t.step (.sendUdp call)).network = s' := by
    simp only [UdpTrace.step, Step.exec, hsend]
  obtain ⟨hmoves, hcache, hslot, -⟩ := dropExpired_spec t.network
  have hmoves' : Moves (Lacks 17) t.network s' := by
    rcases hs with rfl | rfl
    · exact .refl _
    · exact hmoves
  have hnone : udpFrames (.sendUdp call) t.network = [] :=
    udpFrames_nil _ (by simpa only [Step.exec, hsend] using hmoves')
  refine h.quiet (addsCall_sendUdp call) (fun _ => ?_) ?_ rfl (hnet ▸ hmoves'.status) ?_ ?_
  · simp [UdpTrace.step, hret]
  · simp [UdpTrace.step, hnone]
  · rw [hnet]
    rcases hs with rfl | rfl
    · rfl
    · exact hcache
  · rw [hnet]
    rcases hs with rfl | rfl
    · exact .inl rfl
    · rcases hslot with hsame | ⟨-, -, hfreed⟩
      · exact .inl hsame
      · exact .inr (by rw [hfreed]; rfl)

theorem step_cached (h : UdpInv t) {call : UdpArguments} {mac : MacAddress}
    {packet frame : List UInt8}
    (hl : t.network.cache.lookup (udpNextHop t.network call.destination) = some mac)
    (hp : udpPacket t.network call = some packet)
    (hframe : buildEthernet 1518 mac t.network.status.mac .ipv4 packet = some frame)
    (hsend : sendUdp call t.network = transmit frame t.network.takeIdentification) :
    UdpInv (t.step (.sendUdp call)) := by
  -- with the next hop in the cache the driver takes or refuses the frame during the call
  have hadds := addsCall_sendUdp (t := t) call
  have hnet : (t.step (.sendUdp call)).network =
      (transmit frame t.network.takeIdentification).2 := by
    simp only [UdpTrace.step, Step.exec, hsend]
  have hret : (udpCall t call).returned = t.network.answers 0 := by
    simp only [udpCall, hsend]
    rfl
  have hwait : (t.step (.sendUdp call)).waiting = t.waiting := by
    simp [UdpTrace.step, udpCall, hl]
  have hprotocol : frameProtocol frame = some 17 := by
    rw [frameProtocol_ipv4 hframe, (udpPacket_length _ hp).2]
  have hout : outputs (.sendUdp call) t.network =
      [⟨frame, t.network.answers 0, t.network.uptime⟩] := by
    apply outputs_eq
    simp only [Step.exec, hsend]
    rfl
  cases hans : t.network.answers 0 with
  | false =>
    have hnone : udpFrames (.sendUdp call) t.network = [] := by simp [udpFrames, hout, hans]
    refine h.quiet hadds (fun _ => hwait) ?_ rfl (by rw [hnet]; rfl) (by rw [hnet]; rfl)
      (.inl (by rw [hnet]; rfl))
    simp [UdpTrace.step, hnone]
  | true =>
    have hone : udpFrames (.sendUdp call) t.network = [frame] := by
      simp [udpFrames, hout, hans, hprotocol]
    have hdel : (t.step (.sendUdp call)).deliveries =
        t.deliveries ++ [(some (udpCall t call), frame)] := by
      simp [UdpTrace.step, hone]
    obtain ⟨i, hvalid, hip, hmac⟩ := Arp.Cache.lookup_some hl
    have hsender := h.learned i hvalid
    rw [hip, hmac] at hsender
    refine ⟨?_, (h.calls hadds).1, (h.calls hadds).2, ?_, ?_, ?_⟩
    · rw [hnet]
      exact h.learned
    · rw [hdel]
      intro d hd
      rcases List.mem_append.mp hd with hd | hd
      · exact (h.delivered d hd).mono hadds.subset (fun _ => id) (by rw [hnet]; rfl)
      · rw [List.mem_singleton.mp hd]
        refine ⟨udpCall t call, List.mem_append_right _ (List.mem_singleton_self _), rfl,
          hret.trans hans, packet, mac, hp, hsender, ?_⟩
        rw [hnet]
        exact hframe
    · rw [hdel]
      refine List.pairwise_append.mpr ⟨h.inOrder, List.pairwise_singleton _ _, ?_⟩
      intro d hd d' hd'
      rw [List.mem_singleton.mp hd']
      exact h.inOrder_new hd rfl frame
    · rw [hnet, hwait, hdel]
      intro hocc
      obtain ⟨hnone, hpacket, c, hc, hw, hr, hhop, hcp, hord⟩ := h.slot hocc
      refine ⟨hnone, hpacket, c, hadds.subset hc, hw, hr, hhop, hcp, ?_⟩
      intro d hd
      rcases List.mem_append.mp hd with hd | hd
      · exact hord d hd
      · -- the slot waits for another next hop, since its own is not cached
        rw [List.mem_singleton.mp hd]
        intro c₁ c₂ h₁ h₂ heq
        obtain rfl := Option.some.inj h₁
        obtain rfl := Option.some.inj h₂
        have hsame : udpNextHop t.network call.destination = t.network.pendingUdp.nextHop :=
          heq.trans hhop
        rw [hsame] at hl
        exact absurd (hl.symm.trans hnone) (fun h' => nomatch h')

theorem step_parked (h : UdpInv t) {call : UdpArguments} {packet : List UInt8}
    (hl : t.network.cache.lookup (udpNextHop t.network call.destination) = none)
    (hp : udpPacket t.network call = some packet)
    (hsend : sendUdp call t.network = parkUdp (udpNextHop t.network call.destination) packet
      (dropExpired t.network).takeIdentification) : UdpInv (t.step (.sendUdp call)) := by
  -- without the next hop in the cache the packet is parked, if the request for the address can be sent
  have hadds := addsCall_sendUdp (t := t) call
  obtain ⟨hdrop, hdropCache, -, -⟩ := dropExpired_spec t.network
  obtain ⟨hmoves, hcache, hslot⟩ := parkUdp_spec (dropExpired t.network).takeIdentification
    (udpNextHop t.network call.destination) packet
  rw [← hsend] at hmoves hcache hslot
  have hmoves' : Moves (Lacks 17) t.network (sendUdp call t.network).2 :=
    hdrop.trans ⟨hmoves.status, hmoves.uptime, hmoves.sent⟩
  have hcache' : (sendUdp call t.network).2.cache = t.network.cache := hcache.trans hdropCache
  have hnone : udpFrames (.sendUdp call) t.network = [] := udpFrames_nil _ hmoves'
  have hdel : (t.step (.sendUdp call)).deliveries = t.deliveries := by
    simp [UdpTrace.step, hnone]
  cases hret : (sendUdp call t.network).1 with
  | false =>
    refine h.quiet hadds (fun hocc => ?_) hdel rfl hmoves'.status hcache' (.inr ?_)
    · simp [UdpTrace.step, udpCall, hret]
    · exact (congrArg PendingUdp.occupied hslot).trans hret
  | true =>
    have hwait : (t.step (.sendUdp call)).waiting = some (udpCall t call) := by
      simp [UdpTrace.step, udpCall, hret, hl]
    refine ⟨?_, (h.calls hadds).1, (h.calls hadds).2, ?_, ?_, fun _ => ?_⟩
    · exact fun i hi => hcache' ▸ h.learned i (hcache' ▸ hi)
    · rw [hdel]
      intro d hd
      exact (h.delivered d hd).mono hadds.subset (fun _ => id) hmoves'.status
    · rw [hdel]
      exact h.inOrder
    · have hnet : (t.step (.sendUdp call)).network = (sendUdp call t.network).2 := rfl
      rw [hwait, hnet, hslot, hcache', hdel]
      refine ⟨hl, udpPacket_length _ hp, udpCall t call,
        List.mem_append_right _ (List.mem_singleton_self _), rfl, hret, rfl, hp, ?_⟩
      exact fun d hd => h.inOrder_new hd rfl []

theorem step_sendUdp (h : UdpInv t) (call : UdpArguments) : UdpInv (t.step (.sendUdp call)) := by
  rcases sendUdp_cases t.network call with ⟨s', hsend, hs⟩ |
    ⟨mac, packet, frame, hl, hp, hframe, hsend⟩ | ⟨packet, hl, -, hp, hsend⟩
  · exact step_refused h hsend hs
  · exact step_cached h hl hp hframe hsend
  · exact step_parked h hl hp hsend

theorem UdpInv.learned_sender (h : UdpInv t) (ip : Ipv4Address) (mac : MacAddress) (i : Fin 8)
    (hi : ((t.network.cache.learn ip mac).entries i).valid = true) :
    (((t.network.cache.learn ip mac).entries i).ip, ((t.network.cache.learn ip mac).entries i).mac) ∈
      t.senders ++ [(ip, mac)] := by
  rcases t.network.cache.learn_entries ip mac i with hsame | hnew
  · rw [hsame] at hi ⊢
    exact List.mem_append_left _ (h.learned i hi)
  · rw [hnew]
    exact List.mem_append_right _ (List.mem_singleton_self _)

theorem step_receive (h : UdpInv t) (frame : List UInt8) : UdpInv (t.step (.receive frame)) := by
  have hadds : AddsCall t (t.step (.receive frame)) := ⟨rfl, .inl rfl⟩
  have hnet : (t.step (.receive frame)).network = dispatchFrame frame t.network := rfl
  have hspec := dispatchFrame_spec frame (s := t.network) (fun hocc => (h.slot hocc).2.1.1)
  cases hsender : arpSender t.network frame with
  | none =>
    rw [hsender] at hspec
    have hnone : udpFrames (.receive frame) t.network = [] := udpFrames_nil _ hspec.toMoves
    refine h.quiet hadds (fun _ => rfl) ?_ ?_ hspec.status hspec.cache (.inl hspec.pendingUdp)
    · simp [UdpTrace.step, hnone]
    · simp [UdpTrace.step, hsender]
  | some sender =>
    obtain ⟨ip, mac⟩ := sender
    rw [hsender] at hspec
    obtain ⟨hrelease, hcache⟩ := hspec
    have hsenders : (t.step (.receive frame)).senders = t.senders ++ [(ip, mac)] := by
      simp [UdpTrace.step, hsender]
    have hsub : t.senders ⊆ (t.step (.receive frame)).senders := by
      rw [hsenders]
      exact List.subset_append_left _ _
    have hlearned : ∀ i, ((t.step (.receive frame)).network.cache.entries i).valid = true →
        (((t.step (.receive frame)).network.cache.entries i).ip,
          ((t.step (.receive frame)).network.cache.entries i).mac) ∈
            (t.step (.receive frame)).senders := by
      rw [hnet, hcache, hsenders]
      exact h.learned_sender ip mac
    -- a packet that stays in the slot keeps the guarantees of its call
    have hkept : Moves (Lacks 17) t.network (dispatchFrame frame t.network) →
        ((dispatchFrame frame t.network).pendingUdp.occupied = true →
          (dispatchFrame frame t.network).pendingUdp = t.network.pendingUdp ∧
            ip ≠ t.network.pendingUdp.nextHop) → UdpInv (t.step (.receive frame)) := by
      intro hmoves hslot
      have hdel : (t.step (.receive frame)).deliveries = t.deliveries := by
        simp [UdpTrace.step, udpFrames_nil (.receive frame) hmoves]
      refine ⟨hlearned, (h.calls hadds).1, (h.calls hadds).2, ?_, ?_, fun hocc => ?_⟩
      · rw [hdel]
        exact fun d hd => (h.delivered d hd).mono hadds.subset hsub hmoves.status
      · rw [hdel]
        exact h.inOrder
      · obtain ⟨hsame, hne⟩ := hslot hocc
        rw [hnet, hsame] at hocc
        obtain ⟨hnone, hrest⟩ := h.slot hocc
        rw [hdel, hnet, hsame, hcache]
        exact ⟨Arp.Cache.learn_lookup_none hnone hne mac, hrest⟩
    -- the packet in the slot stays, is too old, or goes out to the sender that was learned
    cases hrelease with
    | kept moves slot other =>
      exact hkept moves fun hocc => ⟨slot, (other (slot ▸ hocc)).2⟩
    | expired moves _ _ slot =>
      refine hkept moves fun hocc => ?_
      rw [slot] at hocc
      exact nomatch hocc
    | handed out answer new status later occupied intime hop slot sent others built =>
      obtain ⟨-, hpacket, call, hcall, hw, hr, hhop, hcp, hord⟩ := h.slot occupied
      have hprotocol : frameProtocol out = some 17 := by
        rw [frameProtocol_ipv4 built, hpacket.2]
      -- the frames that the dispatch itself sends carry no datagram
      have hquiet : (new.filter fun t => t.accepted && frameProtocol t.frame = some 17) = [] := by
        rw [List.filter_eq_nil_iff]
        intro x hx hx'
        simp only [Bool.and_eq_true, decide_eq_true_eq] at hx'
        exact others x hx hx'.2
      have hout : outputs (.receive frame) t.network =
          new ++ [⟨out, answer, (dispatchFrame frame t.network).uptime⟩] :=
        outputs_eq _ (by rw [← List.append_assoc]; exact sent)
      have hframes : udpFrames (.receive frame) t.network = if answer then [out] else [] := by
        unfold udpFrames
        rw [hout, List.filter_append, hquiet, List.nil_append]
        cases answer <;> simp [hprotocol]
      have hdel : (t.step (.receive frame)).deliveries =
          t.deliveries ++ (if answer then [out] else []).map (some call, ·) := by
        simp only [UdpTrace.step, hframes, hw]
      have hnew : ∀ d ∈ (if answer then [out] else []).map (some call, ·), d = (some call, out) := by
        intro d hd
        cases answer with
        | true => simpa using hd
        | false => simp at hd
      refine ⟨hlearned, (h.calls hadds).1, (h.calls hadds).2, ?_, ?_, fun hocc => ?_⟩
      · rw [hdel]
        intro d hd
        rcases List.mem_append.mp hd with hd | hd
        · exact (h.delivered d hd).mono hadds.subset hsub status
        · rw [hnew d hd]
          refine ⟨call, hcall, rfl, hr, _, mac, hcp, ?_, ?_⟩
          · rw [hsenders, hhop, ← hop]
            exact List.mem_append_right _ (List.mem_singleton_self _)
          · rw [hnet, status]
            exact built
      · rw [hdel]
        refine List.pairwise_append.mpr ⟨h.inOrder, ?_, ?_⟩
        · cases answer <;> simp
        · intro d hd d' hd'
          rw [hnew d' hd']
          exact hord d hd
      · rw [hnet, slot] at hocc
        exact nomatch hocc

theorem udpInv_step (h : UdpInv t) (st : Step) : UdpInv (t.step st) := by
  cases st with
  | sendUdp call => exact step_sendUdp h call
  | receive frame => exact step_receive h frame
  | startPing destination =>
    have haside := startPing_udpAside destination t.network
    refine h.quiet ⟨rfl, .inl rfl⟩ (fun _ => rfl) ?_ rfl haside.status haside.cache
      (.inl haside.pendingUdp)
    simp [UdpTrace.step, udpFrames_nil (.startPing destination) haside.toMoves]
  | clearPingResult =>
    have haside := clearPingResult_udpAside t.network
    refine h.quiet ⟨rfl, .inl rfl⟩ (fun _ => rfl) ?_ rfl haside.status haside.cache
      (.inl haside.pendingUdp)
    simp [UdpTrace.step, udpFrames_nil (.clearPingResult) haside.toMoves]
  | advanceTimeout =>
    obtain ⟨hmoves, hcache, hslot⟩ := advanceTimeout_spec t.network
    refine h.quiet ⟨rfl, .inl rfl⟩ (fun _ => rfl) ?_ rfl hmoves.status hcache ?_
    · simp [UdpTrace.step, udpFrames_nil (.advanceTimeout) hmoves]
    · rcases hslot with hsame | ⟨-, -, hfreed⟩
      · exact .inl hsame
      · exact .inr (congrArg PendingUdp.occupied hfreed)
  | elapse seconds =>
    have hmoves : Moves (Lacks 17) t.network ((Step.elapse seconds).exec t.network).2 :=
      ⟨rfl, Nat.le_add_right _ _, [], by simp [Step.exec], by simp⟩
    refine h.quiet ⟨rfl, .inl rfl⟩ (fun _ => rfl) ?_ rfl rfl rfl (.inl rfl)
    simp [UdpTrace.step, udpFrames_nil _ hmoves]

theorem udpInv_run : ∀ (steps : List Step) {t : UdpTrace}, UdpInv t → UdpInv (t.run steps) := by
  intro steps
  induction steps with
  | nil => exact fun h => h
  | cons st rest ih => exact fun h => ih (udpInv_step h st)

theorem run_network : ∀ (steps : List Step) (t : UdpTrace),
    (t.run steps).network = runSteps steps t.network := by
  intro steps
  induction steps with
  | nil => exact fun _ => rfl
  | cons st rest ih =>
    intro t
    have hstep : (t.step st).network = (st.exec t.network).2 := by cases st <;> rfl
    rw [UdpTrace.run, ih, hstep]
    rfl

theorem udpInv_start (mac : MacAddress) (uptime : Nat) (elapsed : Nat → Nat) (answers : Nat → Bool) :
    UdpInv (.start (.initial mac uptime elapsed answers)) where
  learned _ h := nomatch h
  indices _ h := nomatch h
  ascending := .nil
  delivered _ h := nomatch h
  inOrder := .nil
  slot h := nomatch h

end Trace

/-- The slot in a state `s`: which steps may change it, when it is sent, and that it is sent. -/
structure SlotLaw (s : Network) : Prop where
  /-- `send_udp` leaves a waiting packet alone unless the clock it reads first is past the
  deadline. -/
  notOverwritten : s.pendingUdp.occupied = true → ∀ call,
    (sendUdp call s).2.pendingUdp = s.pendingUdp ∨ s.pendingUdp.deadline ≤ (uptimeSeconds s).1
  /-- A received frame leaves it alone, or drops it late, or hands it over. -/
  received : s.pendingUdp.occupied = true → ∀ frame,
    (dispatchFrame frame s).pendingUdp = s.pendingUdp ∨
    (dispatchFrame frame s).pendingUdp = s.pendingUdp.freed ∧
      (s.pendingUdp.deadline ≤ (dispatchFrame frame s).uptime ∨
        ∃ mac, arpSender s frame = some (s.pendingUdp.nextHop, mac))
  /-- The timeout drops it only late, and nothing else touches it. -/
  timedOut : s.pendingUdp.occupied = true → (advanceTimeout s).pendingUdp = s.pendingUdp ∨
    (advanceTimeout s).pendingUdp = s.pendingUdp.freed ∧
      s.pendingUdp.deadline ≤ (uptimeSeconds s).1
  untouched : ∀ destination seconds, (startPing destination s).2.pendingUdp = s.pendingUdp ∧
    (clearPingResult s).pendingUdp = s.pendingUdp ∧
    ((Step.elapse seconds).exec s).2.pendingUdp = s.pendingUdp
  /-- A datagram handed over on receipt of a frame is the waiting one, before its deadline. -/
  notLate : ∀ frame, ∀ t ∈ outputs (.receive frame) s, frameProtocol t.frame = some 17 →
    s.pendingUdp.occupied = true ∧ t.uptime < s.pendingUdp.deadline ∧
    ∃ mac, arpSender s frame = some (s.pendingUdp.nextHop, mac) ∧
      buildEthernet 1518 mac s.status.mac .ipv4 s.pendingUdp.packet = some t.frame
  /-- The first ARP packet from its next hop hands it over, unless it is handled too late. -/
  handedOver : s.pendingUdp.occupied = true → ∀ frame mac,
    arpSender s frame = some (s.pendingUdp.nextHop, mac) →
    s.pendingUdp.deadline ≤ (dispatchFrame frame s).uptime ∨
    ∃ t ∈ outputs (.receive frame) s,
      buildEthernet 1518 mac s.status.mac .ipv4 s.pendingUdp.packet = some t.frame

theorem slotLaw {s : Network}
    (hlen : s.pendingUdp.occupied = true → s.pendingUdp.packet.length ≤ 1500) : SlotLaw s where
  notOverwritten hocc call := by
    obtain ⟨-, -, hslot, -⟩ := dropExpired_spec s
    rcases hslot with hsame | ⟨-, hlate, -⟩
    swap
    · exact .inr hlate
    rcases sendUdp_cases s call with ⟨s', hsend, rfl | rfl⟩ | ⟨_, _, _, -, -, -, hsend⟩ |
      ⟨packet, -, hfree, -, -⟩
    · exact .inl (by rw [hsend])
    · exact .inl (by rw [hsend]; exact hsame)
    · exact .inl (by rw [hsend]; rfl)
    · rw [hsame, hocc] at hfree
      exact nomatch hfree
  received hocc frame := by
    have hspec := dispatchFrame_spec frame hlen
    cases hsender : arpSender s frame with
    | none =>
      rw [hsender] at hspec
      exact .inl hspec.pendingUdp
    | some sender =>
      obtain ⟨ip, mac⟩ := sender
      rw [hsender] at hspec
      cases hspec.1 with
      | kept _ slot _ => exact .inl slot
      | expired _ _ late slot => exact .inr ⟨slot, .inl late⟩
      | handed _ _ _ _ _ _ _ hop slot _ _ _ => exact .inr ⟨slot, .inr ⟨mac, by rw [hop]⟩⟩
  timedOut _ := by
    obtain ⟨-, -, hsame | ⟨-, hlate, hfreed⟩⟩ := advanceTimeout_spec s
    · exact .inl hsame
    · exact .inr ⟨hfreed, hlate⟩
  untouched destination _ := ⟨(startPing_udpAside destination s).pendingUdp, rfl, rfl⟩
  notLate frame t ht hprotocol := by
    have hspec := dispatchFrame_spec frame hlen
    have hno : Moves (Lacks 17) s (dispatchFrame frame s) → False := by
      intro hmoves
      obtain ⟨new, hnew, hlacks⟩ := hmoves.sent
      rw [outputs_eq (.receive frame) hnew] at ht
      exact hlacks t ht hprotocol
    cases hsender : arpSender s frame with
    | none =>
      rw [hsender] at hspec
      exact (hno hspec.toMoves).elim
    | some sender =>
      obtain ⟨ip, mac⟩ := sender
      rw [hsender] at hspec
      cases hspec.1 with
      | kept moves _ _ => exact (hno moves).elim
      | expired moves _ _ _ => exact (hno moves).elim
      | handed out answer new _ _ occupied intime hop _ sent others built =>
        rw [outputs_eq (.receive frame) (List.append_assoc _ _ _ ▸ sent)] at ht
        rcases List.mem_append.mp ht with ht | ht
        · exact absurd hprotocol (others t ht)
        · rw [List.mem_singleton.mp ht]
          exact ⟨occupied, intime, mac, by rw [hop], built⟩
  handedOver hocc frame mac hsender := by
    have hspec := dispatchFrame_spec frame hlen
    rw [hsender] at hspec
    cases hspec.1 with
    | kept _ _ other => exact absurd rfl (other hocc).2
    | expired _ _ late _ => exact .inl late
    | handed out answer new _ _ _ _ _ _ sent _ built =>
      refine .inr ⟨⟨out, answer, (dispatchFrame frame s).uptime⟩, ?_, built⟩
      rw [outputs_eq (.receive frame) (List.append_assoc _ _ _ ▸ sent)]
      exact List.mem_append_right _ (List.mem_singleton_self _)

theorem Release.status {ip : Ipv4Address} {mac : MacAddress} {s s' : Network}
    (h : Release ip mac s s') : s'.status = s.status := by
  cases h with
  | kept moves _ _ => exact moves.status
  | expired moves _ _ _ => exact moves.status
  | handed _ _ _ status _ _ _ _ _ _ _ _ => exact status

theorem exec_status (st : Step) {s : Network}
    (hlen : s.pendingUdp.occupied = true → s.pendingUdp.packet.length ≤ 1500) :
    (st.exec s).2.status = s.status := by
  cases st with
  | sendUdp call =>
    obtain ⟨hdrop, -, -, -⟩ := dropExpired_spec s
    rcases sendUdp_cases s call with ⟨s', hsend, rfl | rfl⟩ | ⟨_, _, _, -, -, -, hsend⟩ |
      ⟨packet, -, -, -, hsend⟩
    · simp only [Step.exec, hsend]
    · simp only [Step.exec, hsend]
      exact hdrop.status
    · simp only [Step.exec, hsend]
      rfl
    · obtain ⟨hmoves, -, -⟩ := parkUdp_spec (dropExpired s).takeIdentification
        (udpNextHop s call.destination) packet
      simp only [Step.exec, hsend]
      exact hmoves.status.trans hdrop.status
  | startPing destination => exact (startPing_udpAside destination s).status
  | clearPingResult => rfl
  | receive frame =>
    have hspec := dispatchFrame_spec frame hlen
    cases hsender : arpSender s frame with
    | none =>
      rw [hsender] at hspec
      exact hspec.status
    | some sender =>
      rw [hsender] at hspec
      exact hspec.1.status
  | advanceTimeout => exact (advanceTimeout_spec s).1.status
  | elapse seconds => rfl

theorem run_status : ∀ (steps : List Step) {t : UdpTrace}, UdpInv t →
    (runSteps steps t.network).status = t.network.status := by
  intro steps
  induction steps with
  | nil => exact fun _ => rfl
  | cons st rest ih =>
    intro t h
    have hstep : (t.step st).network = (st.exec t.network).2 := by cases st <;> rfl
    have hrest := ih (udpInv_step h st)
    rw [hstep] at hrest
    exact hrest.trans (exec_status st fun hocc => (h.slot hocc).2.1.1)

def runCalls (calls : List Call) (s : Network) : Network := calls.foldl (fun s call => call.exec s) s

theorem runCalls_eq : ∀ (calls : List Call) {t : UdpTrace}, UdpInv t →
    t.network.status.online = true →
    runCalls calls t.network = runSteps (calls.flatMap Call.steps) t.network := by
  intro calls
  induction calls with
  | nil => exact fun _ _ => rfl
  | cons call rest ih =>
    intro t h honline
    have hrun := run_network call.steps t
    have hstatus := run_status call.steps h
    have hrest := ih (udpInv_run call.steps h)
    rw [hrun, hstatus] at hrest
    rw [List.flatMap_cons, runSteps_append, ← hrest honline, ← call.exec_eq honline]
    rfl

/-- **Datagrams waiting for ARP.** In every run from an initialised network each transmitted
datagram is due to one call of `send_udp` that returned true, at most one to each, carries the
packet built then to an address its next hop announced, in the order of the calls for each next
hop; and in every state the waiting packet obeys `SlotLaw`. -/
theorem udp_runs (mac : MacAddress) (uptime : Nat) (elapsed : Nat → Nat) (answers : Nat → Bool) :
    (∀ calls, runCalls calls (.initial mac uptime elapsed answers) =
      runSteps (calls.flatMap Call.steps) (.initial mac uptime elapsed answers)) ∧
    ∀ steps : List Step,
      let t := (UdpTrace.start (.initial mac uptime elapsed answers)).run steps
      t.network = runSteps steps (.initial mac uptime elapsed answers) ∧
      (∀ d ∈ t.deliveries, Delivered t d) ∧
      (t.deliveries.map Prod.fst).Nodup ∧
      t.deliveries.Pairwise InOrder ∧
      t.calls.Pairwise (fun call call' => call.index < call'.index) ∧
      SlotLaw t.network := by
  have hstart := udpInv_start mac uptime elapsed answers
  refine ⟨fun calls => runCalls_eq calls hstart rfl, fun steps => ?_⟩
  have h := udpInv_run steps hstart
  refine ⟨run_network steps _, h.delivered, ?_, h.inOrder, h.ascending,
    slotLaw fun hocc => (h.slot hocc).2.1.1⟩
  -- two deliveries due to one call would be in order with each other
  refine List.pairwise_map.mpr (h.inOrder.imp_of_mem fun {d d'} hd _ hord heq => ?_)
  obtain ⟨call, -, hcall, -⟩ := h.delivered d hd
  exact lt_irrefl _ (hord call call hcall (heq ▸ hcall) rfl)

def gatewayReply : List UInt8 :=
  [2, 0, 0, 0, 0, 1, 0x52, 0x54, 0, 0x12, 0x35, 2, 8, 6, 0, 1, 8, 0, 6, 4, 0, 2,
    0x52, 0x54, 0, 0x12, 0x35, 2, 10, 0, 2, 2, 2, 0, 0, 0, 0, 1, 10, 0, 2, 15]

def parkedThenSent : List Step :=
  [.sendUdp ⟨![10, 0, 2, 2], 40001, 40000, some [0x68, 0x69]⟩, .receive gatewayReply]

theorem udp_runs_parked :
    let t := (UdpTrace.start (.initial ![2, 0, 0, 0, 0, 1] 0 (fun _ => 0) fun _ => true)).run
      parkedThenSent
    t.deliveries.length = 1 ∧ ∀ d ∈ t.deliveries, Delivered t d := by
  intro t
  exact ⟨by decide +kernel, ((udp_runs _ _ _ _).2 parkedThenSent).2.1⟩

end Linux95.Net
