import Tun2Http.Session.Loop

/-! The keys of the sessions: they are kept and told apart, except that the
answer to a DHCP request overwrites the address of its session. -/
namespace Tun2Http

open Machine

namespace EventLoop

variable {L M N : EventLoop} {f : NgSession → SessionData × Bool} {K : Kernel} {pkt : Packet}

/-- The key that a packet's session has, where `handle_ip` calls a handler that
looks for one. -/
def packetKey (L : EventLoop) (pkt : Packet) : Option Key :=
  match (Tun2Http.handleIp L.context pkt.turns pkt.length).value pkt.mem with
  | .handler version protocol payload =>
      if protocol = ipprotoIcmp ∨ protocol = ipprotoIcmpv6 then none
      else some (pkt.key protocol version payload)
  | _ => none

/-- The step keeps the key of every session, leaves no key twice, registers a
session under the key of its packet, and the look-ups find the session of a key. -/
structure KeepsKeys (L : EventLoop) (input : LoopInput) : Prop where
  kept : ∀ s ∈ L.ngSession, ∀ t ∈ (stepLoop L input).ngSession, t.pointer = s.pointer →
    t.data.key = s.data.key
  unique : Keyed (·.data.key) (stepLoop L input).ngSession
  registered : ∀ K pkt, input = .packet K pkt → ∀ t ∈ (stepLoop L input).ngSession,
    t.pointer = L.next → t.data.key = L.packetKey pkt
  found : ∀ s ∈ (stepLoop L input).ngSession, ∀ key, s.data.key = some key →
    (stepLoop L input).search key = some s ∧
      findSession (stepLoop L input).context key.protocol key.version (key.saddr, key.daddr)
        key.source key.dest = s.data.flow

/-- The packet is a DHCP request from an address that does not begin with
`10.1.10.1`, and it is answered in an active or a new session. -/
def Readdresses (L : EventLoop) : LoopInput → Prop
  | .packet K pkt => ∃ version payload, pkt.Arrives version ipprotoUdp payload ∧
      Admitted L.context pkt.length version pkt.mem ipprotoUdp payload ∧
      let key := pkt.key ipprotoUdp version payload
      AsksDhcp pkt.mem key.source key.dest (payload + 8) (remaining pkt.length (payload + 8)) ∧
        key.saddr.take 4 ≠ dhcpServer ∧
        match L.search key with
        | some s => s.data.active = true
        | none => 0 ≤ openDatagramSocket K
  | _ => False

/-! Steps that keep the keys. -/

/-- Every session of `M` was in `L`, with the same key. -/
structure Rooted (L M : EventLoop) : Prop where
  stems : ∀ t ∈ M.ngSession, ∃ s ∈ L.ngSession, t.pointer = s.pointer ∧ t.data.key = s.data.key
  unique : Keyed (·.data.key) L.ngSession → Keyed (·.data.key) M.ngSession

theorem Rooted.refl (L : EventLoop) : Rooted L L := ⟨fun t ht => ⟨t, ht, rfl, rfl⟩, id⟩

theorem Rooted.trans (hFirst : Rooted L M) (hSecond : Rooted M N) : Rooted L N := by
  refine ⟨fun u hu => ?_, fun h => hSecond.unique (hFirst.unique h)⟩
  obtain ⟨t, ht, hPointer, hKey⟩ := hSecond.stems u hu
  obtain ⟨s, hs, hPointer', hKey'⟩ := hFirst.stems t ht
  exact ⟨s, hs, hPointer.trans hPointer', hKey.trans hKey'⟩

theorem rooted_update (hKey : ∀ s ∈ L.ngSession, (f s).1.key = s.data.key) :
    Rooted L (L.update f) := by
  refine ⟨fun t ht => ?_, fun h => h.filterMap fun s hs t hTreat => ?_⟩
  · obtain ⟨s, hs, -, rfl⟩ := mem_update.mp ht
    exact ⟨s, hs, rfl, hKey s hs⟩
  · split_ifs at hTreat
    cases hTreat
    exact hKey s hs

theorem rooted_store (h : Sound L) {s : NgSession} {data : SessionData} (hIn : s ∈ L.ngSession)
    (hKey : data.key = s.data.key) : Rooted L (L.store s.pointer data) := by
  refine rooted_update fun t ht => ?_
  dsimp only
  split_ifs with hPointer
  · rwa [h.eq_of_pointer hIn ht hPointer]
  · rfl

theorem rooted_pass (h : Sound L) (kernels : Nat → Kernel) (check : Bool) :
    Rooted L (L.pass kernels check) := by
  have hCounted : Rooted L { L with sessions := L.live } := ⟨(Rooted.refl L).stems, id⟩
  have hMonitored := hCounted.trans (rooted_update (f := fun s =>
    (s.data.monitor (kernels s.pointer), false)) fun s hs =>
      (SessionData.evolves_monitor (h.sessions s hs) _).key)
  have hSound := h.pass kernels false
  unfold EventLoop.pass at hSound ⊢
  dsimp only at hSound ⊢
  split_ifs
  · exact hMonitored.trans (rooted_update fun s hs =>
      (SessionData.evolves_check (hSound.sessions s hs) _ _ _).key)
  · exact hMonitored

theorem rooted_event (h : Sound L) (K : Kernel) (registration : Int × Nat) (ev : EpollEvents) :
    Rooted L (L.event K registration ev) := by
  unfold EventLoop.event
  split_ifs
  · split
    · exact .refl L
    · rename_i s hFound
      have hIn := List.mem_of_find?_eq_some hFound
      exact rooted_store h hIn (SessionData.evolves_event (h.sessions s hIn) K ev).key
  · exact .refl L

/-- What is not a packet keeps the keys. -/
theorem rooted_step (h : Sound L) {input : LoopInput} (hInput : ∀ K pkt, input ≠ .packet K pkt) :
    Rooted L (stepLoop L input) := by
  cases input with
  | start kernels fwd53 maxsessions =>
      have hEnded : Rooted L (L.update fun s => s.data.allowed (kernels s.pointer)) :=
        rooted_update fun s hs => (SessionData.evolves_allowed (h.sessions s hs) _).1.key
      exact ⟨hEnded.stems, hEnded.unique⟩
  | pass kernels check => exact rooted_pass h kernels check
  | packet K pkt => exact absurd rfl (hInput K pkt)
  | event K registration ev => exact rooted_event h K registration ev
  | clear => exact ⟨fun t ht => absurd ht List.not_mem_nil, fun _ => keyed_nil _⟩

/-! The handlers of a packet. -/

theorem toNat_port (offset : Nat) (mem : Memory) :
    (BitVec.ofNat 16 ((be16 offset).value mem)).toNat = (be16 offset).value mem := by
  have hHigh := (mem offset).toNat_lt
  have hLow := (mem (offset + 1)).toNat_lt
  rw [value_be16, BitVec.toNat_ofNat]
  omega

/-- A new UDP session gets the key of its datagram. -/
theorem key_newUdp {version payload : Nat} {key : Key} {c : UdpCell}
    (hKey : pkt.key ipprotoUdp version payload = key)
    (hNew : newUdp K pkt.uid version (key.saddr, key.daddr) (BitVec.ofNat 16 key.source)
      (BitVec.ofNat 16 key.dest) = some c) :
    (SessionData.udp c).key = some key := by
  subst hKey
  have hEnds := (newUdp_eq hNew).2.2
  simp only [UdpSession.endpoints, Prod.mk.injEq] at hEnds
  obtain ⟨hVersion, hSaddr, hDaddr, hSource, hDest⟩ := hEnds
  simp only [SessionData.key, hVersion, hSaddr, hDaddr, hSource, hDest]
  simp only [Packet.key, toNat_port]

/-- A new TCP session gets the key of its SYN. -/
theorem key_newTcp {version payload : Nat} {info : SynInfo} {hdr : TcpHdr} {data : Payload}
    {c : Cell} (hHdr : (readTcpHdr payload).value pkt.mem = hdr)
    (hInfo : pkt.synInfo version payload = some info)
    (hNew : newSession K info hdr data = some c) :
    (SessionData.tcp c).key = some (pkt.key ipprotoTcp version payload) := by
  obtain ⟨-, -, window, hTcp⟩ := newSession_eq hNew
  obtain ⟨options, -, rfl⟩ := Option.map_eq_some_iff.mp hInfo
  subst hHdr
  simp only [SessionData.key, hTcp, synSession]
  simp only [Packet.key, readTcpHdr, Reader.value_bind, Reader.value_pure, toNat_port]

theorem packetKey_icmp {version payload : Nat} {protocol : UInt8}
    (hHands : L.Hands pkt version protocol payload)
    (hIcmp : protocol = ipprotoIcmp ∨ protocol = ipprotoIcmpv6) : L.packetKey pkt = none := by
  unfold packetKey
  rw [show (Tun2Http.handleIp L.context pkt.turns pkt.length).value pkt.mem = _ from hHands]
  exact if_pos hIcmp

theorem packetKey_ports {version payload : Nat} {protocol : UInt8}
    (hHands : L.Hands pkt version protocol payload)
    (hPorts : protocol = ipprotoUdp ∨ protocol = ipprotoTcp) :
    L.packetKey pkt = some (pkt.key protocol version payload) := by
  have hOther : ¬ (protocol = ipprotoIcmp ∨ protocol = ipprotoIcmpv6) := by
    rcases hPorts with rfl | rfl <;> decide
  unfold packetKey
  rw [show (Tun2Http.handleIp L.context pkt.turns pkt.length).value pkt.mem = _ from hHands]
  exact if_neg hOther

/-- A session is registered under the key of its packet, which no other has. -/
def Registers (L : EventLoop) (pkt : Packet) (M : EventLoop) : Prop :=
  ∃ K data, M = L.register K data ∧ data.key = L.packetKey pkt ∧
    ∀ key, data.key = some key → L.search key = none

/-- A datagram keeps the key of its session, unless it is a DHCP request that
is answered. -/
theorem key_datagram {version payload : Nat} {span : Span} {key : Key} {c : UdpCell}
    (hStill : ¬ Readdresses L (.packet K pkt)) (hTakes : L.TakesUdp pkt version payload span)
    (hPacket : pkt.key ipprotoUdp version payload = key) (hKey : (SessionData.udp c).key = some key)
    (hOpen : L.search key = none → 0 ≤ openDatagramSocket K) :
    (SessionData.udp (forwardUdp K pkt.mem key.source key.dest span.data span.datalen c)).key =
      (SessionData.udp c).key := by
  rw [SessionData.key_forwardUdp_iff]
  rintro ⟨hAsks, hSaddr⟩
  obtain ⟨hHands, hActive, rfl⟩ := takesUdp_iff.mp hTakes
  obtain ⟨hArrives, hAdmitted⟩ := hands_iff.mp hHands
  have hAddress : c.udp.saddr = key.saddr := by
    simp only [SessionData.key, Option.some.injEq] at hKey
    rw [← hKey]
  subst hPacket
  refine hStill ⟨version, payload, hArrives, hAdmitted, hAsks, hAddress ▸ hSaddr, ?_⟩
  split
  · rename_i s hFound
    exact hActive s hFound
  · rename_i hNone
    exact hOpen hNone

theorem handled_keys {M : EventLoop} (h : Sound L) (hStill : ¬ Readdresses L (.packet K pkt))
    (hHandled : Handled L K pkt M) : Rooted L M ∨ Registers L pkt M := by
  cases hHandled with
  | ignored => exact Or.inl (.refl L)
  | @echo s c message hIn hData =>
      refine Or.inl (rooted_store h hIn ?_)
      rw [hData]
      rfl
  | @datagram version payload span key s c hTakes hKey hFound hData =>
      obtain ⟨hIn, hSession⟩ := search_key hFound
      rw [hData] at hSession
      have hSame := key_datagram hStill hTakes hKey hSession fun hNone => by
        rw [hFound] at hNone
        cases hNone
      exact Or.inl (rooted_store h hIn (hSame.trans (by rw [hData])))
  | @segment version payload s c span hHands hFound hData =>
      obtain ⟨hIn, -⟩ := search_key hFound
      refine Or.inl (rooted_store h hIn ?_)
      rw [hData]
      exact SessionData.key_step c _
  | @newIcmp version payload protocol c message hHands hIcmp hEcho hNone hNew =>
      exact Or.inr ⟨K, _, rfl, (packetKey_icmp hHands hIcmp).symm, fun key hKey => by cases hKey⟩
  | @newUdp version payload span key c hTakes hKey hNone hNew =>
      have hSession := key_newUdp hKey hNew
      have hSocket := (isSome_newUdp K pkt.uid version (key.saddr, key.daddr) _ _).mp
        (Option.isSome_of_eq_some hNew)
      have hSame := key_datagram hStill hTakes hKey hSession fun _ => hSocket
      rw [hSession] at hSame
      refine Or.inr ⟨K, _, rfl, ?_, fun k hk => ?_⟩
      · rw [hSame, packetKey_ports hTakes.hands (Or.inl rfl), hKey]
      · rw [hSame] at hk
        cases hk
        exact hNone
  | @newTcp version payload info hdr c span hHands hHdr hUrg hNone hSyn hInfo hNew =>
      have hSession := key_newTcp hHdr hInfo hNew
      refine Or.inr ⟨K, _, rfl, ?_, fun k hk => ?_⟩
      · rw [hSession, packetKey_ports hHands (Or.inr rfl)]
      · rw [hSession] at hk
        cases hk
        exact hNone

/-- Where the keys are kept apart, the look-ups find the session of a key. -/
theorem found_of_keyed (h : Keyed (·.data.key) L.ngSession) {s : NgSession} (hIn : s ∈ L.ngSession)
    {key : Key} (hKey : s.data.key = some key) : L.search key = some s ∧
      findSession L.context key.protocol key.version (key.saddr, key.daddr) key.source key.dest =
        s.data.flow := by
  have hFound : L.search key = some s := h.find?_eq hIn hKey
  exact ⟨hFound, by rw [findSession_context, hFound, Option.bind_some]⟩

theorem Rooted.keepsKeys (h : Sound L) (hKeyed : Keyed (·.data.key) L.ngSession) {input : LoopInput}
    (hRooted : Rooted L (stepLoop L input)) : KeepsKeys L input := by
  have hUnique := hRooted.unique hKeyed
  refine ⟨fun s hs t ht hPointer => ?_, hUnique, fun K pkt _ t ht hPointer => ?_,
    fun s hs key hKey => found_of_keyed hUnique hs hKey⟩
  · obtain ⟨r, hr, hSame, hKey⟩ := hRooted.stems t ht
    rw [hKey, h.eq_of_pointer hs hr (hSame.symm.trans hPointer)]
  · obtain ⟨r, hr, hSame, -⟩ := hRooted.stems t ht
    have hFresh := h.fresh r hr
    omega

theorem Registers.keepsKeys (h : Sound L) (hKeyed : Keyed (·.data.key) L.ngSession)
    (hRegisters : Registers L pkt (stepLoop L (.packet K pkt))) : KeepsKeys L (.packet K pkt) := by
  obtain ⟨K', data, hEq, hKey, hNone⟩ := hRegisters
  have hUnique : Keyed (·.data.key) (stepLoop L (.packet K pkt)).ngSession := by
    rw [hEq]
    exact keyed_cons_iff.mpr ⟨fun key hData t ht => search_none (hNone key hData) ht, hKeyed⟩
  refine ⟨fun s hs t ht hPointer => ?_, hUnique, fun _ _ hInput t ht hPointer => ?_,
    fun s hs key hData => found_of_keyed hUnique hs hData⟩
  · rw [hEq] at ht
    rcases List.mem_cons.mp ht with rfl | hBefore
    · exact absurd hPointer (Nat.ne_of_lt (h.fresh s hs)).symm
    · rw [h.eq_of_pointer hs hBefore hPointer]
  · cases hInput
    rw [hEq] at ht
    rcases List.mem_cons.mp ht with rfl | hBefore
    · exact hKey
    · exact absurd hPointer (Nat.ne_of_lt (h.fresh t hBefore))

theorem keepsKeys_step (h : Sound L) (hKeyed : Keyed (·.data.key) L.ngSession) {input : LoopInput}
    (hStill : ¬ Readdresses L input) : KeepsKeys L input := by
  by_cases hInput : ∃ K pkt, input = .packet K pkt
  · obtain ⟨K, pkt, rfl⟩ := hInput
    have hHandled : Handled L K pkt (stepLoop L (.packet K pkt)) := handled_handleIp L K pkt
    rcases handled_keys h hStill hHandled with hRooted | hRegisters
    · exact hRooted.keepsKeys h hKeyed
    · exact hRegisters.keepsKeys h hKeyed
  · exact (rooted_step h fun K pkt hPacket => hInput ⟨K, pkt, hPacket⟩).keepsKeys h hKeyed

/-! An answered request loses the key. -/

/-- A key of UDP is a UDP session's. -/
theorem data_of_key_udp {data : SessionData} {key : Key} (hProtocol : key.protocol = ipprotoUdp)
    (hKey : data.key = some key) : ∃ c, data = .udp c := by
  cases data with
  | icmp c => cases hKey
  | udp c => exact ⟨c, rfl⟩
  | tcp c =>
      simp only [SessionData.key, Option.some.injEq] at hKey
      rw [← hKey] at hProtocol
      cases hProtocol

theorem not_keepsKeys {input : LoopInput} (hReaddresses : Readdresses L input) :
    ¬ KeepsKeys L input := by
  intro hKeeps
  cases input with
  | packet K pkt =>
      obtain ⟨version, payload, hArrives, hAdmitted, hAsks, hSaddr, hSession⟩ := hReaddresses
      have hHands : L.Hands pkt version ipprotoUdp payload := hands_iff.mpr ⟨hArrives, hAdmitted⟩
      set key := pkt.key ipprotoUdp version payload with hKey
      have hTakes : L.TakesUdp pkt version payload
          ⟨payload + 8, remaining pkt.length (payload + 8)⟩ := by
        refine takesUdp_iff.mpr ⟨hHands, fun s hFound => ?_, rfl⟩
        rw [← hKey] at hFound
        rw [hFound] at hSession
        exact hSession
      have hStep : stepLoop L (.packet K pkt) = L.handleUdp K pkt version payload :=
        handleIp_udp hHands
      set forward : UdpCell → SessionData := fun c => .udp (forwardUdp K pkt.mem key.source key.dest
        (payload + 8) (remaining pkt.length (payload + 8)) c) with hForward
      have hLost : ∀ c, (SessionData.udp c).key = some key → (forward c).key ≠ some key := by
        intro c hSame
        rw [← hSame, Ne, SessionData.key_forwardUdp_iff, not_not]
        refine ⟨hAsks, ?_⟩
        simp only [SessionData.key, Option.some.injEq] at hSame
        rw [← hSame] at hSaddr
        exact hSaddr
      cases hSearch : L.search key with
      | some s =>
          obtain ⟨hIn, hOwn⟩ := search_key hSearch
          obtain ⟨c, hData⟩ := data_of_key_udp rfl hOwn
          rw [hData] at hOwn
          have hStored : ⟨s.pointer, forward c⟩ ∈ (stepLoop L (.packet K pkt)).ngSession := by
            rw [hStep, handleUdp_found hTakes hSearch hData]
            exact mem_store hIn
          have hKept := hKeeps.kept s hIn _ hStored rfl
          rw [hData, hOwn] at hKept
          exact hLost c hOwn hKept
      | none =>
          rw [hSearch] at hSession
          obtain ⟨c, hNew⟩ := Option.isSome_iff_exists.mp ((isSome_newUdp K pkt.uid version
            (key.saddr, key.daddr) (BitVec.ofNat 16 key.source) (BitVec.ofNat 16 key.dest)).mpr
            hSession)
          have hStored : ⟨L.next, forward c⟩ ∈ (stepLoop L (.packet K pkt)).ngSession := by
            rw [hStep, handleUdp_new hTakes hSearch hNew]
            exact List.mem_cons_self ..
          have hRegistered := hKeeps.registered K pkt rfl _ hStored rfl
          rw [packetKey_ports hHands (Or.inl rfl)] at hRegistered
          exact hLost c (key_newUdp rfl hNew) hRegistered
  | start => exact hReaddresses
  | pass => exact hReaddresses
  | event => exact hReaddresses
  | clear => exact hReaddresses

end EventLoop

/-- The keys are kept apart in exactly the runs in which no DHCP request from a
foreign address is answered. -/
theorem sessions_keyed_iff (inputs : List LoopInput) :
    Along stepLoop EventLoop.KeepsKeys .init inputs ↔
      Along stepLoop (fun L input => ¬ EventLoop.Readdresses L input) .init inputs := by
  constructor
  · intro hAlong
    exact hAlong.imp fun L input hKeeps hReaddresses => EventLoop.not_keepsKeys hReaddresses hKeeps
  · intro hAlong
    exact along_of_invariant (I := fun L => L.Sound ∧ Keyed (·.data.key) L.ngSession)
      ⟨EventLoop.sound_init, keyed_nil _⟩ hAlong
      (fun L input h hStill => ⟨h.1.step input, (EventLoop.keepsKeys_step h.1 h.2 hStill).unique⟩)
      fun L input h hStill => EventLoop.keepsKeys_step h.1 h.2 hStill

/-- A DHCP discover, from `0.0.0.0:68` to `255.255.255.255:67`. -/
def dhcpDiscover : Packet where
  mem := packetMemory ([0x45, 0, 1, 12, 0, 0, 0, 0, 64, 17, 0, 0, 0, 0, 0, 0, 255, 255, 255, 255,
    0, 68, 0, 67, 0, 248, 0, 0, 1, 1, 6] ++ List.replicate 233 0 ++ [0x63, 0x82, 0x53, 0x63])
  length := 268
  turns := 0
  uid := -1

/-- A client that repeats its DHCP discover gets two sessions with one key. -/
theorem sessions_not_keyed : ∃ inputs, ¬ Along stepLoop EventLoop.KeepsKeys .init inputs := by
  refine ⟨[.start (fun _ => .willing) false 10, .pass (fun _ => .willing) true,
    .packet .willing dhcpDiscover, .packet .willing dhcpDiscover], fun hAlong => ?_⟩
  have hUnique := hAlong.2.2.2.1.unique
  revert hUnique
  decide

end Tun2Http
