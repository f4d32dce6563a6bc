import Tun2Http.Dns.Termination
import Tun2Http.Packet.RoundTrip
import Tun2Http.Session.Loop

/-! UDP datagrams. What arrives on the socket of a session goes to the app in one
packet, and what the app sends goes to the socket, unless a datagram is empty, a
packet is longer than its datagram, or a name in a DNS message is circular. -/
namespace Tun2Http

open Machine

/-! The packet of a datagram. -/

/-- What a receiver finds in the packet: the datagram, sent to the app from the
other end, with its real lengths. -/
structure Conveys (u : UdpSession) (data : List UInt8) (packet : UdpPacket) : Prop where
  addresses : (readAddresses u.version).value (packetMemory packet.bytes) = (u.daddr, u.saddr)
  source : (be16 (ipHeaderLength u.version)).value (packetMemory packet.bytes) = u.dest.toNat
  dest : (be16 (ipHeaderLength u.version + 2)).value (packetMemory packet.bytes) = u.source.toNat
  data : packet.bytes.drop (ipHeaderLength u.version + 8) = data
  ipLength : IpLengthReal u.version packet.bytes
  udpLength : (be16 (ipHeaderLength u.version + 4)).value (packetMemory packet.bytes) =
    packet.bytes.length - ipHeaderLength u.version

/-- The packet of `write_udp`, up to the longest datagram. -/
theorem conveys_buildUdp {u : UdpSession} {data : List UInt8}
    (hAddressed : Addressed u.version u.saddr u.daddr)
    (hData : data.length ≤ (udpMaxmsg u.version).toNat) : Conveys u data (buildUdp u data) := by
  have hSaddr : addressOf u.version u.saddr = u.saddr := addressOf_of_length hAddressed.saddr
  have hDaddr : addressOf u.version u.daddr = u.daddr := addressOf_of_length hAddressed.daddr
  have hEnds : Addressed (buildUdp u data).version (buildUdp u data).saddr (buildUdp u data).daddr :=
    addressed_addressOf hAddressed.saddr.ge hAddressed.daddr.ge
  have hLength : (buildUdp u data).bytes.length = ipHeaderLength u.version + (8 + data.length) :=
    UdpPacket.length_bytes hEnds
  have hFits : ipHeaderLength u.version + (8 + data.length) < 2 ^ 16 := by
    have hMaxmsg : (udpMaxmsg u.version).toNat + 8 + ipHeaderLength u.version = 65535 := by
      unfold udpMaxmsg ipHeaderLength
      split_ifs <;> rfl
    omega
  have hHolds : Holds (packetMemory (buildUdp u data).bytes) 0 (buildUdp u data).bytes := holds_getD _
  obtain ⟨hIp, hHeader, -⟩ := UdpPacket.holds_bytes hEnds hHolds
  simp only [UdpPacket.header, holds_append] at hHeader
  obtain ⟨⟨⟨hSource, hDest⟩, hUdpLength⟩, -⟩ := hHeader
  refine ⟨?_, ?_, ?_, ?_, ?_, ?_⟩
  · exact (readAddresses_ipHeader hEnds hIp).trans (Prod.ext hDaddr hSaddr)
  · exact value_be16_of_holds hSource u.dest.isLt
  · exact value_be16_of_holds hDest u.source.isLt
  · have hFront : (ipHeader (buildUdp u data).version ipprotoUdp (buildUdp u data).saddr
        (buildUdp u data).daddr (8 + data.length) ++
          (buildUdp u data).header (~~~ (buildUdp u data).csum)).length =
        ipHeaderLength u.version + 8 := by
      rw [List.length_append, length_ipHeader hEnds, UdpPacket.length_header]
      rfl
    rw [UdpPacket.bytes, ← List.append_assoc, ← hFront]
    exact List.drop_left
  · exact UdpPacket.ipLengthReal hEnds (hLength ▸ hFits)
  · rw [hLength, Nat.add_sub_cancel_left]
    exact value_be16_of_holds hUdpLength (by omega)

/-! What a session does with a datagram. -/

/-- The calls made for the session since it was `c`, newest first. -/
def newCalls (c d : UdpCell) : List UdpIo := d.log.take (d.calls - c.calls)

/-- The packets written to the tun, and whether they were taken whole. -/
def tunWrites (log : List UdpIo) : List (UdpPacket × Bool) :=
  log.filterMap fun
    | .tun packet whole => some (packet, whole)
    | _ => none

/-- What was passed to `sendto()`. -/
def sentTo (log : List UdpIo) : List (List UInt8) :=
  log.filterMap fun
    | .send data _ => some data
    | _ => none

/-- The datagram goes to the tun in exactly one packet. The session ends only
after the reply of a name server, or where the tun did not take the packet. -/
def Delivers (c d : UdpCell) (data : List UInt8) : Prop :=
  ∃ packet whole, tunWrites (newCalls c d) = [(packet, whole)] ∧ Conveys c.udp data packet ∧
    (d.udp.state = .active ↔ whole = true ∧ c.udp.dest ≠ 53)

/-- The buffer with a datagram that is read for the session. -/
def arrivalMemory (K : Kernel) (c : UdpCell) (data : List UInt8) : Memory :=
  receivedMemory K ((c.touch K).call (.recv (.data data))) data

/-- `parse_dns_response` is called for the datagram, and does not come back. -/
def ResponseHangs (K : Kernel) (c : UdpCell) (data : List UInt8) : Prop :=
  c.udp.dest = 53 ∧ CircularResponse (arrivalMemory K c data) data.length

theorem queryHangs_iff {mem : Memory} {dest data datalen : Nat} : QueryHangs mem dest data datalen ↔
    dest = 53 ∧ CircularQuery (fun off => mem (data + off)) datalen := by
  rw [QueryHangs, ← Bool.not_eq_true, dnsQueryReturns_iff, not_not]

theorem responseHangs_iff (K : Kernel) (c : UdpCell) (data : List UInt8) :
    (c.udp.dest = 53 ∧ dnsResponseReturns (arrivalMemory K c data) data.length = false) ↔
      ResponseHangs K c data := by
  rw [← Bool.not_eq_true, dnsResponseReturns_iff, not_not]
  exact Iff.rfl

theorem newCalls_of_log {c d : UdpCell} {calls : List UdpIo} (h : d.log = calls ++ c.log) :
    newCalls c d = calls := by
  simp [newCalls, UdpCell.calls, h]

/-- A datagram that is read is delivered just when it is not empty, and has no
circular name. -/
theorem delivers_iff {K : Kernel} {ev : EpollEvents} {c : UdpCell} {data : List UInt8}
    (hAddressed : Addressed c.udp.version c.udp.saddr c.udp.daddr)
    (hMss : c.udp.mss = udpMaxmsg c.udp.version) (hActive : c.udp.state = .active)
    (hIn : ev.epollin = true) (hError : ev.epollerr = false)
    (hRecv : K.recv (c.touch K).calls = .data data) (hData : data.length ≤ c.udp.mss.toNat) :
    Delivers c (checkUdpSocket K ev c) data ↔ data ≠ [] ∧ ¬ ResponseHangs K c data := by
  have hWhole : data.take c.udp.mss.toNat = data := List.take_of_length_le hData
  have hMssTouch : (c.touch K).udp.mss = c.udp.mss := rfl
  by_cases hSome : data = []
  · subst hSome
    have hNone : checkUdpSocket K ev c =
        ((c.touch K).call (.recv (.data []))).finish := by
      simp [checkUdpSocket, hError, hIn, hRecv]
    have hLog : (checkUdpSocket K ev c).log =
        [.recv (.data []), .time (K.time c.calls)] ++ c.log := by rw [hNone]; rfl
    refine iff_of_false ?_ fun h => h.1 rfl
    rintro ⟨packet, whole, hWrites, -⟩
    rw [newCalls_of_log hLog] at hWrites
    cases hWrites
  set read : UdpCell := (c.touch K).call (.recv (.data data)) with hRead
  set d : UdpCell := { read with udp := { read.udp with
    received := read.udp.received + BitVec.ofNat 64 data.length } } with hD
  have hHangs : d.udp.dest = 53 ∧ dnsResponseReturns (receivedMemory K d data) data.length = false ↔
      ResponseHangs K c data :=
    responseHangs_iff K c data
  have hEq : checkUdpSocket K ev c =
      if d.udp.dest = 53 ∧ dnsResponseReturns (receivedMemory K d data) data.length = false then d
      else if ¬(writeUdp K d data).2 ∨ d.udp.dest = 53 then (writeUdp K d data).1.finish
      else (writeUdp K d data).1 := by
    simp only [checkUdpSocket, hError, hIn, hRecv, hMssTouch, hWhole, hSome, if_true, if_false,
      Bool.false_eq_true]
    rfl
  by_cases hStuck : ResponseHangs K c data
  · rw [if_pos (hHangs.mpr hStuck)] at hEq
    have hLog : (checkUdpSocket K ev c).log =
        [.recv (.data data), .time (K.time c.calls)] ++ c.log := by rw [hEq]; rfl
    refine iff_of_false ?_ fun h => h.2 hStuck
    rintro ⟨packet, whole, hWrites, -⟩
    rw [newCalls_of_log hLog] at hWrites
    cases hWrites
  · rw [if_neg (hHangs.not.mpr hStuck)] at hEq
    have hLog : (checkUdpSocket K ev c).log = [.tun (buildUdp c.udp data) (K.tunWrite d.calls),
        .recv (.data data), .time (K.time c.calls)] ++ c.log := by
      rw [hEq]
      split_ifs <;> rfl
    refine iff_of_true ?_ ⟨hSome, hStuck⟩
    refine ⟨buildUdp c.udp data, K.tunWrite d.calls, ?_, conveys_buildUdp hAddressed (hMss ▸ hData), ?_⟩
    · rw [newCalls_of_log hLog]
      rfl
    · have hEnds : (¬ (writeUdp K d data).2 = true ∨ d.udp.dest = 53) ↔
          ¬ (K.tunWrite d.calls = true ∧ c.udp.dest ≠ 53) := by
        rw [not_and_or, not_not]
        exact Iff.rfl
      rw [hEq]
      by_cases hStays : K.tunWrite d.calls = true ∧ c.udp.dest ≠ 53
      · rw [if_neg (hEnds.not.mpr (not_not.mpr hStays))]
        exact iff_of_true hActive hStays
      · rw [if_pos (hEnds.mpr hStays)]
        exact iff_of_false (by simp) hStays

/-! What a session keeps for its packets. -/

/-- From `u` to `v` at most the clock, the byte counts and the state have changed. -/
def UdpSession.Same (u v : UdpSession) : Prop :=
  v = { u with time := v.time, sent := v.sent, received := v.received, state := v.state }

/-- The session takes datagrams of any length, and has addresses of its version. -/
structure UdpSession.Fitted (u : UdpSession) : Prop where
  mss : u.mss = udpMaxmsg u.version
  addressed : Addressed u.version u.saddr u.daddr

namespace UdpSession

variable {u v w : UdpSession}

theorem Same.trans (hFirst : u.Same v) (hSecond : v.Same w) : u.Same w := by
  unfold Same at hFirst hSecond ⊢
  rw [hFirst] at hSecond
  exact hSecond

theorem Fitted.same (h : u.Fitted) (hSame : u.Same v) : v.Fitted := by
  rw [hSame]
  exact ⟨h.mss, h.addressed⟩

/-- The answer to a DHCP request overwrites a part of the address. -/
theorem Fitted.readdress (h : u.Fitted) : Fitted { u with saddr := dhcpServer ++ u.saddr.drop 4 } := by
  refine ⟨h.mss, ?_, h.addressed.daddr⟩
  have hLength := h.addressed.saddr
  have hFour : 4 ≤ addressLength u.version := by
    unfold addressLength
    split_ifs <;> decide
  simp only [List.length_append, List.length_drop, dhcpServer, List.length_cons, List.length_nil]
  omega

end UdpSession

theorem same_checkUdpSocket (K : Kernel) (ev : EpollEvents) (c : UdpCell) :
    c.udp.Same (checkUdpSocket K ev c).udp := by
  unfold checkUdpSocket
  dsimp only
  split_ifs
  · rfl
  · split
    · split_ifs <;> rfl
    · split_ifs <;> rfl
  · rfl

theorem same_checkUdpSession (K : Kernel) (sessions maxsessions : Int) (c : UdpCell) :
    c.udp.Same (checkUdpSession K sessions maxsessions c).1.udp := by
  have hTimeout : ∀ timeout now, ∀ d : UdpCell, d.udp.Same (udpTimeout timeout now d).udp := by
    intro timeout now d
    unfold udpTimeout
    split_ifs <;> rfl
  have hFinished : ∀ d : UdpCell, d.udp.Same (udpFinished K d).udp := by
    intro d
    unfold udpFinished
    split_ifs <;> rfl
  have hDrop : ∀ d : UdpCell, d.udp.Same (udpDropCounts d).udp := by
    intro d
    unfold udpDropCounts
    split_ifs <;> rfl
  exact ((hTimeout _ _ (c.call (.time (K.time c.calls)))).trans (hFinished _)).trans (hDrop _)

theorem same_sendUdp (K : Kernel) (message : List UInt8) (c : UdpCell) :
    c.udp.Same (sendUdp K message c).udp := by
  unfold sendUdp
  dsimp only
  split
  · split_ifs <;> rfl
  · rfl

theorem fitted_forwardUdp {c : UdpCell} (h : c.udp.Fitted) (K : Kernel) (mem : Memory)
    (source dest data datalen : Nat) :
    (forwardUdp K mem source dest data datalen c).udp.Fitted := by
  have hSend := h.same (same_sendUdp K ((readBytes data datalen).value mem) c)
  unfold forwardUdp checkDhcp
  dsimp only
  by_cases hHangs : QueryHangs mem dest data datalen
  · rw [if_pos hHangs]
    exact h
  rw [if_neg hHangs]
  by_cases hPort : source = 68 ∨ dest = 67
  · by_cases hPacket : (dhcpPacket data datalen).value mem = true
    · by_cases hOpcode : mem data = 1
      · simp only [hPort, hPacket, hOpcode, if_true]
        exact h.readdress
      · simp only [hPort, hPacket, hOpcode, if_true, if_false]
        exact h
    · simp only [hPort, hPacket, if_true]
      exact hSend
  · simp only [hPort, if_false]
    exact hSend

theorem fitted_newUdp {K : Kernel} {uid : Int} {version : Nat} {mem : Memory} {source dest : U16}
    {c : UdpCell} (hNew : newUdp K uid version ((readAddresses version).value mem) source dest = some c) :
    c.udp.Fitted := by
  unfold newUdp at hNew
  dsimp only at hNew
  split_ifs at hNew
  rw [← Option.some.inj hNew]
  exact ⟨rfl, addressed_readAddresses version mem⟩

/-- What holds of the UDP sessions of the list. -/
def SessionData.Fitted : SessionData → Prop
  | udp c => c.udp.Fitted
  | _ => True

namespace SessionData

variable {s : SessionData}

theorem Fitted.monitor (h : s.Fitted) (K : Kernel) : (s.monitor K).Fitted := by
  cases s with
  | udp c => exact h
  | _ => trivial

theorem Fitted.event (h : s.Fitted) (K : Kernel) (ev : EpollEvents) : (s.event K ev).Fitted := by
  cases s with
  | udp c =>
      unfold SessionData.event
      split_ifs
      · exact UdpSession.Fitted.same h (same_checkUdpSocket K ev c)
      · exact h
  | _ => trivial

theorem Fitted.check (h : s.Fitted) (K : Kernel) (sessions maxsessions : Int) :
    (s.check K sessions maxsessions).1.Fitted := by
  cases s with
  | udp c => exact UdpSession.Fitted.same h (same_checkUdpSession K sessions maxsessions c)
  | _ => trivial

theorem Fitted.allowed (h : s.Fitted) (K : Kernel) : (s.allowed K).1.Fitted := by
  cases s with
  | udp c =>
      unfold SessionData.allowed
      dsimp only
      split_ifs
      · exact UdpSession.Fitted.same h rfl
      · exact h
  | _ => trivial

end SessionData

namespace EventLoop

variable {L M : EventLoop} {K : Kernel} {pkt : Packet}

/-- All UDP sessions of the list take datagrams of any length. -/
def Fitted (L : EventLoop) : Prop := ∀ s ∈ L.ngSession, s.data.Fitted

theorem Fitted.update {f : NgSession → SessionData × Bool}
    (hKeep : ∀ s ∈ L.ngSession, (f s).1.Fitted) : Fitted (L.update f) := by
  intro t ht
  obtain ⟨s, hs, -, rfl⟩ := mem_update.mp ht
  exact hKeep s hs

theorem Fitted.store (h : Fitted L) {data : SessionData} (hData : data.Fitted) (pointer : Nat) :
    Fitted (L.store pointer data) := by
  refine Fitted.update fun s hs => ?_
  dsimp only
  split_ifs
  · exact hData
  · exact h s hs

theorem Fitted.register (h : Fitted L) {data : SessionData} (hData : data.Fitted) (K : Kernel) :
    Fitted (L.register K data) := by
  intro t ht
  rcases List.mem_cons.mp ht with rfl | hBefore
  · exact hData
  · exact h t hBefore

theorem Fitted.handled (h : Fitted L) (hHandled : Handled L K pkt M) : Fitted M := by
  cases hHandled with
  | ignored => exact h
  | echo message hIn hData =>
      apply h.store
      trivial
  | @datagram version payload span key s c hTakes hKey hFound hData =>
      have hFitted := h s (search_key hFound).1
      rw [hData] at hFitted
      apply h.store
      exact fitted_forwardUdp hFitted K _ _ _ _ _
  | segment span hHands hFound hData =>
      apply h.store
      trivial
  | newIcmp message hHands hIcmp hEcho hNone hNew =>
      apply h.register
      trivial
  | @newUdp version payload span key c hTakes hKey hNone hNew =>
      subst hKey
      apply h.register
      exact fitted_forwardUdp (fitted_newUdp hNew) K _ _ _ _ _
  | newTcp span hHands hHdr hUrg hNone hSyn hInfo hNew =>
      apply h.register
      trivial

theorem Fitted.step (h : Fitted L) (input : LoopInput) : Fitted (stepLoop L input) := by
  cases input with
  | start kernels fwd53 maxsessions => exact Fitted.update fun s hs => (h s hs).allowed _
  | pass kernels check =>
      have hMonitored : Fitted (({ L with sessions := L.live } : EventLoop).update fun s =>
          (s.data.monitor (kernels s.pointer), false)) :=
        Fitted.update fun s hs => (h s hs).monitor _
      show Fitted (L.pass kernels check)
      unfold EventLoop.pass
      dsimp only
      split_ifs
      · exact Fitted.update fun s hs => (hMonitored s hs).check _ _ _
      · exact hMonitored
  | packet K pkt => exact h.handled (handled_handleIp L K pkt)
  | event K registration ev =>
      show Fitted (L.event K registration ev)
      unfold EventLoop.event
      split_ifs
      · split
        · exact h
        · rename_i s hFound
          exact h.store ((h s (List.mem_of_find?_eq_some hFound)).event K ev) _
      · exact h
  | clear => exact fun t ht => absurd ht List.not_mem_nil

end EventLoop

theorem fitted_run (inputs : List LoopInput) : (run stepLoop .init inputs).Fitted :=
  run_invariant_always inputs (fun _ ht => absurd ht List.not_mem_nil) fun _ input h => h.step input

/-! The law. -/

/-- The length field of the UDP header at `payload`. -/
def Packet.udpLength (pkt : Packet) (payload : Nat) : Nat := (be16 (payload + 4)).value pkt.mem

namespace EventLoop

/-- The active session that a datagram of the app is for: one of the list, or a
new one. -/
def udpSession (L : EventLoop) (K : Kernel) (pkt : Packet) (version payload : Nat) :
    Option (Nat × UdpCell) :=
  let key := pkt.key ipprotoUdp version payload
  match L.search key with
  | some ⟨pointer, .udp c⟩ => if c.udp.state = .active then some (pointer, c) else none
  | some _ => none
  | none => (newUdp K pkt.uid version (key.saddr, key.daddr) (BitVec.ofNat 16 key.source)
      (BitVec.ofNat 16 key.dest)).map fun c => (L.next, c)

/-- The event has a datagram of up to `mss` bytes for an active session. -/
structure Receives (L : EventLoop) (K : Kernel) (registration : Int × Nat) (ev : EpollEvents)
    (s : NgSession) (c : UdpCell) (data : List UInt8) : Prop where
  registered : registration ∈ L.epoll
  session : s ∈ L.ngSession ∧ s.pointer = registration.2 ∧ s.data = .udp c
  active : c.udp.state = .active
  readable : ev.epollin = true ∧ ev.epollerr = false
  received : K.recv (c.touch K).calls = .data data
  length : data.length ≤ c.udp.mss.toNat

/-- The packet has a UDP datagram for an active session, not of DHCP. The
length field of the datagram is not less than its header, and not more than the
packet has. -/
structure Forwards (L : EventLoop) (K : Kernel) (pkt : Packet) (version payload pointer : Nat)
    (c : UdpCell) : Prop where
  hands : L.Hands pkt version ipprotoUdp payload
  session : L.udpSession K pkt version payload = some (pointer, c)
  mtu : pkt.length ≤ getMtu
  header : 8 ≤ pkt.udpLength payload
  inside : payload + pkt.udpLength payload ≤ pkt.length
  ports : let key := pkt.key ipprotoUdp version payload
    ¬ (key.source = 68 ∨ key.dest = 67)

/-- Exactly the datagram that the length field delimits is passed to `sendto()`. -/
def PassesOn (pkt : Packet) (payload : Nat) (c d : UdpCell) : Prop :=
  sentTo (newCalls c d) = [(readBytes (payload + 8) (pkt.udpLength payload - 8)).value pkt.mem]

/-- Datagrams are delivered and passed on. -/
def RelaysDatagrams (L : EventLoop) (input : LoopInput) : Prop :=
  match input with
  | .event K registration ev => ∀ s c data, L.Receives K registration ev s c data →
      ∃ d, (⟨s.pointer, .udp d⟩ : NgSession) ∈ (stepLoop L input).ngSession ∧ Delivers c d data
  | .packet K pkt => ∀ version payload pointer c, L.Forwards K pkt version payload pointer c →
      ∃ d, (⟨pointer, .udp d⟩ : NgSession) ∈ (stepLoop L input).ngSession ∧ PassesOn pkt payload c d
  | _ => True

/-- `get_dns_query` comes back from the datagram of the packet. -/
def QueryDone (pkt : Packet) (version payload : Nat) : Prop :=
  ¬ ((pkt.key ipprotoUdp version payload).dest = 53 ∧
    CircularQuery (fun off => pkt.mem (payload + 8 + off)) (pkt.length - (payload + 8)))

/-- No datagram from the socket is empty, no packet of the app has bytes behind
its datagram, and no name of a DNS message is circular. -/
def ExactDatagrams (L : EventLoop) : LoopInput → Prop
  | .event K registration ev => ∀ s c data, L.Receives K registration ev s c data →
      data ≠ [] ∧ ¬ ResponseHangs K c data
  | .packet K pkt => ∀ version payload pointer c, L.Forwards K pkt version payload pointer c →
      payload + pkt.udpLength payload = pkt.length ∧ QueryDone pkt version payload
  | _ => True

variable {L : EventLoop} {K : Kernel} {pkt : Packet} {registration : Int × Nat} {ev : EpollEvents}
  {s : NgSession} {c : UdpCell} {data : List UInt8} {version payload pointer : Nat}

/-- A pointer leads to what was stored through it. -/
theorem mem_store_iff (hIn : s ∈ L.ngSession) (stored other : SessionData) :
    ⟨s.pointer, other⟩ ∈ (L.store s.pointer stored).ngSession ↔ other = stored := by
  constructor
  · intro hOther
    obtain ⟨t, -, -, hEq⟩ := mem_update.mp hOther
    obtain ⟨hPointer, hData⟩ := NgSession.mk.inj hEq
    rw [if_pos hPointer.symm] at hData
    exact hData
  · rintro rfl
    exact mem_store hIn

theorem mem_register_iff (h : Sound L) (registered other : SessionData) :
    ⟨L.next, other⟩ ∈ (L.register K registered).ngSession ↔ other = registered := by
  constructor
  · intro hOther
    rcases List.mem_cons.mp hOther with hNew | hBefore
    · exact (NgSession.mk.inj hNew).2
    · exact absurd (h.fresh _ hBefore) (Nat.lt_irrefl _)
  · rintro rfl
    exact List.mem_cons_self ..

/-- After the event the session is what `check_udp_socket` makes of it. -/
theorem Receives.mem_iff (h : Sound L) (hReceives : L.Receives K registration ev s c data)
    (d : UdpCell) :
    (⟨s.pointer, .udp d⟩ : NgSession) ∈ (stepLoop L (.event K registration ev)).ngSession ↔
      d = checkUdpSocket K ev c := by
  obtain ⟨hIn, hPointer, hData⟩ := hReceives.session
  have hFound : L.ngSession.find? (·.pointer = registration.2) = some s := by
    obtain ⟨t, hFind⟩ := Option.isSome_iff_exists.mp
      (List.find?_isSome (p := fun t => decide (t.pointer = registration.2)).mpr
        ⟨s, hIn, decide_eq_true hPointer⟩)
    have hSame : t.pointer = registration.2 := by simpa using List.find?_some hFind
    rw [hFind, h.eq_of_pointer hIn (List.mem_of_find?_eq_some hFind) (hSame.trans hPointer.symm)]
  have hEvent : s.data.event K ev = .udp (checkUdpSocket K ev c) := by
    rw [hData, SessionData.event, if_pos ⟨by simp [hReceives.readable.2], hReceives.readable.1⟩]
  have hStep : stepLoop L (.event K registration ev) = L.store s.pointer (s.data.event K ev) := by
    show L.event K registration ev = _
    rw [EventLoop.event, if_pos hReceives.registered, hFound]
  rw [hStep, mem_store_iff hIn, hEvent, SessionData.udp.injEq]

theorem sentTo_newCalls_self (c : UdpCell) : sentTo (newCalls c c) = [] := by
  rw [newCalls_of_log (List.nil_append c.log).symm]
  rfl

theorem sentTo_sendUdp (K : Kernel) (message : List UInt8) (c : UdpCell) :
    sentTo (newCalls c (sendUdp K message c)) = [message] := by
  have hLog : (sendUdp K message c).log =
      [.send message (K.send (c.touch K).calls), .time (K.time c.calls)] ++ c.log := by
    unfold sendUdp
    dsimp only
    split
    · split_ifs <;> simp_all [UdpCell.finish, UdpCell.call, UdpCell.touch]
    · simp_all [UdpCell.call, UdpCell.touch]
  rw [newCalls_of_log hLog]
  rfl

/-- What the packet is for `handle_udp`. -/
def forwarded (K : Kernel) (pkt : Packet) (version payload : Nat) (c : UdpCell) : UdpCell :=
  forwardUdp K pkt.mem (pkt.key ipprotoUdp version payload).source
    (pkt.key ipprotoUdp version payload).dest (payload + 8) (remaining pkt.length (payload + 8)) c

/-- All that is behind the header is sent, but not where the name is circular. -/
theorem Forwards.sentTo_eq (hForwards : L.Forwards K pkt version payload pointer c) (message : List UInt8) :
    sentTo (newCalls c (forwarded K pkt version payload c)) = [message] ↔
      (readBytes (payload + 8) (pkt.length - (payload + 8))).value pkt.mem = message ∧
        QueryDone pkt version payload := by
  have hInside := hForwards.inside
  have hHeader := hForwards.header
  rw [forwarded, forwardUdp, remaining_of_le (by omega) hForwards.mtu, QueryDone, ← queryHangs_iff]
  by_cases hHangs : QueryHangs pkt.mem (pkt.key ipprotoUdp version payload).dest (payload + 8)
      (pkt.length - (payload + 8))
  · rw [if_pos hHangs, sentTo_newCalls_self]
    exact iff_of_false (List.cons_ne_nil _ _).symm fun h => h.2 hHangs
  · rw [if_neg hHangs, if_neg hForwards.ports, sentTo_sendUdp, List.cons.injEq]
    exact ⟨fun h => ⟨h.1, hHangs⟩, fun h => ⟨h.1, rfl⟩⟩

/-- After the packet it is what `handle_udp` makes of it. -/
theorem Forwards.mem_iff (h : Sound L) (hForwards : L.Forwards K pkt version payload pointer c)
    (d : UdpCell) :
    (⟨pointer, .udp d⟩ : NgSession) ∈ (stepLoop L (.packet K pkt)).ngSession ↔
      d = forwarded K pkt version payload c := by
  have hStep : stepLoop L (.packet K pkt) = L.handleUdp K pkt version payload :=
    handleIp_udp hForwards.hands
  have hSession := hForwards.session
  unfold udpSession at hSession
  dsimp only at hSession
  split at hSession
  · rename_i p cell hFound
    split_ifs at hSession with hActive
    obtain ⟨rfl, rfl⟩ := Prod.mk.inj (Option.some.inj hSession)
    have hTakes : L.TakesUdp pkt version payload ⟨payload + 8, remaining pkt.length (payload + 8)⟩ := by
      refine takesUdp_iff.mpr ⟨hForwards.hands, fun t ht => ?_, rfl⟩
      rw [hFound] at ht
      rw [← Option.some.inj ht]
      exact decide_eq_true hActive
    rw [hStep, handleUdp_found hTakes hFound rfl, mem_store_iff (search_key hFound).1,
      SessionData.udp.injEq]
    exact Iff.rfl
  · cases hSession
  · rename_i hNone
    obtain ⟨cell, hNew, hBoth⟩ := Option.map_eq_some_iff.mp hSession
    obtain ⟨rfl, rfl⟩ := Prod.mk.inj hBoth
    have hTakes : L.TakesUdp pkt version payload ⟨payload + 8, remaining pkt.length (payload + 8)⟩ := by
      refine takesUdp_iff.mpr ⟨hForwards.hands, fun t ht => ?_, rfl⟩
      rw [hNone] at ht
      cases ht
    rw [hStep, handleUdp_new hTakes hNone hNew, mem_register_iff h, SessionData.udp.injEq]
    exact Iff.rfl

end EventLoop

/-- In every reachable state an event or a packet is relayed just when it has
no empty datagram, no bytes behind one, and no circular name. -/
theorem datagrams_relayed_iff (inputs : List LoopInput) (input : LoopInput) :
    (run stepLoop .init inputs).RelaysDatagrams input ↔
      (run stepLoop .init inputs).ExactDatagrams input := by
  have hSound := sound_run inputs
  have hFitted := fitted_run inputs
  generalize run stepLoop .init inputs = L at hSound hFitted
  cases input with
  | event K registration ev =>
      refine forall_congr' fun s => forall_congr' fun c => forall_congr' fun data =>
        forall_congr' fun hReceives => ?_
      simp only [hReceives.mem_iff hSound, exists_eq_left]
      obtain ⟨hIn, -, hData⟩ := hReceives.session
      have hSession := hFitted s hIn
      rw [hData] at hSession
      exact delivers_iff hSession.addressed hSession.mss hReceives.active hReceives.readable.1
        hReceives.readable.2 hReceives.received hReceives.length
  | packet K pkt =>
      refine forall_congr' fun version => forall_congr' fun payload => forall_congr' fun pointer =>
        forall_congr' fun c => forall_congr' fun hForwards => ?_
      have hHeader := hForwards.header
      have hInside := hForwards.inside
      simp only [hForwards.mem_iff hSound, exists_eq_left, EventLoop.PassesOn, hForwards.sentTo_eq]
      refine and_congr_left fun _ => ?_
      constructor
      · intro hSame
        have hLength := congrArg List.length hSame
        rw [length_readBytes, length_readBytes] at hLength
        omega
      · intro hExact
        rw [← hExact, Nat.add_sub_add_left]
  | _ => exact Iff.rfl

/-- A datagram from `10.1.10.1:1` to `8.8.8.8:100`: 8 bytes say that it is empty, and
two more are behind it. -/
def paddedDatagram : Packet where
  mem := packetMemory [0x45, 0, 0, 30, 0, 0, 0, 0, 64, 17, 0, 0, 10, 1, 10, 1, 8, 8, 8, 8,
    0, 1, 0, 100, 0, 8, 0, 0, 104, 105]
  length := 30
  turns := 0
  uid := 10001

/-- A query to `8.8.8.8:53` whose name is a pointer to itself. -/
def circularDatagram : Packet where
  mem := packetMemory ([0x45, 0, 0, 46, 0, 0, 0, 0, 64, 17, 0, 0, 10, 1, 10, 1, 8, 8, 8, 8,
    0, 1, 0, 53, 0, 26, 0, 0] ++ [0, 1, 1, 0, 0, 1, 0, 0, 0, 0, 0, 0, 0xC0, 0x0C, 0, 1, 0, 1])
  length := 46
  turns := 0
  uid := 10001

/-- The session of the first datagram ends without a packet when an empty datagram
arrives, and passes on the bytes behind its own. The query is never passed on. -/
theorem datagrams_not_relayed :
    let L := run stepLoop .init [.start (fun _ => .willing) false 10, .packet .willing paddedDatagram]
    let K : Kernel := { Kernel.willing with recv := fun _ => .data [] }
    ¬ L.RelaysDatagrams (.event K (3, 0) { epollin := true }) ∧
      ¬ L.RelaysDatagrams (.packet .willing paddedDatagram) ∧
      ¬ L.RelaysDatagrams (.packet .willing circularDatagram) := by
  intro L K
  have hSound : L.Sound := sound_run _
  set cell : UdpCell := sendUdp .willing [104, 105]
    ((newUdp .willing 10001 4 ([10, 1, 10, 1], [8, 8, 8, 8]) 1 100).get rfl) with hCell
  refine ⟨?_, ?_, ?_⟩
  · intro hRelays
    have hReceives : L.Receives K (3, 0) { epollin := true } ⟨0, .udp cell⟩ cell [] :=
      ⟨by decide, by decide, by decide, by decide, by decide, by decide⟩
    obtain ⟨d, hIn, packet, whole, hWrites, -⟩ := hRelays _ cell [] hReceives
    rw [(hReceives.mem_iff hSound d).mp hIn] at hWrites
    have hNone : tunWrites (newCalls cell (checkUdpSocket K { epollin := true } cell)) = [] := by decide
    rw [hNone] at hWrites
    cases hWrites
  · intro hRelays
    have hForwards : L.Forwards .willing paddedDatagram 4 20 0 cell :=
      ⟨by unfold EventLoop.Hands; decide, by decide, by decide, by decide, by decide, by decide⟩
    obtain ⟨d, hIn, hPasses⟩ := hRelays 4 20 0 cell hForwards
    rw [(hForwards.mem_iff hSound d).mp hIn, EventLoop.PassesOn, hForwards.sentTo_eq] at hPasses
    have hSame := hPasses.1
    revert hSame
    decide
  · intro hRelays
    have hForwards : L.Forwards .willing circularDatagram 4 20 1
        ((newUdp .willing 10001 4 ([10, 1, 10, 1], [8, 8, 8, 8]) 1 53).get rfl) :=
      ⟨by unfold EventLoop.Hands; decide, by decide, by decide, by decide, by decide, by decide⟩
    obtain ⟨d, hIn, hPasses⟩ := hRelays 4 20 1 _ hForwards
    rw [(hForwards.mem_iff hSound d).mp hIn, EventLoop.PassesOn, hForwards.sentTo_eq] at hPasses
    exact hPasses.2 ⟨by decide, ⟨by decide, by decide, by decide, by decide⟩, circular_of_selfPointer (by decide)⟩

end Tun2Http
