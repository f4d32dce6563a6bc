import Tun2Http.Session.Limit

/-! Errors of the sockets: which sessions are on their way out at the end of a batch
that reports an error of theirs. -/
namespace Tun2Http

open Machine

/-- A segment does not close the socket. -/
theorem existingSession_socket (K : Kernel) (rport : U16) (hdr : TcpHdr) (data : Payload) (c : Cell) :
    (existingSession K rport hdr data c).socket = c.socket := by
  have hReset : ∀ d : Cell, d.socket = c.socket → (writeRst K d).socket = c.socket := fun d h =>
    (writeRst_socket d).trans h
  have hWrite : ∀ d : Cell, d.socket = c.socket → (writeAck K d).1.socket = c.socket := by
    intro d h
    rw [writeAck, writeOrClose_eq, afterWrite_socket]
    exact h
  have hFlags : ∀ d : Cell, d.socket = c.socket → (handleFlags K hdr d).socket = c.socket := by
    intro d h
    apply handleFlags_keeps (P := fun e => e.socket = c.socket) h h
    · exact handleFin_keeps (P := fun e => e.socket = c.socket) h (hWrite _ h) fun e next h => h
    · exact fun _ _ => handleAck_keeps (P := fun e => e.socket = c.socket) h fun e next h => h
    · exact handleOtherAck_keeps (P := fun e => e.socket = c.socket) h h (fun _ => h) (hReset d h)
  have hTunnel : ∀ d : Cell, d.socket = c.socket →
      (tunnelSegment K rport hdr data d).socket = c.socket := by
    intro d h
    apply tunnelSegment_keeps (P := fun e => e.socket = c.socket) h h
    · intro e he
      unfold queueTcp
      split_ifs <;> exact he
    · exact hReset
    · exact hFlags
  have hConnect : (connectPhase K data c).socket = c.socket := by
    rcases connectPhase_cases (K := K) data c with ⟨-, hSilent⟩ | hFailed | hConnected
    · exact hSilent.socket
    · obtain ⟨d, hSilent, -, -, hEq⟩ := hFailed
      rw [hEq]
      exact hReset d hSilent.socket
    · obtain ⟨d, -, hSilent, -, -, -, hEq⟩ := hConnected
      rw [hEq]
      exact hSilent.socket
  unfold existingSession
  split_ifs
  · rfl
  · exact hTunnel _ hConnect
  · exact hTunnel c rfl

namespace SessionData

/-- An error ends a session that is not of UDP, where its socket is open. -/
theorem ready_error {data : SessionData} {ev : EpollEvents} (hError : ev.epollerr = true)
    (hOpen : 0 ≤ data.socket) (hUdp : ∀ c, data ≠ .udp c) (K : Kernel) (turns : List Kernel) :
    (data.ready K turns ev).live = false := by
  cases data with
  | icmp c =>
      simp only [ready, event, checkIcmpSocket, hError, if_true]
      rfl
  | udp c => exact absurd rfl (hUdp c)
  | tcp c =>
      have hStep : step c (K, .event ev) = writeRst K (touch K c) := by
        have hSocket : 0 ≤ c.socket := hOpen
        unfold step checkTcpSocket
        dsimp only
        rw [if_pos hSocket, if_pos hError]
      simp only [ready, event, hStep, live, writeRst_state]
      split_ifs <;> rfl

/-- Of a UDP session an error is not looked at. -/
theorem ready_udp_error {ev : EpollEvents} (hError : ev.epollerr = true) (K : Kernel)
    (turns : List Kernel) (c : UdpCell) : (udp c).ready K turns ev = udp c := by
  have hTurn : ∀ K : Kernel, (udp c).event K ev = udp c := fun K => by
    rw [event, if_neg (by simp [hError])]
  exact List.foldl_fixed' hTurn turns

end SessionData

namespace EventLoop

variable {L : EventLoop} {p : Nat} {data : SessionData}

/-- An entry of a batch is an event of the loop, where its session has one turn. -/
theorem readyStep_event {registration : Int × Nat} (hReg : registration ∈ L.epoll) (K : Kernel)
    (ev : EpollEvents) :
    readyStep L (.socket registration.2 K [K] ev) = stepLoop L (.event K registration ev) := by
  unfold readyStep stepLoop EventLoop.event
  dsimp only
  rw [if_pos hReg]
  cases L.ngSession.find? (·.pointer = registration.2) with
  | none => rfl
  | some s =>
      obtain ⟨pointer, data⟩ := s
      cases data <;> rfl

/-- What an entry of a batch makes of the session at `p`. -/
inductive Becomes (L : EventLoop) (p : Nat) : Ready → SessionData → SessionData → Prop where
  | kept (r : Ready) (data : SessionData) (hOther : r.pointer ≠ some p) : Becomes L p r data data
  | echo (K : Kernel) (pkt : Packet) (message : List UInt8) (c : IcmpCell) :
      Becomes L p (.packet K pkt) (.icmp c) (.icmp (forwardIcmp K message c))
  | datagram {K : Kernel} {pkt : Packet} {version payload : Nat} {span : Span} {c : UdpCell}
      (hTakes : L.TakesUdp pkt version payload span)
      (hFound : L.search (pkt.key ipprotoUdp version payload) = some ⟨p, .udp c⟩) :
      Becomes L p (.packet K pkt) (.udp c) (.udp (forwardUdp K pkt.mem
        (pkt.key ipprotoUdp version payload).source (pkt.key ipprotoUdp version payload).dest
        span.data span.datalen c))
  | segment {K : Kernel} {pkt : Packet} {version payload : Nat} {c : Cell} (span : Span)
      (hHands : L.Hands pkt version ipprotoTcp payload)
      (hFound : L.search (pkt.key ipprotoTcp version payload) = some ⟨p, .tcp c⟩) :
      Becomes L p (.packet K pkt) (.tcp c)
        (.tcp (step c (K, .segment ((readTcpHdr payload).value pkt.mem) (pkt.payload span))))
  | event (K : Kernel) (turns : List Kernel) (ev : EpollEvents) (data : SessionData) :
      Becomes L p (.socket p K turns ev) data (data.ready K turns ev)

/-- A session is stored through its pointer, and the others stay. -/
theorem mem_store_cases (h : Sound L) (hIn : ⟨p, data⟩ ∈ L.ngSession) {s : NgSession}
    (hs : s ∈ L.ngSession) (stored : SessionData) :
    (s = ⟨p, data⟩ ∧ ⟨p, stored⟩ ∈ (L.store s.pointer stored).ngSession) ∨
      (s.pointer ≠ p ∧ ⟨p, data⟩ ∈ (L.store s.pointer stored).ngSession) := by
  by_cases hPointer : s.pointer = p
  · have hSame : s = ⟨p, data⟩ := h.eq_of_pointer hIn hs hPointer
    subst hSame
    exact Or.inl ⟨rfl, mem_store hIn⟩
  · refine Or.inr ⟨hPointer, mem_update.mpr ⟨_, hIn, rfl, ?_⟩⟩
    rw [if_neg fun hSame => hPointer hSame.symm]

theorem becomes_readyStep (h : Sound L) (hIn : ⟨p, data⟩ ∈ L.ngSession) (r : Ready) :
    ∃ next, ⟨p, next⟩ ∈ (readyStep L r).ngSession ∧ Becomes L p r data next := by
  cases r with
  | packet K pkt =>
      have hOther : (Ready.packet K pkt).pointer ≠ some p := fun hSame => by cases hSame
      have hKept : Becomes L p (.packet K pkt) data data := .kept _ data hOther
      have hHandled := handled_handleIp L K pkt
      change ∃ next, ⟨p, next⟩ ∈ (L.handleIp K pkt).ngSession ∧ _
      generalize L.handleIp K pkt = M at hHandled ⊢
      cases hHandled with
      | ignored => exact ⟨data, hIn, hKept⟩
      | @echo s c message hs hData =>
          rcases mem_store_cases h hIn hs (.icmp (forwardIcmp K message c)) with
            ⟨rfl, hNew⟩ | ⟨-, hOld⟩
          · obtain rfl : data = .icmp c := hData
            exact ⟨_, hNew, .echo K pkt message c⟩
          · exact ⟨data, hOld, hKept⟩
      | @datagram version payload span key s c hTakes hKey hFound hData =>
          subst hKey
          rcases mem_store_cases h hIn (search_key hFound).1 (.udp (forwardUdp K pkt.mem
            (pkt.key ipprotoUdp version payload).source (pkt.key ipprotoUdp version payload).dest
            span.data span.datalen c)) with ⟨rfl, hNew⟩ | ⟨-, hOld⟩
          · obtain rfl : data = .udp c := hData
            exact ⟨_, hNew, .datagram hTakes hFound⟩
          · exact ⟨data, hOld, hKept⟩
      | @segment version payload s c span hHands hFound hData =>
          rcases mem_store_cases h hIn (search_key hFound).1 (.tcp (step c
            (K, .segment ((readTcpHdr payload).value pkt.mem) (pkt.payload span)))) with
            ⟨rfl, hNew⟩ | ⟨-, hOld⟩
          · obtain rfl : data = .tcp c := hData
            exact ⟨_, hNew, .segment span hHands hFound⟩
          · exact ⟨data, hOld, hKept⟩
      | newIcmp => exact ⟨data, List.mem_cons_of_mem _ hIn, hKept⟩
      | newUdp => exact ⟨data, List.mem_cons_of_mem _ hIn, hKept⟩
      | newTcp => exact ⟨data, List.mem_cons_of_mem _ hIn, hKept⟩
  | socket pointer K turns ev =>
      unfold readyStep
      dsimp only
      cases hFind : L.ngSession.find? (·.pointer = pointer) with
      | none =>
          have hOther : p ≠ pointer := by simpa using List.find?_eq_none.mp hFind _ hIn
          exact ⟨data, hIn, .kept _ data fun hSame => hOther (Option.some.inj hSame).symm⟩
      | some s =>
          have hPointer : s.pointer = pointer := by simpa using List.find?_some hFind
          subst hPointer
          rcases mem_store_cases h hIn (List.mem_of_find?_eq_some hFind) (s.data.ready K turns ev) with
            ⟨rfl, hNew⟩ | ⟨hOther, hOld⟩
          · exact ⟨_, hNew, .event K turns ev data⟩
          · exact ⟨data, hOld, .kept _ data fun hSame => hOther (Option.some.inj hSame)⟩

theorem Sound.readyStep (h : Sound L) (r : Ready) : Sound (readyStep L r) := by
  have hTurns : ∀ {data : SessionData}, data.Sound → ∀ (K : Kernel) (turns : List Kernel)
      (ev : EpollEvents), data.Keeps (data.ready K turns ev) := by
    intro data hData K turns ev
    cases data with
    | icmp c => exact (SessionData.evolves_event hData K ev).toKeeps
    | udp c =>
        have hLoop : ∀ {d : SessionData}, d.Sound →
            d.Evolves (turns.foldl (fun data K => data.event K ev) d) := by
          induction turns with
          | nil => exact fun hd => .refl hd
          | cons K rest ih =>
              intro d hd
              have hTurn := SessionData.evolves_event hd K ev
              exact hTurn.trans (ih hTurn.sound)
        exact (hLoop hData).toKeeps
    | tcp c => exact (SessionData.evolves_event hData K ev).toKeeps
  cases r with
  | packet K pkt => exact h.handled (handled_handleIp L K pkt)
  | socket pointer K turns ev =>
      unfold Tun2Http.readyStep
      dsimp only
      split
      · exact h
      · rename_i s hFind
        have hIn := List.mem_of_find?_eq_some hFind
        exact h.store hIn (hTurns (h.sessions s hIn) K turns ev)

/-- The list has a session at `p` that meets `P`. -/
def HasAt (p : Nat) (P : SessionData → Prop) (L : EventLoop) : Prop :=
  L.Sound ∧ ∃ data, ⟨p, data⟩ ∈ L.ngSession ∧ P data

theorem HasAt.step {P Q : SessionData → Prop} {r : Ready} (h : HasAt p P L)
    (hStep : ∀ data next, data.Sound → P data → Becomes L p r data next → Q next) :
    HasAt p Q (Tun2Http.readyStep L r) := by
  obtain ⟨hSound, data, hIn, hData⟩ := h
  obtain ⟨next, hNext, hBecomes⟩ := becomes_readyStep hSound hIn r
  exact ⟨hSound.readyStep r, next, hNext, hStep data next (hSound.sessions _ hIn) hData hBecomes⟩

theorem HasAt.unique {P : SessionData → Prop} (h : HasAt p P L) (hIn : ⟨p, data⟩ ∈ L.ngSession) :
    P data := by
  obtain ⟨hSound, other, hOther, hData⟩ := h
  cases hSound.eq_of_pointer hOther hIn rfl
  exact hData

/-- The session at `p` is on its way out. -/
def Ended (p : Nat) (L : EventLoop) : Prop := ∃ data, ⟨p, data⟩ ∈ L.ngSession ∧ data.live = false

/-! ICMP and TCP: the error ends the session. -/

theorem hasAt_icmp {r : Ready} (h : HasAt p (fun data => ∃ c, data = .icmp c) L) :
    HasAt p (fun data => ∃ c, data = .icmp c) (readyStep L r) := by
  apply h.step
  rintro data next - ⟨c, rfl⟩ hBecomes
  cases hBecomes with
  | kept => exact ⟨c, rfl⟩
  | echo K pkt message c => exact ⟨_, rfl⟩
  | event K turns ev data => exact ⟨_, rfl⟩

theorem hasAt_stopped {r : Ready} (h : HasAt p (fun data => ∃ c, data = .icmp c ∧ c.icmp.stop = true) L) :
    HasAt p (fun data => ∃ c, data = .icmp c ∧ c.icmp.stop = true) (readyStep L r) := by
  apply h.step
  rintro data next - ⟨c, rfl, hStop⟩ hBecomes
  cases hBecomes with
  | kept => exact ⟨c, rfl, hStop⟩
  | echo K pkt message c => exact ⟨_, rfl, forwardIcmp_stop hStop⟩
  | event K turns ev data => exact ⟨_, rfl, checkIcmpSocket_stop hStop⟩

/-- A TCP session with an open socket. -/
def OpenTcp (data : SessionData) : Prop := ∃ c, data = .tcp c ∧ 0 ≤ c.socket

theorem hasAt_openTcp {r : Ready} (h : HasAt p OpenTcp L) (hOther : r.pointer ≠ some p) :
    HasAt p OpenTcp (readyStep L r) := by
  apply h.step
  rintro data next - ⟨c, rfl, hOpen⟩ hBecomes
  cases hBecomes with
  | kept => exact ⟨c, rfl, hOpen⟩
  | segment span => exact ⟨_, rfl, (existingSession_socket _ _ _ _ c).symm ▸ hOpen⟩
  | event K turns ev data => exact absurd rfl hOther

/-! TCP: a segment may revive the session. -/

/-- The packet revives the TCP session at `p`. -/
def RevivesAt (L : EventLoop) (p : Nat) : Ready → Prop
  | .packet K pkt => ∃ version payload c data, L.Hands pkt version ipprotoTcp payload ∧
      L.search (pkt.key ipprotoTcp version payload) = some ⟨p, .tcp c⟩ ∧
      Revives c (K, .segment ((readTcpHdr payload).value pkt.mem) data)
  | _ => False

/-- A TCP session that is on its way out. -/
def OverTcp (data : SessionData) : Prop := ∃ c, data = .tcp c ∧ data.live = false

/-- A TCP session that listens for the reply to its CONNECT request. -/
def Connecting (data : SessionData) : Prop :=
  ∃ c, data = .tcp c ∧ c.tcp.dest = 443 ∧ c.tcp.connectSent = .sent ∧ c.tcp.state = .listen

theorem connecting_of_revives {K : Kernel} {c : Cell} {hdr : TcpHdr} {data : Payload}
    (hRevives : Revives c (K, .segment hdr data)) :
    Connecting (.tcp (step c (K, .segment hdr data))) := by
  refine ⟨_, rfl, ?_, ?_, revived_state hRevives⟩
  all_goals
    obtain ⟨-, hSent, hPort, hSocket, ⟨_, _, hInput, hUrg⟩, count, hAnswer⟩ := hRevives
    cases hInput
    rcases connectPhase_cases (K := K) data c with ⟨hTried, -⟩ | hFailed | hConnected
    · exact absurd hSent hTried
    · obtain ⟨d, -, -, hRefused, -⟩ := hFailed
      exact absurd ⟨hSocket, count, hAnswer⟩ hRefused
    · obtain ⟨d, count, hSilent, -, -, -, hEq⟩ := hConnected
      simp [step, existingSession, hUrg, hPort, tunnelSegment, hEq, hSilent.dest]

theorem hasAt_overTcp {r : Ready} (h : HasAt p OverTcp L) (hOther : r.pointer ≠ some p)
    (hStill : ¬ L.RevivesAt p r) : HasAt p OverTcp (readyStep L r) := by
  apply h.step
  rintro data next hSound ⟨c, rfl, hOver⟩ hBecomes
  cases hBecomes with
  | kept => exact ⟨c, rfl, hOver⟩
  | segment span hHands hFound =>
      refine ⟨_, rfl, ?_⟩
      by_contra hLive
      have hBefore := SessionData.live_step hSound (fun hRevives =>
        hStill ⟨_, _, c, _, hHands, hFound, hRevives⟩) (by simpa using hLive)
      rw [hOver] at hBefore
      cases hBefore
  | event K turns ev data => exact absurd rfl hOther

theorem hasAt_revived {r : Ready} (h : L.Sound) (hRevives : L.RevivesAt p r) :
    HasAt p Connecting (readyStep L r) := by
  cases r with
  | socket pointer K turns ev => exact hRevives.elim
  | packet K pkt =>
      obtain ⟨version, payload, c, data, hHands, hFound, hRevives⟩ := hRevives
      have hUrg : ((readTcpHdr payload).value pkt.mem).urg = false := by
        obtain ⟨-, -, -, -, ⟨hdr, other, hInput, hPlain⟩, -⟩ := hRevives
        cases hInput
        exact hPlain
      obtain ⟨other, hStore⟩ := handleTcp_found (K := K) hUrg hFound rfl
      have hOther : Revives c (K, .segment ((readTcpHdr payload).value pkt.mem) other) := by
        obtain ⟨hState, hSent, hPort, hSocket, -, hAnswer⟩ := hRevives
        exact ⟨hState, hSent, hPort, hSocket, ⟨_, other, rfl, hUrg⟩, hAnswer⟩
      refine ⟨h.readyStep _, _, ?_, connecting_of_revives hOther⟩
      change _ ∈ (L.handleIp K pkt).ngSession
      rw [handleIp_tcp hHands, hStore]
      exact mem_store (search_key hFound).1

/-- Until the reply is read, segments are only queued. -/
theorem hasAt_connecting {r : Ready} (h : HasAt p Connecting L) (hOther : r.pointer ≠ some p) :
    HasAt p Connecting (readyStep L r) := by
  apply h.step
  rintro data next - ⟨c, rfl, hPort, hSent, hState⟩ hBecomes
  cases hBecomes with
  | kept => exact ⟨c, rfl, hPort, hSent, hState⟩
  | @segment K pkt version payload c span =>
      set hdr := (readTcpHdr payload).value pkt.mem
      have hConnect := silent_storeHostname (connectHost (pkt.payload span).val c) c
      have hStep : step c (K, .segment hdr (pkt.payload span)) =
          if hdr.urg then c else queueTcp hdr (pkt.payload span)
            (storeHostname (connectHost (pkt.payload span).val c) c) := by
        have hTried : c.tcp.connectSent ≠ .notSent := fun hNot => by simp [hSent] at hNot
        have hTunnel : c.tcp.dest = 443 ∧ (storeHostname (connectHost (pkt.payload span).val c)
            c).tcp.connectSent ≠ .established :=
          ⟨hPort, fun hOpen => by simp [hConnect.connectSent, hSent] at hOpen⟩
        unfold step existingSession tunnelSegment
        dsimp only
        rw [if_pos hPort, connectPhase_of_tried K _ hTried, if_pos hTunnel]
      refine ⟨_, rfl, ?_⟩
      rw [hStep]
      split_ifs
      · exact ⟨hPort, hSent, hState⟩
      · rw [queueTcp_dest, queueTcp_connectSent, queueTcp_state, hConnect.dest, hConnect.connectSent,
          hConnect.state]
        exact ⟨hPort, hSent, hState⟩
  | event K turns ev data => exact absurd rfl hOther

/-! UDP: only a datagram that cannot be sent ends the session. -/

/-- The datagram is sent in the UDP session at `p`, and that fails for good. -/
def FailsToSend (L : EventLoop) (p : Nat) : Ready → Prop
  | .packet K pkt => ∃ version payload span c, L.TakesUdp pkt version payload span ∧
      L.search (pkt.key ipprotoUdp version payload) = some ⟨p, .udp c⟩ ∧
      let key := pkt.key ipprotoUdp version payload
      ¬ QueryHangs pkt.mem key.dest span.data span.datalen ∧
        ¬ ((key.source = 68 ∨ key.dest = 67) ∧
          (dhcpPacket span.data span.datalen).value pkt.mem = true) ∧
        ∃ errno, K.send (c.touch K).calls = .error errno ∧ errno ≠ eintr ∧ errno ≠ eagain
  | _ => False

/-- A DHCP packet is not sent, nor is a query with a name that does not end. -/
theorem forwardUdp_eq (K : Kernel) (mem : Memory) (source dest data datalen : Nat) (c : UdpCell) :
    forwardUdp K mem source dest data datalen c =
      if QueryHangs mem dest data datalen then c
      else if (source = 68 ∨ dest = 67) ∧ (dhcpPacket data datalen).value mem = true then
        if mem data = 1 then answerDhcp K ((readBytes data 240).value mem) c else c
      else sendUdp K ((readBytes data datalen).value mem) c := by
  unfold forwardUdp checkDhcp
  dsimp only
  refine if_congr Iff.rfl rfl ?_
  by_cases hPort : source = 68 ∨ dest = 67
  · by_cases hPacket : (dhcpPacket data datalen).value mem = true
    · by_cases hOpcode : mem data = 1 <;> simp [hPort, hPacket, hOpcode]
    · simp [hPort, hPacket]
  · simp [hPort]

theorem sendUdp_state (K : Kernel) (message : List UInt8) (c : UdpCell) :
    ((∃ errno, K.send (c.touch K).calls = .error errno ∧ errno ≠ eintr ∧ errno ≠ eagain) →
      (sendUdp K message c).udp.state = .finishing) ∧
    ((¬ ∃ errno, K.send (c.touch K).calls = .error errno ∧ errno ≠ eintr ∧ errno ≠ eagain) →
      (sendUdp K message c).udp.state = c.udp.state) := by
  unfold sendUdp
  dsimp only
  cases hSend : K.send (c.touch K).calls with
  | accepted count =>
      refine ⟨?_, fun _ => rfl⟩
      rintro ⟨errno, hErrno, -⟩
      cases hErrno
  | error errno =>
      dsimp only
      split_ifs with hError
      · exact ⟨fun _ => rfl, fun hNot => absurd ⟨errno, rfl, hError⟩ hNot⟩
      · refine ⟨?_, fun _ => rfl⟩
        rintro ⟨other, hErrno, hBoth⟩
        cases hErrno
        exact absurd hBoth hError

/-- A UDP session that is active, and one that is not. -/
def ActiveUdp (data : SessionData) : Prop := ∃ c, data = .udp c ∧ c.udp.state = .active

def OverUdp (data : SessionData) : Prop := ∃ c, data = .udp c ∧ c.udp.state ≠ .active

/-- What a batch reports of the session at `p` is an error. -/
def OnlyError (p : Nat) (r : Ready) : Prop :=
  ∀ K turns ev, r = .socket p K turns ev → ev.epollerr = true

theorem hasAt_activeUdp {r : Ready} (h : HasAt p ActiveUdp L) (hError : OnlyError p r)
    (hSent : ¬ L.FailsToSend p r) : HasAt p ActiveUdp (readyStep L r) := by
  apply h.step
  rintro data next - ⟨c, rfl, hState⟩ hBecomes
  cases hBecomes with
  | kept => exact ⟨c, rfl, hState⟩
  | @datagram K pkt version payload span c hTakes hFound =>
      refine ⟨_, rfl, ?_⟩
      rw [forwardUdp_eq]
      split_ifs with hHangs hDhcp hAnswer
      · exact hState
      · exact hState
      · exact hState
      · rw [(sendUdp_state K _ c).2 fun hFails =>
          hSent ⟨version, payload, span, c, hTakes, hFound, hHangs, hDhcp, hFails⟩]
        exact hState
  | event K turns ev data =>
      rw [SessionData.ready_udp_error (hError K turns ev rfl)]
      exact ⟨c, rfl, hState⟩

theorem hasAt_failed {r : Ready} (h : L.Sound) (hFails : L.FailsToSend p r) :
    HasAt p OverUdp (readyStep L r) := by
  cases r with
  | socket pointer K turns ev => exact hFails.elim
  | packet K pkt =>
      obtain ⟨version, payload, span, c, hTakes, hFound, hReturns, hPlain, hError⟩ := hFails
      have hStored : ⟨p, .udp (forwardUdp K pkt.mem (pkt.key ipprotoUdp version payload).source
          (pkt.key ipprotoUdp version payload).dest span.data span.datalen c)⟩ ∈
          (L.store p (.udp (forwardUdp K pkt.mem (pkt.key ipprotoUdp version payload).source
            (pkt.key ipprotoUdp version payload).dest span.data span.datalen c))).ngSession :=
        mem_store (search_key hFound).1
      rw [← handleUdp_found hTakes hFound rfl, ← handleIp_udp hTakes.hands] at hStored
      refine ⟨h.readyStep _, _, hStored, _, rfl, ?_⟩
      rw [forwardUdp_eq, if_neg hReturns, if_neg hPlain, (sendUdp_state K _ c).1 hError]
      decide

theorem hasAt_overUdp {r : Ready} (h : HasAt p OverUdp L) (hError : OnlyError p r) :
    HasAt p OverUdp (readyStep L r) := by
  apply h.step
  rintro data next - ⟨c, rfl, hState⟩ hBecomes
  cases hBecomes with
  | kept => exact ⟨c, rfl, hState⟩
  | @datagram K pkt version payload span c hTakes hFound =>
      refine ⟨_, rfl, ?_⟩
      rcases forwardUdp_cases K pkt.mem (pkt.key ipprotoUdp version payload).source
        (pkt.key ipprotoUdp version payload).dest span.data span.datalen c with
        ⟨-, hKept⟩ | ⟨-, hAnswer⟩
      · rcases hKept.state with hSame | hFinish
        · rwa [hSame]
        · rw [hFinish]
          decide
      · rw [hAnswer]
        exact hState
  | event K turns ev data =>
      rw [SessionData.ready_udp_error (hError K turns ev rfl)]
      exact ⟨c, rfl, hState⟩

/-- Where a batch ends the session `s` of which it reports an error: always for ICMP;
for TCP where no packet behind the error revives it; and for UDP only where a
datagram of the batch cannot be sent. -/
def EndsOnError (L : EventLoop) (s : NgSession) (before : List Ready) (event : Ready)
    (after : List Ready) : Prop :=
  match s.data with
  | .icmp _ => True
  | .udp _ => ¬ Along readyStep (fun M r => ¬ M.FailsToSend s.pointer r) L (before ++ event :: after)
  | .tcp _ => Along readyStep (fun M r => ¬ M.RevivesAt s.pointer r)
      (run readyStep L (before ++ [event])) after

section Batch

variable {before after : List Ready} {K : Kernel} {turns : List Kernel} {ev : EpollEvents}

theorem ended_icmp {c : IcmpCell} (h : L.Sound) (hIn : ⟨p, .icmp c⟩ ∈ L.ngSession)
    (hError : ev.epollerr = true) :
    Ended p (run readyStep L (before ++ .socket p K turns ev :: after)) := by
  have hBefore : HasAt p (fun data => ∃ c, data = .icmp c) (run readyStep L before) :=
    run_invariant_always before ⟨h, _, hIn, c, rfl⟩ fun _ _ hAt => hasAt_icmp hAt
  have hStopped : HasAt p (fun data => ∃ c, data = .icmp c ∧ c.icmp.stop = true)
      (readyStep (run readyStep L before) (.socket p K turns ev)) := by
    apply hBefore.step
    rintro data next - ⟨c, rfl⟩ hBecomes
    cases hBecomes with
    | kept _ _ hOther => exact absurd rfl hOther
    | event => exact ⟨_, rfl, by simp [checkIcmpSocket, hError, IcmpCell.halt]⟩
  have hEnd : HasAt p (fun data => ∃ c, data = .icmp c ∧ c.icmp.stop = true)
      (run readyStep (readyStep (run readyStep L before) (.socket p K turns ev)) after) :=
    run_invariant_always after hStopped fun _ _ hAt => hasAt_stopped hAt
  obtain ⟨-, data, hLast, c, rfl, hStop⟩ := hEnd
  refine ⟨.icmp c, ?_, by simp [SessionData.live, hStop]⟩
  rwa [run_append, run_cons]

theorem ended_tcp_iff {c : Cell} (h : L.Sound) (hIn : ⟨p, .tcp c⟩ ∈ L.ngSession)
    (hOpen : 0 ≤ c.socket) (hError : ev.epollerr = true)
    (hBefore : ∀ r ∈ before, r.pointer ≠ some p) (hAfter : ∀ r ∈ after, r.pointer ≠ some p) :
    Ended p (run readyStep L (before ++ .socket p K turns ev :: after)) ↔
      Along readyStep (fun M r => ¬ M.RevivesAt p r)
        (run readyStep L (before ++ [.socket p K turns ev])) after := by
  have hUpTo : HasAt p OpenTcp (run readyStep L before) :=
    run_invariant ⟨h, _, hIn, c, rfl, hOpen⟩ (along_of_forall _ hBefore) fun _ _ hAt hOther =>
      hasAt_openTcp hAt hOther
  have hOver : HasAt p OverTcp (run readyStep L (before ++ [.socket p K turns ev])) := by
    rw [run_append, run_cons, run_nil]
    apply hUpTo.step
    rintro data next - ⟨c, rfl, hSocket⟩ hBecomes
    have hThere : 0 ≤ (SessionData.tcp c).socket := hSocket
    have hDead := SessionData.ready_error hError hThere (fun _ hUdp => by cases hUdp) K turns
    cases hBecomes with
    | kept _ _ hOther => exact absurd rfl hOther
    | event => exact ⟨_, rfl, hDead⟩
  have hEnd : run readyStep L (before ++ .socket p K turns ev :: after) =
      run readyStep (run readyStep L (before ++ [.socket p K turns ev])) after := by
    rw [← run_append, List.append_assoc]
    rfl
  rw [hEnd]
  rcases run_fired_cases hOver hAfter
    (fun _ _ hAt hOther hStill => hasAt_overTcp hAt hOther hStill)
    (fun _ _ hAt _ hRevives => hasAt_revived hAt.1 hRevives)
    (fun _ _ hAt hOther => hasAt_connecting hAt hOther) with ⟨hNone, hLast⟩ | ⟨hSome, hLast⟩
  · obtain ⟨-, data, hThere, c, -, hDead⟩ := hLast
    exact iff_of_true ⟨data, hThere, hDead⟩ hNone
  · refine iff_of_false ?_ hSome
    rintro ⟨data, hThere, hDead⟩
    obtain ⟨c, rfl, -, -, hState⟩ := hLast.unique hThere
    simp [SessionData.live, hState] at hDead

theorem ended_udp_iff {c : UdpCell} (h : L.Sound) (hIn : ⟨p, .udp c⟩ ∈ L.ngSession)
    (hActive : c.udp.state = .active) {batch : List Ready} (hError : ∀ r ∈ batch, OnlyError p r) :
    Ended p (run readyStep L batch) ↔
      ¬ Along readyStep (fun M r => ¬ M.FailsToSend p r) L batch := by
  have hStart : HasAt p ActiveUdp L := ⟨h, _, hIn, c, rfl, hActive⟩
  rcases run_fired_cases hStart hError
    (fun _ _ hAt hOnly hSent => hasAt_activeUdp hAt hOnly hSent)
    (fun _ _ hAt _ hFails => hasAt_failed hAt.1 hFails)
    (fun _ _ hAt hOnly => hasAt_overUdp hAt hOnly) with ⟨hNone, hLast⟩ | ⟨hSome, hLast⟩
  · refine iff_of_false ?_ (not_not.mpr hNone)
    rintro ⟨data, hThere, hDead⟩
    obtain ⟨c, rfl, hState⟩ := hLast.unique hThere
    simp [SessionData.live, hState] at hDead
  · obtain ⟨-, data, hThere, c, rfl, hState⟩ := hLast
    exact iff_of_true ⟨_, hThere, by simp [SessionData.live, hState]⟩ hSome

end Batch

end EventLoop

/-- Which batches end a live session with an open socket of which they report an
error, once: an error of a UDP socket is never taken, and an error of a TCP socket
may be undone. -/
theorem socket_error_ends_iff {past : List LoopInput} {s : NgSession} {before after : List Ready}
    {K : Kernel} {turns : List Kernel} {ev : EpollEvents}
    (hIn : s ∈ (run stepLoop .init past).ngSession) (hOpen : 0 ≤ s.data.socket)
    (hLive : s.data.live = true) (hError : ev.epollerr = true)
    (hOnce : ((before ++ .socket s.pointer K turns ev :: after).filterMap Ready.pointer).Nodup) :
    EventLoop.Ended s.pointer
        (run readyStep (run stepLoop .init past) (before ++ .socket s.pointer K turns ev :: after)) ↔
      EventLoop.EndsOnError (run stepLoop .init past) s before (.socket s.pointer K turns ev) after := by
  have hSound := sound_run past
  obtain ⟨pointer, data⟩ := s
  have hOthers : ∀ r, r ∈ before ∨ r ∈ after → r.pointer ≠ some pointer := by
    intro r hr hSame
    have hHere : (Ready.socket pointer K turns ev).pointer = some pointer := rfl
    rw [List.filterMap_append, List.filterMap_cons_some hHere, List.nodup_append,
      List.nodup_cons] at hOnce
    rcases hr with hBefore | hAfter
    · exact hOnce.2.2 pointer (List.mem_filterMap.mpr ⟨r, hBefore, hSame⟩) pointer
        (List.mem_cons_self ..) rfl
    · exact hOnce.2.1.1 (List.mem_filterMap.mpr ⟨r, hAfter, hSame⟩)
  cases data with
  | icmp c => exact iff_of_true (EventLoop.ended_icmp hSound hIn hError) trivial
  | udp c =>
      apply EventLoop.ended_udp_iff hSound hIn (by simpa [SessionData.live] using hLive)
      rintro r hr K' turns' ev' rfl
      rcases List.mem_append.mp hr with hBefore | hHere
      · exact absurd rfl (hOthers _ (Or.inl hBefore))
      · rcases List.mem_cons.mp hHere with hEvent | hAfter
        · cases hEvent
          exact hError
        · exact absurd rfl (hOthers _ (Or.inr hAfter))
  | tcp c =>
      exact EventLoop.ended_tcp_iff hSound hIn hOpen hError (fun r hr => hOthers r (Or.inl hr))
        fun r hr => hOthers r (Or.inr hr)

/-- A datagram of the client to port 100 opens a session. -/
def datagramRun : List LoopInput :=
  [.start (fun _ => .willing) false 1, .pass (fun _ => .willing) true,
    .packet .willing (clientDatagram 1 100)]

/-- The session that it opens. -/
def datagramSession : NgSession := ((run stepLoop .init datagramRun).ngSession.head?).get rfl

/-- Its socket has an error, and the next datagram cannot be sent. -/
theorem socket_error_ends_iff_datagram :
    EventLoop.Ended datagramSession.pointer (run readyStep (run stepLoop .init datagramRun)
        ([] ++ .socket datagramSession.pointer .willing [] { epollerr := true } ::
          [.packet { Kernel.willing with send := fun _ => .error 5 } (clientDatagram 1 100)])) ↔
      EventLoop.EndsOnError (run stepLoop .init datagramRun) datagramSession []
        (.socket datagramSession.pointer .willing [] { epollerr := true })
        [.packet { Kernel.willing with send := fun _ => .error 5 } (clientDatagram 1 100)] :=
  socket_error_ends_iff (List.mem_of_mem_head? (by decide)) (by decide) (by decide) rfl (by decide)

/-- An error of a UDP socket leaves its session active. -/
theorem socket_error_missed :
    datagramSession ∈ (run stepLoop .init datagramRun).ngSession ∧
      0 ≤ datagramSession.data.socket ∧ datagramSession.data.live = true ∧
      ¬ EventLoop.Ended datagramSession.pointer (run readyStep (run stepLoop .init datagramRun)
        [.socket datagramSession.pointer .willing [.willing] { epollin := true, epollerr := true }]) := by
  refine ⟨by decide, by decide, by decide, ?_⟩
  have hAll : ∀ s ∈ (run readyStep (run stepLoop .init datagramRun)
      [.socket datagramSession.pointer .willing [.willing]
        { epollin := true, epollerr := true }]).ngSession, s.data.live = true := by
    decide
  rintro ⟨data, hIn, hDead⟩
  simp [hAll _ hIn] at hDead

end Tun2Http
