import Tun2Http.Native.Session
import Tun2Http.Tcp.Lifecycle

/-! What the handlers of the three protocols do to a session. A socket is kept
or given up for good, the two ends stay the same, and a session that is over
stays over, with the exceptions that are stated here. -/
namespace Tun2Http

open Machine

variable {K : Kernel} {i : Input}

/-! TCP. -/

section

variable {start c d : Cell}

theorem step_endpoints (c : Cell) (input : Kernel × Input) :
    (step c input).tcp.endpoints = c.tcp.endpoints ∧
      ((step c input).socket = c.socket ∨ (step c input).socket = -1) :=
  moves_invariant
    (I := fun d => d.tcp.endpoints = c.tcp.endpoints ∧ (d.socket = c.socket ∨ d.socket = -1))
    (step_moves c input.1 input.2) ⟨rfl, Or.inl rfl⟩ fun a b hInv hMove => by
      obtain ⟨hEnds, -, hSocket⟩ := move_kept hMove
      refine ⟨hEnds.trans hInv.1, ?_⟩
      rcases hSocket with hSame | hClosed
      · rw [hSame]
        exact hInv.2
      · exact Or.inr hClosed

/-- A session that the check asks to be freed has given its socket up. -/
theorem checkTcpSession_freed (hLife : Lifecycle c) (hDescriptor : Descriptor c)
    {sessions maxsessions : Int} (h : (checkTcpSession K sessions maxsessions c).2 = true) :
    (checkTcpSession K sessions maxsessions c).1.socket = -1 := by
  have hStep := hLife.step (K, .check sessions maxsessions)
  have hClose : (checkTcpSession K sessions maxsessions c).1.tcp.state = .close :=
    (of_decide_eq_true h).1
  exact (hDescriptor.step (K, .check sessions maxsessions)
    (hStep.socket (Or.inr (Or.inr hClose)))).1

end

namespace SessionData

/-- What holds of a session between any two steps. -/
def Sound : SessionData → Prop
  | icmp _ => True
  | udp c => c.udp.state = .closed ∨ c.udp.state = .blocked → c.socket = -1
  | tcp c => Lifecycle c ∧ Descriptor c

/-- From `s` to `t` the socket was at most given up. -/
structure Keeps (s t : SessionData) : Prop where
  sound : t.Sound
  socket : t.socket = s.socket ∨ t.socket = -1

/-- From `s` to `t` also the key was kept, and a session that was over stays over. -/
structure Evolves (s t : SessionData) : Prop extends Keeps s t where
  key : t.key = s.key
  live : t.live = true → s.live = true

theorem Evolves.refl {s : SessionData} (h : s.Sound) : Evolves s s := ⟨⟨h, Or.inl rfl⟩, rfl, id⟩

theorem Evolves.trans {r s t : SessionData} (hFirst : Evolves r s) (hSecond : Evolves s t) :
    Evolves r t := by
  refine ⟨⟨hSecond.sound, ?_⟩, hSecond.key.trans hFirst.key, fun h => hFirst.live (hSecond.live h)⟩
  rcases hSecond.socket with hSame | hClosed
  · rw [hSame]
    exact hFirst.socket
  · exact Or.inr hClosed

theorem live_tcp_iff (c : Cell) : (tcp c).live = true ↔ c.tcp.state.closed = 0 := by
  simp only [live, decide_eq_true_eq]
  cases c.tcp.state <;> simp [TcpState.closed]

theorem key_tcp {c d : Cell} (h : d.tcp.endpoints = c.tcp.endpoints) :
    (tcp d).key = (tcp c).key := by
  simp only [TcpSession.endpoints, Prod.mk.injEq] at h
  obtain ⟨hVersion, hSaddr, hDaddr, hSource, hDest⟩ := h
  simp only [key, hVersion, hSaddr, hDaddr, hSource, hDest]

theorem key_udp {c d : UdpCell} (h : d.udp.endpoints = c.udp.endpoints) :
    (udp d).key = (udp c).key := by
  simp only [UdpSession.endpoints, Prod.mk.injEq] at h
  obtain ⟨hVersion, hSaddr, hDaddr, hSource, hDest⟩ := h
  simp only [key, hVersion, hSaddr, hDaddr, hSource, hDest]

theorem keeps_step {c : Cell} (h : (tcp c).Sound) (input : Kernel × Input) :
    Keeps (tcp c) (tcp (step c input)) :=
  ⟨⟨h.1.step input, h.2.step input⟩, (step_endpoints c input).2⟩

theorem key_step (c : Cell) (input : Kernel × Input) : (tcp (step c input)).key = (tcp c).key :=
  key_tcp (step_endpoints c input).1

theorem live_step {c : Cell} (h : (tcp c).Sound) {input : Kernel × Input}
    (hStill : ¬ Revives c input) (hLive : (tcp (step c input)).live = true) :
    (tcp c).live = true := by
  rw [live_tcp_iff] at hLive ⊢
  have hRank := (closed_step_iff h.1 input).mpr hStill
  omega

theorem evolves_step {c : Cell} (h : (tcp c).Sound) {input : Kernel × Input}
    (hStill : ¬ Revives c input) : Evolves (tcp c) (tcp (step c input)) :=
  ⟨keeps_step h input, key_step c input, live_step h hStill⟩

/-- Only a segment revives a session. -/
theorem evolves_step_of_input {c : Cell} (h : (tcp c).Sound)
    (hInput : ∀ hdr data, i ≠ .segment hdr data) : Evolves (tcp c) (tcp (step c (K, i))) := by
  apply evolves_step h
  rintro ⟨-, -, -, -, ⟨hdr, data, hSegment, -⟩, -⟩
  exact hInput hdr data hSegment

/-- The ends and the socket of a UDP session stay, and it goes on or is finished. -/
theorem evolves_udp {c d : UdpCell} (h : (udp c).Sound) (hKept : UdpKept c d) :
    Evolves (udp c) (udp d) := by
  obtain ⟨hSocket, hEnds, hState⟩ := hKept
  refine ⟨⟨?_, Or.inl hSocket⟩, key_udp hEnds, ?_⟩
  · rcases hState with hSame | hFinish
    · simp only [Sound, hSame, hSocket]
      exact h
    · simp [Sound, hFinish]
  · rcases hState with hSame | hFinish
    · simp [live, hSame]
    · simp [live, hFinish]

theorem evolves_icmp {c d : IcmpCell} (hSocket : d.socket = c.socket ∨ d.socket = -1)
    (hStop : c.icmp.stop = true → d.icmp.stop = true) : Evolves (icmp c) (icmp d) := by
  refine ⟨⟨trivial, hSocket⟩, rfl, fun hLive => ?_⟩
  cases hOver : c.icmp.stop with
  | false => simp [live, hOver]
  | true => simp [live, hStop hOver] at hLive

/-- A finished session is closed, and gives its socket up. -/
theorem evolves_udpFinished {c : UdpCell} (h : (udp c).Sound) (K : Kernel) :
    Evolves (udp c) (udp (udpFinished K c)) := by
  unfold udpFinished
  split_ifs
  · exact ⟨⟨fun _ => rfl, Or.inr rfl⟩, key_udp rfl, fun hLive => by cases hLive⟩
  · exact .refl h

/-! The handlers. -/

theorem evolves_monitor {s : SessionData} (h : s.Sound) (K : Kernel) : Evolves s (s.monitor K) := by
  cases s with
  | icmp c => exact .refl h
  | udp c => exact .refl h
  | tcp c => exact evolves_step_of_input h fun _ _ hInput => by cases hInput

theorem evolves_event {s : SessionData} (h : s.Sound) (K : Kernel) (ev : EpollEvents) :
    Evolves s (s.event K ev) := by
  cases s with
  | icmp c => exact evolves_icmp (Or.inl (checkIcmpSocket_socket K ev c)) checkIcmpSocket_stop
  | udp c =>
      unfold event
      split_ifs
      · exact evolves_udp h (udpKept_checkUdpSocket K ev c)
      · exact .refl h
  | tcp c => exact evolves_step_of_input h fun _ _ hInput => by cases hInput

theorem evolves_check {s : SessionData} (h : s.Sound) (K : Kernel) (sessions maxsessions : Int) :
    Evolves s (s.check K sessions maxsessions).1 := by
  cases s with
  | icmp c =>
      unfold check checkIcmpSession
      dsimp only
      split_ifs
      · exact evolves_icmp (Or.inr rfl) id
      · exact evolves_icmp (Or.inl rfl) id
  | udp c =>
      have hTime : UdpKept c (c.call (.time (K.time c.calls))) := ⟨rfl, rfl, Or.inl rfl⟩
      have hTimed := (evolves_udp h hTime).trans (evolves_udp (evolves_udp h hTime).sound
        (udpKept_udpTimeout (getUdpTimeout c.udp sessions maxsessions) (K.time c.calls) _))
      have hFinished := hTimed.trans (evolves_udpFinished hTimed.sound K)
      exact hFinished.trans (evolves_udp hFinished.sound (udpKept_udpDropCounts _))
  | tcp c =>
      exact evolves_step_of_input (i := .check sessions maxsessions) h fun _ _ hInput => by cases hInput

theorem check_freed {s : SessionData} (h : s.Sound) {K : Kernel} {sessions maxsessions : Int}
    (hFreed : (s.check K sessions maxsessions).2 = true) :
    (s.check K sessions maxsessions).1.socket = -1 := by
  cases s with
  | icmp c => exact checkIcmpSession_freed hFreed
  | udp c =>
      have hOver := (evolves_check h K sessions maxsessions).sound
      exact hOver (of_decide_eq_true hFreed).1
  | tcp c => exact checkTcpSession_freed h.1 h.2 hFreed

/-- `check_allowed` ends every session. -/
theorem evolves_allowed {s : SessionData} (h : s.Sound) (K : Kernel) :
    Evolves s (s.allowed K).1 ∧ (s.allowed K).1.live = false := by
  cases s with
  | icmp c =>
      dsimp only [allowed]
      split_ifs with hStop
      · exact ⟨evolves_icmp (Or.inl rfl) id, by simp [live, hStop]⟩
      · exact ⟨evolves_icmp (Or.inl rfl) fun _ => rfl, rfl⟩
  | udp c =>
      dsimp only [allowed]
      split_ifs with hState
      · exact ⟨evolves_udp h ⟨rfl, rfl, Or.inr rfl⟩, rfl⟩
      · exact ⟨.refl h, by simp [live, hState]⟩
  | tcp c =>
      dsimp only [allowed, checkAllowed]
      split_ifs with hOpen
      · have hState := writeRst_state K c
        rw [if_neg hOpen.2] at hState
        have hSound : (tcp (writeRst K c)).Sound :=
          ⟨h.1.writeRst, h.2.of_eq (writeRst_socket c) (Or.inr (Or.inl hState))⟩
        have hOver : (tcp (writeRst K c)).live = false := by simp [live, hState]
        exact ⟨⟨⟨hSound, Or.inl (writeRst_socket c)⟩, key_tcp (writeRst_endpoints K c), by
          simp [hOver]⟩, hOver⟩
      · exact ⟨.refl h, by simpa [live] using hOpen⟩

theorem allowed_freed {s : SessionData} (h : s.Sound) {K : Kernel}
    (hFreed : (s.allowed K).2 = true) : (s.allowed K).1.socket = -1 := by
  cases s with
  | icmp c => cases hFreed
  | udp c =>
      dsimp only [allowed] at hFreed ⊢
      split_ifs at hFreed ⊢ with hState
      exact h (Or.inr (of_decide_eq_true hFreed))
  | tcp c => cases hFreed

theorem evolves_forwardIcmp (K : Kernel) (message : List UInt8) (c : IcmpCell) :
    Evolves (icmp c) (icmp (forwardIcmp K message c)) :=
  evolves_icmp (Or.inl (forwardIcmp_socket K message c)) forwardIcmp_stop

/-- A datagram keeps the session, but not always its key. -/
theorem keeps_forwardUdp {c : UdpCell} (h : (udp c).Sound) (K : Kernel) (mem : Memory)
    (source dest data datalen : Nat) :
    Keeps (udp c) (udp (forwardUdp K mem source dest data datalen c)) ∧
      ((udp (forwardUdp K mem source dest data datalen c)).live = true → (udp c).live = true) := by
  rcases forwardUdp_cases K mem source dest data datalen c with ⟨-, hKept⟩ | ⟨-, hAnswer⟩
  · have hEvolves := evolves_udp h hKept
    exact ⟨hEvolves.toKeeps, hEvolves.live⟩
  · rw [hAnswer]
    exact ⟨⟨h, Or.inl rfl⟩, id⟩

/-- The key is lost where a DHCP request is answered that comes from elsewhere
than the address that is stored. -/
theorem key_forwardUdp_iff (K : Kernel) (mem : Memory) (source dest data datalen : Nat)
    (c : UdpCell) : (udp (forwardUdp K mem source dest data datalen c)).key = (udp c).key ↔
      ¬ (AsksDhcp mem source dest data datalen ∧ c.udp.saddr.take 4 ≠ dhcpServer) := by
  rcases forwardUdp_cases K mem source dest data datalen c with ⟨hNot, hKept⟩ | ⟨hAsks, hAnswer⟩
  · exact iff_of_true (key_udp hKept.endpoints) fun h => hNot h.1
  · have hSaddr : dhcpServer ++ c.udp.saddr.drop 4 = c.udp.saddr ↔
        dhcpServer = c.udp.saddr.take 4 := by
      conv_lhs => rhs; rw [← List.take_append_drop 4 c.udp.saddr]
      exact List.append_left_inj _
    rw [hAnswer]
    simp only [key, (answerDhcp_eq K _ c).2, Option.some.injEq, Key.mk.injEq, hSaddr, hAsks,
      true_and, and_true, not_not, ne_eq, eq_comm (a := dhcpServer)]

end SessionData

end Tun2Http
