import Tun2Http.Tcp.Acknowledgement
import Tun2Http.Tcp.ConnectFirst
import Tun2Http.Tcp.Silence

/-! The state diagram of a session: for each state and each kind of input exactly the
states that can follow. Two of its edges lead back to `TCP_LISTEN`, and only the port of
the CONNECT requests has them. -/
namespace Tun2Http

open Machine

inductive InputKind where
  | segment | event | monitor | check | allowed
  deriving DecidableEq, Repr

def Input.kind : Input → InputKind
  | .segment _ _ => .segment
  | .event _ => .event
  | .monitor => .monitor
  | .check _ _ => .check
  | .allowed => .allowed

/-- The states that follow a state, for port 443 (`proxied`) and for other ports. -/
def TcpState.next (proxied : Bool) : TcpState → InputKind → List TcpState
  | .unset, _ => []
  | .listen, .segment => [.listen, .closing]
  | .listen, .event => [.listen, .synRecv, .closing]
  | .listen, .monitor => if proxied then [.listen, .closing] else [.listen]
  | .synRecv, .segment =>
      if proxied then [.synRecv, .established, .closing, .listen] else [.synRecv, .established, .closing]
  | .synRecv, .event | .synRecv, .monitor => [.synRecv, .closing]
  | .established, .segment => [.established, .closeWait, .closing]
  | .established, .event => [.established, .finWait1, .closing]
  | .established, .monitor => [.established, .closing]
  | .closeWait, .segment | .closeWait, .monitor => [.closeWait, .closing]
  | .closeWait, .event => [.closeWait, .lastAck, .closing]
  | .finWait1, .segment => [.finWait1, .close, .closing]
  | .lastAck, .segment => [.lastAck, .closing]
  | .finWait1, .event | .finWait1, .monitor => [.finWait1]
  | .lastAck, .event | .lastAck, .monitor => [.lastAck]
  | .closing, .segment => if proxied then [.closing, .listen] else [.closing]
  | .closing, .event | .closing, .monitor => [.closing]
  | .closing, .check => [.close]
  | .close, _ => [.close]
  | state, .check => [state, .close]
  | _, .allowed => [.closing]

/-- From `c` to `d` the state stays, or a write failed or a reset was sent. -/
def Lasts (c d : Cell) : Prop := d.tcp.state = c.tcp.state ∨ d.tcp.state = .closing

/-- Outside port 443 the mask of a listening session is the one it was opened with. -/
def Watching (c : Cell) : Prop :=
  c.tcp.dest ≠ 443 → c.tcp.state = .listen → c.events = { epollout := true, epollerr := true }

section

variable {K : Kernel} {c d : Cell} {proxied : Bool}

namespace Lasts

theorem refl (c : Cell) : Lasts c c := Or.inl rfl

theorem trans {e : Cell} (hFirst : Lasts c d) (hSecond : Lasts d e) : Lasts c e := by
  rcases hSecond with hSame | hClosing
  · exact hFirst.imp hSame.trans hSame.trans
  · exact Or.inr hClosing

theorem afterWrite (c : Cell) (packet : TcpPacket) (whole : Bool) : Lasts c (afterWrite c packet whole) := by
  cases whole with
  | false => exact Or.inr rfl
  | true => exact refl c

theorem writeOrClose (c : Cell) (payload : List UInt8) (syn fin : Bool) :
    Lasts c (writeOrClose K c payload syn fin).1 := by
  rw [writeOrClose_eq]
  exact afterWrite c _ _

theorem writeRst (hOpen : c.tcp.state ≠ .close) : Lasts c (writeRst K c) := by
  apply Or.inr
  rw [writeRst_state, if_neg hOpen]

theorem relay (K : Kernel) (bytes : List UInt8) (c : Cell) : Lasts c (relay K bytes c) := by
  unfold Tun2Http.relay writeData
  dsimp only
  split_ifs
  · exact writeOrClose { c with tcp := { c.tcp with received := c.tcp.received + BitVec.ofNat 64 bytes.length } }
      bytes false false
  · exact writeOrClose { c with tcp := { c.tcp with received := c.tcp.received + BitVec.ofNat 64 bytes.length } }
      bytes false false

theorem acknowledge (K : Kernel) (fwd : Bool) (c : Cell) : Lasts c (acknowledge K fwd c) := by
  have hAck : ∀ d, Lasts d (if (writeAck K d).2 then touch K (writeAck K d).1 else (writeAck K d).1) := by
    intro d
    split_ifs
    · exact writeOrClose d [] false false
    · exact writeOrClose d [] false false
  unfold Tun2Http.acknowledge
  dsimp only
  by_cases hFin : fwd ∧ c.tcp.forward = [] ∧ c.tcp.state = .closeWait
  · rw [if_pos hFin]
    exact hAck c.countFin
  · rw [if_neg hFin]
    exact hAck c

/-- Up to where it reads, an event keeps the state or closes. -/
theorem beforeRead (K : Kernel) (ev : EpollEvents) (c : Cell) : Lasts c (beforeRead K ev c) := by
  have hStore : ∀ d, Lasts d (storeWindow K d) := fun d => by
    apply Or.inl
    show (getReceiveBuffer K d).1.tcp.state = d.tcp.state
    rw [getReceiveBuffer_tcp]
  exact beforeRead_keeps (P := fun d => Lasts c d) (refl c) (Or.inl (forwardData_state K c))
    (fun d hd => hd.trans (hStore d)) fun fwd d hd => hd.trans (acknowledge K fwd d)

theorem keepAliveProbe (K : Kernel) (c : Cell) : Lasts c (keepAliveProbe K c) := by
  unfold Tun2Http.keepAliveProbe
  dsimp only
  split_ifs
  · exact writeOrClose _ [] false false
  · exact refl c

/-- Every open state may stay as it is after a segment, or close. -/
theorem next_segment (h : Lasts c d) (hSet : c.tcp.state ≠ .unset) (hClose : c.tcp.state ≠ .close) :
    d.tcp.state ∈ c.tcp.state.next proxied .segment := by
  rcases h with hState | hState
  · rw [hState]
    cases hC : c.tcp.state <;> cases proxied <;> simp_all [TcpState.next]
  · rw [hState]
    cases hC : c.tcp.state <;> cases proxied <;> simp_all [TcpState.next]

end Lasts

/-! A segment. -/

/-- The answer to a FIN moves on, if it is written. -/
theorem answer_fin (next : TcpState) (c : Cell) :
    (if (writeAck K c.countFin).2 then (writeAck K c.countFin).1.setState next
      else (writeAck K c.countFin).1).tcp.state = next ∨
    Lasts c (if (writeAck K c.countFin).2 then (writeAck K c.countFin).1.setState next
      else (writeAck K c.countFin).1) := by
  split_ifs
  · exact Or.inl rfl
  · exact Or.inr (Lasts.writeOrClose c.countFin [] false false)

theorem next_handleFin (hSet : c.tcp.state ≠ .unset) (hClose : c.tcp.state ≠ .close) :
    (handleFin K c).tcp.state ∈ c.tcp.state.next proxied .segment := by
  unfold handleFin
  split
  next hState =>
    dsimp only
    by_cases hQueue : c.tcp.forward = []
    · rw [if_pos hQueue]
      rcases answer_fin (K := K) .closeWait c with hNext | hLasts
      · rw [hNext, hState]
        simp [TcpState.next]
      · exact hLasts.next_segment hSet hClose
    · rw [if_neg hQueue, hState]
      simp [TcpState.next]
  next hState =>
    rcases answer_fin (K := K) .close c with hNext | hLasts
    · dsimp only
      rw [hNext, hState]
      simp [TcpState.next]
    · exact hLasts.next_segment hSet hClose
  next => exact (Lasts.refl c).next_segment hSet hClose

theorem next_handleAck (ackSeq : U32) (hSet : c.tcp.state ≠ .unset) (hClose : c.tcp.state ≠ .close) :
    (handleAck ackSeq c).tcp.state ∈ c.tcp.state.next proxied .segment := by
  unfold handleAck
  dsimp only
  split
  next hState =>
    rw [hState]
    cases proxied <;> simp [TcpState.next]
  next hState =>
    rw [hState]
    simp [TcpState.next]
  next => exact (Lasts.refl c).next_segment hSet hClose

theorem next_handleFlags (hdr : TcpHdr) (hSet : c.tcp.state ≠ .unset) (hClose : c.tcp.state ≠ .close) :
    (handleFlags K hdr c).tcp.state ∈ c.tcp.state.next proxied .segment := by
  unfold handleFlags
  split_ifs
  · exact (show Lasts c (c.setState .closing) from Or.inr rfl).next_segment hSet hClose
  · exact (Lasts.refl c).next_segment hSet hClose
  · exact next_handleFin hSet hClose
  · exact next_handleAck hdr.ackSeq hSet hClose
  · exact (Lasts.refl c).next_segment hSet hClose
  · refine Lasts.next_segment ?_ hSet hClose
    unfold handleOtherAck
    split_ifs
    · exact .refl c
    · exact .refl c
    · exact .refl c
    · exact .refl c
    · exact .writeRst hClose

theorem next_tunnelSegment (rport : U16) (hdr : TcpHdr) (data : Payload) (hSet : c.tcp.state ≠ .unset) :
    (tunnelSegment K rport hdr data c).tcp.state ∈ c.tcp.state.next proxied .segment := by
  by_cases hClose : c.tcp.state = .close
  · have hStays : (tunnelSegment K rport hdr data c).tcp.state = .close := by
      unfold tunnelSegment
      split_ifs with hQueued hClosed
      · rw [queueTcp_state, hClose]
      · rw [writeRst_state, if_pos hClose]
      · exact absurd (Or.inr hClose) hClosed
    rw [hStays, hClose]
    simp [TcpState.next]
  · unfold tunnelSegment
    split_ifs
    · exact (show Lasts c (queueTcp hdr data c) from Or.inl (queueTcp_state ..)).next_segment hSet hClose
    · exact (Lasts.writeRst hClose).next_segment hSet hClose
    · unfold handleSegment
      dsimp only
      split_ifs
      · exact (Lasts.writeRst (c := refresh K hdr c) hClose).next_segment hSet hClose
      · exact (Lasts.writeRst (c := refresh K hdr c) hClose).next_segment hSet hClose
      · have hQueued : (queueTcp hdr data (refresh K hdr c)).tcp.state = c.tcp.state := queueTcp_state ..
        rw [← hQueued] at hSet hClose ⊢
        exact next_handleFlags hdr hSet hClose
      · exact next_handleFlags (c := refresh K hdr c) hdr hSet hClose

/-- On port 443 the CONNECT phase comes first. Until the tunnel is established nothing
but it moves the state. -/
theorem next_existingSession (h : Lifecycle c) (hdr : TcpHdr) (data : Payload) :
    (existingSession K c.tcp.dest hdr data c).tcp.state ∈
      c.tcp.state.next (decide (c.tcp.dest = 443)) .segment := by
  unfold existingSession
  split_ifs with hUrg hPort
  · by_cases hClose : c.tcp.state = .close
    · rw [hClose]
      simp [TcpState.next]
    · exact (Lasts.refl c).next_segment h.set hClose
  · rw [decide_eq_true hPort]
    rcases connectPhase_cases (K := K) data c with
      ⟨hTried, hSilent⟩ | ⟨d, hSilent, hNotSent, -, hEq⟩ | ⟨d, count, hSilent, hNotSent, hSocket, -, hEq⟩
    · rw [← hSilent.state]
      exact next_tunnelSegment _ hdr data (hSilent.state ▸ h.set)
    · have hTried : (writeRst K d).tcp.connectSent ≠ .established := by
        rw [(writeRst_tcp d).2.2.1, hSilent.connectSent, hNotSent]
        decide
      rw [hEq, tunnelSegment, if_pos ⟨hPort, hTried⟩, queueTcp_state, writeRst_state, hSilent.state]
      split_ifs with hClose
      · rw [hClose]
        simp [TcpState.next]
      · exact (show Lasts c (c.setState .closing) from Or.inr rfl).next_segment h.set hClose
    · rw [hEq, tunnelSegment, if_pos ⟨hPort, by simp⟩, queueTcp_state]
      have hUnset := h.set
      have hOpen : c.tcp.state ≠ .close := h.not_close (Or.inr hSocket)
      have hTunnel := h.tunnel hPort
      rw [hNotSent] at hTunnel
      cases hState : c.tcp.state <;> simp_all [TcpState.next]
  · exact next_tunnelSegment _ hdr data h.set

/-! An event. -/

theorem lasts_socketReceived (result : RecvResult) (hState : c.tcp.state = .established ∨
    c.tcp.state = .closeWait) :
    Lasts c (socketReceived K result c) ∨
      (c.tcp.state = .established ∧ (socketReceived K result c).tcp.state = .finWait1) ∨
      (c.tcp.state = .closeWait ∧ (socketReceived K result c).tcp.state = .lastAck) := by
  have hOpen : c.tcp.state ≠ .close := by rcases hState with h | h <;> rw [h] <;> decide
  unfold socketReceived
  split
  · split_ifs
    · exact Or.inl (.writeRst hOpen)
    · exact Or.inl (.refl c)
  · unfold socketEof
    dsimp only
    by_cases hQueue : c.tcp.forward = []
    · rw [if_pos hQueue]
      have hFin : Lasts c (if (writeFinAck K c).2 then (writeFinAck K c).1.advanceLocal 1
          else (writeFinAck K c).1) := by
        split_ifs
        · exact Lasts.writeOrClose c [] false true
        · exact Lasts.writeOrClose c [] false true
      generalize (if (writeFinAck K c).2 then (writeFinAck K c).1.advanceLocal 1
          else (writeFinAck K c).1) = d at hFin ⊢
      rcases hFin with hSame | hClosing
      · rcases hState with hState | hState
        · exact Or.inr (Or.inl ⟨hState, by simp [closeSocket, hSame, hState]⟩)
        · exact Or.inr (Or.inr ⟨hState, by simp [closeSocket, hSame, hState]⟩)
      · exact Or.inl (Or.inr (by simp [closeSocket, hClosing]))
    · rw [if_neg hQueue]
      exact Or.inl (Lasts.writeRst hOpen)
  · exact Or.inl (.relay K _ c)

theorem next_socketReady (ev : EpollEvents) (hState : c.tcp.state = .synRecv ∨ c.tcp.state = .established ∨
    c.tcp.state = .closeWait ∨ c.tcp.state = .closing) :
    (socketReady K ev c).tcp.state ∈ c.tcp.state.next proxied .event := by
  have hBefore := Lasts.beforeRead K ev c
  have hMember : ∀ d, Lasts c d → d.tcp.state ∈ c.tcp.state.next proxied .event := by
    intro d hLasts
    rcases hLasts with hSame | hSame
    · rcases hState with h | h | h | h <;> rw [hSame, h] <;> simp [TcpState.next]
    · rcases hState with h | h | h | h <;> rw [hSame, h] <;> simp [TcpState.next]
  rw [socketReady_eq]
  split_ifs with hOpen
  · unfold socketRead
    dsimp only
    split_ifs
    · set received := recvFrom K (touch K (beforeRead K ev c)) (readSize (beforeRead K ev c).tcp)
      have hRead : received.1.tcp.state = (beforeRead K ev c).tcp.state := rfl
      have hSame : (beforeRead K ev c).tcp.state = c.tcp.state := by
        rcases hBefore with hSame | hClosing
        · exact hSame
        · rw [hClosing] at hOpen
          simp at hOpen
      have hReceived := lasts_socketReceived (K := K) (c := received.1) received.2 hOpen
      rcases hReceived with hLasts | ⟨hFrom, hTo⟩ | ⟨hFrom, hTo⟩
      · refine hMember _ ?_
        rcases hLasts with hKept | hClosing
        · exact Or.inl (hKept.trans (hRead.trans hSame))
        · exact Or.inr hClosing
      · rw [hTo, ← hSame, ← hRead, hFrom]
        simp [TcpState.next]
      · rw [hTo, ← hSame, ← hRead, hFrom]
        simp [TcpState.next]
    · exact hMember _ hBefore
  · exact hMember _ hBefore

theorem next_socketListen (ev : EpollEvents) (hState : c.tcp.state = .listen) :
    (socketListen K ev c).tcp.state ∈ c.tcp.state.next proxied .event := by
  have hOpen : ∀ d : Cell, d.tcp.state = .listen → (writeRst K d).tcp.state = .closing := fun d hd => by
    rw [writeRst_state, hd]
    rfl
  rw [hState]
  unfold socketListen
  dsimp only
  split_ifs with hIn hWhole
  · unfold listenReceived
    split
    · rw [hOpen (recvFrom K c 12).1 hState]
      simp [TcpState.next]
    · split_ifs
      · simp [TcpState.next]
      · rw [hOpen (recvFrom K c 12).1 hState]
        simp [TcpState.next]
      · show c.tcp.state ∈ _
        rw [hState]
        simp [TcpState.next]
  · simp [TcpState.next]
  · rcases Lasts.writeOrClose (K := K) c.countSyn [] true false with hSame | hClosing
    · rw [writeSynAck, hSame, Cell.countSyn_tcp]
      simp [TcpState.next, hState]
    · rw [writeSynAck, hClosing]
      simp [TcpState.next]

/-- An event needs a socket. -/
theorem next_event (h : Lifecycle c) (ev : EpollEvents) :
    (step c (K, .event ev)).tcp.state ∈ c.tcp.state.next proxied .event := by
  have hUnset := h.set
  by_cases hSocket : 0 ≤ c.socket
  · have hOpen : ¬ (c.tcp.state = .finWait1 ∨ c.tcp.state = .lastAck ∨ c.tcp.state = .close) := fun hState =>
      not_le.mpr (h.socket hState) hSocket
    rw [show step c (K, .event ev) = checkTcpSocket K ev c from if_pos hSocket]
    unfold checkTcpSocket
    split_ifs with hError hListen
    · rw [writeRst_state, touch_tcp]
      dsimp only
      cases hState : c.tcp.state <;> simp_all [TcpState.next]
    · exact next_socketListen ev hListen
    · refine next_socketReady ev ?_
      cases hState : c.tcp.state <;> simp_all
  · rw [show step c (K, .event ev) = c from if_neg hSocket]
    cases hState : c.tcp.state <;> simp_all [TcpState.next]

/-! The monitor and the check. -/

theorem lasts_queueEvents (K : Kernel) (readable : Bool) (c : Cell) : Lasts c (queueEvents K readable c).1 := by
  unfold queueEvents
  split
  · exact .refl c
  · exact Or.inl (by rw [getReceiveBuffer_tcp])

theorem lasts_wantedEvents (K : Kernel) (c : Cell) : Lasts c (wantedEvents K c).1 := by
  unfold wantedEvents
  dsimp only
  split_ifs
  · exact .refl c
  · exact .refl c
  · exact lasts_queueEvents K _ c
  · exact (Lasts.keepAliveProbe K c).trans (lasts_queueEvents K _ _)
  · exact .refl c

theorem lasts_monitor (K : Kernel) (c : Cell) : Lasts c (monitorTcpSession K c).1 := by
  have hWanted := lasts_wantedEvents K c
  unfold monitorTcpSession
  dsimp only
  split_ifs
  · exact hWanted
  · exact Or.inr rfl
  · exact hWanted

/-- A listening session whose mask is the wanted one is left alone. -/
theorem monitor_watching (hPort : c.tcp.dest ≠ 443) (hState : c.tcp.state = .listen)
    (hMask : c.events = { epollout := true, epollerr := true }) :
    (monitorTcpSession K c).1 = c := by
  have hWanted : wantedEvents K c = (c, { epollerr := true, epollout := true }, false) := by
    rw [wantedEvents, if_pos hState, if_neg fun h => hPort h.2]
  unfold monitorTcpSession
  dsimp only
  rw [hWanted, hMask]
  rfl

theorem next_monitor (h : Lifecycle c) (hWatching : Watching c) :
    (step c (K, .monitor)).tcp.state ∈ c.tcp.state.next (decide (c.tcp.dest = 443)) .monitor := by
  have hUnset := h.set
  by_cases hSocket : 0 ≤ c.socket
  · have hOpen : ¬ (c.tcp.state = .finWait1 ∨ c.tcp.state = .lastAck ∨ c.tcp.state = .close) := fun hState =>
      not_le.mpr (h.socket hState) hSocket
    rw [show step c (K, .monitor) = (monitorTcpSession K c).1 from if_pos hSocket]
    by_cases hQuiet : c.tcp.dest ≠ 443 ∧ c.tcp.state = .listen
    · rw [monitor_watching hQuiet.1 hQuiet.2 (hWatching hQuiet.1 hQuiet.2), hQuiet.2, decide_eq_false hQuiet.1]
      simp [TcpState.next]
    · have hPort : c.tcp.state = .listen → c.tcp.dest = 443 := fun hListen => by
        by_contra hOther
        exact hQuiet ⟨hOther, hListen⟩
      rcases lasts_monitor K c with hSame | hSame
      · rw [hSame]
        cases hState : c.tcp.state <;> simp_all [TcpState.next]
      · rw [hSame]
        cases hState : c.tcp.state <;> simp_all [TcpState.next]
  · rw [show step c (K, .monitor) = c from if_neg hSocket]
    cases hState : c.tcp.state <;> simp_all [TcpState.next]
    all_goals split_ifs <;> simp

/-- A check closes what is closing, also where it finds the session idle. -/
theorem next_check (hSet : c.tcp.state ≠ .unset) (sessions maxsessions : Int) :
    (step c (K, .check sessions maxsessions)).tcp.state ∈ c.tcp.state.next proxied .check := by
  have hTimeout : ∀ timeout now, ∀ d : Cell, Lasts d (checkTimeout K timeout now d) := by
    intro timeout now d
    unfold checkTimeout
    split_ifs with hIdle hListen
    · exact Or.inr rfl
    · exact .writeRst hIdle.2.1
    · exact .refl d
  have hFirst := hTimeout (getTcpTimeout c.tcp sessions maxsessions) (K.time c.calls)
    (c.call (.time (K.time c.calls)))
  show (dropCounts (checkClosing K (checkTimeout K (getTcpTimeout c.tcp sessions maxsessions) (K.time c.calls)
    (c.call (.time (K.time c.calls)))))).tcp.state ∈ _
  rw [dropCounts_state, checkClosing_state]
  rcases hFirst with hSame | hSame
  · rw [hSame, Cell.call_tcp]
    cases hState : c.tcp.state <;> simp_all [TcpState.next]
  · rw [hSame, if_pos rfl]
    cases hState : c.tcp.state <;> simp_all [TcpState.next]

/-- Where the loop starts again, every session that is not closed is closing. -/
theorem next_allowed (hSet : c.tcp.state ≠ .unset) :
    (step c (K, .allowed)).tcp.state ∈ c.tcp.state.next proxied .allowed := by
  show (checkAllowed K c).tcp.state ∈ _
  unfold checkAllowed
  split_ifs with hOpen
  · rw [writeRst_state, if_neg hOpen.2]
    cases hState : c.tcp.state <;> simp_all [TcpState.next]
  · cases hState : c.tcp.state <;> simp_all [TcpState.next]

/-! All inputs, and runs. -/

theorem next_step (h : Lifecycle c) (hWatching : Watching c) (input : Kernel × Input) :
    (step c input).tcp.state ∈ c.tcp.state.next (decide (c.tcp.dest = 443)) input.2.kind := by
  obtain ⟨K, i⟩ := input
  cases i with
  | segment hdr data => exact next_existingSession h hdr data
  | event ev => exact next_event h ev
  | monitor => exact next_monitor h hWatching
  | check sessions maxsessions => exact next_check h.set sessions maxsessions
  | allowed => exact next_allowed h.set

/-- Only a listening session goes on listening, outside port 443. -/
theorem listen_of_next {state : TcpState} {kind : InputKind} (h : TcpState.listen ∈ state.next false kind) :
    state = .listen := by
  cases state <;> cases kind <;> simp_all [TcpState.next]

theorem Watching.step (h : Watching c) (hLife : Lifecycle c) (input : Kernel × Input) :
    Watching (step c input) := by
  obtain ⟨K, i⟩ := input
  intro hPort hListen
  rw [step_dest] at hPort
  have hNext := next_step hLife h (K, i)
  rw [hListen, decide_eq_false hPort] at hNext
  have hState := listen_of_next hNext
  by_cases hMonitor : i = .monitor
  · subst hMonitor
    by_cases hSocket : 0 ≤ c.socket
    · rw [show Tun2Http.step c (K, .monitor) = (monitorTcpSession K c).1 from if_pos hSocket,
        monitor_watching hPort hState (h hPort hState)]
      exact h hPort hState
    · rw [show Tun2Http.step c (K, .monitor) = c from if_neg hSocket]
      exact h hPort hState
  · rw [(step_asks c K hMonitor).1]
    exact h hPort hState

theorem Reachable.watching (h : Reachable c) : Watching c := by
  obtain ⟨K, info, hdr, data, start, inputs, hNew, rfl⟩ := h
  have hStart : Watching start := fun _ _ => by
    unfold newSession at hNew
    dsimp only at hNew
    split_ifs at hNew
    cases hNew
    rw [getReceiveWindow_fst]
    rcases getReceiveBuffer_cases K _ with hBuffer | hBuffer
    · rw [hBuffer]
    · rw [hBuffer]
      rfl
  exact (run_invariant_always (I := fun d => Lifecycle d ∧ Watching d) inputs
    ⟨lifecycle_newSession hNew, hStart⟩ fun d i hd => ⟨hd.1.step i, hd.2.step hd.1 i⟩).2

end

/-! Each edge is taken by some run. -/

/-- The session of a SYN to port 443, or to port 22. -/
def diagramCell (proxied : Bool) : Cell := clientCell (if proxied then 443 else 22) .empty

/-- A segment of its client. -/
def diagramSegment (proxied : Bool) (offset : Nat) : TcpHdr :=
  clientSegment (if proxied then 443 else 22) offset 1001

/-- A kernel that reads `bytes`. -/
def Kernel.reading (bytes : List UInt8) : Kernel := { Kernel.willing with recv := fun _ => .data bytes }

/-- The handshake, on port 443 with the CONNECT request and its reply. -/
def openedRun (proxied : Bool) : List (Kernel × Input) :=
  if proxied then
    [(.willing, .event { epollout := true }), (.willing, .segment (diagramSegment true 0) .empty),
      (.reading (ascii ['H', 'T', 'T', 'P', '/', '1', '.', '0', ' ', '2', '0', '0']), .event { epollin := true }),
      (.willing, .segment (diagramSegment true 1) .empty)]
  else [(.willing, .event { epollout := true }), (.willing, .segment (diagramSegment false 1) .empty)]

/-- A FIN that acknowledges nothing. -/
def finInput (proxied : Bool) : Kernel × Input :=
  (.willing, .segment { diagramSegment proxied 1 with fin := true, ack := false } .empty)

/-- A run to `state`, from where an input of the kind leads to `next`. -/
def runTo (proxied : Bool) (kind : InputKind) (next : TcpState) : TcpState → List (Kernel × Input)
  | .unset => []
  | .listen =>
      if kind = .monitor ∧ next = .closing then [(.willing, .segment (diagramSegment proxied 0) .empty)] else []
  | .synRecv =>
      if kind = .segment ∧ next ≠ .listen then (openedRun proxied).dropLast
      else [(.willing, .event { epollout := true })]
  | .established => openedRun proxied
  | .closeWait => openedRun proxied ++ [finInput proxied]
  | .finWait1 => openedRun proxied ++ [(.reading [], .event { epollin := true })]
  | .lastAck => openedRun proxied ++ [finInput proxied, (.reading [], .event { epollin := true })]
  | .closing => [(.willing, .event { epollerr := true })]
  | .close => [(.willing, .event { epollerr := true }), (.willing, .check 0 1)]

/-- That input. -/
def edgeInput (proxied : Bool) (state next : TcpState) : InputKind → Kernel × Input
  | .segment =>
      if next = state then (.willing, .segment { diagramSegment proxied 1 with urg := true } .empty)
      else match next with
        | .closing => ({ Kernel.willing with send := fun _ => .error eagain },
            .segment { diagramSegment proxied 1 with rst := true } .empty)
        | .listen => (.willing, .segment (diagramSegment proxied 0) .empty)
        | .established => (.willing, .segment (diagramSegment proxied 1) .empty)
        | _ => finInput proxied
  | .event =>
      if next = state then (.reading [0], .event { epollin := true })
      else match next with
        | .closing => (.willing, .event { epollerr := true })
        | .synRecv => (.willing, .event {})
        | _ => (.reading [], .event { epollin := true })
  | .monitor =>
      (if next = .closing then { Kernel.willing with epollCtl := fun _ => false } else .willing, .monitor)
  | .check => (if next = state then .willing else { Kernel.willing with time := fun _ => 10000 }, .check 0 1)
  | .allowed => (.willing, .allowed)

theorem edge_taken (proxied : Bool) (state : TcpState) (kind : InputKind) :
    ∀ next ∈ state.next proxied kind,
      let c := run step (diagramCell proxied) (runTo proxied kind next state)
      c.tcp.dest = (if proxied then 443 else 22) ∧ c.tcp.state = state ∧
        (edgeInput proxied state next kind).2.kind = kind ∧
        (step c (edgeInput proxied state next kind)).tcp.state = next := by
  cases proxied <;> cases state <;> cases kind <;> decide

/-- An input of a kind leads a reachable session from one state to another exactly along
the edges of the diagram. -/
theorem transitions_exact (proxied : Bool) (kind : InputKind) (state next : TcpState) :
    (∃ c input, Reachable c ∧ decide (c.tcp.dest = 443) = proxied ∧ input.2.kind = kind ∧
      c.tcp.state = state ∧ (step c input).tcp.state = next) ↔ next ∈ state.next proxied kind := by
  constructor
  · rintro ⟨c, input, hReachable, rfl, rfl, rfl, rfl⟩
    exact next_step hReachable.lifecycle hReachable.watching input
  · intro hNext
    obtain ⟨hPort, hState, hKind, hStep⟩ := edge_taken proxied state kind next hNext
    refine ⟨_, _, reachable_client _ .empty _, ?_, hKind, hState, hStep⟩
    rw [← diagramCell, hPort]
    cases proxied <;> rfl

end Tun2Http
