import Tun2Http.Tcp.Lifecycle
import Tun2Http.Tcp.Retransmission

/-! A session that is closing or closed says nothing more, but for the resets
that answer its client. The forward and acknowledge part of `check_tcp_socket`
does not look at the state, so a pending event can still make it speak. -/
namespace Tun2Http

open Machine

/-- The entry writes something else than a reset to the tun, or sends client
data on the socket. -/
def Io.isVoice : Io → Bool
  | .tun packet _ => !packet.rst
  | .send _ _ => true
  | _ => false

/-- How often the session spoke. -/
def voice (log : List Io) : Nat := log.countP Io.isVoice

@[simp] theorem voice_cons (entry : Io) (log : List Io) :
    voice (entry :: log) = voice log + if entry.isVoice then 1 else 0 := List.countP_cons ..

/-- From the moment a session is closing or closed it does not speak. -/
def DeadSilent (start : Cell) (inputs : List (Kernel × Input)) : Prop :=
  ∀ first second third, inputs = first ++ second ++ third → Closed (run step start first) →
    voice (run step start (first ++ second)).log = voice (run step start first).log

/-- The head of the queue is due and fits in the socket's buffer. -/
def HeadDue (K : Kernel) (c : Cell) : Prop :=
  match c.tcp.forward with
  | [] => False
  | seg :: _ => canForward c seg (BitVec.ofInt 32 (getReceiveBuffer K c).2)

/-- The receive window was closed, and the buffer of the socket opens it. -/
def WindowOpens (K : Kernel) (ev : EpollEvents) (c : Cell) : Prop :=
  c.tcp.recvWindow = 0 ∧
    0 < (getReceiveWindow K (if ev.epollout then (getReceiveBuffer K c).1 else c)).2

/-- An event without an error, on an open socket, that finds data to send or
the window to open. -/
def Speaks (c : Cell) (input : Kernel × Input) : Prop :=
  ∃ ev, input.2 = .event ev ∧ ev.epollerr = false ∧ 0 ≤ c.socket ∧
    ((ev.epollout = true ∧ HeadDue input.1 c) ∨ WindowOpens input.1 ev c)

variable {K : Kernel} {c d : Cell}

theorem voice_quiet (hQuiet : Quiet c d) : voice d.log = voice c.log :=
  hQuiet.log_eq voice fun entry log hEntry => by cases entry <;> simp_all [Io.quiet, Io.isVoice]

theorem voice_writeRst (K : Kernel) (c : Cell) : voice (writeRst K c).log = voice c.log := by
  by_cases hState : c.tcp.state = .listen
  · simp [writeRst_of_listen K c hState, Io.isVoice, buildTcp]
  · rw [writeRst_of_ne_listen K c hState]
    split_ifs <;> simp [Io.isVoice, buildTcp]

/-- The CONNECT phase of a closed session resets it again, revives it, or does nothing. -/
theorem voice_connectPhase (data : Payload) (c : Cell) :
    voice (connectPhase K data c).log = voice c.log ∧
      ((connectPhase K data c).tcp.connectSent = .established →
        (connectPhase K data c).tcp.state = c.tcp.state) := by
  rcases connectPhase_cases (K := K) data c with ⟨-, hQuiet⟩ | hFailed | hConnected
  · exact ⟨voice_quiet hQuiet.toQuiet, fun _ => hQuiet.state⟩
  · obtain ⟨d, hQuiet, hSent, -, hEq⟩ := hFailed
    rw [hEq]
    refine ⟨(voice_writeRst K d).trans (voice_quiet hQuiet.toQuiet), fun hTunnel => ?_⟩
    rw [(writeRst_tcp d).2.2.1, hQuiet.connectSent, hSent] at hTunnel
    cases hTunnel
  · obtain ⟨d, count, hQuiet, -, -, -, hEq⟩ := hConnected
    have hVoice := voice_quiet hQuiet.toQuiet
    rw [hEq]
    exact ⟨hVoice, fun hTunnel => by cases hTunnel⟩

/-- Outside the handshake's states the flags of a segment lead at most to a reset. -/
theorem voice_handleFlags (hdr : TcpHdr)
    (hState : c.tcp.state ≠ .established ∧ c.tcp.state ≠ .finWait1) :
    voice (handleFlags K hdr c).log = voice c.log := by
  have hFin : handleFin K c = c := by
    unfold handleFin
    split
    · exact absurd ‹_› hState.1
    · exact absurd ‹_› hState.2
    · rfl
  have hAck : (handleAck hdr.ackSeq c).log = c.log := by
    unfold handleAck
    dsimp only
    split <;> rfl
  have hOther : voice (handleOtherAck K hdr.ackSeq c).log = voice c.log :=
    handleOtherAck_keeps (P := fun d => voice d.log = voice c.log) rfl (by simp [Io.isVoice])
      (fun _ => rfl) (voice_writeRst K c)
  apply handleFlags_keeps (P := fun d => voice d.log = voice c.log) rfl rfl
  · rw [hFin]
  · exact fun _ _ => congrArg voice hAck
  · exact hOther

theorem voice_handleSegment (hdr : TcpHdr) (data : Payload)
    (hState : c.tcp.state ≠ .established ∧ c.tcp.state ≠ .finWait1) :
    voice (handleSegment K hdr data c).log = voice c.log := by
  have hRefresh : voice (refresh K hdr c).log = voice c.log :=
    voice_quiet (silent_refresh hdr c).toQuiet
  have hQueued : (queueTcp hdr data (refresh K hdr c)).tcp.state = c.tcp.state :=
    queueTcp_state ..
  unfold handleSegment
  dsimp only
  split_ifs
  · rw [voice_writeRst, hRefresh]
  · rw [voice_writeRst, hRefresh]
  · rw [voice_handleFlags hdr (by rwa [hQueued]), queueTcp_log, hRefresh]
  · rw [voice_handleFlags (c := refresh K hdr c) hdr hState, hRefresh]

/-- A segment is queued or answered by a reset. -/
theorem voice_segment (hState : c.tcp.state = .listen ∨ Closed c) (hdr : TcpHdr) (data : Payload) :
    voice (existingSession K c.tcp.dest hdr data c).log = voice c.log := by
  unfold existingSession
  by_cases hUrg : hdr.urg = true
  · rw [if_pos hUrg]
  rw [if_neg hUrg]
  set d := if c.tcp.dest = 443 then connectPhase K data c else c with hD
  obtain ⟨hVoice, hSame⟩ : voice d.log = voice c.log ∧
      (¬ (c.tcp.dest = 443 ∧ d.tcp.connectSent ≠ .established) → d.tcp.state = c.tcp.state) := by
    rw [hD]
    split_ifs with hPort
    · obtain ⟨hVoice, hState⟩ := voice_connectPhase (K := K) data c
      exact ⟨hVoice, fun hTunnel => hState (by_contra fun h => hTunnel ⟨hPort, h⟩)⟩
    · exact ⟨rfl, fun _ => rfl⟩
  unfold tunnelSegment
  split_ifs with hTunnel hDown
  · rw [queueTcp_log, hVoice]
  · rw [voice_writeRst, hVoice]
  · rw [voice_handleSegment hdr data, hVoice]
    rw [hSame hTunnel]
    rcases hState with hListen | hClosing | hClose <;> simp [*]

theorem voice_monitor (hClosed : Closed c) : voice (monitorTcpSession K c).1.log = voice c.log := by
  have hWanted : wantedEvents K c = (c, { epollerr := true }, false) := by
    rcases hClosed with hState | hState <;> simp [wantedEvents, hState]
  unfold monitorTcpSession
  rw [hWanted]
  dsimp only
  split_ifs <;> simp [Io.isVoice]

theorem voice_check (sessions maxsessions : Int) (c : Cell) :
    voice (checkTcpSession K sessions maxsessions c).1.log = voice c.log := by
  have hTimeout : ∀ timeout now, ∀ d : Cell,
      voice (checkTimeout K timeout now d).log = voice d.log := by
    intro timeout now d
    unfold checkTimeout
    split_ifs
    · rfl
    · exact voice_writeRst K d
    · rfl
  have hClosing : ∀ d : Cell, voice (checkClosing K d).log = voice d.log := by
    intro d
    unfold checkClosing
    split_ifs <;> simp [closeSocket, Io.isVoice]
  have hDrop : ∀ d : Cell, (dropCounts d).log = d.log := by
    intro d
    unfold dropCounts
    split_ifs <;> rfl
  unfold checkTcpSession
  dsimp only
  rw [hDrop, hClosing, hTimeout]
  simp [Io.isVoice]

/-- The forward loop only speaks. -/
theorem voice_forwardLoop_le (queue : List Segment) (bufferSize : U32) (fwd : Bool) (c : Cell) :
    voice c.log ≤ voice (forwardLoop K queue bufferSize fwd c).1.log := by
  refine forwardLoop_keeps (P := fun d => voice c.log ≤ voice d.log) ?_ queue bufferSize fwd le_rfl
  intro seg queue d h
  apply h.trans
  simp [sentOn]

/-- With a head that is due the loop sends. -/
theorem voice_forwardData (hDue : HeadDue K c) :
    voice c.log < voice (forwardData K c).1.log := by
  unfold HeadDue at hDue
  have hBuffer := voice_quiet (silent_getReceiveBuffer K c).toQuiet
  cases hQueue : c.tcp.forward with
  | nil => rw [hQueue] at hDue; exact hDue.elim
  | cons seg rest =>
      rw [hQueue] at hDue
      unfold forwardData
      dsimp only
      rw [getReceiveBuffer_tcp, hQueue, forwardLoop,
        if_pos (by simpa only [canForward, getReceiveBuffer_tcp] using hDue), forwardTurn_eq]
      by_cases hAll : counted K seg (getReceiveBuffer K c).1 = seg.unsent
      · simp only [hAll, if_true]
        refine lt_of_lt_of_le ?_ (voice_forwardLoop_le rest _ _
          ((sentOn K seg (getReceiveBuffer K c).1).setForward rest))
        simp [sentOn, Io.isVoice, hBuffer]
      · simp only [hAll, if_false]
        simp [sentOn, Io.isVoice, hBuffer]

/-- Otherwise it only looks at the buffer. -/
theorem forwardData_of_not_due (hDue : ¬ HeadDue K c) :
    forwardData K c = ((getReceiveBuffer K c).1, false) := by
  unfold HeadDue at hDue
  unfold forwardData
  dsimp only
  rw [getReceiveBuffer_tcp]
  cases hQueue : c.tcp.forward with
  | nil => rfl
  | cons seg rest =>
      rw [hQueue] at hDue
      rw [forwardLoop, if_neg (by simpa only [canForward, getReceiveBuffer_tcp] using hDue)]

/-- The acknowledgement is a segment without RST. -/
theorem voice_acknowledge (fwd : Bool) (c : Cell) :
    voice (acknowledge K fwd c).log = voice c.log + 1 := by
  unfold acknowledge
  simp only [writeAck, writeOrClose_eq]
  split_ifs <;> simp [Io.isVoice, buildTcp]

theorem acknowledge_state (hState : c.tcp.state = .closing) (fwd : Bool) :
    (acknowledge K fwd c).tcp.state = .closing := by
  unfold acknowledge
  simp only [writeAck, writeOrClose_eq, hState, reduceCtorEq, and_false, if_false]
  split_ifs <;> simp [afterWrite_tcp, hState]

theorem forwardLoop_state (queue : List Segment) (bufferSize : U32) (fwd : Bool) (c : Cell) :
    (forwardLoop K queue bufferSize fwd c).1.tcp.state = c.tcp.state :=
  forwardLoop_keeps (P := fun d => d.tcp.state = c.tcp.state) (fun _ _ _ h => h) queue bufferSize fwd
    rfl

theorem forwardData_state (K : Kernel) (c : Cell) : (forwardData K c).1.tcp.state = c.tcp.state :=
  (forwardLoop_state _ _ _ _).trans (by rw [getReceiveBuffer_tcp])

/-- A closing session looks at the queue, at the window, and acknowledges. -/
theorem voice_socketReady (hState : c.tcp.state = .closing) (ev : EpollEvents) :
    let forwarded := if ev.epollout then forwardData K c else (c, false)
    let window := getReceiveWindow K forwarded.1
    voice (socketReady K ev c).log = voice forwarded.1.log +
      if forwarded.2 ∨ (forwarded.1.tcp.recvWindow = 0 ∧ 0 < window.2) then 1 else 0 := by
  intro forwarded window
  have hForwarded : forwarded.1.tcp.state = .closing := by
    by_cases hWrite : ev.epollout = true
    · simp only [forwarded, hWrite, if_true]
      exact (forwardData_state K c).trans hState
    · simp only [forwarded, hWrite, Bool.false_eq_true, if_false, hState]
  have hBuffer := voice_quiet (silent_getReceiveBuffer K forwarded.1).toQuiet
  have hTcp : window.1.tcp = forwarded.1.tcp := getReceiveBuffer_tcp K forwarded.1
  let d : Cell := { window.1 with tcp := { window.1.tcp with recvWindow := window.2 } }
  let e := if forwarded.2 ∨ (window.1.tcp.recvWindow = 0 ∧ 0 < window.2) then
    acknowledge K forwarded.2 d else d
  have hReady : socketReady K ev c =
      if e.tcp.state = .established ∨ e.tcp.state = .closeWait then socketRead K ev e else e := rfl
  have hLooked : voice d.log = voice forwarded.1.log := hBuffer
  have hClosing : d.tcp.state = .closing := by simp only [d, hTcp, hForwarded]
  rw [hReady]
  simp only [e, hTcp]
  by_cases hSpeaks : forwarded.2 = true ∨ forwarded.1.tcp.recvWindow = 0 ∧ 0 < window.2
  · simp only [if_pos hSpeaks]
    rw [acknowledge_state hClosing, if_neg (by decide), voice_acknowledge, hLooked]
  · simp only [if_neg hSpeaks]
    rw [hClosing, if_neg (by decide), hLooked, Nat.add_zero]

/-- An event of a closing session without an error speaks exactly where it
finds data to send or the window to open. -/
theorem voice_socketReady_iff (hState : c.tcp.state = .closing) (ev : EpollEvents) :
    voice (socketReady K ev c).log = voice c.log ↔
      ¬ ((ev.epollout = true ∧ HeadDue K c) ∨ WindowOpens K ev c) := by
  rw [voice_socketReady hState]
  by_cases hDue : ev.epollout = true ∧ HeadDue K c
  · refine iff_of_false (fun hSame => ?_) fun h => h (Or.inl hDue)
    have hMore := voice_forwardData hDue.2
    rw [if_pos hDue.1] at hSame
    omega
  · rw [or_iff_right hDue]
    unfold WindowOpens
    set d := if ev.epollout then (getReceiveBuffer K c).1 else c with hD
    have hLooked : (if ev.epollout then forwardData K c else (c, false)) = (d, false) := by
      rw [hD]
      split_ifs with hWrite
      · exact forwardData_of_not_due fun h => hDue ⟨hWrite, h⟩
      · rfl
    have hSame : voice d.log = voice c.log ∧ d.tcp = c.tcp := by
      rw [hD]
      split_ifs
      · exact ⟨voice_quiet (silent_getReceiveBuffer K c).toQuiet, getReceiveBuffer_tcp K c⟩
      · exact ⟨rfl, rfl⟩
    rw [hLooked]
    dsimp only
    rw [hSame.1, hSame.2]
    by_cases hOpens : c.tcp.recvWindow = 0 ∧ 0 < (getReceiveWindow K d).2
    · rw [if_pos (Or.inr hOpens)]
      exact iff_of_false (Nat.succ_ne_self _) fun h => h hOpens
    · rw [if_neg (by simpa using hOpens)]
      exact iff_of_true rfl hOpens

/-- In one step a closing or closed session speaks exactly where a pending
event lets it. -/
theorem mute_step_iff (hLife : Lifecycle c) (hClosed : Closed c) (input : Kernel × Input) :
    voice (step c input).log = voice c.log ↔ ¬ Speaks c input := by
  obtain ⟨K, i⟩ := input
  cases i with
  | segment hdr data =>
      refine iff_of_true (voice_segment (Or.inr hClosed) hdr data) fun h => ?_
      obtain ⟨ev, hInput, -⟩ := h
      cases hInput
  | monitor =>
      refine iff_of_true ?_ fun h => ?_
      · unfold step
        dsimp only
        split_ifs
        · exact voice_monitor hClosed
        · rfl
      · obtain ⟨ev, hInput, -⟩ := h
        cases hInput
  | check sessions maxsessions =>
      refine iff_of_true (voice_check sessions maxsessions c) fun h => ?_
      obtain ⟨ev, hInput, -⟩ := h
      cases hInput
  | allowed =>
      refine iff_of_true (checkAllowed_keeps (P := fun d => voice d.log = voice c.log) rfl (voice_writeRst K c))
        fun h => ?_
      obtain ⟨ev, hInput, -⟩ := h
      cases hInput
  | event ev =>
      have hSpeaks : Speaks c (K, .event ev) ↔ ev.epollerr = false ∧ 0 ≤ c.socket ∧
          ((ev.epollout = true ∧ HeadDue K c) ∨ WindowOpens K ev c) := by
        constructor
        · rintro ⟨other, hInput, h⟩
          cases hInput
          exact h
        · exact fun h => ⟨ev, rfl, h⟩
      rw [hSpeaks]
      unfold step
      dsimp only
      by_cases hSocket : 0 ≤ c.socket
      · have hState : c.tcp.state = .closing :=
          hClosed.resolve_right (hLife.not_close (Or.inr hSocket))
        rw [if_pos hSocket, checkTcpSocket]
        by_cases hError : ev.epollerr = true
        · rw [if_pos hError, voice_writeRst, voice_quiet (silent_touch K c).toQuiet]
          exact iff_of_true rfl fun h => by simp [hError] at h
        · rw [if_neg hError, if_neg (by simp [hState]), voice_socketReady_iff hState]
          simp [hError, hSocket]
      · rw [if_neg hSocket]
        exact iff_of_true rfl fun h => hSocket h.2.1

/-- A step that revives nothing and lets nothing speak. -/
def KeepsSilent (c : Cell) (input : Kernel × Input) : Prop :=
  Closed c → ¬ Revives c input ∧ ¬ Speaks c input

/-- While pending events find nothing to do, and no CONNECT revives it, a dead
session is silent. -/
theorem dead_silent {info : SynInfo} {hdr : TcpHdr} {data : Payload} {start : Cell}
    (hNew : newSession K info hdr data = some start) (inputs : List (Kernel × Input))
    (hRun : Along step KeepsSilent start inputs) : DeadSilent start inputs := by
  intro first second third hSplit hClosed
  subst hSplit
  rw [along_append, along_append] at hRun
  have hLife : Lifecycle (run step start first) :=
    run_invariant_always first (lifecycle_newSession hNew) fun c i hc => hc.step i
  rw [run_append]
  have hEnd := run_invariant
    (I := fun c => Lifecycle c ∧ Closed c ∧ voice c.log = voice (run step start first).log)
    ⟨hLife, hClosed, rfl⟩ hRun.1.2 fun c input hc hOk => ?_
  · exact hEnd.2.2
  · obtain ⟨hLifeC, hClosedC, hVoice⟩ := hc
    have hRank := (closed_step_iff hLifeC input).mpr (hOk hClosedC).1
    refine ⟨hLifeC.step input, ((TcpState.closed_le_iff _ _).mp hRank).1 hClosedC, ?_⟩
    rw [(mute_step_iff hLifeC hClosedC input).mpr (hOk hClosedC).2, hVoice]

/-- Data is queued, the client resets, and the pending event reports room to send. -/
def resetRun : List (Kernel × Input) :=
  uploadRun ++ [(.willing, .monitor),
    (.willing, .segment { clientSegment 22 3 1001 with rst := true } .empty)]

/-- Up to the reset the session was not closed, and a keep alive answers nothing after it. -/
theorem dead_silent_reset : DeadSilent (clientCell 22 .empty)
    (resetRun ++ [(.willing, .segment (clientSegment 22 3 1001) .empty)]) := by
  apply dead_silent (newSession_client 22 .empty)
  refine ⟨fun h => absurd h (by decide), fun h => absurd h (by decide), fun h => absurd h (by decide),
    fun h => absurd h (by decide), fun h => absurd h (by decide), fun _ => ⟨fun h => ?_, fun h => ?_⟩,
    trivial⟩
  · exact absurd h.2.2.1 (by decide)
  · obtain ⟨ev, hInput, -⟩ := h
    cases hInput

/-- The event forwards the queued data and acknowledges it. -/
theorem dead_speaks : ∃ inputs, ¬ DeadSilent (clientCell 22 .empty) inputs := by
  refine ⟨resetRun ++ [(.willing, .event { epollout := true })], fun h => ?_⟩
  have hSame := h resetRun [_] [] (List.append_nil _).symm (by decide)
  revert hSame
  decide

end Tun2Http
