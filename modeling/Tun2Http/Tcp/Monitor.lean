import Tun2Http.Tcp.Lifecycle

/-! What `monitor_tcp_session` watches, against what a session for port 443
waits for. -/
namespace Tun2Http

open Machine

/-- The pass asks for a recheck, or watches for the proxy's reply while it is
outstanding and for room to send while the tunnel has data that is due. -/
def Awake (K : Kernel) (c : Cell) : Prop :=
  (monitorTcpSession K c).2 = true ∨
    ((c.tcp.connectSent = .sent → (monitorTcpSession K c).1.events.epollin = true) ∧
      (c.tcp.connectSent = .established ∧ headReady c.tcp →
        (monitorTcpSession K c).1.events.epollout = true))

instance (K : Kernel) (c : Cell) : Decidable (Awake K c) := inferInstanceAs (Decidable (_ ∨ _))

/-- In `TCP_SYN_RECV` only errors are watched, and the session waits for more. -/
def Stalled (c : Cell) : Prop :=
  c.tcp.state = .synRecv ∧
    (c.tcp.connectSent = .sent ∨ (c.tcp.connectSent = .established ∧ headReady c.tcp))

variable {K : Kernel} {c : Cell}

/-- After the pass the mask of the session is the wanted one. -/
theorem monitorTcpSession_events (K : Kernel) (c : Cell) :
    (monitorTcpSession K c).1.events = (wantedEvents K c).2.1 := by
  unfold monitorTcpSession
  dsimp only
  split_ifs with hEvents hOk
  · rfl
  · rfl
  · exact (not_not.mp hEvents).symm

theorem monitorTcpSession_recheck (K : Kernel) (c : Cell) :
    (monitorTcpSession K c).2 = (wantedEvents K c).2.2 := rfl

/-- In an open state, what is not watched is rechecked. -/
theorem queueEvents_awake (readable : Bool) (c : Cell) :
    (queueEvents K readable c).2.2 = true ∨
      ((queueEvents K readable c).2.1.epollin = true ∧
        (headReady c.tcp → (queueEvents K readable c).2.1.epollout = true)) := by
  unfold queueEvents headReady
  cases c.tcp.forward with
  | nil => cases readable <;> simp
  | cons seg rest =>
      dsimp only
      generalize decide (seg.seq + BitVec.ofNat 32 seg.sent = c.tcp.remoteSeq ∧
        BitVec.ofNat 32 seg.unsent < BitVec.ofInt 32 (getReceiveBuffer K c).2) = writable
      cases readable <;> cases writable <;> simp

theorem awake_of_open (hState : c.tcp.state = .established ∨ c.tcp.state = .closeWait) :
    Awake K c := by
  have hListen : c.tcp.state ≠ .listen := by rcases hState with h | h <;> rw [h] <;> decide
  have hWanted : wantedEvents K c = queueEvents K (decide (0 < getSendWindow c.tcp))
      (if decide (0 < getSendWindow c.tcp) then c else keepAliveProbe K c) := by
    rw [wantedEvents, if_neg hListen, if_pos hState]
  unfold Awake
  rw [monitorTcpSession_events, monitorTcpSession_recheck, hWanted]
  cases hReadable : decide (0 < getSendWindow c.tcp) with
  | true =>
      rcases queueEvents_awake (K := K) true c with hRecheck | ⟨hIn, hOut⟩
      · exact Or.inl hRecheck
      · exact Or.inr ⟨fun _ => hIn, fun hReady => hOut hReady.2⟩
  | false =>
      apply Or.inl
      unfold queueEvents
      split <;> simp

theorem awake_of_listen (hState : c.tcp.state = .listen) (hPort : c.tcp.dest = 443) :
    Awake K c := by
  unfold Awake
  rw [monitorTcpSession_events, wantedEvents, if_pos hState]
  cases hSent : c.tcp.connectSent <;> simp [hPort]

/-- Before the client's acknowledgement nothing but errors is watched. -/
theorem awake_synRecv_iff (hState : c.tcp.state = .synRecv) : Awake K c ↔ ¬ Stalled c := by
  unfold Awake Stalled
  rw [monitorTcpSession_events, monitorTcpSession_recheck, wantedEvents]
  simp [hState]

/-- A reachable session for port 443 with an open socket is woken up exactly
where it does not wait in `TCP_SYN_RECV`. -/
theorem awake_iff (hReachable : Reachable c) (hPort : c.tcp.dest = 443) (hSocket : 0 ≤ c.socket)
    (hClosing : c.tcp.state ≠ .closing) (hClose : c.tcp.state ≠ .close) :
    Awake K c ↔ ¬ Stalled c := by
  have hLife := hReachable.lifecycle
  have hAwake : c.tcp.state ≠ .synRecv → Awake K c → (Awake K c ↔ ¬ Stalled c) :=
    fun hState hAwake => iff_of_true hAwake fun hStalled => hState hStalled.1
  cases hState : c.tcp.state with
  | unset => exact absurd hState hLife.set
  | established => exact hAwake (by simp [hState]) (awake_of_open (Or.inl hState))
  | synRecv => exact awake_synRecv_iff hState
  | finWait1 => exact absurd hSocket (not_le.mpr (hLife.socket (Or.inl hState)))
  | close => exact absurd hState hClose
  | closeWait => exact hAwake (by simp [hState]) (awake_of_open (Or.inr hState))
  | lastAck => exact absurd hSocket (not_le.mpr (hLife.socket (Or.inr (Or.inl hState))))
  | listen => exact hAwake (by simp [hState]) (awake_of_listen hState hPort)
  | closing => exact absurd hState hClosing

/-- The handshake, the CONNECT request, the answer of the proxy and the client's next packet. -/
def proxiedRun : List (Kernel × Input) :=
  [(.willing, .event { epollout := true }), (.willing, .segment (clientSegment 443 1 1001) .empty),
    ({ Kernel.willing with
        recv := fun _ => .data (ascii ['H', 'T', 'T', 'P', '/', '1', '.', '0', ' ', '2', '0', '0']) },
      .event { epollin := true }),
    (.willing, .segment (clientSegment 443 1 1001) .empty)]

/-- A session whose CONNECT request is sent, and the same when the tunnel is open. -/
theorem awake_iff_proxied :
    let asked := run step (clientCell 443 .empty) (proxiedRun.take 2)
    let opened := run step (clientCell 443 .empty) proxiedRun
    asked.tcp.connectSent = .sent ∧ opened.tcp.state = .established ∧ Awake .willing asked ∧
      Awake .willing opened := by
  intro asked opened
  have hAsked : asked.tcp.state = .listen ∧ 0 ≤ asked.socket := by decide
  have hOpened : opened.tcp.state = .established ∧ 0 ≤ opened.socket := by decide
  refine ⟨by decide, hOpened.1, ?_, ?_⟩
  · refine (awake_iff (reachable_client 443 .empty _) (by decide) hAsked.2 ?_ ?_).mpr fun hStalled => ?_
    · exact fun hState => TcpState.noConfusion (hAsked.1.symm.trans hState)
    · exact fun hState => TcpState.noConfusion (hAsked.1.symm.trans hState)
    · exact TcpState.noConfusion (hAsked.1.symm.trans hStalled.1)
  · refine (awake_iff (reachable_client 443 .empty _) (by decide) hOpened.2 ?_ ?_).mpr fun hStalled => ?_
    · exact fun hState => TcpState.noConfusion (hOpened.1.symm.trans hState)
    · exact fun hState => TcpState.noConfusion (hOpened.1.symm.trans hState)
    · exact TcpState.noConfusion (hOpened.1.symm.trans hStalled.1)

/-- In one batch a retransmitted SYN sends the CONNECT request and the pending
writable event then answers the SYN: the reply is not watched for. -/
theorem stalled_reply : ∃ inputs,
    let c := run step (clientCell 443 .empty) inputs
    c.tcp.dest = 443 ∧ 0 ≤ c.socket ∧ c.tcp.state ≠ .closing ∧ c.tcp.state ≠ .close ∧
      ¬ Awake .willing c :=
  ⟨[(.willing, .segment (clientSyn 443) .empty), (.willing, .event { epollout := true })],
    by decide⟩

end Tun2Http
